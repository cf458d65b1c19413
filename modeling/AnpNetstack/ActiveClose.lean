import AnpNetstack.WholeSegments
import AnpNetstack.SendPart

/-! The answer of the peer to our FIN, in one segment and in two. FIN_WAIT_2 is left only
inside the call of tcp_rx that enters it: as a resting state it drops every segment,
although the FIN processing further down has a branch for it. -/
namespace AnpNetstack

structure AwaitsAnswer (c : Conn) : Prop where
  state : c.tcb.state = .finWait1
  rest : c.rx = []
  unlocked : c.tcbLock = false

structure Answers (c : Conn) (fin : Bool) (pkt : Packet) : Prop where
  accepted : accepted c.tcb pkt = true
  text : segmentLen pkt = 0
  ack : hasFlag pkt.tcp.hdr.flags tcpAck = true
  fin_eq : hasFlag pkt.tcp.hdr.flags tcpFin = fin
  seqNum : pkt.tcp.hdr.seqNum = c.tcb.rcvNxt
  ackNum : pkt.tcp.hdr.ackNum = c.tcb.sndNxt

structure PeerClosed (c d : Conn) : Prop where
  state : d.tcb.state = .timeWait
  rcvNxt : d.tcb.rcvNxt = c.tcb.rcvNxt + 1
  acked : ∃ x, d.sent = c.sent ++ [x] ∧ x.seg.hdr.flags = tcpAck ∧
    x.seg.hdr.ackNum = c.tcb.rcvNxt + 1 ∧ x.seg.data = []
  scheduled : d.scheduled = c.scheduled + 1

def ClosesAlike (c : Conn) (ack finAck : Packet) : Prop :=
  PeerClosed c (tcpRx c finAck) ∧ PeerClosed c (tcpRx (tcpRx c ack) finAck)

theorem AwaitsAnswer.switch {c : Conn} (h : AwaitsAnswer c) {fin : Bool} {pkt : Packet}
    (hp : Answers c fin pkt) : tcpRxSwitch c pkt = ackFinWait1 c pkt := by
  simp only [tcpRxSwitch, hp.accepted, h.unlocked, h.state, hp.ack, Bool.not_true, Bool.or_false,
    Bool.false_eq_true, if_false, if_true]

theorem AwaitsAnswer.ack {c : Conn} (h : AwaitsAnswer c) {pkt : Packet} (hp : Answers c false pkt) :
    tcpRx c pkt = { c with tcb := { c.tcb with
      state := .finWait2 }, rx := [], tcbLock := false } := by
  have hs : ¬ ((ackFinWait1 c pkt).tcb.state = .closed ∨
      (ackFinWait1 c pkt).tcb.state = .synSent) := by
    simp [ackFinWait1]
  rw [tcpRx, h.switch hp, rxStep_iterate_plain rfl hp.text hs hp.fin_eq]
  rfl

theorem tcpRx_finWait2 {c : Conn} (hs : c.tcb.state = .finWait2) (hx : c.rx = []) (pkt : Packet) :
    tcpRx c pkt = c := by
  refine tcpRx_dropped hx ?_
  unfold tcpRxSwitch
  split_ifs
  · rfl
  · simp only [hs]

theorem AwaitsAnswer.finAck {c : Conn} (h : AwaitsAnswer c) {pkt : Packet}
    (hp : Answers c true pkt) :
    PeerClosed c (tcpRx c pkt) := by
  have hs : ¬ ((ackFinWait1 c pkt).tcb.state = .closed ∨
      (ackFinWait1 c pkt).tcb.state = .synSent) := by
    simp [ackFinWait1]
  have hw : (ackFinWait1 c pkt).tcb.state = .finWait1 ∨ (ackFinWait1 c pkt).tcb.state = .finWait2 :=
    Or.inr rfl
  rw [tcpRx, h.switch hp, rxStep_iterate_textFree rfl hp.text]
  simp only [rxFin, hs, hp.fin_eq, hw, if_false, if_true]
  rw [rxStep_iterate_last rfl, tcpTxEmpty_eq _ _ (by decide), txSegment_eq]
  exact ⟨rfl, rfl, ⟨_, rfl, rfl, rfl, rfl⟩, rfl⟩

theorem close_in_two_segments (c : Conn) (ack finAck : Packet) (h : AwaitsAnswer c)
    (hack : Answers c false ack) (hfin : Answers c true finAck) :
    PeerClosed c (tcpRx c finAck) ∧ (tcpRx (tcpRx c ack) finAck).tcb.state = .finWait2 ∧
      ¬ ClosesAlike c ack finAck := by
  have htwo : (tcpRx (tcpRx c ack) finAck).tcb.state = .finWait2 := by
    rw [h.ack hack, tcpRx_finWait2 rfl rfl]
  refine ⟨h.finAck hfin, htwo, ?_⟩
  intro halike
  have hclosed := halike.2.state
  rw [htwo] at hclosed
  simp at hclosed

def sampleFinWait : Conn := Runs.run step (sampleOpen 1000 1000) [.close, .closeFin]

theorem sampleFinWait_awaits : AwaitsAnswer sampleFinWait :=
  ⟨by decide +kernel, by decide +kernel, by decide +kernel⟩

theorem sampleFinWait_ack : Answers sampleFinWait false (samplePeer 5001 1002 tcpAck 1000 []) :=
  ⟨by decide +kernel, by decide +kernel, by decide +kernel, by decide +kernel, by decide +kernel,
    by decide +kernel⟩

theorem sampleFinWait_finAck :
    Answers sampleFinWait true (samplePeer 5001 1002 tcpFinAck 1000 []) :=
  ⟨by decide +kernel, by decide +kernel, by decide +kernel, by decide +kernel, by decide +kernel,
    by decide +kernel⟩

theorem close_in_two_segments_sample :
    (tcpRx (tcpRx sampleFinWait (samplePeer 5001 1002 tcpAck 1000 []))
      (samplePeer 5001 1002 tcpFinAck 1000 [])).tcb.state = .finWait2 :=
  (close_in_two_segments sampleFinWait _ _ sampleFinWait_awaits sampleFinWait_ack
    sampleFinWait_finAck).2.1

theorem close_stuck_in_finWait2 :
    AwaitsAnswer sampleFinWait ∧
      Answers sampleFinWait false (samplePeer 5001 1002 tcpAck 1000 []) ∧
      Answers sampleFinWait true (samplePeer 5001 1002 tcpFinAck 1000 []) ∧
      ¬ ClosesAlike sampleFinWait (samplePeer 5001 1002 tcpAck 1000 [])
        (samplePeer 5001 1002 tcpFinAck 1000 []) := by
  refine ⟨sampleFinWait_awaits, sampleFinWait_ack, sampleFinWait_finAck, ?_⟩
  intro halike
  exact absurd halike.2.state (by decide +kernel)

end AnpNetstack
