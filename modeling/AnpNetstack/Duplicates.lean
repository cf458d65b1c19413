import AnpNetstack.ReceiveStream
import AnpNetstack.RecvPart
import AnpNetstack.WholeSegments

/-! A segment with text that does not start at rcv_nxt, as a retransmission of text that is
stored already: tcp_rx takes its acknowledgement and drops the rest, without an answer. -/
namespace AnpNetstack
open Runs

def AtOrBefore (x y : UInt32) : Prop := (y - x).toNat < 2 ^ 31

instance (x y : UInt32) : Decidable (AtOrBefore x y) := inferInstanceAs (Decidable (_ < _))

theorem seqNum_ne_of_received {pkt : Packet} {text : List UInt8} {nxt : UInt32}
    (hc : Carries pkt text) (ht : text ≠ [])
    (h : AtOrBefore (pkt.tcp.hdr.seqNum + UInt32.ofNat text.length) nxt) :
    pkt.tcp.hdr.seqNum ≠ nxt := by
  intro he
  have hlen := hc.len
  have hlt := pkt.ip.len.toNat_lt
  have hpos := List.length_pos_iff.mpr ht
  have hn := nxt.toNat_lt
  have hofNat : (UInt32.ofNat text.length).toNat = text.length := by
    rw [UInt32.toNat_ofNat']
    omega
  rw [AtOrBefore, he, UInt32.toNat_sub, UInt32.toNat_add, hofNat] at h
  omega

section OutOfOrder
variable {c : Conn} {pkt : Packet}

/-- In ESTABLISHED such a segment leaves what the switch has made of the block. -/
theorem tcpRx_outOfOrder (hs : c.tcb.state = .established) (hl : c.tcbLock = false)
    (ha : accepted c.tcb pkt = true) (hf : hasFlag pkt.tcp.hdr.flags tcpAck = true)
    (hlen : segmentLen pkt ≠ 0) (hseq : pkt.tcp.hdr.seqNum ≠ c.tcb.rcvNxt) :
    tcpRx c pkt = { ackEstablished c pkt with rx := [], tcbLock := false } := by
  have hsw : tcpRxSwitch c pkt = ackEstablished c pkt := by
    simp [tcpRxSwitch, ha, hl, hs, hf]
  have hnxt : (ackEstablished c pkt).tcb.rcvNxt = c.tcb.rcvNxt :=
    congrArg RecvSide.rcvNxt (recvSide_ackEstablished c pkt)
  have h1 : rxStep (ackEstablished c pkt) =
      { ackEstablished c pkt with rx := [], tcbLock := false } := by
    rw [rxStep_text rfl, rxText, if_neg hlen, if_pos (hnxt ▸ hseq)]
  rw [tcpRx, hsw, Function.iterate_succ_apply, h1]
  exact Function.iterate_fixed (rxStep_nil rfl) 6

/-- The switch puts nothing into the queue: it only drops and cuts entries. -/
theorem ackEstablished_queue (c : Conn) (pkt : Packet) :
    ∀ entry ∈ (ackEstablished c pkt).messagesArray,
      ∃ old ∈ c.messagesArray, old.tcpPtr = entry.tcpPtr := by
  intro entry he
  simp only [ackEstablished] at he
  split_ifs at he
  · obtain ⟨old, hold, hstop⟩ := List.mem_filterMap.mp he
    refine ⟨old, hold, ?_⟩
    unfold stopEntry at hstop
    grind
  · exact ⟨entry, he, rfl⟩

end OutOfOrder

theorem duplicate_dropped {c : Conn} (hx : c.rx = []) (hs : c.tcb.state = .established)
    {pkt : Packet} {text : List UInt8} (ha : accepted c.tcb pkt = true)
    (hf : hasFlag pkt.tcp.hdr.flags tcpAck = true) (hp : Carries pkt text) (ht : text ≠ [])
    (hold : AtOrBefore (pkt.tcp.hdr.seqNum + UInt32.ofNat text.length) c.tcb.rcvNxt) :
    let c' := tcpRx c pkt
    c'.tcb.rcvBuff = c.tcb.rcvBuff ∧ c'.tcb.rcvBuffLen = c.tcb.rcvBuffLen ∧
      c'.tcb.rcvNxt = c.tcb.rcvNxt ∧ c'.tcb.state = .established ∧ c'.rx = [] ∧
      c'.tcbLock = c.tcbLock ∧ c'.sent = c.sent ∧
      ∀ entry ∈ c'.messagesArray, ∃ old ∈ c.messagesArray, old.tcpPtr = entry.tcpPtr := by
  intro c'
  by_cases hl : c.tcbLock = true
  · have hc' : c' = c := tcpRx_dropped hx (by simp [tcpRxSwitch, hl])
    rw [hc']
    exact ⟨rfl, rfl, rfl, hs, hx, rfl, rfl, fun entry he => ⟨entry, he, rfl⟩⟩
  · have hlock : c.tcbLock = false := Bool.not_eq_true _ ▸ hl
    have hlen : segmentLen pkt ≠ 0 := by
      intro hz
      have hn := hp.segmentLen_toNat
      rw [hz] at hn
      exact ht (List.length_eq_zero_iff.mp hn.symm)
    have hc' : c' = { ackEstablished c pkt with rx := [], tcbLock := false } :=
      tcpRx_outOfOrder hs hlock ha hf hlen (seqNum_ne_of_received hp ht hold)
    have hr := recvSide_ackEstablished c pkt
    rw [hc']
    refine ⟨?_, congrArg RecvSide.rcvBuffLen hr, congrArg RecvSide.rcvNxt hr, ?_, rfl,
      hlock.symm, rfl, ackEstablished_queue c pkt⟩
    · exact takeAck_frame Tcb.rcvBuff (fun _ _ => rfl) c.tcb pkt.tcp.hdr
    · exact (takeAck_state c.tcb pkt.tcp.hdr).trans hs

def threeReceived : List Event :=
  let pkt := samplePeer 5001 1001 tcpAck 1000 [7, 8, 9]
  [.segment pkt, .rxStep, .rxStep, .rxStep, .rxStep]

theorem duplicate_dropped_sample :
    let c := run step (sampleOpen 1000 1000) threeReceived
    let pkt := samplePeer 5001 1001 tcpAck 1000 [7, 8, 9]
    c.tcb.rcvNxt = 5004 ∧ (tcpRx c pkt).tcb.rcvNxt = c.tcb.rcvNxt ∧
      (tcpRx c pkt).sent = c.sent := by
  intro c pkt
  have hcarries : Carries pkt [7, 8, 9] :=
    ⟨by decide +kernel, by decide +kernel, by decide +kernel, by decide +kernel⟩
  have hx : c.rx = [] := by decide +kernel
  have hold := duplicate_dropped hx (by decide +kernel) (by decide +kernel) (by decide) hcarries
    (by decide) (by decide +kernel)
  exact ⟨by decide +kernel, hold.2.2.1, hold.2.2.2.2.2.2.1⟩

/-- The retransmission is not acknowledged: its sender has one ACK, and no second one. -/
theorem duplicate_not_acked :
    let c := run step (sampleOpen 1000 1000) threeReceived
    let pkt := samplePeer 5001 1001 tcpAck 1000 [7, 8, 9]
    c.tcb.state = .established ∧ c.rx = [] ∧ c.tcbLock = false ∧ accepted c.tcb pkt = true ∧
      hasFlag pkt.tcp.hdr.flags tcpAck = true ∧ AtOrBefore (5001 + 3) c.tcb.rcvNxt ∧
      c.sent.length = 3 ∧ (tcpRx c pkt).sent.length = 3 := by
  decide +kernel

end AnpNetstack
