import AnpNetstack.SendTiling
import AnpNetstack.SequenceShift

/-! An acknowledgement that the network delivers twice. The guard on snd_una keeps old
acknowledgements out of the send sequence and of messages_array; nothing keeps an old
window out of snd_wnd, or an old acknowledgement from ending FIN_WAIT_1. -/
namespace AnpNetstack
open Runs

structure SendView where
  state : TcpState
  sndUna : UInt32
  sndWnd : UInt32
  sndNxt : UInt32
  rcvNxt : UInt32
  entries : List TcpMessage

def Conn.sendView (c : Conn) : SendView where
  state := c.tcb.state
  sndUna := c.tcb.sndUna
  sndWnd := c.tcb.sndWnd
  sndNxt := c.tcb.sndNxt
  rcvNxt := c.tcb.rcvNxt
  entries := c.messagesArray.filter (fun m => m.tcb = c.self)

@[simp] theorem sendView_state (c : Conn) : c.sendView.state = c.tcb.state := rfl

@[simp] theorem sendView_sndWnd (c : Conn) : c.sendView.sndWnd = c.tcb.sndWnd := rfl

def Tcb.ends (tcb : Tcb) : UInt16 × UInt16 × UInt32 × UInt32 :=
  (tcb.localPort, tcb.remotePort, tcb.localIp, tcb.remoteIp)

theorem accepted_of_ends {tcb tcb' : Tcb} (h : tcb'.ends = tcb.ends) (pkt : Packet) :
    accepted tcb' pkt = accepted tcb pkt := by
  obtain ⟨hlp, hrp, hli, hri⟩ : tcb'.localPort = tcb.localPort ∧ tcb'.remotePort = tcb.remotePort ∧
      tcb'.localIp = tcb.localIp ∧ tcb'.remoteIp = tcb.remoteIp := by
    simpa only [Tcb.ends, Prod.mk.injEq] using h
  simp only [accepted, getTcbMatch, hlp, hrp, hli, hri]

section Frame
variable {α : Type*} (f : Tcb → α)
  (hf : ∀ (tcb : Tcb) state buff len rcv nxt, f { tcb with
    state := state, rcvBuff := buff, rcvBuffLen := len, rcvNxt := rcv, sndNxt := nxt } = f tcb)
include hf

theorem tcpTxEmpty_tcb_frame (c : Conn) (flags : UInt8) (retries : Int) :
    f (tcpTxEmpty c flags retries).tcb = f c.tcb := by
  cases tcpTxEmpty_cases c flags retries with
  | inl he => rw [he]
  | inr he =>
    rw [he, txSegment_tcb]
    exact hf c.tcb _ _ _ _ _

theorem sendRound_tcb_frame (c : Conn) (i : Nat) (alloc : Bool) :
    f (sendRound c i alloc).tcb = f c.tcb := by
  by_cases hrun : ∃ call, c.calls[i]? = some call ∧ call.result = none
  · obtain ⟨call, hi, hr⟩ := hrun
    by_cases hok : retriesValid call.retries = true ∧ call.dataSent ≤ call.dataSize
    · rw [sendRound_round alloc hi hr hok.1 hok.2]
      simp only [txSegment_tcb]
      exact hf c.tcb _ _ _ _ _
    · obtain ⟨r, ht⟩ := tcpTxSection_fails alloc c (some i) hok
      simp only [sendRound, hi, hr, Option.isSome_none, Bool.false_eq_true, if_false, ht]
  · rw [sendRound_idle alloc (fun call hi hr => hrun ⟨call, hi, hr⟩)]

theorem rxStep_tcb_frame (c : Conn) : f (rxStep c).tcb = f c.tcb := by
  cases hx : c.rx with
  | nil => rw [rxStep_nil hx]
  | cons a rest =>
    cases a with
    | tx flags retries =>
      rw [rxStep_tx hx]
      exact tcpTxEmpty_tcb_frame f hf { c with rx := rest } flags retries
    | text pkt =>
      rw [rxStep_text hx]
      have hstep := rxText_step c pkt rest
      generalize rxText c pkt rest = c' at hstep ⊢
      cases hstep with
      | none hz => rfl
      | outOfOrder hz hseq => rfl
      | stored hz hseq => exact hf c.tcb _ _ _ _ _
    | fin pkt =>
      rw [rxStep_fin hx]
      have hstep := rxFin_step c pkt
      generalize rxFin c pkt = c' at hstep ⊢
      cases hstep with
      | dropped hs => rfl
      | taken hfl hw => exact hf c.tcb _ _ _ _ _
      | ignored hfl hw => exact hf c.tcb _ _ _ _ _
      | noFin hfl => rfl
    | unlock => rw [rxStep_unlock hx]
    | timer => rw [rxStep_timer hx]

/-- Only the switch of tcp_rx touches what does not depend on the state, rcv_buff,
rcv_nxt and snd_nxt. -/
theorem step_frame (c : Conn) {e : Event} (he : ∀ pkt, e ≠ .segment pkt) :
    f (step c e).tcb = f c.tcb := by
  cases e with
  | connect =>
    simp only [step, connect]
    split_ifs
    · rw [← tcpTxEmpty_tcb_frame f hf c tcpSyn retriesConnMax]
      exact hf (tcpTxEmpty c tcpSyn retriesConnMax).tcb _ _ _ _ _
    · rfl
  | send buf =>
    simp only [step, send]
    split_ifs <;> rfl
  | sendRound i alloc => exact sendRound_tcb_frame f hf c i alloc
  | recv len => exact readBytes_frame (fun c => f c.tcb) (fun c _ _ _ => hf c.tcb _ _ _ _ _) c len
  | segment pkt => exact absurd rfl (he pkt)
  | rxStep => exact rxStep_tcb_frame f hf c
  | retransmit => rfl
  | close =>
    simp only [step, close]
    split_ifs
    · rfl
    · exact hf c.tcb _ _ _ _ _
    · rfl
  | closeFin =>
    simp only [step, closeFin]
    split_ifs
    · exact tcpTxEmpty_tcb_frame f hf c tcpFinAck retriesSendonce
    · rfl
  | closeTimer =>
    simp only [step, closeConnection]
    split_ifs
    · rfl
    · exact hf c.tcb _ _ _ _ _

end Frame

/-- The switch, seen as an event. -/
theorem segment_cases (c : Conn) (pkt : Packet) :
    step c (.segment pkt) = c ∨ ∃ c', step c (.segment pkt) = c' ∧ Taken c pkt c' := by
  simp only [step]
  split_ifs
  · cases tcpRxSwitch_cases c pkt with
    | inl he => exact Or.inl he
    | inr ht =>
      obtain ⟨c', he, -, -, ht⟩ := ht
      exact Or.inr ⟨c', he, ht⟩
  · exact Or.inl rfl

theorem ends_step (c : Conn) (e : Event) : (step c e).tcb.ends = c.tcb.ends := by
  by_cases he : ∃ pkt, e = .segment pkt
  · obtain ⟨pkt, rfl⟩ := he
    cases segment_cases c pkt with
    | inl he => rw [he]
    | inr ht =>
      obtain ⟨c', he, ht⟩ := ht
      rw [he]
      cases ht with
      | establish hs hf hu => rfl
      | cross hs hf hu => rfl
      | confirm hs hf ha => rfl
      | ack hs hf => exact takeAck_frame Tcb.ends (fun _ _ => rfl) c.tcb pkt.tcp.hdr
      | finWait hs hf => rfl
  · exact step_frame Tcb.ends (fun _ _ _ _ _ _ => rfl) c (fun pkt h => he ⟨pkt, h⟩)

theorem ends_run (c : Conn) (es : List Event) : (run step c es).tcb.ends = c.tcb.ends := by
  induction es generalizing c with
  | nil => rfl
  | cons e es ih => exact (ih (step c e)).trans (ends_step c e)

/-- Once the handshake is over snd_una only grows, in plain unsigned order. -/
theorem sndUna_step {c : Conn} (h : Open c.control) (e : Event) :
    c.tcb.sndUna ≤ (step c e).tcb.sndUna := by
  by_cases he : ∃ pkt, e = .segment pkt
  · obtain ⟨pkt, rfl⟩ := he
    cases segment_cases c pkt with
    | inl he =>
      rw [he]
      exact UInt32.le_refl _
    | inr ht =>
      obtain ⟨c', he, ht⟩ := ht
      rw [he]
      cases ht with
      | establish hs hf hu => exact absurd hs h.state.1
      | cross hs hf hu => exact absurd hs h.state.1
      | confirm hs hf ha => exact UInt32.le_refl _
      | ack hs hf =>
        rw [ackEstablished_sndUna]
        split_ifs with ha
        · simp only [ackAdvances, Bool.and_eq_true, decide_eq_true_eq] at ha
          exact UInt32.le_of_lt ha.1
        · exact UInt32.le_refl _
      | finWait hs hf => exact UInt32.le_refl _
  · exact UInt32.le_of_eq
      (step_frame Tcb.sndUna (fun _ _ _ _ _ _ => rfl) c (fun pkt h => he ⟨pkt, h⟩)).symm

theorem sndUna_run {c : Conn} (h : Open c.control) (es : List Event) :
    c.tcb.sndUna ≤ (run step c es).tcb.sndUna := by
  induction es generalizing c with
  | nil => exact UInt32.le_refl _
  | cons e es ih => exact UInt32.le_trans (sndUna_step h e) (ih (open_step h e))

structure Replay where
  conn : Conn
  pkt : Packet
  meanwhile : List Event
  reach : Reachable conn
  ack : hasFlag pkt.tcp.hdr.flags tcpAck = true
  noFin : hasFlag pkt.tcp.hdr.flags tcpFin = false
  noText : segmentLen pkt = 0
  meant : accepted conn.tcb pkt = true
  known : pkt.tcp.hdr.ackNum ≤ conn.tcb.sndNxt
  first : conn.rx = [] ∧ conn.tcbLock = false
  opened : (run step (step conn (.segment pkt)) meanwhile).tcb.state ∉ [TcpState.synSent,
    .synReceived]
  second : (run step (step conn (.segment pkt)) meanwhile).rx = [] ∧
    (run step (step conn (.segment pkt)) meanwhile).tcbLock = false

namespace Replay
variable (s : Replay)

def later : Conn := run step (step s.conn (.segment s.pkt)) s.meanwhile

def again : Conn := tcpRx s.later s.pkt

def Harmless : Prop :=
  s.later.tcb.state ≠ .finWait1 ∧ (s.later.tcb.state = .established →
    s.pkt.tcp.hdr.windowSize.toUInt32 = s.later.tcb.sndWnd ∧
      ackAdvances s.later.tcb s.pkt.tcp.hdr = false)

theorem meant_later : accepted s.later.tcb s.pkt = true := by
  have hends : s.later.tcb.ends = s.conn.tcb.ends :=
    (ends_run _ s.meanwhile).trans (ends_step s.conn (.segment s.pkt))
  rw [accepted_of_ends hends, s.meant]

theorem second_later : s.later.rx = [] ∧ s.later.tcbLock = false := s.second

/-- In ESTABLISHED the duplicate is processed to the end like any acknowledgement. -/
theorem again_established (hs : s.later.tcb.state = .established) :
    s.again = { ackEstablished s.later s.pkt with rx := [], tcbLock := false } := by
  have hsw : tcpRxSwitch s.later s.pkt = ackEstablished s.later s.pkt := by
    simp only [tcpRxSwitch, s.meant_later, s.second_later.2, hs, s.ack, Bool.not_true,
      Bool.or_false, Bool.false_eq_true, if_false, if_true]
  have hst : ¬ ((ackEstablished s.later s.pkt).tcb.state = .closed ∨
      (ackEstablished s.later s.pkt).tcb.state = .synSent) := by
    simp [ackEstablished, takeAck_state, hs]
  rw [again, tcpRx, hsw, rxStep_iterate_plain rfl s.noText hst s.noFin]

/-- In FIN_WAIT_1 any acknowledgement ends the state. -/
theorem again_finWait1 (hs : s.later.tcb.state = .finWait1) :
    s.again = { s.later with
      tcb := { s.later.tcb with state := .finWait2 }, rx := [], tcbLock := false } := by
  have hsw : tcpRxSwitch s.later s.pkt = ackFinWait1 s.later s.pkt := by
    simp only [tcpRxSwitch, s.meant_later, s.second_later.2, hs, s.ack, Bool.not_true,
      Bool.or_false, Bool.false_eq_true, if_false, if_true]
  have hst : ¬ ((ackFinWait1 s.later s.pkt).tcb.state = .closed ∨
      (ackFinWait1 s.later s.pkt).tcb.state = .synSent) := by
    simp [ackFinWait1]
  rw [again, tcpRx, hsw, rxStep_iterate_plain rfl s.noText hst s.noFin]
  rfl

theorem again_dropped (h1 : s.later.tcb.state ≠ .finWait1) (he : s.later.tcb.state ≠ .established) :
    s.again = s.later := by
  have hopen : s.later.tcb.state ∉ [TcpState.synSent, .synReceived] := s.opened
  refine tcpRx_dropped s.second_later.1 ?_
  unfold tcpRxSwitch
  split_ifs
  · rfl
  · generalize s.later.tcb.state = state at h1 he hopen
    cases state with
    | established => exact absurd rfl he
    | finWait1 => exact absurd rfl h1
    | synSent => simp at hopen
    | synReceived => simp at hopen
    | _ => rfl

theorem ackEstablished_view_iff (c : Conn) (pkt : Packet) :
    ({ ackEstablished c pkt with rx := [], tcbLock := false } : Conn).sendView = c.sendView ↔
      pkt.tcp.hdr.windowSize.toUInt32 = c.tcb.sndWnd ∧ ackAdvances c.tcb pkt.tcp.hdr = false := by
  cases ha : ackAdvances c.tcb pkt.tcp.hdr with
  | true =>
    obtain ⟨htcb, -⟩ := ackEstablished_taken ha
    constructor
    · intro hv
      -- an acknowledgement that is taken moves snd_una
      have huna := congrArg SendView.sndUna hv
      simp only [Conn.sendView, htcb] at huna
      simp only [ackAdvances, huna, Bool.and_eq_true, decide_eq_true_eq] at ha
      exact absurd ha.1 (UInt32.lt_irrefl _)
    · intro h
      exact absurd h.2 (by decide)
  | false =>
    have hno : ¬ ackAdvances c.tcb pkt.tcp.hdr = true := by simp [ha]
    obtain ⟨htcb, hmsgs⟩ := ackEstablished_ignored hno
    have hself : (ackEstablished c pkt).self = c.self := rfl
    simp only [Conn.sendView, htcb, hmsgs, hself, and_true]
    constructor
    · intro hv
      exact congrArg SendView.sndWnd hv
    · intro hw
      rw [hw]

/-- Once an acknowledgement has been processed in ESTABLISHED it is old for ever. -/
theorem old_later (hs : s.conn.tcb.state = .established) :
    ackAdvances s.later.tcb s.pkt.tcp.hdr = false := by
  have ho : Open s.conn.control := s.reach.reached.inv.opened (by simp [Conn.control, hs])
  have hsw : step s.conn (.segment s.pkt) = ackEstablished s.conn s.pkt := by
    simp only [step, s.first.1, List.isEmpty_nil, if_true, tcpRxSwitch, s.meant,
      s.first.2, hs, s.ack, Bool.not_true, Bool.or_false, Bool.false_eq_true, if_false]
  have hpast : s.pkt.tcp.hdr.ackNum ≤ (step s.conn (.segment s.pkt)).tcb.sndUna := by
    rw [hsw, ackEstablished_sndUna]
    split_ifs with ha
    · exact UInt32.le_refl _
    · simp only [ackAdvances, s.known, decide_true, Bool.and_true, decide_eq_true_eq] at ha
      exact UInt32.not_lt.mp ha
  have hlater : s.pkt.tcp.hdr.ackNum ≤ s.later.tcb.sndUna :=
    UInt32.le_trans hpast (sndUna_run (open_step ho _) s.meanwhile)
  simp only [ackAdvances, UInt32.not_lt.mpr hlater, decide_false, Bool.false_and]

theorem unchanged_iff :
    (s.again.sendView = s.later.sendView ↔ s.Harmless) ∧
    (s.conn.tcb.state = .established → ackAdvances s.later.tcb s.pkt.tcp.hdr = false ∧
      { s.again.sendView with state := s.later.tcb.state, sndWnd := s.later.tcb.sndWnd } =
        s.later.sendView) := by
  by_cases he : s.later.tcb.state = .established
  · have hview := ackEstablished_view_iff s.later s.pkt
    rw [← s.again_established he] at hview
    have hne : s.later.tcb.state ≠ .finWait1 := by simp [he]
    refine ⟨?_, ?_⟩
    · rw [hview]
      exact ⟨fun h => ⟨hne, fun _ => h⟩, fun h => h.2 he⟩
    · intro hs
      have hold := s.old_later hs
      have hno : ¬ ackAdvances s.later.tcb s.pkt.tcp.hdr = true := by simp [hold]
      obtain ⟨htcb, hmsgs⟩ := ackEstablished_ignored hno
      refine ⟨hold, ?_⟩
      rw [s.again_established he]
      simp only [Conn.sendView, htcb, hmsgs]
      rfl
  · by_cases h1 : s.later.tcb.state = .finWait1
    · have hend := s.again_finWait1 h1
      refine ⟨⟨?_, fun h => absurd h1 h.1⟩, ?_⟩
      · intro hv
        have hst := congrArg SendView.state hv
        simp [Conn.sendView, hend, h1] at hst
      · intro hs
        refine ⟨s.old_later hs, ?_⟩
        rw [hend]
        rfl
    · have hid := s.again_dropped h1 he
      refine ⟨⟨fun _ => ⟨h1, fun h => absurd h he⟩, fun _ => by rw [hid]⟩, ?_⟩
      intro hs
      refine ⟨s.old_later hs, ?_⟩
      rw [hid]
      rfl

end Replay

def firstAck : Packet := samplePeer 5001 1001 tcpAck 500 []

def oldWindow : Replay where
  conn := sampleOpen 1000 500
  pkt := firstAck
  meanwhile := [.rxStep, .rxStep, .rxStep, .segment (samplePeer 5001 1001 tcpAck 1000 []),
    .rxStep, .rxStep, .rxStep]
  reach := sampleOpen_reachable 1000 500
  ack := by decide
  noFin := by decide
  noText := by decide +kernel
  meant := by decide +kernel
  known := by decide +kernel
  first := by decide +kernel
  opened := by decide +kernel
  second := by decide +kernel

def oldAckOfSyn : Replay where
  conn := sampleOpen 1000 500
  pkt := firstAck
  meanwhile := [.rxStep, .rxStep, .rxStep, .close, .closeFin]
  reach := sampleOpen_reachable 1000 500
  ack := by decide
  noFin := by decide
  noText := by decide +kernel
  meant := by decide +kernel
  known := by decide +kernel
  first := by decide +kernel
  opened := by decide +kernel
  second := by decide +kernel

theorem replay_disturbs :
    (oldWindow.later.tcb.sndWnd = 1000 ∧ oldWindow.again.tcb.sndWnd = 500 ∧
      oldWindow.again.sendView ≠ oldWindow.later.sendView) ∧
    oldAckOfSyn.later.tcb.state = .finWait1 ∧ oldAckOfSyn.again.tcb.state = .finWait2 ∧
      oldAckOfSyn.again.sendView ≠ oldAckOfSyn.later.sendView := by
  have hw : oldWindow.later.tcb.sndWnd = 1000 ∧ oldWindow.again.tcb.sndWnd = 500 := by
    decide +kernel
  have hs : oldAckOfSyn.later.tcb.state = .finWait1 ∧ oldAckOfSyn.again.tcb.state = .finWait2 := by
    decide +kernel
  refine ⟨⟨hw.1, hw.2, ?_⟩, hs.1, hs.2, ?_⟩
  · intro h
    have hwnd := congrArg SendView.sndWnd h
    rw [sendView_sndWnd, sendView_sndWnd, hw.1, hw.2] at hwnd
    exact absurd hwnd (by decide)
  · intro h
    have hst := congrArg SendView.state h
    rw [sendView_state, sendView_state, hs.1, hs.2] at hst
    exact absurd hst (by decide)

end AnpNetstack
