import AnpNetstack.BlockingCalls
import AnpNetstack.SendPart

/-! What is left in messages_array when close has returned 0 and freed the block. Only the
stop_retransmit of close_connection takes entries out for the connection's end, by a snd_una
that nothing has moved since FIN_WAIT_1. -/
namespace AnpNetstack
open Runs

inductive OverStep (c : Conn) : Event → Conn → Prop where
  | same {e : Event} : OverStep c e c
  | sendRound (i : Nat) (alloc : Bool) : OverStep c (.sendRound i alloc) (sendRound c i alloc)
  | recv (len : UInt32) : OverStep c (.recv len) (readBytes c len)
  | retransmit : OverStep c .retransmit (retransmit c)
  | lock : OverStep c .close { c with tcbLock := true }

theorem overStep {c : Conn} (hk : Reached c.control) (hs : c.tcb.state = .closed)
    (hf : c.fresh = false) (e : Event) : OverStep c e (step c e) := by
  have hx : c.rx = [] := hk.inv.over_rx_nil hs hf
  have hid {e : Event} (he : step c e = c) : OverStep c e (step c e) := by
    rw [he]
    exact .same
  cases e with
  | connect => exact hid (by simp [step, connect, hf])
  | send buf => exact hid (by simp [step, send, hs])
  | sendRound i alloc => exact .sendRound i alloc
  | recv len => exact .recv len
  | segment pkt =>
    have hseg : step c (.segment pkt) = tcpRxSwitch c pkt := by simp [step, hx]
    exact hid (hseg.trans (tcpRxSwitch_closed hs pkt))
  | rxStep => exact hid (rxStep_nil hx)
  | retransmit => exact .retransmit
  | close =>
    have hne : c.tcb.state ≠ .established := by simp [hs]
    simp only [step, close, hne, if_false]
    split_ifs
    · exact .same
    · exact .lock
  | closeFin => exact hid (closeFin_idle hk.inv (by simp [hs]))
  | closeTimer => exact hid (closeConnection_idle hk.inv (by simp [hs]))

structure Drained (c : Conn) : Prop where
  queue : ∀ entry ∈ c.messagesArray, entry.tcb ≠ c.self
  calls : ∀ call ∈ c.calls, call.result ≠ none

theorem retransmitEntry_tcb {entry entry' : TcpMessage} (h : retransmitEntry entry = some entry') :
    entry'.tcb = entry.tcb := by
  unfold retransmitEntry at h
  grind

theorem Drained.step {c : Conn} (h : Drained c) (hk : Reached c.control)
    (hs : c.tcb.state = .closed) (hf : c.fresh = false) (e : Event) : Drained (step c e) := by
  have hover := overStep hk hs hf e
  generalize AnpNetstack.step c e = c' at hover
  cases hover with
  | same => exact h
  | sendRound i alloc =>
    rw [sendRound_idle alloc (fun call hi => h.calls call (List.mem_of_getElem? hi))]
    exact h
  | recv len =>
    have hself := readBytes_frame Conn.self (fun _ _ _ _ => rfl) c len
    have hqueue := readBytes_frame Conn.messagesArray (fun _ _ _ _ => rfl) c len
    have hcalls := readBytes_frame Conn.calls (fun _ _ _ _ => rfl) c len
    exact ⟨by rw [hself, hqueue]; exact h.queue, by rw [hcalls]; exact h.calls⟩
  | retransmit =>
    refine ⟨fun entry he => ?_, h.calls⟩
    obtain ⟨old, hold, hentry⟩ := List.mem_filterMap.mp he
    rw [retransmitEntry_tcb hentry]
    exact h.queue old hold
  | lock => exact ⟨h.queue, h.calls⟩

/-- When close_connection runs, all that is queued for the block is acknowledged and every
tcp_tx has returned. -/
def AllAcked (s : Calls) : CallEvent → Prop
  | .block .closeTimer _ => s.conn.closeTimers ≠ 0 → s.conn.tcbLock = false →
      (∀ entry ∈ s.conn.messagesArray, entry.tcb = s.conn.self →
        entry.tcpPtr.hdr.seqNum < s.conn.tcb.sndUna ∧
          entry.tcpPtr.hdr.seqNum + entry.tcpDataLen ≤ s.conn.tcb.sndUna) ∧
      ∀ call ∈ s.conn.calls, call.result ≠ none
  | _ => True

instance (s : Calls) : (e : CallEvent) → Decidable (AllAcked s e)
  | .block .closeTimer _ => inferInstanceAs
    (Decidable (_ → _ → (∀ entry ∈ s.conn.messagesArray, _) ∧
      ∀ call ∈ s.conn.calls, call.result ≠ none))
  | .block .connect _ | .block (.send _) _ | .block (.sendRound _ _) _ | .block (.recv _) _
  | .block (.segment _) _ | .block .rxStep _ | .block .retransmit _ | .block .close _
  | .block .closeFin _ | .connect _ | .recv _ | .spurious _ | .resume _ =>
    inferInstanceAs (Decidable True)

/-- stop_retransmit drops an entry of the block that is wholly acknowledged. -/
theorem stopEntry_acked {self : Nat} {tcb : Tcb} {entry : TcpMessage} (ht : entry.tcb = self)
    (hlt : entry.tcpPtr.hdr.seqNum < tcb.sndUna)
    (hle : entry.tcpPtr.hdr.seqNum + entry.tcpDataLen ≤ tcb.sndUna) :
    stopEntry self tcb entry = none := by
  have hgt : ¬ entry.tcpPtr.hdr.seqNum + entry.tcpDataLen > tcb.sndUna := UInt32.not_lt.mpr hle
  simp only [stopEntry, ht, hlt, hgt, if_true, if_false]

theorem closeConnection_drained {c : Conn} (ht : c.closeTimers ≠ 0) (hl : c.tcbLock = false)
    (hq : ∀ entry ∈ c.messagesArray, entry.tcb = c.self →
      entry.tcpPtr.hdr.seqNum < c.tcb.sndUna ∧
        entry.tcpPtr.hdr.seqNum + entry.tcpDataLen ≤ c.tcb.sndUna)
    (hc : ∀ call ∈ c.calls, call.result ≠ none) : Drained (closeConnection c) := by
  have hrun : ¬ (c.closeTimers = 0 ∨ c.tcbLock = true) := by simp [ht, hl]
  simp only [closeConnection, hrun, if_false]
  refine ⟨fun entry he => ?_, hc⟩
  obtain ⟨old, hold, hentry⟩ := List.mem_filterMap.mp he
  rw [stopEntry_tcb hentry]
  intro hself
  obtain ⟨hlt, hle⟩ := hq old hold hself
  simp [stopEntry_acked hself hlt hle] at hentry

theorem over_back {k k' : Control} {e : Event} (hk : ControlStep k e k') (hs : k'.state = .closed)
    (hf : k'.fresh = false) :
    k.state = .closed ∧ k.fresh = false ∨ e = .closeTimer ∧ k.closeTimers ≠ 0 ∧ k.lock = false := by
  cases hk with
  | closeTimer ht hl => exact Or.inr ⟨rfl, ht, hl⟩
  | _ => simp_all

theorem drained_step {c : Conn} (hk : Reached c.control) (h : Over c → Drained c) {e : Event}
    (hcond : e = .closeTimer → c.closeTimers ≠ 0 → c.tcbLock = false →
      (∀ entry ∈ c.messagesArray, entry.tcb = c.self →
        entry.tcpPtr.hdr.seqNum < c.tcb.sndUna ∧
          entry.tcpPtr.hdr.seqNum + entry.tcpDataLen ≤ c.tcb.sndUna) ∧
      ∀ call ∈ c.calls, call.result ≠ none)
    (hover : Over (step c e)) : Drained (step c e) := by
  have hback : Over c ∨ e = .closeTimer ∧ c.closeTimers ≠ 0 ∧ c.tcbLock = false := by
    cases control_step c e with
    | inl he =>
      exact Or.inl ⟨(congrArg Control.state he).symm.trans hover.1,
        (congrArg Control.fresh he).symm.trans hover.2⟩
    | inr hstep => exact over_back hstep hover.1 hover.2
  obtain ho | ⟨rfl, ht, hl⟩ := hback
  · exact (h ho).step hk ho.1 ho.2 e
  · obtain ⟨hq, hc⟩ := hcond rfl ht hl
    exact closeConnection_drained ht hl hq hc

structure FreedInv (s : Calls) : Prop where
  reached : Reached s.conn.control
  drained : Over s.conn → Drained s.conn
  asleep : ∀ x ∈ s.sleepers, x.call = .close → s.conn.fresh = false
  returned : ∀ r ∈ s.returns, r.call = .close → r.value = 0 → Over s.conn

theorem FreedInv.drained_callStep {s : Calls} (h : FreedInv s) {e : CallEvent}
    (hcond : AllAcked s e) (hover : Over (callStep s e).conn) : Drained (callStep s e).conn := by
  have hread (len : UInt32) (ho : Over (step s.conn (.recv len))) : Drained
      (step s.conn (.recv len)) :=
    drained_step h.reached h.drained (by simp) ho
  have hstep := calls_step s e
  generalize callStep s e = s' at hover hstep
  cases hstep with
  | same => exact h.drained hover
  | block e woken ht =>
    refine drained_step h.reached h.drained (fun he => ?_) hover
    subst he
    exact hcond
  | connect hs hf => exact drained_step h.reached h.drained (e := .connect) (by simp) hover
  | noMemory hs hf => exact h.drained hover
  | sleep len hs hl hb => exact h.drained hover
  | read len hs hl hb => exact hread _ hover
  | spurious i => exact h.drained hover
  | resume i call hi hl =>
    cases call with
    | connect => exact h.drained hover
    | recv len => exact hread _ hover
    | close =>
      simp only [returnFrom] at hover ⊢
      split_ifs at hover ⊢ <;> exact h.drained hover

theorem FreedInv.asleep_callStep {s : Calls} (h : FreedInv s) (e : CallEvent) :
    ∀ x ∈ (callStep s e).sleepers, x.call = .close → (callStep s e).conn.fresh = false := by
  intro x hx hclose
  refine fresh_callStep ?_ e
  obtain ⟨y, hy, hcall⟩ | ⟨hcall, -⟩ | ⟨len, -, hcall, -⟩ | ⟨-, hc⟩ := call_asleep hx
  · exact h.asleep y hy (hcall.trans hclose)
  · simp [hcall] at hclose
  · simp [hcall] at hclose
  · have hs := (h.reached.inv.closing hc).2.1
    exact h.reached.inv.not_fresh (by simp [hs])

theorem FreedInv.returned_callStep {s : Calls} (h : FreedInv s) (e : CallEvent) :
    ∀ r ∈ (callStep s e).returns, r.call = .close → r.value = 0 → Over (callStep s e).conn := by
  intro r hr hclose hzero
  refine Over.callStep ?_ h.reached e
  obtain hr | ⟨hs, i, -, hi⟩ := close_returned hr hclose hzero
  · exact h.returned r hr hclose hzero
  · exact ⟨hs, h.asleep _ (List.mem_of_getElem? hi) rfl⟩

theorem FreedInv.step {s : Calls} (h : FreedInv s) (e : CallEvent) (hcond : AllAcked s e) :
    FreedInv (callStep s e) where
  reached := calls_reached h.reached e
  drained := h.drained_callStep hcond
  asleep := h.asleep_callStep e
  returned := h.returned_callStep e

section FreeTcb
variable {self : Nat} {tcb : Tcb}

theorem stopEntry_none {entry : TcpMessage} (h : stopEntry self tcb entry = none) :
    entry.tcpPtr.hdr.seqNum < tcb.sndUna ∧
      entry.tcpPtr.hdr.seqNum + entry.tcpDataLen ≤ tcb.sndUna := by
  simp only [stopEntry] at h
  split_ifs at h with ht hlt hgt
  exact ⟨hlt, UInt32.not_lt.mp hgt⟩

/-- An entry of the block survives stop_retransmit exactly when it is not wholly acknowledged. -/
theorem stopRetransmit_own_iff (msgs : List TcpMessage) :
    (∀ entry ∈ stopRetransmit self tcb msgs, entry.tcb ≠ self) ↔
      ∀ entry ∈ msgs, entry.tcb = self → entry.tcpPtr.hdr.seqNum < tcb.sndUna ∧
        entry.tcpPtr.hdr.seqNum + entry.tcpDataLen ≤ tcb.sndUna := by
  constructor
  · intro h entry hentry ht
    cases hs : stopEntry self tcb entry with
    | none => exact stopEntry_none hs
    | some entry' =>
      have hmem : entry' ∈ stopRetransmit self tcb msgs :=
        List.mem_filterMap.mpr ⟨entry, hentry, hs⟩
      exact absurd ((stopEntry_tcb hs).trans ht) (h entry' hmem)
  · intro h entry' hentry' ht
    obtain ⟨entry, hentry, hs⟩ := List.mem_filterMap.mp hentry'
    have hown : entry.tcb = self := (stopEntry_tcb hs).symm.trans ht
    obtain ⟨hlt, hle⟩ := h entry hentry hown
    rw [stopEntry_acked hown hlt hle] at hs
    cases hs

/-- free_tcb moves snd_nxt, but stop_retransmit compares with snd_una. -/
theorem freed_block_silenced (self : Nat) (tcb : Tcb) (msgs : List TcpMessage) :
    ((∀ entry ∈ freeTcb self tcb msgs, entry.tcb ≠ self) ∧
        (freeTcb self tcb msgs).filter (fun m => m.tcb ≠ self) =
          msgs.filter (fun m => m.tcb ≠ self)) ↔
      ∀ entry ∈ msgs, entry.tcb = self → entry.tcpPtr.hdr.seqNum < tcb.sndUna ∧
        entry.tcpPtr.hdr.seqNum + entry.tcpDataLen ≤ tcb.sndUna := by
  have hothers := stopRetransmit_others self { tcb with sndNxt := 0xffffffff } msgs
  rw [freeTcb, and_iff_left hothers]
  exact stopRetransmit_own_iff msgs

/-- Three bytes that the peer has not acknowledged stay, to be sent for a block that is gone. -/
theorem freed_block_not_silenced :
    ¬ ∀ (self : Nat) (tcb : Tcb) (msgs : List TcpMessage),
      (∀ entry ∈ freeTcb self tcb msgs, entry.tcb ≠ self) ∧
        (freeTcb self tcb msgs).filter (fun m => m.tcb ≠ self) =
          msgs.filter (fun m => m.tcb ≠ self) := by
  intro h
  let c := run step (sampleOpen 1000 500) [.send [1, 2, 3], .sendRound 0 true]
  have hleft : (freeTcb c.self c.tcb c.messagesArray).any (fun entry => entry.tcb = c.self ∧
      entry.sub.data = [1, 2, 3]) = true := by
    decide +kernel
  obtain ⟨entry, hmem, hentry⟩ := List.any_eq_true.mp hleft
  exact (h c.self c.tcb c.messagesArray).1 entry hmem (of_decide_eq_true hentry).1

end FreeTcb
end AnpNetstack
