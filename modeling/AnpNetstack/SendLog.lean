import AnpNetstack.FinAcked
import AnpNetstack.RetransmitQueue

/-! The record of queued segments over the whole life of a connection: SYNs at our initial sequence
number, and after the handshake text and at last the FIN, each where the one before it ends. -/
namespace AnpNetstack
open Runs

structure Sent.IsSyn (iss : UInt32) (x : Sent) : Prop where
  flags : x.seg.hdr.flags = tcpSyn ∨ x.seg.hdr.flags = tcpSynAck
  seq : x.seg.hdr.seqNum = iss
  text : x.seg.data = []

def Sent.IsPlain (x : Sent) : Prop :=
  x.seg.hdr.flags = tcpAck ∨ x.seg.hdr.flags = tcpFinAck ∧ x.seg.data = []

def SynDue (c : Conn) : Prop := c.fresh = true ∨ RxAct.tx tcpSynAck retriesConnMax ∈ c.rx

def Opening (k : Control) : Prop := k.fresh = true ∨ k.state = .synSent ∨ k.state = .synReceived

inductive LogPhase (iss : UInt32) (c : Conn) : Prop where
  | opening (hs : Opening c.control) (hiss : c.tcb.iss = iss) (hcalls : c.calls = [])
      (hsyn : ∀ x ∈ c.sent, x.IsSyn iss) (hdue : SynDue c → c.tcb.sndNxt = iss)
      (hnxt : ¬ SynDue c → c.tcb.sndNxt = iss + 1)
  | opened (old new : List Sent) (hs : ¬ Opening c.control) (hsent : c.sent = old ++ new)
      (hold : ∀ x ∈ old, x.IsSyn iss) (hnew : ∀ x ∈ new, x.IsPlain)
      (hcalls : ∀ call ∈ c.calls, call.flags = tcpAck)
      (hfin : c.tcb.state = .established → ∀ x ∈ new, x.seg.hdr.flags = tcpAck)
      (h : Sending (iss + 1) new c)

section Opening
variable {iss : UInt32} {c c' : Conn}

theorem Opening.state {k : Control} (h : Opening k) (hk : ControlInv k) :
    k.state = .closed ∨ k.state = .synSent ∨ k.state = .synReceived := by
  obtain hf | hs | hs := h
  · exact Or.inl (hk.fresh hf).1
  · exact Or.inr (Or.inl hs)
  · exact Or.inr (Or.inr hs)

theorem opening_back {k k' : Control} {e : Event} (hk : ControlStep k e k') (hinv : ControlInv k)
    (h : Opening k') : Opening k := by
  unfold Opening at h ⊢
  cases hk with
  | connect hf => exact Or.inl hf
  | cross hx hl hs => exact Or.inr (Or.inl hs)
  | closeTimer ht hl =>
    have hs := (hinv.timer_state ht).1
    have hfresh := hinv.not_fresh (by simp [hs])
    simp [hfresh] at h
  | _ => simp_all

theorem LogPhase.same (h : LogPhase iss c) (hopen : Opening c.control) (hk : Opening c'.control)
    (hiss : c'.tcb.iss = c.tcb.iss) (hcalls : c'.calls = c.calls) (hsent : c'.sent = c.sent)
    (hnxt : c'.tcb.sndNxt = c.tcb.sndNxt) (hdue : SynDue c' ↔ SynDue c) : LogPhase iss c' := by
  cases h with
  | opening _ hiss' hcalls' hsyn' hdue' hnxt' =>
    refine .opening hk (hiss.trans hiss') (hcalls.trans hcalls') ?_ ?_ ?_
    · rw [hsent]
      exact hsyn'
    · intro hd
      rw [hnxt]
      exact hdue' (hdue.mp hd)
    · intro hd
      rw [hnxt]
      exact hnxt' (fun hd' => hd (hdue.mpr hd'))
  | opened old new hs => exact absurd hopen hs

theorem LogPhase.opens (h : LogPhase iss c) (hopen : Opening c.control) (hk : ¬ Opening c'.control)
    (ho : Open c'.control) (hcalls : c'.calls = c.calls) (hsent : c'.sent = c.sent)
    (hnxt : c'.tcb.sndNxt = c.tcb.sndNxt) (hdue : ¬ SynDue c) : LogPhase iss c' := by
  cases h with
  | opening _ hiss' hcalls' hsyn' hdue' hnxt' =>
    have hnone : c'.calls = [] := hcalls.trans hcalls'
    have hstart := starts_sending ho (by simp [hnone])
    have hn : c'.tcb.sndNxt = iss + 1 := hnxt.trans (hnxt' hdue)
    rw [hn] at hstart
    refine .opened c.sent [] hk (by rw [hsent, List.append_nil]) hsyn' (by simp) (by simp [hnone])
      (by simp) hstart
  | opened old new hs => exact absurd hopen hs

theorem LogPhase.syn (h : LogPhase iss c) (hopen : Opening c.control) (hdue : SynDue c)
    {flags : UInt8} (hf : flags = tcpSyn ∨ flags = tcpSynAck) (hk : Opening c'.control)
    (hiss : c'.tcb.iss = c.tcb.iss) (hcalls : c'.calls = c.calls)
    (hsent : c'.sent = c.sent ++ [sentRecord c none [] 0 flags])
    (hnxt : c'.tcb.sndNxt = c.tcb.sndNxt + ctlLen flags) (hdone : ¬ SynDue c') :
    LogPhase iss c' := by
  cases h with
  | opening _ hiss' hcalls' hsyn' hdue' hnxt' =>
    have hseq : c.tcb.sndNxt = iss := hdue' hdue
    have hctl : ctlLen flags = 1 := by
      cases hf with
      | inl hf =>
        rw [hf]
        decide
      | inr hf =>
        rw [hf]
        decide
    refine .opening hk (hiss.trans hiss') (hcalls.trans hcalls') ?_ (fun hd => absurd hd hdone) ?_
    · intro x hx
      rw [hsent] at hx
      cases List.mem_append.mp hx with
      | inl hx => exact hsyn' x hx
      | inr hx =>
        rw [List.mem_singleton.mp hx]
        exact ⟨hf, hseq, rfl⟩
    · intro _
      rw [hnxt, hseq, hctl]
  | opened old new hs => exact absurd hopen hs

theorem not_synDue (hf : c.fresh = false) (hx : c.rx = [] ∨ c.rx = [.unlock]) : ¬ SynDue c := by
  unfold SynDue
  obtain hx | hx := hx <;> simp [hf, hx]

theorem LogPhase.connect (h : LogPhase iss c) (hk : ControlInv c.control) (hf : c.fresh = true) :
    LogPhase iss (AnpNetstack.connect c) := by
  have hopen : Opening c.control := Or.inl hf
  have hx : c.rx = [] := (hk.fresh hf).2.1
  have he : AnpNetstack.connect c = { txSegment true c none [] 0 tcpSyn retriesConnMax with
      tcb := { (txSegment true c none [] 0 tcpSyn retriesConnMax).tcb with state := .synSent }
      fresh := false, tcbLock := false } := by
    have ht : tcpTxEmpty c tcpSyn retriesConnMax =
        txSegment true c none [] 0 tcpSyn retriesConnMax :=
      tcpTxEmpty_eq c tcpSyn (by decide)
    simp only [AnpNetstack.connect, hf, if_true, ht]
  rw [he, txSegment_eq]
  refine h.syn hopen (Or.inl hf) (Or.inl rfl) (Or.inr (Or.inl rfl)) rfl rfl rfl ?_ ?_
  · exact UInt32.add_zero _
  · exact not_synDue rfl (Or.inl hx)

theorem LogPhase.segment (h : LogPhase iss c) (hk : ControlInv c.control)
    (hopen : Opening c.control) (hx : c.rx = []) (pkt : Packet) :
    LogPhase iss (tcpRxSwitch c pkt) := by
  have hstate := hopen.state hk
  cases tcpRxSwitch_cases c pkt with
  | inl he =>
    rw [he]
    exact h
  | inr ht =>
    obtain ⟨c', he, -, -, ht⟩ := ht
    rw [he]
    cases ht with
    | establish hs hf hu =>
      have hfresh : c.fresh = false := hk.not_fresh (by simp [Conn.control, hs])
      have hnot : ¬ Opening (synEstablish c pkt.tcp.hdr).control := by
        simp [Opening, Conn.control, synEstablish, hfresh]
      refine h.opens hopen hnot ⟨?_, hfresh, ?_⟩ rfl rfl rfl (not_synDue hfresh (Or.inl hx))
      · exact ⟨fun hn => hnot (Or.inr (Or.inl hn)), fun hn => hnot (Or.inr (Or.inr hn))⟩
      · simp [Conn.control, synEstablish]
    | cross hs hf hu =>
      -- snd_nxt goes back to iss for the SYN|ACK
      cases h with
      | opening _ hiss hcalls hsyn hdue hnxt =>
        have hdue' : SynDue (synCross c pkt.tcp.hdr) := Or.inr List.mem_cons_self
        exact .opening (Or.inr (Or.inr rfl)) hiss hcalls hsyn (fun _ => hiss)
          (fun hn => absurd hdue' hn)
      | opened old new hs' => exact absurd hopen hs'
    | confirm hs hf ha =>
      have hfresh : c.fresh = false := hk.not_fresh (by simp [Conn.control, hs])
      have hnot : ¬ Opening (synConfirm c pkt).control := by
        simp [Opening, Conn.control, synConfirm, hfresh]
      refine h.opens hopen hnot ⟨?_, hfresh, ?_⟩ rfl rfl rfl (not_synDue hfresh (Or.inl hx))
      · exact ⟨fun hn => hnot (Or.inr (Or.inl hn)), fun hn => hnot (Or.inr (Or.inr hn))⟩
      · simp [Conn.control, synConfirm]
    | ack hs hf => simp [Conn.control, hs] at hstate
    | finWait hs hf => simp [Conn.control, hs] at hstate

theorem RxPhase.opening {s : TcpState} {lock : Bool} {rx : List RxAct} (h : RxPhase s lock rx)
    (hs : s = .closed ∨ s = .synSent ∨ s = .synReceived) :
    rx = [] ∨ rx = [.unlock] ∨ s = .synReceived ∧ rx = [.tx tcpSynAck retriesConnMax, .unlock] := by
  cases h with
  | idle s lock => exact Or.inl rfl
  | unlock s => exact Or.inr (Or.inl rfl)
  | cross => exact Or.inr (Or.inr ⟨rfl, rfl⟩)
  | text pkt ht => obtain rfl | rfl := ht <;> simp at hs
  | stored pkt ht => obtain rfl | rfl := ht <;> simp at hs
  | fin pkt ht => obtain rfl | rfl := ht <;> simp at hs
  | _ => simp at hs

theorem LogPhase.rxStep (h : LogPhase iss c) (hk : ControlInv c.control)
    (hopen : Opening c.control) :
    LogPhase iss (rxStep c) := by
  have hp : RxPhase c.tcb.state c.tcbLock c.rx := hk.phase
  obtain hx | hx | ⟨hs, hx⟩ := hp.opening (hopen.state hk)
  · rw [rxStep_nil hx]
    exact h
  · rw [rxStep_unlock hx]
    refine h.same hopen hopen rfl rfl rfl rfl ?_
    simp [SynDue, hx]
  · have hfresh : c.fresh = false := hk.not_fresh (by simp [Conn.control, hs])
    rw [rxStep_tx hx, tcpTxEmpty_eq _ _ (by decide), txSegment_eq]
    refine h.syn hopen (Or.inr (by simp [hx])) (Or.inr rfl) hopen rfl rfl rfl ?_ ?_
    · exact UInt32.add_zero _
    · exact not_synDue hfresh (Or.inr rfl)

/-- Before the connection is open the other events leave the send part alone. -/
theorem LogPhase.opening_step (h : LogPhase iss c) (hk : ControlInv c.control)
    (hopen : Opening c.control) (e : Event) : LogPhase iss (step c e) := by
  have hstate := hopen.state hk
  have hne : c.tcb.state ≠ .established ∧ c.tcb.state ≠ .finWait1 ∧ c.tcb.state ≠ .timeWait := by
    obtain hs | hs | hs := hstate <;> simp_all [Conn.control]
  cases e with
  | connect =>
    by_cases hf : c.fresh = true
    · exact h.connect hk hf
    · have he : step c .connect = c := by
        simp only [AnpNetstack.step, AnpNetstack.connect, hf, if_false, Bool.false_eq_true]
      rw [he]
      exact h
  | send buf =>
    have he : step c (.send buf) = c := by simp only [AnpNetstack.step, send, hne.1, if_false]
    rw [he]
    exact h
  | sendRound i alloc =>
    have hnone : c.calls = [] := by
      cases h with
      | opening _ _ hcalls => exact hcalls
      | opened old new hs => exact absurd hopen hs
    have he : step c (.sendRound i alloc) = c := sendRound_idle alloc (by simp [hnone])
    rw [he]
    exact h
  | recv len =>
    have hf := readBytes_frame (fun c => (c.control, c.tcb.iss, c.calls, c.sent, c.tcb.sndNxt))
      (fun _ _ _ _ => rfl) c len
    simp only [Prod.mk.injEq] at hf
    obtain ⟨hctl, hiss, hcalls, hsent, hnxt⟩ := hf
    have hfresh : (readBytes c len).fresh = c.fresh := congrArg Control.fresh hctl
    have hrx : (readBytes c len).rx = c.rx := congrArg Control.rx hctl
    exact h.same hopen (hctl ▸ hopen) hiss hcalls hsent hnxt
      (by simp only [SynDue, AnpNetstack.step, hfresh, hrx])
  | segment pkt =>
    simp only [AnpNetstack.step]
    split_ifs with hx
    · exact h.segment hk hopen (List.isEmpty_iff.mp hx) pkt
    · exact h
  | rxStep => exact h.rxStep hk hopen
  | retransmit => exact h.same hopen hopen rfl rfl rfl rfl Iff.rfl
  | close =>
    simp only [AnpNetstack.step, close, hne.1, if_false]
    split_ifs
    · exact h
    · exact h.same hopen hopen rfl rfl rfl rfl Iff.rfl
  | closeFin =>
    have he : step c .closeFin = c := closeFin_idle hk hne.2.1
    rw [he]
    exact h
  | closeTimer =>
    have he : step c .closeTimer = c := closeConnection_idle hk hne.2.2
    rw [he]
    exact h

end Opening

theorem plain_step {c : Conn} (hk : ControlInv c.control) (ho : Open c.control)
    (hcalls : ∀ call ∈ c.calls, call.flags = tcpAck) (e : Event) {xs : List Sent}
    (hs : (step c e).sent = c.sent ++ xs) :
    (∀ x ∈ xs, x.IsPlain) ∧
      ((step c e).tcb.state = .established → ∀ x ∈ xs, x.seg.hdr.flags = tcpAck) := by
  have hnil (hq : (step c e).sent = c.sent) : xs = [] := by
    rw [hq] at hs
    exact List.self_eq_append_right.mp hs
  have hone {x : Sent} (hq : (step c e).sent = c.sent ++ [x]) : xs = [x] := by
    rw [hq] at hs
    exact (List.append_cancel_left hs).symm
  cases send_step c e with
  | quiet hq hc hn => simp [hnil hq]
  | call buf data size hq hc hn => simp [hnil hq]
  | fails i alloc call r hi hbad hq hc hn => simp [hnil hq]
  | cross pkt hst hq hc hn => simp [hnil hq]
  | empty flags hf hq hc hn =>
    rw [hone hq]
    cases hf with
    | connect hf => exact absurd (hf.symm.trans ho.fresh) (by decide)
    | closeFin hcl =>
      -- close leaves ESTABLISHED before it queues its FIN
      have hs' := (hk.closing hcl).2.1
      have hstate : (step c .closeFin).tcb.state = .finWait1 := by
        have hkeep := congrArg Control.state (control_tcpTxEmpty c tcpFinAck retriesSendonce)
        simp only [step, closeFin, hcl, if_true]
        exact hkeep.trans hs'
      exact ⟨List.forall_mem_singleton.mpr (Or.inr ⟨rfl, rfl⟩),
        fun he => absurd (hstate.symm.trans he) (by decide)⟩
    | rx hx =>
      have hack := ho.acts _ _ (by rw [Conn.control, hx]; exact List.mem_cons_self)
      subst hack
      exact ⟨List.forall_mem_singleton.mpr (Or.inl rfl), fun _ => List.forall_mem_singleton.mpr rfl⟩
  | round i alloc call n hi hr hv hle hsize hq hc hn =>
    rw [hone hq]
    have hack : (sentRecord c (some i) (call.data.drop call.dataSent.toNat)
        n call.flags).seg.hdr.flags =
        tcpAck := hcalls call (List.mem_of_getElem? hi)
    exact ⟨List.forall_mem_singleton.mpr (Or.inl hack), fun _ => List.forall_mem_singleton.mpr hack⟩

theorem LogPhase.step {iss : UInt32} {c : Conn} (h : LogPhase iss c) (hk : ControlInv c.control)
    (e : Event) :
    LogPhase iss (step c e) := by
  by_cases hopen : Opening c.control
  · exact h.opening_step hk hopen e
  · cases h with
    | opening hs => exact absurd hs hopen
    | opened old new hs hsent hold hnew hcalls hfin h =>
      obtain ⟨xs, hxs, hsend⟩ := h.step e
      obtain ⟨hplain, hest⟩ := plain_step hk h.opened hcalls e hxs
      have hstay : ¬ Opening (AnpNetstack.step c e).control := by
        cases control_step c e with
        | inl he => exact he ▸ hopen
        | inr hstep => exact fun hb => hopen (opening_back hstep hk hb)
      have hback (he : (AnpNetstack.step c e).tcb.state = .established) : c.tcb.state =
          .established := by
        cases control_step c e with
        | inl hsame => exact (congrArg Control.state hsame).symm.trans he
        | inr hstep =>
          cases hk.edge hstep with
          | inl hsame => exact hsame.symm.trans he
          | inr hedge =>
            have he' : (AnpNetstack.step c e).control.state = .established := he
            rw [he'] at hedge
            generalize hst : c.control.state = s at hedge
            cases hedge with
            | establish => exact absurd hst h.opened.state.1
            | confirm => exact absurd hst h.opened.state.2
      refine .opened old (new ++ xs) hstay ?_ hold ?_ (calls_flags_step hcalls e) ?_ hsend
      · rw [hxs, hsent, List.append_assoc]
      · intro x hx
        cases List.mem_append.mp hx with
        | inl hx => exact hnew x hx
        | inr hx => exact hplain x hx
      · intro he x hx
        cases List.mem_append.mp hx with
        | inl hx => exact hfin (hback he) x hx
        | inr hx => exact hest he x hx

theorem connectBlock_log (self : Nat) (localPort remotePort : UInt16)
    (localIp remoteIp iss : UInt32) (msgs : List TcpMessage) :
    LogPhase iss (connectBlock self localPort remotePort localIp remoteIp iss msgs) :=
  .opening (Or.inl rfl) rfl rfl (by simp [connectBlock]) (fun _ => rfl)
    (fun hn => absurd (Or.inl rfl) hn)

end AnpNetstack
