import AnpNetstack.FinAcked

/-! What is queued after our FIN. send looks at the state once, before tcp_tx; a call that
still has text when close queues the FIN goes on behind it. -/
namespace AnpNetstack
open Runs

def TxCall.Done (call : TxCall) : Prop := call.result ≠ none ∨ call.dataSent = call.dataSize

instance (call : TxCall) : Decidable call.Done := inferInstanceAs (Decidable (_ ∨ _))

def SendsDone (c : Conn) : Event → Prop
  | .closeFin => c.closing = true → ∀ call ∈ c.calls, call.Done
  | _ => True

instance (c : Conn) : (e : Event) → Decidable (SendsDone c e)
  | .closeFin => inferInstanceAs (Decidable (_ → ∀ call ∈ c.calls, call.Done))
  | .connect | .send _ | .sendRound _ _ | .recv _ | .segment _ | .rxStep | .retransmit | .close
  | .closeTimer => inferInstanceAs (Decidable True)

def FinQueued (k : Control) : Prop := AwaitsAck k ∨ PastFinWait k

theorem FinQueued.step {k k' : Control} {e : Event} (h : FinQueued k) (hinv : ControlInv k)
    (hk : ControlStep k e k') : FinQueued k' := by
  cases h with
  | inl h =>
    cases h.step hinv hk with
    | inl h' => exact Or.inl h'
    | inr h' => exact Or.inr (Or.inl h'.1)
  | inr h => exact Or.inr (h.step hinv hk)

theorem FinQueued.state {k : Control} (h : FinQueued k) :
    k.state ≠ .synSent ∧ k.state ≠ .synReceived ∧ k.state ≠ .established := by
  obtain ⟨hs, -⟩ | hs | hs | ⟨hs, -⟩ := h <;> simp [hs]

theorem FinQueued.not_fresh {k : Control} (h : FinQueued k) (hinv : ControlInv k) :
    k.fresh = false := by
  obtain ⟨hs, -⟩ | hs | hs | ⟨-, hf⟩ := h
  · exact hinv.not_fresh (by simp [hs])
  · exact hinv.not_fresh (by simp [hs])
  · exact hinv.not_fresh (by simp [hs])
  · exact hf

theorem FinQueued.not_closing {k : Control} (h : FinQueued k) (hinv : ControlInv k) :
    k.closing = false := by
  by_contra hc
  have hs := (hinv.closing (Bool.not_eq_false _ ▸ hc)).2.1
  obtain ⟨-, hc'⟩ | hs' | hs' | ⟨hs', -⟩ := h
  · exact hc hc'
  · simp [hs] at hs'
  · simp [hs] at hs'
  · simp [hs] at hs'

structure QuietStep (c c' : Conn) : Prop where
  calls : ∀ call ∈ c'.calls, call.Done
  sndNxt : c'.tcb.sndNxt = c.tcb.sndNxt
  sent : c'.sent = c.sent ∨
    ∃ x, c'.sent = c.sent ++ [x] ∧ x.seg.data = [] ∧ hasFlag x.seg.hdr.flags tcpFin = false

theorem quietStep {c : Conn} (h : FinQueued c.control) (hinv : ControlInv c.control)
    (hflags : ∀ call ∈ c.calls, call.flags = tcpAck) (hdone : ∀ call ∈ c.calls, call.Done)
    (e : Event) : QuietStep c (step c e) := by
  have hstate := h.state
  have hset {i : Nat} {d : TxCall} (hd : d.Done) : ∀ d' ∈ c.calls.set i d, d'.Done := by
    intro d' hd'
    cases List.mem_or_eq_of_mem_set hd' with
    | inl hm => exact hdone d' hm
    | inr heq => exact heq ▸ hd
  have hsend := send_step c e
  have hctl : ctlLen tcpAck = 0 := by decide
  cases hsend with
  | quiet hs hc hn => exact ⟨hc ▸ hdone, hn, Or.inl hs⟩
  | call buf data size hs hc hn =>
    -- send refuses the call: the state is not ESTABLISHED any more
    have he : step c (.send buf) = c := by
      simp only [step, send]
      exact if_neg hstate.2.2
    rw [he]
    exact ⟨hdone, rfl, Or.inl rfl⟩
  | empty flags hf hs hc hn =>
    have hack : flags = tcpAck := by
      cases hf with
      | connect hf =>
        have hfresh : c.fresh = false := h.not_fresh hinv
        simp [hfresh] at hf
      | closeFin hcl =>
        have hclosing : c.closing = false := h.not_closing hinv
        simp [hclosing] at hcl
      | rx hx =>
        have hp : RxPhase c.tcb.state c.tcbLock c.rx := hinv.phase
        rw [hx] at hp
        exact (hp.tx_ack hstate.2.1).1
    rw [hack] at hs hn
    refine ⟨hc ▸ hdone, by rw [hn, hctl, UInt32.add_zero], Or.inr ⟨_, hs, rfl, ?_⟩⟩
    exact (by decide : hasFlag tcpAck tcpFin = false)
  | round i alloc call n hi hr hv hle hsize hs hc hn =>
    have hm := List.mem_of_getElem? hi
    have hall : call.dataSent = call.dataSize := by
      cases hdone call hm with
      | inl hres => exact absurd hr hres
      | inr hall => exact hall
    have hzero : n = 0 := by rw [hsize, hall, nxtSegSize_self]
    have hack := hflags call hm
    rw [hzero] at hs hc hn
    refine ⟨hc ▸ hset (Or.inr ?_), by rw [hn, hack, hctl, UInt32.add_zero, UInt32.add_zero],
      Or.inr ⟨_, hs, rfl, ?_⟩⟩
    · exact (UInt32.add_zero _).trans hall
    · have hf : hasFlag tcpAck tcpFin = false := by decide
      exact hack ▸ hf
  | fails i alloc call r hi hbad hs hc hn =>
    exact ⟨hc ▸ hset (Or.inl (by simp)), hn, Or.inl hs⟩
  | cross pkt hst hs hc hn => exact absurd hst hstate.1

inductive FinPhase (c : Conn) : Prop where
  | before (h : BeforeFin c.control) (hf : finsSent c = [])
  | after (old new : List Sent) (fin : Sent) (h : FinQueued c.control)
      (hdone : ∀ call ∈ c.calls, call.Done) (hs : c.sent = old ++ fin :: new)
      (hold : ∀ x ∈ old, hasFlag x.seg.hdr.flags tcpFin = false)
      (hnew : ∀ x ∈ new, x.seg.data = [] ∧ hasFlag x.seg.hdr.flags tcpFin = false)
      (hn : c.tcb.sndNxt = fin.seg.hdr.seqNum + 1)

theorem finsSent_nil {c : Conn} (h : finsSent c = []) :
    ∀ x ∈ c.sent, hasFlag x.seg.hdr.flags tcpFin = false := by
  intro x hx
  have hnot := List.filter_eq_nil_iff.mp h x hx
  exact Bool.not_eq_true _ ▸ hnot

theorem closeFin_after {c : Conn} (hk : ControlInv c.control) (hc : c.closing = true)
    (hf : finsSent c = []) (hdone : ∀ call ∈ c.calls, call.Done) : FinPhase (closeFin c) := by
  have hkeep := congrArg Control.state (control_tcpTxEmpty c tcpFinAck retriesSendonce)
  have hctl : ctlLen tcpFinAck = 1 := by decide
  have he : closeFin c = { txSegment true c none [] 0 tcpFinAck retriesSendonce with
      closing := false, tcbLock := false } := by
    simp only [closeFin, hc, if_true]
    rw [tcpTxEmpty_eq c tcpFinAck (by decide)]
  refine .after c.sent [] (sentRecord c none [] 0 tcpFinAck) ?_ ?_ ?_ (finsSent_nil hf) (by simp) ?_
  · refine Or.inl ⟨?_, ?_⟩
    · simp only [closeFin, hc, if_true]
      exact hkeep.trans (hk.closing hc).2.1
    · simp only [closeFin, hc, if_true, Conn.control]
  · rw [he]
    exact (txSegment_calls true c none [] 0 tcpFinAck retriesSendonce) ▸ hdone
  · rw [he]
    exact txSegment_sent true c none [] 0 tcpFinAck retriesSendonce
  · rw [he, txSegment_tcb]
    simp [hctl, sentRecord]

theorem FinPhase.step {c : Conn} (h : FinPhase c) (hk : ControlInv c.control)
    (hflags : ∀ call ∈ c.calls, call.flags = tcpAck) (e : Event) (hcond : SendsDone c e) :
    FinPhase (step c e) := by
  cases h with
  | before h hf =>
    by_cases he : e = .closeFin
    · subst he
      by_cases hc : c.closing = true
      · exact closeFin_after hk hc hf (hcond hc)
      · have hsame : AnpNetstack.step c .closeFin = c := by
          simp only [AnpNetstack.step, closeFin, hc, if_false, Bool.false_eq_true]
        rw [hsame]
        exact .before h hf
    · have hfins := (finsSent_step hk hflags he).trans hf
      cases control_step c e with
      | inl hsame => exact .before (hsame ▸ h) hfins
      | inr hstep => exact .before (h.step hk hstep he) hfins
  | after old new fin h hdone hs hold hnew hn =>
    have hq := quietStep h hk hflags hdone e
    have h' : FinQueued (AnpNetstack.step c e).control := by
      cases control_step c e with
      | inl hsame => exact hsame ▸ h
      | inr hstep => exact h.step hk hstep
    obtain hsent | ⟨x, hsent, hx⟩ := hq.sent
    · exact .after old new fin h' hq.calls (hsent.trans hs) hold hnew (hq.sndNxt.trans hn)
    · refine .after old (new ++ [x]) fin h' hq.calls ?_ hold ?_ (hq.sndNxt.trans hn)
      · rw [hsent, hs, List.append_assoc, List.cons_append]
      · intro y hy
        cases List.mem_append.mp hy with
        | inl hy => exact hnew y hy
        | inr hy => exact List.mem_singleton.mp hy ▸ hx

theorem finPhase_run {c : Conn} (h : FinPhase c) (hk : Reached c.control)
    (hflags : ∀ call ∈ c.calls, call.flags = tcpAck) {es : List Event}
    (hcond : Along step SendsDone c es) : FinPhase (run step c es) := by
  induction es generalizing c with
  | nil => exact h
  | cons e es ih =>
    exact ih (h.step hk.inv hflags e hcond.1) (reached_step hk e)
      (calls_flags_step hflags e) hcond.2

theorem nothing_after_fin (self : Nat) (localPort remotePort : UInt16)
    (localIp remoteIp rand : UInt32) (msgs : List TcpMessage) (es : List Event)
    (hes : Along step SendsDone
      (connectBlock self localPort remotePort localIp remoteIp rand msgs) es) :
    let c := run step (connectBlock self localPort remotePort localIp remoteIp rand msgs) es
    ∀ old fin new, c.sent = old ++ fin :: new → hasFlag fin.seg.hdr.flags tcpFin = true →
      (∀ x ∈ new, x.seg.data = []) ∧ c.tcb.sndNxt = fin.seg.hdr.seqNum + 1 := by
  intro c old fin new hs hfin
  have hreach := connectBlock_reached self localPort remotePort localIp remoteIp rand msgs
  have hstart : FinPhase (connectBlock self localPort remotePort localIp remoteIp rand msgs) :=
    .before ⟨by simp [Conn.control, connectBlock], by simp [Conn.control, connectBlock],
      fun _ => rfl⟩ rfl
  have hphase : FinPhase c := finPhase_run hstart hreach (by simp [connectBlock]) hes
  cases hphase with
  | before h hf =>
    have hno := finsSent_nil hf fin (by simp [hs])
    simp [hfin] at hno
  | after old' new' fin' h hdone hs' hold hnew hn =>
    -- there is only one FIN among the queued segments, so the two splits are one
    have hnot : fin ∉ old' ∧ fin ∉ new' := by
      constructor
      · intro hm
        simp [hold fin hm] at hfin
      · intro hm
        simp [(hnew fin hm).2] at hfin
    obtain ⟨-, rfl, rfl⟩ := (List.append_cons_inj_of_notMem hnot.1 hnot.2).mp (hs'.symm.trans hs)
    exact ⟨fun x hx => (hnew x hx).1, hn⟩

def sendAndClose (before : Bool) : List Event :=
  let fin : List Event := [.close, .closeFin]
  ([.connect, .segment (samplePeer 5000 1001 tcpSynAck 1000 []), .rxStep, .rxStep,
    .send [1, 2, 3]] : List Event) ++ if before then .sendRound 0 true :: fin else
      fin ++ [.sendRound 0 true]

theorem nothing_after_fin_sample :
    let c := run step (connectBlock 1 49155 43211 0x0400000a 0x0a000005 1000 []) (sendAndClose true)
    ∃ old fin, c.sent = old ++ [fin] ∧ fin.seg.hdr.flags = tcpFinAck ∧ fin.seg.hdr.seqNum = 1004 ∧
      c.tcb.sndNxt = 1005 := by
  intro c
  have hlast : c.sent.getLast?.map (fun x => (x.seg.hdr.flags, x.seg.hdr.seqNum)) =
      some (tcpFinAck, 1004) := by decide +kernel
  obtain ⟨fin, hget, hfin⟩ := Option.map_eq_some_iff.mp hlast
  obtain ⟨hflags, hseq⟩ := Prod.mk.inj hfin
  obtain ⟨old, hs⟩ := List.getLast?_eq_some_iff.mp hget
  obtain ⟨-, hn⟩ :=
    nothing_after_fin 1 49155 43211 0x0400000a 0x0a000005 1000 [] (sendAndClose true)
      (by decide +kernel) old fin [] hs (by rw [hflags]; decide)
  refine ⟨old, fin, hs, hflags, hseq, ?_⟩
  rw [hn, hseq]
  decide

/-- The text stands behind the FIN when close comes in between. -/
theorem text_after_fin :
    let c :=
      run step (connectBlock 1 49155 43211 0x0400000a 0x0a000005 1000 []) (sendAndClose false)
    c.sent.map (fun x => (x.seg.hdr.seqNum, x.seg.hdr.flags, x.seg.data)) =
        [(1000, tcpSyn, []), (1001, tcpAck, []), (1001, tcpFinAck, []), (1002, tcpAck, [1, 2, 3])] ∧
      c.tcb.sndNxt = 1005 := by
  decide +kernel

end AnpNetstack
