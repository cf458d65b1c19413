import AnpNetstack.SendPart
import AnpNetstack.StateMachine

/-! Our FIN and its acknowledgement. The switch of tcp_rx leaves FIN_WAIT_1 with the first
segment that has the ACK bit, whatever number it acknowledges. -/
namespace AnpNetstack
open Runs

def finsSent (c : Conn) : List Sent := c.sent.filter (fun x => hasFlag x.seg.hdr.flags tcpFin)

def takesUp (c : Conn) : Event → List Packet
  | .segment pkt => if c.rx.isEmpty && accepted c.tcb pkt then [pkt] else []
  | _ => []

def received : Conn → List Event → List Packet
  | _, [] => []
  | c, e :: es => takesUp c e ++ received (step c e) es

def AcksFin (c : Conn) : Event → Prop
  | .segment pkt => c.tcb.state = .finWait1 → c.rx = [] → c.tcbLock = false →
      accepted c.tcb pkt = true → hasFlag pkt.tcp.hdr.flags tcpAck = true →
      ∀ x ∈ finsSent c, pkt.tcp.hdr.ackNum = x.seg.hdr.seqNum + 1
  | _ => True

instance (c : Conn) : (e : Event) → Decidable (AcksFin c e)
  | .segment pkt => inferInstanceAs (Decidable (_ → _ → _ → _ → _ → ∀ x ∈ finsSent c,
      pkt.tcp.hdr.ackNum = x.seg.hdr.seqNum + 1))
  | .connect | .send _ | .sendRound _ _ | .recv _ | .rxStep | .retransmit | .close | .closeFin
  | .closeTimer => inferInstanceAs (Decidable True)

structure BeforeFin (k : Control) : Prop where
  state : k.state ∉ [TcpState.finWait2, .timeWait]
  closing : k.state = .finWait1 → k.closing = true
  fresh : k.state = .closed → k.fresh = true

def AwaitsAck (k : Control) : Prop := k.state = .finWait1 ∧ k.closing = false

def PastFinWait (k : Control) : Prop := k.state = .finWait2 ∨ Ending k

theorem BeforeFin.step {k k' : Control} {e : Event} (h : BeforeFin k) (hinv : ControlInv k)
    (hk : ControlStep k e k') (he : e ≠ .closeFin) : BeforeFin k' := by
  have hstate := h.state
  have hwait (hs : k.state = .finWait1) : k.lock = true ∧ k.rx = [] :=
    ⟨(hinv.closing (h.closing hs)).1, (hinv.closing (h.closing hs)).2.2⟩
  cases hk with
  | connect hf => exact ⟨by simp, by simp, by simp⟩
  | close hl hs => exact ⟨by simp, by simp, by simp⟩
  | closeFin hc => exact absurd rfl he
  | establish hx hl hs => exact ⟨by simp, by simp, by simp⟩
  | cross hx hl hs => exact ⟨by simp, by simp, by simp⟩
  | confirm pkt hx hl hs => exact ⟨by simp, by simp, by simp⟩
  | finWait pkt hx hl hs =>
    have hlock := (hwait hs).1
    simp [hl] at hlock
  | finTaken pkt rest hx hs =>
    cases hs with
    | inl hs =>
      have hnil := (hwait hs).2
      simp [hx] at hnil
    | inr hs => simp [hs] at hstate
  | closeTimer ht hl =>
    have hs := (hinv.timer_state ht).1
    simp [hs] at hstate
  | _ => exact ⟨h.state, h.closing, h.fresh⟩

theorem AwaitsAck.step {k k' : Control} {e : Event} (h : AwaitsAck k) (hinv : ControlInv k)
    (hk : ControlStep k e k') : AwaitsAck k' ∨ k'.state = .finWait2 ∧ ∃ pkt, e = .segment pkt := by
  have hp := hinv.phase
  obtain ⟨hs, hc⟩ := h
  cases hk with
  | connect hf => simp [hinv.not_fresh (by simp [hs])] at hf
  | close hl hs' => simp [hs] at hs'
  | establish hx hl hs' => simp [hs] at hs'
  | cross hx hl hs' => simp [hs] at hs'
  | confirm pkt hx hl hs' => simp [hs] at hs'
  | ack pkt hx hl hs' => simp [hs] at hs'
  | finWait pkt hx hl hs' => exact Or.inr ⟨rfl, pkt, rfl⟩
  | finTaken pkt rest hx hs' =>
    rw [hx] at hp
    have hfin := hp.of_fin.2.1
    simp [hs] at hfin
  | closeFin hc' => simp [hc] at hc'
  | closeTimer ht hl =>
    have hend := (hinv.timer_state ht).1
    simp [hs] at hend
  | _ => exact Or.inl ⟨hs, hc⟩

theorem PastFinWait.step {k k' : Control} {e : Event} (h : PastFinWait k) (hinv : ControlInv k)
    (hk : ControlStep k e k') : PastFinWait k' := by
  cases h with
  | inr hs => exact Or.inr (hs.step hinv hk)
  | inl hs =>
    cases hinv.edge hk with
    | inl he => exact Or.inl (he.trans hs)
    | inr he =>
      rw [hs] at he
      generalize hs' : k'.state = s' at he
      cases he with
      | finTaken => exact Or.inr (Or.inl hs')

theorem RxPhase.tx_noFin {s : TcpState} {lock : Bool} {flags : UInt8} {retries : Int}
    {rest : List RxAct} (h : RxPhase s lock (.tx flags retries :: rest)) :
    hasFlag flags tcpFin = false := by
  cases h <;> decide

theorem finsSent_append {c c' : Conn} {x : Sent} (hs : c'.sent = c.sent ++ [x]) :
    finsSent c' = finsSent c ++ bif hasFlag x.seg.hdr.flags tcpFin then [x] else [] := by
  rw [finsSent, hs, List.filter_append, List.filter_singleton]
  rfl

theorem finsSent_step {c : Conn} (hk : ControlInv c.control)
    (hcalls : ∀ call ∈ c.calls, call.flags = tcpAck) {e : Event} (he : e ≠ .closeFin) :
    finsSent (step c e) = finsSent c := by
  have hsame (hs : (step c e).sent = c.sent) : finsSent (step c e) = finsSent c := by
    rw [finsSent, finsSent, hs]
  have happ {who : Option Nat} {data : List UInt8} {n : UInt32} {flags : UInt8}
      (hs : (step c e).sent = c.sent ++ [sentRecord c who data n flags])
      (hf : hasFlag flags tcpFin = false) : finsSent (step c e) = finsSent c := by
    have hflags : (sentRecord c who data n flags).seg.hdr.flags = flags := rfl
    rw [finsSent_append hs, hflags, hf]
    simp
  have hsend := send_step c e
  generalize step c e = c' at hsame happ hsend
  cases hsend with
  | quiet hs hc hn => exact hsame hs
  | call buf data size hs hc hn => exact hsame hs
  | empty flags hf hs hc hn =>
    refine happ hs ?_
    cases hf with
    | connect hf => decide
    | closeFin hc => exact absurd rfl he
    | rx hx =>
      have hp : RxPhase c.tcb.state c.tcbLock c.rx := hk.phase
      rw [hx] at hp
      exact hp.tx_noFin
  | round i alloc call n hi hr hv hle hsize hs hc hn =>
    refine happ hs ?_
    rw [hcalls call (List.mem_of_getElem? hi)]
    decide
  | fails i alloc call r hi hbad hs hc hn => exact hsame hs
  | cross pkt hst hs hc hn => exact hsame hs

/-- Only send makes tcp_tx calls, and it asks for the ACK bit alone. -/
theorem calls_flags_step {c : Conn} (h : ∀ call ∈ c.calls, call.flags = tcpAck) (e : Event) :
    ∀ call ∈ (step c e).calls, call.flags = tcpAck := by
  have hset {i : Nat} {call d : TxCall} (hi : c.calls[i]? = some call) (hd : d.flags = call.flags) :
      ∀ d' ∈ c.calls.set i d, d'.flags = tcpAck := by
    intro d' hd'
    cases List.mem_or_eq_of_mem_set hd' with
    | inl hm => exact h d' hm
    | inr heq =>
      rw [heq, hd]
      exact h call (List.mem_of_getElem? hi)
  have hsend := send_step c e
  generalize step c e = c' at hsend
  cases hsend with
  | quiet hs hc hn => exact hc ▸ h
  | call buf data size hs hc hn =>
    rw [hc]
    intro d hd
    cases List.mem_append.mp hd with
    | inl hd => exact h d hd
    | inr hd =>
      rw [List.mem_singleton.mp hd]
      rfl
  | empty flags hf hs hc hn => exact hc ▸ h
  | round i alloc call n hi hr hv hle hsize hs hc hn => exact hc ▸ hset hi rfl
  | fails i alloc call r hi hbad hs hc hn => exact hc ▸ hset hi rfl
  | cross pkt hst hs hc hn => exact hc ▸ h

inductive ClosePhase (got : List Packet) (c : Conn) : Prop where
  | before (h : BeforeFin c.control) (hf : finsSent c = [])
  | waiting (x : Sent) (h : AwaitsAck c.control) (hf : finsSent c = [x])
      (hx : x.tcb.sndNxt = x.seg.hdr.seqNum + 1)
  | acked (x : Sent) (pkt : Packet) (h : PastFinWait c.control) (hf : finsSent c = [x])
      (hx : x.tcb.sndNxt = x.seg.hdr.seqNum + 1) (hp : pkt ∈ got)
      (hack : hasFlag pkt.tcp.hdr.flags tcpAck = true)
      (hn : pkt.tcp.hdr.ackNum = x.tcb.sndNxt)

theorem closeFin_phase {got : List Packet} {c : Conn} (h : ClosePhase got c)
    (hk : ControlInv c.control) : ClosePhase got (closeFin c) := by
  by_cases hc : c.closing = true
  · obtain ⟨-, hs, -⟩ := hk.closing hc
    have he : (closeFin c).sent = c.sent ++ [sentRecord c none [] 0 tcpFinAck] := by
      simp only [closeFin, hc, if_true]
      rw [tcpTxEmpty_eq c tcpFinAck (by decide), txSegment_sent]
    have hk' : AwaitsAck (closeFin c).control := by
      have hkeep := congrArg Control.state (control_tcpTxEmpty c tcpFinAck retriesSendonce)
      simp only [closeFin, hc, if_true]
      exact ⟨hkeep.trans hs, rfl⟩
    cases h with
    | before h hf =>
      refine .waiting (sentRecord c none [] 0 tcpFinAck) hk' ?_ ?_
      · have hflags : (sentRecord c none [] 0 tcpFinAck).seg.hdr.flags = tcpFinAck := rfl
        have hfin : hasFlag tcpFinAck tcpFin = true := by decide
        rw [finsSent_append he, hf, hflags, hfin]
        rfl
      · have hctl : ctlLen tcpFinAck = 1 := by decide
        simp [sentRecord, createTcpPacket_seqNum, hctl]
    | waiting x h hf hx =>
      have hnot : c.closing = false := h.2
      simp [hc] at hnot
    | acked x pkt h => simp [PastFinWait, Ending, hs] at h
  · have he : closeFin c = c := by simp only [closeFin, hc, if_false, Bool.false_eq_true]
    rw [he]
    exact h

/-- The segment that ends FIN_WAIT_1 was accepted, and the condition applies to it. -/
theorem finWait_left {c : Conn} {pkt : Packet} (hs : c.tcb.state = .finWait1)
    (hs' : (step c (.segment pkt)).tcb.state = .finWait2) :
    c.rx = [] ∧ c.tcbLock = false ∧ accepted c.tcb pkt = true ∧
      hasFlag pkt.tcp.hdr.flags tcpAck = true := by
  simp only [step] at hs'
  split_ifs at hs' with hx
  · cases tcpRxSwitch_cases c pkt with
    | inl he =>
      rw [he, hs] at hs'
      simp at hs'
    | inr ht =>
      obtain ⟨c', -, ha, hl, ht⟩ := ht
      refine ⟨List.isEmpty_iff.mp hx, hl, ha, ?_⟩
      cases ht with
      | establish hs'' => simp [hs] at hs''
      | cross hs'' => simp [hs] at hs''
      | confirm hs'' => simp [hs] at hs''
      | ack hs'' => simp [hs] at hs''
      | finWait hs'' hf => exact hf
  · simp [hs] at hs'

theorem ClosePhase.step {got : List Packet} {c : Conn} (h : ClosePhase got c)
    (hk : ControlInv c.control) (hcalls : ∀ call ∈ c.calls, call.flags = tcpAck) (e : Event)
    (hcond : AcksFin c e) : ClosePhase (got ++ takesUp c e) (step c e) := by
  have hmono {c' : Conn} (h : ClosePhase got c') : ClosePhase (got ++ takesUp c e) c' := by
    cases h with
    | before h hf => exact .before h hf
    | waiting x h hf hx => exact .waiting x h hf hx
    | acked x pkt h hf hx hp hack hn =>
      exact .acked x pkt h hf hx (List.mem_append_left _ hp) hack hn
  by_cases he : e = .closeFin
  · rw [he] at hmono ⊢
    exact hmono (closeFin_phase h hk)
  · have hfins := finsSent_step hk hcalls he
    cases control_step c e with
    | inl hsame =>
      apply hmono
      cases h with
      | before h hf => exact .before (hsame ▸ h) (hfins.trans hf)
      | waiting x h hf hx => exact .waiting x (hsame ▸ h) (hfins.trans hf) hx
      | acked x pkt h hf hx hp hack hn =>
        exact .acked x pkt (hsame ▸ h) (hfins.trans hf) hx hp hack hn
    | inr hstep =>
      cases h with
      | before h hf => exact .before (h.step hk hstep he) (hfins.trans hf)
      | acked x pkt h hf hx hp hack hn =>
        exact hmono (.acked x pkt (h.step hk hstep) (hfins.trans hf) hx hp hack hn)
      | waiting x h hf hx =>
        obtain h' | ⟨hs', pkt, rfl⟩ := h.step hk hstep
        · exact .waiting x h' (hfins.trans hf) hx
        · obtain ⟨hrx, hl, ha, hack⟩ := finWait_left h.1 hs'
          have hn := hcond h.1 hrx hl ha hack x (by simp [hf])
          refine .acked x pkt (Or.inl hs') (hfins.trans hf) hx ?_ hack (hn.trans hx.symm)
          simp [takesUp, hrx, ha]

theorem closePhase_run {got : List Packet} {c : Conn} (h : ClosePhase got c)
    (hk : Reached c.control) (hcalls : ∀ call ∈ c.calls, call.flags = tcpAck) {es : List Event}
    (hcond : Along step AcksFin c es) : ClosePhase (got ++ received c es) (run step c es) := by
  induction es generalizing c got with
  | nil =>
    rw [received, List.append_nil]
    exact h
  | cons e es ih =>
    rw [received, ← List.append_assoc]
    exact ih (h.step hk.inv hcalls e hcond.1) (reached_step hk e)
      (calls_flags_step hcalls e) hcond.2

def closeInFlight (ack : UInt32) : List Event :=
  [.connect, .segment (samplePeer 5000 1001 tcpSynAck 1000 []), .rxStep, .rxStep,
    .send [1, 2, 3], .sendRound 0 true, .close, .closeFin,
    .segment (samplePeer 5001 ack tcpAck 1000 []), .rxStep, .rxStep, .rxStep]

end AnpNetstack
