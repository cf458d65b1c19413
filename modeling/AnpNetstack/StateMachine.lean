import AnpNetstack.Control

/-! What holds of the control part in every state a connection reaches from connect, and
with it the moves of the TCP state and the one timer that ends the connection. -/
namespace AnpNetstack
open Runs

inductive RxPhase : TcpState → Bool → List RxAct → Prop where
  | idle (s : TcpState) (lock : Bool) : RxPhase s lock []
  | reply : RxPhase .established true [.tx tcpAck retriesSendonce, .unlock]
  | cross : RxPhase .synReceived true [.tx tcpSynAck retriesConnMax, .unlock]
  | confirm (pkt : Packet) :
      RxPhase .established true [.tx tcpAck retriesSendonce, .text pkt, .fin pkt]
  | text {s : TcpState} (pkt : Packet) (hs : s = .established ∨ s = .finWait2) :
      RxPhase s true [.text pkt, .fin pkt]
  | stored {s : TcpState} (pkt : Packet) (hs : s = .established ∨ s = .finWait2) :
      RxPhase s true [.tx tcpAck retriesSendonce, .fin pkt]
  | fin {s : TcpState} (pkt : Packet) (hs : s = .established ∨ s = .finWait2) :
      RxPhase s true [.fin pkt]
  | unlock (s : TcpState) : RxPhase s true [.unlock]
  | last : RxPhase .timeWait true [.tx tcpAck retriesSendonce, .unlock, .timer]
  | release : RxPhase .timeWait true [.unlock, .timer]
  | timer (lock : Bool) : RxPhase .timeWait lock [.timer]

section RxPhase
variable {s : TcpState} {lock : Bool} {rest : List RxAct} {pkt : Packet}

theorem RxPhase.of_tx {flags : UInt8} {retries : Int}
    (h : RxPhase s lock (.tx flags retries :: rest)) : RxPhase s lock rest := by
  cases h with
  | reply => exact .unlock _
  | cross => exact .unlock _
  | confirm pkt => exact .text pkt (Or.inl rfl)
  | stored pkt hs => exact .fin pkt hs
  | last => exact .release

theorem RxPhase.of_text (h : RxPhase s lock (.text pkt :: rest)) :
    lock = true ∧ (s = .established ∨ s = .finWait2) ∧ rest = [.fin pkt] := by
  cases h with
  | text pkt hs => exact ⟨rfl, hs, rfl⟩

theorem RxPhase.of_fin (h : RxPhase s lock (.fin pkt :: rest)) :
    lock = true ∧ (s = .established ∨ s = .finWait2) ∧ rest = [] := by
  cases h with
  | fin pkt hs => exact ⟨rfl, hs, rfl⟩

theorem RxPhase.of_unlock (h : RxPhase s lock (.unlock :: rest)) :
    rest = [] ∨ s = .timeWait ∧ rest = [.timer] := by
  cases h with
  | unlock s => exact Or.inl rfl
  | release => exact Or.inr ⟨rfl, rfl⟩

theorem RxPhase.of_timer (h : RxPhase s lock (.timer :: rest)) : s = .timeWait ∧ rest = [] := by
  cases h with
  | timer lock => exact ⟨rfl, rfl⟩

theorem RxPhase.of_unlocked {rx : List RxAct} (h : RxPhase s false rx) :
    rx = [] ∨ s = .timeWait ∧ rx = [.timer] := by
  cases h with
  | idle s lock => exact Or.inl rfl
  | timer lock => exact Or.inr ⟨rfl, rfl⟩

theorem RxPhase.tx_ack {flags : UInt8} {retries : Int}
    (h : RxPhase s lock (.tx flags retries :: rest)) (hs : s ≠ .synReceived) :
    flags = tcpAck ∧ retries = retriesSendonce := by
  cases h with
  | cross => exact absurd rfl hs
  | _ => exact ⟨rfl, rfl⟩

/-- Before the peer's SYN tcp_rx has nothing to do but to give up tcb_lock. -/
theorem RxPhase.early {rx : List RxAct} (h : RxPhase s lock rx) (hs : s = .closed ∨ s = .synSent) :
    rx = [] ∨ rx = [.unlock] := by
  cases h with
  | idle s lock => exact Or.inl rfl
  | unlock s => exact Or.inr rfl
  | _ => grind

end RxPhase

def Control.due (k : Control) : Nat := k.closeTimers + k.rx.count .timer

def Control.total (k : Control) : Nat := k.scheduled + k.rx.count .timer

inductive TimerPhase (k : Control) : Prop where
  | before (hs : k.state ≠ .timeWait) (hc : k.state = .closed → k.fresh = true)
      (hd : k.due = 0) (ht : k.total = 0)
  | running (hs : k.state = .timeWait) (hd : k.due = 1) (ht : k.total = 1)
  | ended (hs : k.state = .closed) (hf : k.fresh = false) (hx : k.rx = [])
      (hd : k.due = 0) (ht : k.total = 1)

structure ControlInv (k : Control) : Prop where
  phase : RxPhase k.state k.lock k.rx
  closing : k.closing = true → k.lock = true ∧ k.state = .finWait1 ∧ k.rx = []
  fresh : k.fresh = true → k.state = .closed ∧ k.rx = [] ∧ k.closing = false
  timers : TimerPhase k

theorem ControlInv.not_fresh {k : Control} (h : ControlInv k) (hs : k.state ≠ .closed) :
    k.fresh = false := by
  by_contra hn
  exact hs (h.fresh (Bool.not_eq_false _ ▸ hn)).1

/-- A thread that finds tcb_lock free outside TIME_WAIT finds tcp_rx at rest. -/
theorem ControlInv.rx_nil {k : Control} (h : ControlInv k) (hl : k.lock = false)
    (hs : k.state ≠ .timeWait) : k.rx = [] := by
  have hp := h.phase
  rw [hl] at hp
  cases hp.of_unlocked with
  | inl hx => exact hx
  | inr ht => exact absurd ht.1 hs

/-- close_connection runs only once tcp_rx has nothing left to do. -/
theorem ControlInv.timer_rx_nil {k : Control} (h : ControlInv k) (ht : k.closeTimers ≠ 0)
    (hl : k.lock = false) :
    k.rx = [] := by
  have hp := h.phase
  rw [hl] at hp
  cases hp.of_unlocked with
  | inl hx => exact hx
  | inr hx =>
    obtain ⟨-, hx⟩ := hx
    have hd : k.due = k.closeTimers + 1 := by simp [Control.due, hx]
    cases h.timers <;> omega

theorem ControlInv.timer_state {k : Control} (h : ControlInv k) (ht : k.closeTimers ≠ 0) :
    k.state = .timeWait ∧ k.closeTimers = 1 := by
  have hd : k.due = k.closeTimers + k.rx.count .timer := rfl
  cases h.timers with
  | before hs hc hd' ht' => omega
  | running hs hd' ht' => exact ⟨hs, by omega⟩
  | ended hs hf hx hd' ht' => omega

theorem ControlInv.phase_step {k k' : Control} {e : Event} (h : ControlInv k)
    (hk : ControlStep k e k') :
    RxPhase k'.state k'.lock k'.rx := by
  have hp := h.phase
  cases hk with
  | connect hf =>
    have hx := (h.fresh hf).2.1
    exact hx ▸ .idle _ _
  | close hl hs =>
    have hx := h.rx_nil hl (by simp [hs])
    exact hx ▸ .idle _ _
  | closeFails hl =>
    rw [hl] at hp
    cases hp.of_unlocked with
    | inl hx => exact hx ▸ .idle _ _
    | inr hx =>
      obtain ⟨hs, hx⟩ := hx
      exact hx ▸ hs ▸ .timer true
  | closeFin hc =>
    have hx := (h.closing hc).2.2
    exact hx ▸ .idle _ _
  | establish hx hl hs => exact .reply
  | cross hx hl hs => exact .cross
  | confirm pkt hx hl hs => exact .confirm pkt
  | ack pkt hx hl hs => exact .text pkt (Or.inl hs)
  | finWait pkt hx hl hs => exact .text pkt (Or.inr rfl)
  | tx flags retries rest hx =>
    rw [hx] at hp
    exact hp.of_tx
  | textSkipped pkt rest hx =>
    rw [hx] at hp
    obtain ⟨hl, hs, rfl⟩ := hp.of_text
    exact hl ▸ .fin pkt hs
  | outOfOrder pkt rest hx => exact .idle _ _
  | stored pkt rest hx =>
    rw [hx] at hp
    obtain ⟨hl, hs, rfl⟩ := hp.of_text
    exact hl ▸ .stored pkt hs
  | finDropped pkt rest hx hs => exact .idle _ _
  | finTaken pkt rest hx hs =>
    rw [hx] at hp
    exact hp.of_fin.1 ▸ .last
  | finIgnored pkt rest hx => exact .idle _ _
  | noFin pkt rest hx =>
    rw [hx] at hp
    exact hp.of_fin.1 ▸ .unlock _
  | unlock rest hx =>
    rw [hx] at hp
    cases hp.of_unlock with
    | inl hrest => exact hrest ▸ .idle _ _
    | inr hrest =>
      obtain ⟨hs, hrest⟩ := hrest
      exact hrest ▸ hs ▸ .timer false
  | timer rest hx =>
    rw [hx] at hp
    rw [hp.of_timer.2]
    exact .idle _ _
  | closeTimer ht hl =>
    have hx := h.timer_rx_nil ht hl
    exact hx ▸ .idle _ _

inductive Edge : TcpState → TcpState → Prop where
  | connect : Edge .closed .synSent
  | cross : Edge .synSent .synReceived
  | establish : Edge .synSent .established
  | confirm : Edge .synReceived .established
  | close : Edge .established .finWait1
  | finAcked : Edge .finWait1 .finWait2
  | finTaken : Edge .finWait2 .timeWait
  | timeout : Edge .timeWait .closed

theorem ControlInv.edge {k k' : Control} {e : Event} (h : ControlInv k) (hk : ControlStep k e k') :
    k'.state = k.state ∨ Edge k.state k'.state := by
  have hp := h.phase
  cases hk with
  | connect hf => exact Or.inr ((h.fresh hf).1 ▸ .connect)
  | close hl hs => exact Or.inr (hs ▸ .close)
  | establish hx hl hs => exact Or.inr (hs ▸ .establish)
  | cross hx hl hs => exact Or.inr (hs ▸ .cross)
  | confirm pkt hx hl hs => exact Or.inr (hs ▸ .confirm)
  | finWait pkt hx hl hs => exact Or.inr (hs ▸ .finAcked)
  | finTaken pkt rest hx hs =>
    -- tcb_lock keeps close out since the switch, so the state is not FIN_WAIT_1
    rw [hx] at hp
    have hs2 : k.state = .finWait2 := by
      cases hp.of_fin.2.1 with
      | inl he => simp [he] at hs
      | inr he => exact he
    exact Or.inr (hs2 ▸ .finTaken)
  | closeTimer ht hl => exact Or.inr ((h.timer_state ht).1 ▸ .timeout)
  | _ => exact Or.inl rfl

theorem TimerPhase.congr {k k' : Control} (h : TimerPhase k) (hs : k'.state = k.state)
    (hf : k'.fresh = k.fresh) (hd : k'.due = k.due) (ht : k'.total = k.total)
    (hx : k.rx = [] → k'.rx = []) : TimerPhase k' := by
  cases h with
  | before hs' hc' hd' ht' =>
    exact .before (hs ▸ hs') (fun hc => hf ▸ hc' (hs ▸ hc)) (hd ▸ hd') (ht ▸ ht')
  | running hs' hd' ht' => exact .running (hs ▸ hs') (hd ▸ hd') (ht ▸ ht')
  | ended hs' hf' hx' hd' ht' => exact .ended (hs ▸ hs') (hf ▸ hf') (hx hx') (hd ▸ hd') (ht ▸ ht')

theorem TimerPhase.acted {k k' : Control} (h : TimerPhase k) (hs : k'.state = k.state)
    (hf : k'.fresh = k.fresh) (hc : k'.closeTimers = k.closeTimers)
    (ht : k'.scheduled = k.scheduled) (hx : k.rx ≠ [])
    (hn : k'.rx.count .timer = k.rx.count .timer) : TimerPhase k' :=
  h.congr hs hf (by rw [Control.due, Control.due, hc, hn])
    (by rw [Control.total, Control.total, ht, hn])
    (fun h => absurd h hx)

theorem TimerPhase.moved {k k' : Control} (h : TimerPhase k) (hs : k.state ≠ .timeWait)
    (hc : k.state = .closed → k.fresh = true) (hs' : k'.state ≠ .timeWait ∧ k'.state ≠ .closed)
    (hct : k'.closeTimers = k.closeTimers) (hsc : k'.scheduled = k.scheduled)
    (hn : k'.rx.count .timer = k.rx.count .timer) : TimerPhase k' := by
  have hd : k'.due = k.due := by rw [Control.due, Control.due, hct, hn]
  have ht : k'.total = k.total := by rw [Control.total, Control.total, hsc, hn]
  cases h with
  | before _ _ hd' ht' => exact .before hs'.1 (fun h => absurd h hs'.2) (hd ▸ hd') (ht ▸ ht')
  | running hs'' => exact absurd hs'' hs
  | ended hs'' hf =>
    have := hc hs''
    simp [hf] at this

theorem ControlInv.timers_step {k k' : Control} {e : Event} (h : ControlInv k)
    (hk : ControlStep k e k') :
    TimerPhase k' := by
  have hp := h.phase
  cases hk with
  | connect hf =>
    have hs := (h.fresh hf).1
    exact h.timers.moved (by simp [hs]) (fun _ => hf) (by simp) rfl rfl rfl
  | close hl hs => exact h.timers.moved (by simp [hs]) (by simp [hs]) (by simp) rfl rfl rfl
  | closeFails hl => exact h.timers.congr rfl rfl rfl rfl id
  | closeFin hc => exact h.timers.congr rfl rfl rfl rfl id
  | establish hx hl hs =>
    exact h.timers.moved (by simp [hs]) (by simp [hs]) (by simp) rfl rfl (by simp [hx])
  | cross hx hl hs =>
    exact h.timers.moved (by simp [hs]) (by simp [hs]) (by simp) rfl rfl (by simp [hx])
  | confirm pkt hx hl hs =>
    exact h.timers.moved (by simp [hs]) (by simp [hs]) (by simp) rfl rfl (by simp [hx])
  | ack pkt hx hl hs =>
    exact h.timers.moved (by simp [hs]) (by simp [hs]) (by simp [hs]) rfl rfl (by simp [hx])
  | finWait pkt hx hl hs =>
    exact h.timers.moved (by simp [hs]) (by simp [hs]) (by simp) rfl rfl (by simp [hx])
  | tx flags retries rest hx =>
    exact h.timers.acted rfl rfl rfl rfl (by simp [hx]) (by simp [hx])
  | textSkipped pkt rest hx =>
    exact h.timers.acted rfl rfl rfl rfl (by simp [hx]) (by simp [hx])
  | outOfOrder pkt rest hx =>
    rw [hx] at hp
    obtain ⟨-, -, rfl⟩ := hp.of_text
    exact h.timers.acted rfl rfl rfl rfl (by simp [hx]) (by simp [hx])
  | stored pkt rest hx =>
    exact h.timers.acted rfl rfl rfl rfl (by simp [hx]) (by simp [hx])
  | finDropped pkt rest hx hs =>
    rw [hx] at hp
    obtain ⟨-, -, rfl⟩ := hp.of_fin
    exact h.timers.acted rfl rfl rfl rfl (by simp [hx]) (by simp [hx])
  | finTaken pkt rest hx hs =>
    rw [hx] at hp
    obtain ⟨-, -, rfl⟩ := hp.of_fin
    cases h.timers with
    | before hs' hc hd ht =>
      simp only [Control.due, Control.total, hx] at hd ht
      exact .running rfl (by simpa [Control.due] using hd) (by simpa [Control.total] using ht)
    | running hs' => simp [hs'] at hs
    | ended hs' => simp [hs'] at hs
  | finIgnored pkt rest hx =>
    rw [hx] at hp
    obtain ⟨-, -, rfl⟩ := hp.of_fin
    exact h.timers.acted rfl rfl rfl rfl (by simp [hx]) (by simp [hx])
  | noFin pkt rest hx =>
    rw [hx] at hp
    obtain ⟨-, -, rfl⟩ := hp.of_fin
    exact h.timers.acted rfl rfl rfl rfl (by simp [hx]) (by simp [hx])
  | unlock rest hx =>
    exact h.timers.acted rfl rfl rfl rfl (by simp [hx]) (by simp [hx])
  | timer rest hx =>
    refine h.timers.congr rfl rfl ?_ ?_ (by simp [hx])
    · simp only [Control.due, hx, List.count_cons_self]
      omega
    · simp only [Control.total, hx, List.count_cons_self]
      omega
  | closeTimer ht hl =>
    have hx := h.timer_rx_nil ht hl
    obtain ⟨hs, hone⟩ := h.timer_state ht
    have hf := h.not_fresh (by simp [hs])
    cases h.timers with
    | before hs' => exact absurd hs hs'
    | running _ _ ht' => exact .ended rfl hf hx (by simp [Control.due, hx, hone]) ht'
    | ended hs' => simp [hs] at hs'

theorem ControlInv.closing_step {k k' : Control} {e : Event} (h : ControlInv k)
    (hk : ControlStep k e k') (hc : k'.closing = true) :
    k'.lock = true ∧ k'.state = .finWait1 ∧ k'.rx = [] := by
  cases hk with
  | connect hf =>
    have hn := (h.fresh hf).2.2
    simp [hn] at hc
  | close hl hs => exact ⟨rfl, rfl, h.rx_nil hl (by simp [hs])⟩
  | closeFails hl => exact ⟨rfl, (h.closing hc).2⟩
  | closeFin hc' => simp at hc
  | closeTimer ht hl =>
    have hcl := h.closing hc
    simp [hl] at hcl
  | _ =>
    have hcl := h.closing hc
    simp_all

theorem ControlInv.fresh_step {k k' : Control} {e : Event} (h : ControlInv k)
    (hk : ControlStep k e k') (hf : k'.fresh = true) :
    k'.state = .closed ∧ k'.rx = [] ∧ k'.closing = false := by
  cases hk with
  | connect hf' => simp at hf
  | close hl hs =>
    have hfr := h.fresh hf
    simp [hs] at hfr
  | closeFails hl => exact h.fresh hf
  | closeFin hc => exact ⟨(h.fresh hf).1, (h.fresh hf).2.1, rfl⟩
  | closeTimer ht hl => exact ⟨rfl, (h.fresh hf).2⟩
  | _ =>
    have hfr := h.fresh hf
    simp_all

theorem ControlInv.step {k k' : Control} {e : Event} (h : ControlInv k) (hk : ControlStep k e k') :
    ControlInv k' :=
  ⟨h.phase_step hk, h.closing_step hk, h.fresh_step hk, h.timers_step hk⟩

theorem ControlInv.over_rx_nil {k : Control} (h : ControlInv k) (hs : k.state = .closed)
    (hf : k.fresh = false) : k.rx = [] := by
  cases h.timers with
  | before _ hc => simp [hc hs] at hf
  | running hs' => simp [hs] at hs'
  | ended _ _ hx => exact hx

/-- Once the connection is over, close can still take tcb_lock and nothing else happens. -/
theorem ControlInv.over_step {k k' : Control} {e : Event} (h : ControlInv k)
    (hk : ControlStep k e k') (hs : k.state = .closed) (hf : k.fresh = false) :
    k'.state = .closed ∧ k'.fresh = false := by
  have hx := h.over_rx_nil hs hf
  cases hk with
  | closeFails hl => exact ⟨hs, hf⟩
  | closeFin hc => exact ⟨hs, hf⟩
  | closeTimer ht hl => exact ⟨rfl, hf⟩
  | _ => simp_all

theorem ControlStep.fresh_eq {k k' : Control} {e : Event} (hk : ControlStep k e k') :
    k'.fresh = k.fresh ∨ k'.state = .synSent ∧ k'.fresh = false := by
  cases hk with
  | connect hf => exact Or.inr ⟨rfl, rfl⟩
  | _ => exact Or.inl rfl

theorem ControlInv.total_eq {k : Control} (h : ControlInv k) :
    k.total = if k.state = .timeWait ∨ k.state = .closed ∧ k.fresh = false then 1 else 0 := by
  cases h.timers with
  | before hs hc hd ht =>
    have hn : ¬ (k.state = .timeWait ∨ k.state = .closed ∧ k.fresh = false) := by
      rintro (h | ⟨h, hf⟩)
      · exact hs h
      · simp [hc h] at hf
    rw [if_neg hn, ht]
  | running hs hd ht => rw [if_pos (Or.inl hs), ht]
  | ended hs hf hx hd ht => rw [if_pos (Or.inr ⟨hs, hf⟩), ht]

/-- From TIME_WAIT on the connection only comes to its end. -/
def Ending (k : Control) : Prop := k.state = .timeWait ∨ k.state = .closed ∧ k.fresh = false

theorem Ending.step {k k' : Control} {e : Event} (h : Ending k) (hinv : ControlInv k)
    (hk : ControlStep k e k') : Ending k' := by
  cases h with
  | inr hs => exact Or.inr (hinv.over_step hk hs.1 hs.2)
  | inl hs =>
    have hf := hinv.not_fresh (by simp [hs])
    have hf' : k'.fresh = false := by
      cases hk.fresh_eq with
      | inl he => exact he.trans hf
      | inr he => exact he.2
    cases hinv.edge hk with
    | inl he => exact Or.inl (he.trans hs)
    | inr he =>
      rw [hs] at he
      generalize hs' : k'.state = s' at he
      cases he with
      | timeout => exact Or.inr ⟨hs', hf'⟩

/-- The count of timers goes up exactly when the state becomes TIME_WAIT. -/
theorem ControlInv.total_step {k k' : Control} {e : Event} (h : ControlInv k)
    (hk : ControlStep k e k') :
    k'.total = k.total + if k.state ≠ .timeWait ∧ k'.state = .timeWait then 1 else 0 := by
  have hover := h.over_step hk
  have hfresh := hk.fresh_eq
  have hclosed : k.fresh = true → k.state = .closed := fun hf => (h.fresh hf).1
  rw [h.total_eq, (h.step hk).total_eq]
  cases h.edge hk with
  | inl he =>
    rw [he] at hfresh ⊢
    cases hfresh with
    | inl hf => simp [hf]
    | inr hs => simp [hs.1]
  | inr he =>
    generalize k.state = s at he hover hclosed
    generalize k'.state = s' at he hover hfresh
    cases he with
    | connect =>
      have hf : k.fresh = true := by
        by_contra hn
        have := hover rfl (Bool.not_eq_true _ ▸ hn)
        simp at this
      simp [hf]
    | timeout =>
      have hf : k'.fresh = false := by
        cases hfresh with
        | inl hf => simpa [hf] using hclosed
        | inr hs => simp at hs
      simp [hf]
    | _ => simp

theorem Edge.target {s s' : TcpState} (h : Edge s s') :
    s' ∉ [TcpState.listen, .closeWait, .closing, .lastAck] := by
  cases h <;> simp

structure Reached (k : Control) : Prop where
  inv : ControlInv k
  state : k.state ∉ [TcpState.listen, .closeWait, .closing, .lastAck]

theorem reached_step {c : Conn} (h : Reached c.control) (e : Event) :
    Reached (step c e).control := by
  cases control_step c e with
  | inl he =>
    rw [he]
    exact h
  | inr hk =>
    refine ⟨h.inv.step hk, ?_⟩
    cases h.inv.edge hk with
    | inl he =>
      rw [he]
      exact h.state
    | inr he => exact he.target

theorem reached_run {c : Conn} (h : Reached c.control) (es : List Event) :
    Reached (run step c es).control := by
  induction es generalizing c with
  | nil => exact h
  | cons e es ih => exact ih (reached_step h e)

theorem connectBlock_reached (self : Nat) (localPort remotePort : UInt16)
    (localIp remoteIp rand : UInt32) (msgs : List TcpMessage) :
    Reached (connectBlock self localPort remotePort localIp remoteIp rand msgs).control where
  inv :=
    { phase := .idle _ _
      closing := by simp [Conn.control, connectBlock]
      fresh := fun _ => ⟨rfl, rfl, rfl⟩
      timers := .before (by simp [Conn.control, connectBlock]) (fun _ => rfl) rfl rfl }
  state := by simp [Conn.control, connectBlock]

def Reachable (c : Conn) : Prop :=
  ∃ self localPort remotePort localIp remoteIp rand msgs es,
    c = run step (connectBlock self localPort remotePort localIp remoteIp rand msgs) es

theorem Reachable.reached {c : Conn} (h : Reachable c) : Reached c.control := by
  obtain ⟨self, localPort, remotePort, localIp, remoteIp, rand, msgs, es, rfl⟩ := h
  exact reached_run (connectBlock_reached self localPort remotePort localIp remoteIp rand msgs) es

theorem sampleOpen_reachable (iss : UInt32) (window : UInt16) : Reachable (sampleOpen iss window) :=
  ⟨1, 49155, 43211, 0x0400000a, 0x0a000005, iss, [], _, rfl⟩

theorem fresh_run {c : Conn} (h : c.fresh = false) (es : List Event) :
    (run step c es).fresh = false := by
  induction es generalizing c with
  | nil => exact h
  | cons e es ih =>
    refine ih ?_
    cases control_step c e with
    | inl he => exact (congrArg Control.fresh he).trans h
    | inr hk =>
      cases hk.fresh_eq with
      | inl he => exact he.trans h
      | inr hf => exact hf.2

theorem closed_run {c : Conn} (h : Reached c.control) (hs : c.tcb.state = .closed)
    (hf : c.fresh = false) (es : List Event) : (run step c es).tcb.state = .closed := by
  induction es generalizing c with
  | nil => exact hs
  | cons e es ih =>
    have hover : (step c e).tcb.state = .closed ∧ (step c e).fresh = false := by
      cases control_step c e with
      | inl he => exact ⟨(congrArg Control.state he).trans hs, (congrArg Control.fresh he).trans hf⟩
      | inr hk => exact h.inv.over_step hk hs hf
    exact ih (reached_step h e) hover.1 hover.2

section Idle
variable {c : Conn} (h : ControlInv c.control)
include h

theorem connect_idle (hs : c.tcb.state ≠ .closed) : connect c = c := by
  have hf : c.fresh = false := h.not_fresh hs
  simp [connect, hf]

theorem closeFin_idle (hs : c.tcb.state ≠ .finWait1) : closeFin c = c := by
  have hc : c.closing = false := by
    by_contra hn
    exact hs (h.closing (Bool.not_eq_false _ ▸ hn)).2.1
  simp [closeFin, hc]

theorem closeConnection_idle (hs : c.tcb.state ≠ .timeWait) : closeConnection c = c := by
  have ht : c.closeTimers = 0 := by
    by_contra hn
    exact hs (h.timer_state hn).1
  simp [closeConnection, ht]

end Idle

def Early (c : Conn) : Prop := c.fresh = true ∨ c.tcb.state = .synSent

theorem Early.state {c : Conn} (h : Early c) (hk : ControlInv c.control) :
    c.tcb.state = .closed ∨ c.tcb.state = .synSent := by
  cases h with
  | inl hf => exact Or.inl (hk.fresh hf).1
  | inr hs => exact Or.inr hs

theorem early_back {k k' : Control} {e : Event} (hk : ControlStep k e k')
    (h : k'.fresh = true ∨ k'.state = .synSent) : k.fresh = true ∨ k.state = .synSent := by
  cases hk with
  | connect hf => exact Or.inl hf
  | _ => simp_all

theorem early_of_step {c : Conn} (e : Event) (h : Early (step c e)) : Early c := by
  cases control_step c e with
  | inl he =>
    have hf : (step c e).fresh = c.fresh := congrArg Control.fresh he
    have hs : (step c e).tcb.state = c.tcb.state := congrArg Control.state he
    rw [Early, hf, hs] at h
    exact h
  | inr hk => exact early_back hk h

theorem Early.taken {c c' : Conn} (h : Early c) (hk : ControlInv c.control) {pkt : Packet}
    (ht : Taken c pkt c') : ¬ Early c' := by
  have hfresh (hs : c.tcb.state ≠ .closed) : c.fresh = false := hk.not_fresh hs
  have hsent (hs : c.tcb.state ≠ .closed) : c.tcb.state = .synSent := by
    cases h with
    | inl hf => simp [hfresh hs] at hf
    | inr hs => exact hs
  cases ht with
  | establish hs hf hu => simp [Early, synEstablish, hfresh (by simp [hs])]
  | cross hs hf hu => simp [Early, synCross, hfresh (by simp [hs])]
  | confirm hs hf ha => simp [hsent (by simp [hs])] at hs
  | ack hs hf => simp [hsent (by simp [hs])] at hs
  | finWait hs hf => simp [hsent (by simp [hs])] at hs

inductive EarlyStep (c : Conn) : Conn → Prop where
  | same : EarlyStep c c
  | connect (hf : c.fresh = true) : EarlyStep c (connect c)
  | sendRound (i : Nat) (alloc : Bool) : EarlyStep c (sendRound c i alloc)
  | recv (len : UInt32) : EarlyStep c (readBytes c len)
  | taken {c' : Conn} (pkt : Packet) (ht : Taken c pkt c') : EarlyStep c c'
  | unlock : EarlyStep c { c with rx := [], tcbLock := false }
  | retransmit : EarlyStep c (retransmit c)
  | lock : EarlyStep c { c with tcbLock := true }

theorem Early.step {c : Conn} (h : Early c) (hk : ControlInv c.control) (e : Event) :
    EarlyStep c (step c e) := by
  have hstate := h.state hk
  have hne : c.tcb.state ≠ .established ∧ c.tcb.state ≠ .finWait1 ∧ c.tcb.state ≠ .timeWait := by
    cases hstate with
    | inl hs => simp [hs]
    | inr hs => simp [hs]
  have hid {e : Event} (he : AnpNetstack.step c e = c) : EarlyStep c (AnpNetstack.step c e) := by
    rw [he]
    exact .same
  cases e with
  | connect =>
    by_cases hf : c.fresh = true
    · exact .connect hf
    · exact hid (by simp only [AnpNetstack.step, AnpNetstack.connect, hf, if_false,
        Bool.false_eq_true])
  | send buf => exact hid (by simp only [AnpNetstack.step, send, hne.1, if_false])
  | sendRound i alloc => exact .sendRound i alloc
  | recv len => exact .recv len
  | segment pkt =>
    simp only [AnpNetstack.step]
    split_ifs
    · cases tcpRxSwitch_cases c pkt with
      | inl he =>
        rw [he]
        exact .same
      | inr ht =>
        obtain ⟨c', he, -, -, ht⟩ := ht
        rw [he]
        exact .taken pkt ht
    · exact .same
  | rxStep =>
    have hp : RxPhase c.tcb.state c.tcbLock c.rx := hk.phase
    cases hp.early hstate with
    | inl hx => exact hid (rxStep_nil hx)
    | inr hx =>
      have he : AnpNetstack.step c .rxStep = { c with rx := [], tcbLock := false } :=
        rxStep_unlock hx
      rw [he]
      exact .unlock
  | retransmit => exact .retransmit
  | close =>
    simp only [AnpNetstack.step, close, hne.1, if_false]
    split_ifs
    · exact .same
    · exact .lock
  | closeFin => exact hid (closeFin_idle hk hne.2.1)
  | closeTimer => exact hid (closeConnection_idle hk hne.2.2)

theorem tcpRxSwitch_closed {c : Conn} (hs : c.tcb.state = .closed) (pkt : Packet) :
    tcpRxSwitch c pkt = c := by
  unfold tcpRxSwitch
  split_ifs
  · rfl
  · simp only [hs]

theorem tcpRx_closed {c : Conn} (hs : c.tcb.state = .closed) (hx : c.rx = []) (pkt : Packet) :
    tcpRx c pkt = c := by
  rw [tcpRx, tcpRxSwitch_closed hs pkt]
  exact Function.iterate_fixed (rxStep_nil hx) 7

/-- timer_oneshot is called in TIME_WAIT only. -/
theorem ControlInv.scheduled_step {k k' : Control} {e : Event} (h : ControlInv k)
    (hk : ControlStep k e k') (hn : k'.scheduled ≠ k.scheduled) : k.state = .timeWait := by
  have hp := h.phase
  cases hk with
  | timer rest hx =>
    rw [hx] at hp
    exact hp.of_timer.1
  | _ => exact absurd rfl hn

/-- A whole life: handshake, close, the peer's FIN and the timer. -/
example :
    let c := run step (connectBlock 1 49155 43211 0x0400000a 0x0a000005 1000 [])
      [.connect, .segment (samplePeer 5000 1001 tcpSynAck 1000 []), .rxStep, .rxStep,
        .close, .closeFin, .segment (samplePeer 5001 1002 tcpFinAck 1000 []), .rxStep, .rxStep,
          .rxStep, .rxStep, .rxStep,
        .closeTimer]
    c.tcb.state = .closed ∧ c.scheduled = 1 := by
  decide +kernel

end AnpNetstack
