import AnpNetstack.StateMachine

/-! tcp_rx run to its end without other threads in between, as a run of the machine: it
always comes to rest, and in ESTABLISHED only the switch touches the send side. -/
namespace AnpNetstack
open Runs

def actRank : RxAct → Nat
  | .tx _ _ => 1
  | .text _ => 2
  | .fin _ => 4
  | .unlock => 1
  | .timer => 1

def rxRank (acts : List RxAct) : Nat := (acts.map actRank).sum

theorem rxRank_cons (a : RxAct) (acts : List RxAct) :
    rxRank (a :: acts) = actRank a + rxRank acts := by
  simp [rxRank]

theorem rxRank_rxStep {c : Conn} (h : c.rx ≠ []) : rxRank (rxStep c).rx < rxRank c.rx := by
  cases hx : c.rx with
  | nil => exact absurd hx h
  | cons a rest =>
    rw [rxRank_cons]
    cases a with
    | tx flags retries =>
      have hr : (rxStep c).rx = rest := by
        rw [rxStep_tx hx]
        exact congrArg Control.rx (control_tcpTxEmpty { c with rx := rest } flags retries)
      rw [hr, actRank]
      omega
    | text pkt =>
      have hle : rxRank (rxText c pkt rest).rx ≤ 1 + rxRank rest := by
        have hstep := rxText_step c pkt rest
        generalize rxText c pkt rest = c' at hstep ⊢
        cases hstep with
        | none hz => exact Nat.le_add_left _ _
        | outOfOrder hz hseq => exact Nat.zero_le _
        | stored hz hseq =>
          dsimp only
          split_ifs
          · exact Nat.le_of_eq (rxRank_cons _ _)
          · exact Nat.le_add_left _ _
      rw [rxStep_text hx, actRank]
      omega
    | fin pkt =>
      have hle : rxRank (rxFin c pkt).rx ≤ 3 := by
        have hstep := rxFin_step c pkt
        generalize rxFin c pkt = c' at hstep ⊢
        cases hstep with
        | dropped hs => exact Nat.zero_le 3
        | taken hf hw => exact Nat.le_refl 3
        | ignored hf hw => exact Nat.zero_le 3
        | noFin hf => exact Nat.le_of_ble_eq_true rfl
      rw [rxStep_fin hx, actRank]
      omega
    | unlock =>
      rw [rxStep_unlock hx, actRank]
      dsimp only
      omega
    | timer =>
      rw [rxStep_timer hx, actRank]
      dsimp only
      omega

theorem rxStep_iterate_rx {c : Conn} {n : Nat} (h : rxRank c.rx ≤ n) : (rxStep^[n] c).rx = [] := by
  induction n generalizing c with
  | zero =>
    cases hx : c.rx with
    | nil => exact hx
    | cons a rest =>
      rw [hx, rxRank_cons] at h
      cases a <;> simp [actRank] at h
  | succ n ih =>
    rw [Function.iterate_succ_apply]
    by_cases hx : c.rx = []
    · rw [rxStep_nil hx]
      exact ih (by rw [hx]; exact Nat.zero_le n)
    · have hlt := rxRank_rxStep hx
      exact ih (by omega)

/-- Seven acts are always enough. -/
theorem tcpRx_rx {c : Conn} (hx : c.rx = []) (pkt : Packet) : (tcpRx c pkt).rx = [] := by
  refine rxStep_iterate_rx ?_
  cases tcpRxSwitch_cases c pkt with
  | inl he =>
    rw [he, hx]
    exact Nat.zero_le 7
  | inr ht =>
    obtain ⟨c', he, -, -, ht⟩ := ht
    rw [he]
    cases ht with
    | establish hs hf hu => exact Nat.le_of_ble_eq_true rfl
    | cross hs hf hu => exact Nat.le_of_ble_eq_true rfl
    | confirm hs hf ha => exact Nat.le_of_ble_eq_true rfl
    | ack hs hf => exact Nat.le_of_ble_eq_true rfl
    | finWait hs hf => exact Nat.le_of_ble_eq_true rfl

theorem rxStep_iterate_eq_run (c : Conn) (n : Nat) :
    rxStep^[n] c = run step c (List.replicate n .rxStep) := by
  induction n generalizing c with
  | zero => rfl
  | succ n ih =>
    rw [Function.iterate_succ_apply, List.replicate_succ]
    exact ih (rxStep c)

theorem tcpRx_eq_run {c : Conn} (hx : c.rx = []) (pkt : Packet) :
    tcpRx c pkt = run step (step c (.segment pkt)) (List.replicate 7 .rxStep) := by
  have hseg : step c (.segment pkt) = tcpRxSwitch c pkt := by simp [step, hx]
  rw [hseg, tcpRx, rxStep_iterate_eq_run]

theorem reached_tcpRx {c : Conn} (h : Reached c.control) (hx : c.rx = []) (pkt : Packet) :
    Reached (tcpRx c pkt).control := by
  rw [tcpRx_eq_run hx]
  exact reached_run (reached_step h (.segment pkt)) (List.replicate 7 .rxStep)

theorem tcpRx_dropped {c : Conn} (hx : c.rx = []) {pkt : Packet} (h : tcpRxSwitch c pkt = c) :
    tcpRx c pkt = c := by
  rw [tcpRx, h]
  exact Function.iterate_fixed (rxStep_nil hx) 7

/-- An answer without text, after which tcb_lock is given up. -/
theorem rxStep_iterate_answer {c : Conn} {flags : UInt8} {retries : Int}
    (hx : c.rx = [.tx flags retries, .unlock]) :
    rxStep^[7] c =
      { tcpTxEmpty { c with rx := [.unlock] } flags retries with rx := [], tcbLock := false } := by
  set d := tcpTxEmpty { c with rx := [.unlock] } flags retries with hd
  have h1 : rxStep c = d := rxStep_tx hx
  have hdx : d.rx = [.unlock] :=
    congrArg Control.rx (control_tcpTxEmpty { c with rx := [.unlock] } flags retries)
  have h2 : rxStep d = { d with rx := [], tcbLock := false } := rxStep_unlock hdx
  have h3 : rxStep { d with rx := [], tcbLock := false } = { d with rx := [], tcbLock := false } :=
    rxStep_nil rfl
  rw [Function.iterate_succ_apply, Function.iterate_succ_apply, h1, h2]
  exact Function.iterate_fixed h3 5

/-- The last acts of a connection: the ACK for the peer's FIN and the timer. -/
theorem rxStep_iterate_last {c : Conn} {flags : UInt8} {retries : Int}
    (hx : c.rx = [.tx flags retries, .unlock, .timer]) :
    rxStep^[5] c =
      { tcpTxEmpty { c with rx := [.unlock, .timer] } flags retries with
        rx := [], tcbLock := false
        closeTimers := c.closeTimers + 1, scheduled := c.scheduled + 1 } := by
  set d := tcpTxEmpty { c with rx := [.unlock, .timer] } flags retries with hd
  have hk : d.control = Conn.control { c with rx := [.unlock, .timer] } := control_tcpTxEmpty ..
  have hdx : d.rx = [.unlock, .timer] := congrArg Control.rx hk
  have hdt : d.closeTimers = c.closeTimers := congrArg Control.closeTimers hk
  have hds : d.scheduled = c.scheduled := congrArg Control.scheduled hk
  have h1 : rxStep c = d := rxStep_tx hx
  have h2 : rxStep d = { d with rx := [.timer], tcbLock := false } := rxStep_unlock hdx
  have h3 : rxStep { d with rx := [.timer], tcbLock := false } =
      { d with rx := [], tcbLock := false
               closeTimers := d.closeTimers + 1, scheduled := d.scheduled + 1 } := rxStep_timer rfl
  rw [Function.iterate_succ_apply, Function.iterate_succ_apply,
    Function.iterate_succ_apply, h1, h2, h3, hdt, hds]
  exact Function.iterate_fixed (rxStep_nil rfl) 2

section TextFree
variable {c : Conn} {pkt : Packet} (hx : c.rx = [.text pkt, .fin pkt]) (ht : segmentLen pkt = 0)
  (hs : ¬ (c.tcb.state = .closed ∨ c.tcb.state = .synSent))
include hx ht

theorem rxStep_iterate_textFree :
    rxStep^[7] c = rxStep^[5] (rxFin { c with rx := [.fin pkt] } pkt) := by
  have h1 : rxStep c = { c with rx := [.fin pkt] } := by
    rw [rxStep_text hx, rxText, if_pos ht]
  have h2 : rxStep { c with rx := [.fin pkt] } = rxFin { c with rx := [.fin pkt] } pkt :=
    rxStep_fin rfl
  rw [Function.iterate_succ_apply, Function.iterate_succ_apply, h1, h2]

include hs

/-- A segment with neither text nor FIN leaves only tcb_lock to be given up. -/
theorem rxStep_iterate_plain (hf : hasFlag pkt.tcp.hdr.flags tcpFin = false) :
    rxStep^[7] c = { c with rx := [], tcbLock := false } := by
  have hfin : rxFin { c with rx := [.fin pkt] } pkt = { c with rx := [.unlock] } := by
    simp only [rxFin, hs, hf, if_false, Bool.false_eq_true]
  have h3 : rxStep { c with rx := [.unlock] } = { c with rx := [], tcbLock := false } :=
    rxStep_unlock rfl
  rw [rxStep_iterate_textFree hx ht, hfin, Function.iterate_succ_apply, h3]
  exact Function.iterate_fixed (rxStep_nil rfl) 4

end TextFree

section Established
variable {α : Type*} (f : Tcb → α)
  (hf : ∀ (tcb : Tcb) buff nxt len,
    f { tcb with rcvBuff := buff, rcvNxt := nxt, rcvBuffLen := len } = f tcb)
include hf

/-- In ESTABLISHED the acts after the switch change nothing but the receive buffer. -/
theorem rxStep_frame {c : Conn} (hk : ControlInv c.control) (hs : c.tcb.state = .established) :
    f (rxStep c).tcb = f c.tcb := by
  cases hx : c.rx with
  | nil => rw [rxStep_nil hx]
  | cons a rest =>
    cases a with
    | tx flags retries =>
      have hp : RxPhase c.tcb.state c.tcbLock c.rx := hk.phase
      rw [hx] at hp
      obtain ⟨rfl, rfl⟩ := hp.tx_ack (by simp [hs])
      have hctl : ctlLen tcpAck = 0 := by decide
      rw [rxStep_tx hx, tcpTxEmpty_eq _ _ (by decide), txSegment_eq]
      dsimp only
      rw [hctl, UInt32.add_zero, UInt32.add_zero]
    | text pkt =>
      rw [rxStep_text hx]
      have hstep := rxText_step c pkt rest
      generalize rxText c pkt rest = c' at hstep ⊢
      cases hstep with
      | none hz => rfl
      | outOfOrder hz hseq => rfl
      | stored hz hseq => exact saveDataAndAck_frame f hf c.tcb pkt.tcp.data (segmentLen pkt)
    | fin pkt =>
      rw [rxStep_fin hx]
      have hstep := rxFin_step c pkt
      generalize rxFin c pkt = c' at hstep ⊢
      cases hstep with
      | dropped hs => rfl
      | taken hfin hw => simp [hs] at hw
      | ignored hfin hw => exact hf c.tcb c.tcb.rcvBuff (c.tcb.rcvNxt + 1) c.tcb.rcvBuffLen
      | noFin hfin => rfl
    | unlock => rw [rxStep_unlock hx]
    | timer => rw [rxStep_timer hx]

theorem rxStep_iterate_frame {c : Conn} (hk : Reached c.control) (hs : c.tcb.state = .established)
    (n : Nat) : f (rxStep^[n] c).tcb = f c.tcb := by
  induction n generalizing c with
  | zero => rfl
  | succ n ih =>
    have hstate := rxStep_frame Tcb.state (fun _ _ _ _ => rfl) hk.inv hs
    rw [Function.iterate_succ_apply]
    exact (ih (reached_step hk .rxStep) (hstate.trans hs)).trans (rxStep_frame f hf hk.inv hs)

end Established

end AnpNetstack
