import AnpNetstack.BlockingCalls
import AnpNetstack.ReceiveCount

/-! When a call that waits on tcb_cond comes back too early. connect, read_bytes and close test
once and wait once, on one condition for all three; so each depends on being woken up by the
signal that is meant for it, and on nobody being faster between the signal and its return. -/
namespace AnpNetstack
open Runs

/-- A return that the call was made for. A connect that has got no block does not wait. -/
def Justified (r : Returned) : Prop :=
  match r.call with
  | .connect => r.slept = true →
      r.value = 0 ∧ r.state = .established ∨ r.value = -1 ∧ r.exhausted = true
  | .recv len => 0 < len → r.value = 0 → 0 < r.fins
  | .close => r.state = .closed

/-- Whom a signal concerns. When the state is CLOSED the peer's FIN has come, and there is
nothing more to read. -/
def meant : Signal → Waiter → Bool
  | .established, .connect => true
  | .exhausted, .connect => true
  | .data, .recv _ => true
  | .closed, .close => true
  | .closed, .recv _ => true
  | _, _ => false

def requested : Waiter → Option Nat
  | .recv len => some len
  | _ => none

def isClose : Event → Bool
  | .close => true
  | _ => false

def LeavesText (s : Calls) (len : Nat) (others : List Sleeper) : Prop :=
  (∃ x ∈ others, x.woken = true ∧ (requested x.call).isSome = true) →
    UInt32.ofNat len < s.conn.tcb.rcvBuffLen ∨ 0 < s.conn.fins.length

/-- A signal wakes only calls it is meant for and nothing else wakes any; between its wake-up
and its return nobody closes the connection under a connect or takes all the text from a
recv; and the length of a recv fits a uint32_t as far as being 0 goes. -/
def Undisturbed (s : Calls) : CallEvent → Prop
  | .block e woken =>
    (∀ sig ∈ signalled s.conn e, ∀ i ∈ woken, ∀ x ∈ s.sleepers[i]?, meant sig x.call = true) ∧
      (isClose e = true → s.exhausted = true ∨
        ∀ x ∈ s.sleepers, x.call = .connect → x.woken = false)
  | .connect _ => True
  | .recv len => (UInt32.ofNat len = 0 → len = 0) ∧ LeavesText s len s.sleepers
  | .spurious _ => False
  | .resume i => ∀ x ∈ s.sleepers[i]?, x.woken = true → ∀ len ∈ requested x.call,
      LeavesText s len (s.sleepers.eraseIdx i)

instance (s : Calls) (len : Nat) (others : List Sleeper) : Decidable (LeavesText s len others) :=
  inferInstanceAs (Decidable ((∃ x ∈ others,
    x.woken = true ∧ (requested x.call).isSome = true) → _))

instance (s : Calls) : (e : CallEvent) → Decidable (Undisturbed s e)
  | .block e _ => inferInstanceAs (Decidable ((∀ sig ∈ signalled s.conn e, _) ∧
      (isClose e = true → _ ∨ ∀ x ∈ s.sleepers, _)))
  | .connect _ => inferInstanceAs (Decidable True)
  | .recv len => inferInstanceAs (Decidable (_ ∧ LeavesText s len s.sleepers))
  | .spurious _ => inferInstanceAs (Decidable False)
  | .resume i => inferInstanceAs (Decidable (∀ x ∈ s.sleepers[i]?, _ → ∀ len ∈ requested x.call, _))

section Conn
variable {c : Conn}

theorem fins_step (c : Conn) (e : Event) : c.fins.length ≤ (step c e).fins.length := by
  have hside := recv_step c e
  generalize step c e = c' at hside ⊢
  cases hside with
  | fin pkt rest hx hf h =>
    have hfins : c'.fins = _ := congrArg RecvSide.fins h
    rw [hfins, List.length_append]
    exact Nat.le_add_right _ _
  | quiet h | syn pkt hs h | read len n hl hn h | stored pkt rest hx hlen hseq h =>
    have hfins : c'.fins = c.fins := congrArg RecvSide.fins h
    rw [hfins]

theorem text_kept (hb : c.tcb.rcvBuffLen ≤ tcpRcvMax) (hne : c.tcb.rcvBuffLen ≠ 0) {e : Event}
    (he : ∀ len, e ≠ .recv len) : (step c e).tcb.rcvBuffLen ≠ 0 := by
  have hside := recv_step c e
  generalize step c e = c' at hside ⊢
  cases hside with
  | read len n hl hn h => exact absurd rfl (he len)
  | stored pkt rest hx hlen hseq h =>
    have hlen' : c'.tcb.rcvBuffLen = _ := congrArg RecvSide.rcvBuffLen h
    have hn := finalCopySize_toNat c.tcb (segmentLen pkt) hb
    have hm : tcpRcvMax.toNat = 65535 := rfl
    rw [UInt32.le_iff_toNat_le] at hb
    rw [hlen', ← UInt32.toNat_inj.ne, UInt32.toNat_add]
    rw [← UInt32.toNat_inj.ne] at hne
    simp only [UInt32.toNat_zero] at hne ⊢
    omega
  | quiet h | syn pkt hs h | fin pkt rest hx hf h =>
    have hlen' : c'.tcb.rcvBuffLen = c.tcb.rcvBuffLen := congrArg RecvSide.rcvBuffLen h
    rw [hlen']
    exact hne

theorem established_step (hk : Reached c.control) (hs : c.tcb.state = .established) {e : Event}
    (he : isClose e = false) : (step c e).tcb.state = .established := by
  have hs' : c.control.state = .established := hs
  cases control_step c e with
  | inl heq => exact (congrArg Control.state heq).trans hs
  | inr hstep =>
    have hnew : (step c e).tcb.state = (step c e).control.state := rfl
    rw [hnew]
    generalize (step c e).control = k' at hstep
    cases hstep with
    | connect hf => simp [hk.inv.not_fresh (by simp [hs'])] at hf
    | close hl hs => simp [isClose] at he
    | closeTimer ht hl =>
      have hwait := (hk.inv.timer_state ht).1
      simp [hs'] at hwait
    | finTaken pkt rest hx hs => simp [hs'] at hs
    | establish hx hl hs | cross hx hl hs | confirm pkt hx hl hs | finWait pkt hx hl hs =>
      simp [hs'] at hs
    | _ => exact hs'

structure ReadInv (c : Conn) : Prop where
  reached : Reached c.control
  phase : RecvPhase c
  stored : ∀ flags retries pkt, c.rx = [.tx flags retries, .fin pkt] → c.tcb.rcvBuffLen ≠ 0
  fins : Ending c.control → 0 < c.fins.length

/-- tcp_rx acknowledges text only when it has stored some. -/
theorem rxText_acked (hb : c.tcb.rcvBuffLen ≤ tcpRcvMax) {pkt : Packet} {flags : UInt8}
    {retries : Int} {rest : List RxAct}
    (hx : (rxText c pkt [.fin pkt]).rx = .tx flags retries :: rest) :
    (rxText c pkt [.fin pkt]).tcb.rcvBuffLen ≠ 0 := by
  have hstep := rxText_step c pkt [.fin pkt]
  generalize rxText c pkt [.fin pkt] = c' at hstep hx ⊢
  cases hstep with
  | none hz => simp at hx
  | outOfOrder hz hseq => simp at hx
  | stored hz hseq =>
    have hlen := saveDataAndAck_buffLen c.tcb pkt.tcp.data (segmentLen pkt) hb
    have hpos : 0 < (finalCopySize c.tcb (segmentLen pkt)).toNat := by
      by_contra hn
      have hnot : ¬ finalCopySize c.tcb (segmentLen pkt) > 0 := by
        simpa [UInt32.lt_iff_toNat_lt] using hn
      simp [saveDataAndAck, hnot] at hx
    rw [← UInt32.toNat_inj.ne, hlen, UInt32.toNat_zero]
    omega

theorem RxPhase.acked {s : TcpState} {lock : Bool} {flags : UInt8} {retries : Int} {pkt : Packet}
    (h : RxPhase s lock [.tx flags retries, .fin pkt]) : lock = true := by
  cases h with
  | stored pkt hs => rfl

theorem RxPhase.tx_once {s : TcpState} {lock : Bool} {flags flags' : UInt8} {retries retries' : Int}
    {rest : List RxAct} (h : RxPhase s lock (.tx flags retries :: .tx flags' retries' :: rest)) :
    False := by
  cases h

theorem ReadInv.stored_kept (h : ReadInv c) (e : Event) {flags : UInt8} {retries : Int}
    {pkt : Packet} (hx : c.rx = [.tx flags retries, .fin pkt]) : (step c e).tcb.rcvBuffLen ≠ 0 := by
  have hp : RxPhase c.tcb.state c.tcbLock c.rx := h.reached.inv.phase
  have hne := h.stored flags retries pkt hx
  by_cases he : ∃ len, e = .recv len
  · obtain ⟨len, rfl⟩ := he
    rw [hx] at hp
    simpa [step, readBytes, hp.acked] using hne
  · exact text_kept h.phase.buff hne (fun len hlen => he ⟨len, hlen⟩)

theorem ReadInv.stored_step (h : ReadInv c) (e : Event) {flags : UInt8} {retries : Int}
    {pkt : Packet} (hx : (step c e).rx = [.tx flags retries, .fin pkt]) :
    (step c e).tcb.rcvBuffLen ≠ 0 := by
  have hp : RxPhase c.tcb.state c.tcbLock c.rx := h.reached.inv.phase
  have htext {pkt' : Packet} {rest : List RxAct} (hold : c.rx = .text pkt' :: rest)
      (hx : (step c .rxStep).rx = [.tx flags retries, .fin pkt]) :
      (step c .rxStep).tcb.rcvBuffLen ≠ 0 := by
    rw [hold] at hp
    obtain ⟨-, -, rfl⟩ := hp.of_text
    simp only [step, rxStep_text hold] at hx ⊢
    exact rxText_acked h.phase.buff hx
  cases control_step c e with
  | inl he => exact h.stored_kept e ((congrArg Control.rx he).symm.trans hx)
  | inr hstep =>
    have hx' : (step c e).control.rx = [.tx flags retries, .fin pkt] := hx
    generalize (step c e).control = k' at hstep hx'
    cases hstep with
    | connect hf => exact h.stored_kept _ hx'
    | close hl hs => exact h.stored_kept _ hx'
    | closeFails hl => exact h.stored_kept _ hx'
    | closeFin hc => exact h.stored_kept _ hx'
    | closeTimer ht hl => exact h.stored_kept _ hx'
    | tx flags' retries' rest hold =>
      have hold' : c.rx = .tx flags' retries' :: rest := hold
      rw [hold', show rest = _ from hx'] at hp
      exact hp.tx_once.elim
    | textSkipped pkt' rest hold => exact htext hold hx
    | outOfOrder pkt' rest hold => exact htext hold hx
    | stored pkt' rest hold => exact htext hold hx
    | unlock rest hold =>
      have hold' : c.rx = .unlock :: rest := hold
      rw [hold'] at hp
      cases hp.of_unlock <;> simp_all
    | timer rest hold =>
      have hold' : c.rx = .timer :: rest := hold
      rw [hold'] at hp
      simp [hp.of_timer.2] at hx'
    | _ => simp at hx'

theorem rxFin_timeWait {pkt : Packet} (hold : c.tcb.state ≠ .timeWait)
    (hnew : (rxFin c pkt).tcb.state = .timeWait) : 0 < (rxFin c pkt).fins.length := by
  have hstep := rxFin_step c pkt
  generalize rxFin c pkt = c' at hstep hnew ⊢
  cases hstep with
  | dropped hs => exact absurd hnew hold
  | taken hf hw => simp
  | ignored hf hw => exact absurd hnew hold
  | noFin hf => exact absurd hnew hold

theorem ReadInv.fins_step (h : ReadInv c) (e : Event) (hend : Ending (step c e).control) :
    0 < (step c e).fins.length := by
  have hold (hend : Ending c.control) : 0 < (step c e).fins.length :=
    lt_of_lt_of_le (h.fins hend) (AnpNetstack.fins_step c e)
  cases control_step c e with
  | inl he => exact hold (he ▸ hend)
  | inr hstep =>
    generalize hk : (step c e).control = k' at hstep hend
    cases hstep with
    | finTaken pkt rest hx hs =>
      have he : step c .rxStep = rxFin c pkt := rxStep_fin hx
      have hold : c.tcb.state ≠ .timeWait := fun hw => by
        simp [show c.control.state = _ from hw] at hs
      have hnew : (rxFin c pkt).tcb.state = .timeWait := he ▸ congrArg Control.state hk
      rw [he]
      exact rxFin_timeWait hold hnew
    | closeTimer ht hl => exact hold (Or.inl (h.reached.inv.timer_state ht).1)
    | connect hf => simp [Ending] at hend
    | close hl hs => simp [Ending] at hend
    | establish hx hl hs => simp [Ending] at hend
    | cross hx hl hs => simp [Ending] at hend
    | confirm pkt hx hl hs => simp [Ending] at hend
    | finWait pkt hx hl hs => simp [Ending] at hend
    | _ => exact hold hend

theorem ReadInv.step (h : ReadInv c) (e : Event) : ReadInv (step c e) where
  reached := reached_step h.reached e
  phase := h.phase.step h.reached.inv e
  stored := fun _ _ _ hx => h.stored_step e hx
  fins := h.fins_step e

/-- When tcb_cond is signalled, what the signal announces is so. -/
theorem tx_state (c : Conn) (rest : List RxAct) (flags : UInt8) (retries : Int) :
    (tcpTxEmpty { c with rx := rest } flags retries).tcb.state = c.tcb.state :=
  congrArg Control.state (control_tcpTxEmpty { c with rx := rest } flags retries)

def Announced (c : Conn) : Signal → Prop
  | .established => c.tcb.state = .established
  | .data => c.tcb.rcvBuffLen ≠ 0
  | .exhausted => True
  | .closed => Over c

theorem ReadInv.announced (h : ReadInv c) {e : Event} {sig : Signal}
    (hsig : signalled c e = some sig) :
    Announced (AnpNetstack.step c e) sig := by
  have hp : RxPhase c.tcb.state c.tcbLock c.rx := h.reached.inv.phase
  cases signal_at hsig with
  | reply flags retries hx hs =>
    simp only [Announced, AnpNetstack.step, rxStep_tx hx]
    exact (tx_state c _ flags retries).trans hs
  | confirm flags retries pkt rest hx =>
    rw [hx] at hp
    have hs : c.tcb.state = .established := by
      generalize c.tcb.state = s at hp
      generalize c.tcbLock = lock at hp
      cases hp with
      | confirm pkt => rfl
    simp only [Announced, AnpNetstack.step, rxStep_tx hx]
    exact (tx_state c _ flags retries).trans hs
  | stored flags retries pkt hx => exact h.stored_kept .rxStep hx
  | full pkt rest hx hlen hn =>
    have hb := h.phase.buff
    have hfull : c.tcb.rcvBuffLen ≠ 0 := by
      intro hz
      have hsize := finalCopySize_toNat c.tcb (segmentLen pkt) hb
      have hm : tcpRcvMax.toNat = 65535 := rfl
      rw [hn, hz] at hsize
      rw [← UInt32.toNat_inj.ne] at hlen
      simp only [UInt32.toNat_zero] at hsize hlen
      omega
    exact text_kept hb hfull (by simp)
  | exhausted entry hentry hexp => trivial
  | closed ht hl =>
    have hs := (h.reached.inv.timer_state ht).1
    have hrun : ¬ (c.closeTimers = 0 ∨ c.tcbLock = true) := by simp [ht, hl]
    simp only [Announced, Over, AnpNetstack.step, closeConnection, hrun, if_false, true_and]
    exact h.reached.inv.not_fresh (by simp [hs])

end Conn

def Met (s : Calls) : Waiter → Prop
  | .connect => s.conn.tcb.state = .established ∨ s.exhausted = true
  | .recv _ => s.conn.tcb.rcvBuffLen ≠ 0 ∨ 0 < s.conn.fins.length
  | .close => Over s.conn

structure WakeInv (s : Calls) : Prop where
  read : ReadInv s.conn
  awake : ∀ x ∈ s.sleepers, x.woken = true → Met s x.call
  len : ∀ x ∈ s.sleepers, ∀ len, x.call = .recv len → UInt32.ofNat len = 0 → len = 0

section Met
variable {s : Calls}

/-- An event of the connection spoils what a call waits for only when it is a close. -/
theorem WakeInv.met_step (h : WakeInv s) {s' : Calls} {e : Event} (hconn : s'.conn = step s.conn e)
    (hex : s.exhausted = true → s'.exhausted = true) (he : ∀ len, e ≠ .recv len) {call : Waiter}
    (hclose : call = .connect → isClose e = true → s.exhausted = true) (hm : Met s call) :
    Met s' call := by
  cases call with
  | connect =>
    by_cases he : isClose e = true
    · exact Or.inr (hex (hclose rfl he))
    · cases hm with
      | inl hs =>
        have hs' := established_step h.read.reached hs (by simpa using he)
        exact Or.inl (hconn ▸ hs')
      | inr hx => exact Or.inr (hex hx)
  | recv len =>
    cases hm with
    | inl hb => exact Or.inl (hconn ▸ text_kept h.read.phase.buff hb he)
    | inr hf => exact Or.inr (hconn ▸ lt_of_lt_of_le hf (fins_step s.conn e))
  | close =>
    have hover : Over (step s.conn e) := Over.step hm h.read.reached e
    rw [← hconn] at hover
    exact hover

/-- A signal that is meant for a call gives it what it waits for. -/
theorem WakeInv.met_signal (h : WakeInv s) {e : Event} {woken : List Nat}
    (ht : takesPlace s.sock e = true) {sig : Signal} (hsig : signalled s.conn e = some sig)
    {call : Waiter} (hm : meant sig call = true) :
    Met (callStep s (.block e woken)) call := by
  have hnow := h.read.announced hsig
  simp only [callStep, ht, if_true]
  cases sig with
  | established =>
    cases call with
    | connect => exact Or.inl hnow
    | recv len => simp [meant] at hm
    | close => simp [meant] at hm
  | data =>
    cases call with
    | connect => simp [meant] at hm
    | recv len => exact Or.inl hnow
    | close => simp [meant] at hm
  | exhausted =>
    cases call with
    | connect => exact Or.inr (by simp [hsig])
    | recv len => simp [meant] at hm
    | close => simp [meant] at hm
  | closed =>
    cases call with
    | connect => simp [meant] at hm
    | recv len => exact Or.inr ((h.read.step e).fins (Or.inr hnow))
    | close => exact hnow

theorem readReturn_buffLen (hl : s.conn.tcbLock = false) {len : Nat} {slept : Bool} :
    (readReturn s len slept).conn.tcb.rcvBuffLen =
      s.conn.tcb.rcvBuffLen - readableSize s.conn.tcb (UInt32.ofNat len) := by
  simp [readReturn, Calls.ret, readBytes, hl]

theorem readableSize_toNat (tcb : Tcb) (n : UInt32) :
    (readableSize tcb n).toNat = min n.toNat tcb.rcvBuffLen.toNat := by
  rw [readableSize, anpMin_toNat]
  split_ifs with h
  · rw [UInt32.lt_iff_toNat_lt] at h
    omega
  · rfl

theorem readableSize_of_lt {tcb : Tcb} {n : UInt32} (h : n < tcb.rcvBuffLen) :
    readableSize tcb n = n := by
  rw [UInt32.lt_iff_toNat_lt] at h
  rw [← UInt32.toNat_inj, readableSize_toNat]
  omega

/-- A read that leaves text behind, or comes after the FIN, spoils nothing. -/
theorem met_read (hl : s.conn.tcbLock = false) {len : Nat} (slept : Bool) {call : Waiter}
    (hleft : (requested call).isSome = true →
      UInt32.ofNat len < s.conn.tcb.rcvBuffLen ∨ 0 < s.conn.fins.length)
    (hm : Met s call) : Met (readReturn s len slept) call := by
  have hk : (readBytes s.conn (UInt32.ofNat len)).control = s.conn.control :=
    control_readBytes s.conn (UInt32.ofNat len)
  have hfins : (readBytes s.conn (UInt32.ofNat len)).fins = s.conn.fins := by
    simp [readBytes, hl]
  cases call with
  | connect =>
    cases hm with
    | inl hs => exact Or.inl ((congrArg Control.state hk).trans hs)
    | inr hx => exact Or.inr hx
  | recv n =>
    cases hleft rfl with
    | inl hlt =>
      have hr := readableSize_of_lt hlt
      refine Or.inl ?_
      rw [readReturn_buffLen hl, hr, ← UInt32.toNat_inj.ne,
        UInt32.toNat_sub_of_le _ _ (UInt32.le_of_lt hlt)]
      rw [UInt32.lt_iff_toNat_lt] at hlt
      simp only [UInt32.toNat_zero]
      omega
    | inr hf => exact Or.inr (hfins ▸ hf)
  | close => exact ⟨(congrArg Control.state hk).trans hm.1, (congrArg Control.fresh hk).trans hm.2⟩

end Met

section Step
variable {s : Calls}

/-- The other calls that are awake keep what they wait for when one reads. -/
theorem WakeInv.met_others (h : WakeInv s) (hl : s.conn.tcbLock = false) {len : Nat} (slept : Bool)
    {others : List Sleeper} (hsub : ∀ x ∈ others, x ∈ s.sleepers) (hleft : LeavesText s len others)
    {x : Sleeper} (hx : x ∈ others) (hw : x.woken = true) :
    Met (readReturn s len slept) x.call :=
  met_read hl slept (fun hr => hleft ⟨x, hx, hw, hr⟩) (h.awake x (hsub x hx) hw)

theorem WakeInv.awake_step (h : WakeInv s) (e : CallEvent) (hc : Undisturbed s e) :
    ∀ x ∈ (callStep s e).sleepers, x.woken = true → Met (callStep s e) x.call := by
  intro x hx hw
  have hstep := calls_step s e
  generalize hs' : callStep s e = s' at hx hstep ⊢
  cases hstep with
  | same => exact h.awake x hx hw
  | block e woken ht =>
    rw [← hs']
    cases List.mem_append.mp hx with
    | inl hx =>
      obtain hx | ⟨sig, hsig, i, hi, y, hy, rfl⟩ := mem_sleepers hx
      · have hread : ∀ len, e ≠ .recv len := by
          rintro len rfl
          simp [takesPlace] at ht
        refine h.met_step (by rw [hs']) (by simp +contextual [hs']) hread (fun hcall he => ?_)
          (h.awake x hx hw)
        cases hc.2 he with
        | inl hex => exact hex
        | inr hasleep => simp [hasleep x hx hcall] at hw
      · exact h.met_signal ht hsig (hc.1 sig hsig i hi y hy)
    | inr hx =>
      rw [(mem_fallsAsleep hx).1] at hw
      simp at hw
  | connect hs hf =>
    cases List.mem_append.mp hx with
    | inl hx =>
      rw [← hs']
      refine h.met_step (e := .connect) ?_ ?_ (by simp) (by simp [isClose]) (h.awake x hx hw)
      · rw [hs']
        rfl
      · simp [hs']
    | inr hx =>
      rw [List.mem_singleton.mp hx] at hw
      simp at hw
  | noMemory hs hf => exact h.awake x hx hw
  | sleep len hs hl hb =>
    cases List.mem_append.mp hx with
    | inl hx => exact h.awake x hx hw
    | inr hx =>
      rw [List.mem_singleton.mp hx] at hw
      simp at hw
  | read len hs hl hb => exact h.met_others hl false (fun _ h => h) hc.2 hx hw
  | spurious i => exact hc.elim
  | resume i call hi hl =>
    rw [returnFrom_sleepers] at hx
    have hold := h.awake x (List.mem_of_mem_eraseIdx hx) hw
    cases call with
    | connect => exact hold
    | recv len =>
      have hleft : LeavesText s len (s.sleepers.eraseIdx i) := hc _ hi rfl len rfl
      exact h.met_others hl true (fun _ h => List.mem_of_mem_eraseIdx h) hleft hx hw
    | close =>
      simp only [returnFrom]
      split_ifs <;> exact hold

theorem WakeInv.len_step (h : WakeInv s) (e : CallEvent) (hc : Undisturbed s e) :
    ∀ x ∈ (callStep s e).sleepers, ∀ len, x.call = .recv len → UInt32.ofNat len = 0 → len = 0 := by
  intro x hx len hcall
  obtain ⟨y, hy, hold⟩ | ⟨hnew, -⟩ | ⟨n, rfl, hnew, -⟩ | ⟨hnew, -⟩ := call_asleep hx
  · exact h.len y hy len (hold.trans hcall)
  · simp [hnew] at hcall
  · obtain rfl : n = len := by simpa [hnew] using hcall
    exact hc.1
  · simp [hnew] at hcall

theorem read_conn (h : ReadInv s.conn) (e : CallEvent) : ReadInv (callStep s e).conn := by
  obtain he | ⟨e', he⟩ := callStep_conn s e
  · rw [he]
    exact h
  · rw [he]
    exact h.step e'

theorem WakeInv.step (h : WakeInv s) (e : CallEvent) (hc : Undisturbed s e) :
    WakeInv (callStep s e) where
  read := read_conn h.read e
  awake := h.awake_step e hc
  len := h.len_step e hc

theorem returnValue_recv_zero {len : Nat} (hlen : UInt32.ofNat len = 0 → len = 0) (hpos : 0 < len)
    (hz : returnValue s (.recv len) = 0) : s.conn.tcb.rcvBuffLen = 0 := by
  have hmin := readableSize_toNat s.conn.tcb (UInt32.ofNat len)
  have hzero : (readableSize s.conn.tcb (UInt32.ofNat len)).toNat = 0 := by
    simpa [returnValue] using hz
  have hne : (UInt32.ofNat len).toNat ≠ 0 := by
    intro h
    have := hlen (UInt32.toNat_inj.mp h)
    omega
  rw [← UInt32.toNat_inj, UInt32.toNat_zero]
  omega

/-- A call that comes back in an event of such a run is justified. -/
theorem WakeInv.justified (h : WakeInv s) {e : CallEvent} (hc : Undisturbed s e) {r : Returned}
    (hr : r ∈ (callStep s e).returns) : r ∈ s.returns ∨ Justified r := by
  cases mem_returns hr with
  | inl hr => exact Or.inl hr
  | inr hr =>
    obtain ⟨hof, hstate, hex, hfins⟩ := hr
    refine Or.inr ?_
    obtain ⟨call, slept, value, state, exhausted, fins⟩ := r
    dsimp only at hof hstate hex hfins
    subst hstate hex hfins
    cases hof with
    | noMemory => simp [Justified]
    | read len hb =>
      intro hpos hz
      exact absurd (returnValue_recv_zero hc.1 hpos hz) hb
    | resume i call hi =>
      have hmem := List.mem_of_getElem? hi
      have hmet := h.awake _ hmem rfl
      cases call with
      | connect =>
        intro hslept
        by_cases hs : s.conn.tcb.state = .established
        · exact Or.inl ⟨by simp [returnValue, hs], hs⟩
        · exact Or.inr ⟨by simp [returnValue, hs], hmet.resolve_left hs⟩
      | recv len =>
        intro hpos hz
        cases hmet with
        | inl hb => exact absurd (returnValue_recv_zero (h.len _ hmem len rfl) hpos hz) hb
        | inr hf => exact hf
      | close => exact hmet.1

end Step

theorem connectBlock_readInv (self : Nat) (localPort remotePort : UInt16)
    (localIp remoteIp rand : UInt32) (msgs : List TcpMessage) :
    ReadInv (connectBlock self localPort remotePort localIp remoteIp rand msgs) where
  reached := connectBlock_reached self localPort remotePort localIp remoteIp rand msgs
  phase := connectBlock_recvPhase self localPort remotePort localIp remoteIp rand msgs
  stored := by simp [connectBlock]
  fins := by simp [Ending, Conn.control, connectBlock]

end AnpNetstack
