import AnpNetstack.TimerContract

/-! Timers over the wrap of the tick counter. timers_tick compares the sum that timer_oneshot has
stored with the tick as it is, both modulo 2 ^ 32: the walks see the timer as due in the right step
only when neither of them has wrapped, or both have. -/
namespace AnpNetstack
open Runs

section Decision
variable {t expire : UInt32}

/-- What timers_tick finds `j` steps of ten milliseconds after the tick `t` was read. -/
def DueAt (t expire : UInt32) (j : Nat) : Prop := t + expire < t + UInt32.ofNat (10 * j)

/-- The walks come in steps `first`, `first + 1` and so on; the first of them that is more than
`expire` milliseconds late finds the timer due, and none before it. -/
def OnTimeWhen (t expire : UInt32) (first : Nat) : Prop :=
  if first ≤ expire.toNat / 10 + 1 then
    t.toNat + 10 * (expire.toNat / 10 + 1) < 2 ^ 32 ∨
      (2 ^ 32 ≤ t.toNat + expire.toNat ∧ 2 ^ 32 ≤ t.toNat + 10 * first)
  else (t.toNat + expire.toNat) % 2 ^ 32 < (t.toNat + 10 * first) % 2 ^ 32

theorem dueAt_iff (t expire : UInt32) (j : Nat) :
    DueAt t expire j ↔ (t.toNat + expire.toNat) % 2 ^ 32 < (t.toNat + 10 * j) % 2 ^ 32 := by
  rw [DueAt, UInt32.lt_iff_toNat_lt, UInt32.toNat_add, UInt32.toNat_add, UInt32.toNat_ofNat',
    Nat.add_mod_mod]

/-- The walks up to step `k` agree with the clock for every `k` exactly under the condition. -/
theorem due_agrees_iff (first : Nat) (he : expire.toNat < 2 ^ 31) :
    (∀ k, (∃ j, first ≤ j ∧ j ≤ k ∧ DueAt t expire j) ↔ first ≤ k ∧ expire.toNat < 10 * k) ↔
      OnTimeWhen t expire first := by
  have ht := t.toNat_lt
  let n := expire.toNat / 10 + 1
  have hn : expire.toNat < 10 * n ∧ 10 * n ≤ expire.toNat + 10 := by omega
  have hdef : n = expire.toNat / 10 + 1 := rfl
  simp only [dueAt_iff, OnTimeWhen, ← hdef]
  split_ifs with hfirst
  · constructor
    · intro h
      obtain ⟨j, hj, hjn, hdue⟩ := (h n).mpr ⟨hfirst, hn.1⟩
      have hearly (i : Nat) (hi : first ≤ i) (hin : i < n) :
          ¬ (t.toNat + expire.toNat) % 2 ^ 32 < (t.toNat + 10 * i) % 2 ^ 32 := fun hdue => by
        have hlate := ((h i).mp ⟨i, hi, Nat.le_refl _, hdue⟩).2
        omega
      -- the walk in the right step is the only one up to it that finds the timer due
      have heq : j = n := by
        by_contra hne
        exact hearly j hj (by omega) hdue
      have hstart : first < n → ¬ (t.toNat + expire.toNat) % 2 ^ 32 <
          (t.toNat + 10 * first) % 2 ^ 32 :=
        hearly first (Nat.le_refl _)
      rw [heq] at hdue
      clear hearly h
      omega
    · intro h k
      constructor
      · rintro ⟨j, hj, hjk, hdue⟩
        exact ⟨by omega, by omega⟩
      · rintro ⟨hk, hlate⟩
        exact ⟨n, hfirst, by omega, by omega⟩
  · constructor
    · intro h
      obtain ⟨j, hj, hjk, hdue⟩ := (h first).mpr ⟨Nat.le_refl _, by omega⟩
      have heq : j = first := by omega
      rw [← heq]
      exact hdue
    · intro h k
      constructor
      · rintro ⟨j, hj, hjk, -⟩
        exact ⟨by omega, by omega⟩
      · rintro ⟨hk, -⟩
        exact ⟨first, Nat.le_refl _, hk, h⟩

end Decision

section Moves

def clockStep (s : Timers) : TimerEvent → Nat
  | .advance => if s.thread = .asleep then 1 else 0
  | _ => 0

def clockSteps : Timers → List TimerEvent → Nat
  | _, [] => 0
  | s, e :: es => clockStep s e + clockSteps (timersStep s e) es

theorem clockSteps_append (s : Timers) (es es' : List TimerEvent) :
    clockSteps s (es ++ es') = clockSteps s es + clockSteps (run timersStep s es) es' := by
  induction es generalizing s with
  | nil => rw [List.nil_append, clockSteps, Nat.zero_add, run]
  | cons e es ih => rw [List.cons_append, clockSteps, clockSteps, ih, run, Nat.add_assoc]

def scheduleEvent (expire : UInt32) (handler arg : Nat) : Bool → TimerEvent
  | true => .add expire handler arg
  | false => .oneshot expire handler arg

inductive TimersMove (s : Timers) : TimerEvent → Nat → Timers → Prop where
  | same (e : TimerEvent) : TimersMove s e 0 s
  | schedule (owned : Bool) (expire : UInt32) (handler arg : Nat) :
      TimersMove s (scheduleEvent expire handler arg owned) 0
        (timerSchedule s (if owned then 1 else 0) expire handler arg)
  | insert (id : Nat) (hwalk : ∀ rest, s.thread ≠ .walking rest) (hid : id ∈ s.waiting) :
      TimersMove s (.insert id) 0
        (Timers.note { s with waiting := s.waiting.erase id, list := s.list ++ [id] }
          (.inserted id))
  | call (op : TimerOp) (id : Nat) (hlock : (s.heap id).lock = none) :
      TimersMove s (.call op (some id)) 0
        (Timers.note { s with heap := Function.update s.heap id { s.heap id with lock := some op } }
          (.called id op))
  | cancel (id : Nat) (hlock : (s.heap id).lock = some .cancel) : TimersMove s (.unlock id) 0
    (timerCancel s id)
  | release (id : Nat) (hlock : (s.heap id).lock = some .release) : TimersMove s (.unlock id) 0
    (timerRelease s id)
  | advance (hthread : s.thread = .asleep) : TimersMove s .advance 1 { s with
    tick := s.tick + 10, thread := .ticked }
  | begin (hthread : s.thread = .ticked) : TimersMove s .begin 0
    (Timers.note { s with thread := .walking s.list } .begin)
  | busy (id : Nat) (rest : List Nat) (hthread : s.thread = .walking (id :: rest))
      (hlock : (s.heap id).lock.isSome = true) :
      TimersMove s .visit 0 (Timers.note { s with thread := .walking rest } (.busy id))
  | check (id : Nat) (rest : List Nat) (hthread : s.thread = .walking (id :: rest))
    (hlock : (s.heap id).lock = none) :
      TimersMove s .visit 0 (timersCheck { s with thread := .walking rest } id)
  | finish (hthread : s.thread = .walking []) : TimersMove s .visit 0
    (Timers.note { s with thread := .asleep } .finish)

theorem timers_move (s : Timers) (e : TimerEvent) :
    TimersMove s e (clockStep s e) (timersStep s e) := by
  have hsame {s' : Timers} (he : clockStep s e = 0) (hs : s' = s) : TimersMove s e
      (clockStep s e) s' := by
    rw [he, hs]
    exact .same e
  cases e with
  | oneshot expire handler arg => exact .schedule false expire handler arg
  | add expire handler arg => exact .schedule true expire handler arg
  | insert id =>
    simp only [timersStep, timerInsert]
    split
    · exact hsame rfl rfl
    · next hwalk =>
      split_ifs with hid
      · exact .insert id hwalk hid
      · exact hsame rfl rfl
  | call op id =>
    cases id with
    | none => exact hsame rfl rfl
    | some id =>
      simp only [timersStep, timerCall]
      split_ifs with hlock
      · exact hsame rfl rfl
      · exact .call op id (Option.not_isSome_iff_eq_none.mp hlock)
  | unlock id =>
    simp only [timersStep, timerReturn]
    split
    · exact hsame rfl rfl
    · next hlock => exact .cancel id hlock
    · next hlock => exact .release id hlock
  | advance =>
    by_cases hthread : s.thread = .asleep
    · simp only [timersStep, timersAdvance, clockStep, if_pos hthread]
      exact .advance hthread
    · simp only [timersStep, timersAdvance, clockStep, if_neg hthread]
      exact .same _
  | begin =>
    simp only [timersStep, timersBegin]
    split_ifs with hthread
    · exact .begin hthread
    · exact hsame rfl rfl
  | visit =>
    simp only [timersStep, timersVisit]
    split
    · next id rest hthread =>
      split_ifs with hlock
      · exact .busy id rest hthread hlock
      · exact .check id rest hthread (Option.not_isSome_iff_eq_none.mp hlock)
    · next hthread => exact .finish hthread
    · exact hsame rfl rfl

structure Checked (s s' : Timers) (id : Nat) : Prop where
  tick : s'.tick = s.tick
  next : s'.next = s.next
  waiting : s'.waiting = s.waiting
  thread : s'.thread = s.thread
  others : ∀ j, j ≠ id → s'.heap j = s.heap j
  timer : s'.heap id = { s.heap id with
    cancelled := (s.heap id).cancelled || (s.heap id).due s.tick }
  started : ∀ j, Started s'.log j ↔ Started s.log j ∨ j = id ∧ (s.heap id).due s.tick = true
  list : ∀ j, j ∈ s'.list → j ∈ s.list
  listed : ∀ j, j ∈ s.list → j ∈ s'.list ∨ j = id ∧ (s'.heap id).cancelled = true

theorem timersCheck_checked (s : Timers) (id : Nat) : Checked s (timersCheck s id) id := by
  have hstart (j : Nat) (log : List Note) :
      Started (log ++ [Note.checked id s.tick
        (if (s.heap id).due s.tick = true then some ((s.heap id).handler,
          (s.heap id).arg) else none)]) j ↔
        Started log j ∨ j = id ∧ (s.heap id).due s.tick = true := by
    rw [started_snoc]
    cases (s.heap id).due s.tick <;> simp [Note.starts, eq_comm]
  have hfree (j : Nat) (log : List Note) (k : Int) : Started (log ++ [Note.freed id k]) j ↔
      Started log j := by
    simp [started_snoc, Note.starts]
  dsimp only [timersCheck]
  split
  · next hgone =>
    exact {
      tick := rfl
      next := rfl
      waiting := rfl
      thread := rfl
      others := fun j hj => Function.update_of_ne hj _ _
      timer := Function.update_self ..
      started := fun j => (hfree j _ _).trans (hstart j s.log)
      list := fun j hj => List.mem_of_mem_erase hj
      listed := fun j hj => by
        by_cases he : j = id
        · refine .inr ⟨he, ?_⟩
          rw [Bool.and_eq_true] at hgone
          exact (congrArg Timer.cancelled (Function.update_self ..)).trans hgone.1
        · exact .inl ((List.mem_erase_of_ne he).mpr hj) }
  · exact {
      tick := rfl
      next := rfl
      waiting := rfl
      thread := rfl
      others := fun j hj => Function.update_of_ne hj _ _
      timer := Function.update_self ..
      started := fun j => hstart j s.log
      list := fun j hj => hj
      listed := fun j hj => .inl hj }

end Moves

/-- The tick is the number of steps since the start, modulo the size of the counter. -/
theorem tick_run (s : Timers) (es : List TimerEvent) :
    (run timersStep s es).tick = s.tick + UInt32.ofNat (10 * clockSteps s es) := by
  induction es generalizing s with
  | nil => exact (UInt32.add_zero _).symm
  | cons e es ih =>
    have hstep : (timersStep s e).tick = s.tick + UInt32.ofNat (10 * clockStep s e) := by
      have hmove := timers_move s e
      generalize clockStep s e = k at hmove ⊢
      generalize timersStep s e = s' at hmove ⊢
      cases hmove with
      | advance hthread => rfl
      | check id rest hthread hlock =>
        exact (timersCheck_checked _ id).tick.trans (UInt32.add_zero _).symm
      | _ => exact (UInt32.add_zero _).symm
    rw [run, ih, hstep, clockSteps, Nat.mul_add, UInt32.ofNat_add, UInt32.add_assoc]

section Absent
variable {s : Timers} {id : Nat}

structure Absent (id : Nat) (s : Timers) : Prop where
  list : id ∉ s.list
  walk : ∀ rest, s.thread = .walking rest → id ∉ rest
  started : ¬ Started s.log id

theorem started_note (s : Timers) {n : Note} (h : n.starts id = false) :
    Started (s.note n).log id ↔ Started s.log id := by
  simp only [Timers.note, started_snoc, h, Bool.false_eq_true, or_false]

theorem Absent.move (h : Absent id s) {e : TimerEvent} {k : Nat} {s' : Timers}
    (hmove : TimersMove s e k s') (he : e ≠ .insert id) : Absent id s' := by
  cases hmove with
  | same e => exact h
  | schedule owned expire handler arg =>
    exact ⟨h.list, h.walk, (started_note _ rfl).not.mpr h.started⟩
  | insert j hwalk hj =>
    have hne : id ≠ j := fun heq => he (by rw [heq])
    refine ⟨?_, fun rest hrest => absurd hrest (hwalk rest), (started_note _ rfl).not.mpr h.started⟩
    simpa [Timers.note, hne] using h.list
  | call op j hlock => exact ⟨h.list, h.walk, (started_note _ rfl).not.mpr h.started⟩
  | cancel j hlock => exact ⟨h.list, h.walk, (started_note _ rfl).not.mpr h.started⟩
  | release j hlock => exact ⟨h.list, h.walk, (started_note _ rfl).not.mpr h.started⟩
  | advance hthread => exact ⟨h.list, fun rest hrest => (nomatch hrest), h.started⟩
  | begin hthread =>
    refine ⟨h.list, fun rest hrest => ?_, (started_note _ rfl).not.mpr h.started⟩
    cases hrest
    exact h.list
  | busy j rest hthread hlock =>
    refine ⟨h.list, fun rest' hrest => ?_, (started_note _ rfl).not.mpr h.started⟩
    cases hrest
    exact fun hin => h.walk _ hthread (List.mem_cons_of_mem j hin)
  | check j rest hthread hlock =>
    have hc := timersCheck_checked { s with thread := .walking rest } j
    have hne : id ≠ j := by
      rintro rfl
      exact h.walk _ hthread (List.mem_cons_self ..)
    refine ⟨fun hin => h.list (hc.list id hin), fun rest' hrest => ?_, ?_⟩
    · rw [hc.thread] at hrest
      cases hrest
      exact fun hin => h.walk _ hthread (List.mem_cons_of_mem j hin)
    · rw [hc.started]
      rintro (hs | ⟨heq, -⟩)
      · exact h.started hs
      · exact hne heq
  | finish hthread =>
    exact ⟨h.list, fun rest hrest => (nomatch hrest), (started_note _ rfl).not.mpr h.started⟩

def Unborn (s : Timers) : Prop := ∀ id, s.next ≤ id → id ∉ s.waiting ∧ Absent id s

theorem Unborn.move (h : Unborn s) {e : TimerEvent} {k : Nat} {s' : Timers}
    (hmove : TimersMove s e k s') :
    Unborn s' := by
  intro id hid
  have hkeep {s' : Timers} (hmove : TimersMove s e k s') (hnext : s.next ≤ id)
      (hwait : s'.waiting = s.waiting)
      (he : e ≠ .insert id) : id ∉ s'.waiting ∧ Absent id s' :=
    ⟨by rw [hwait]; exact (h id hnext).1, (h id hnext).2.move hmove he⟩
  cases hmove with
  | same e => exact h id hid
  | schedule owned expire handler arg =>
    have hnext : s.next + 1 ≤ id := hid
    obtain ⟨hwait, habs⟩ := h id (by omega)
    refine ⟨?_, habs.list, habs.walk, (started_note _ rfl).not.mpr habs.started⟩
    have hne : id ≠ s.next := by omega
    simpa [timerSchedule, Timers.note, hne] using hwait
  | insert j hwalk hj =>
    obtain ⟨hwait, habs⟩ := h id hid
    have hne : id ≠ j := by
      rintro rfl
      exact hwait hj
    exact ⟨fun hin => hwait (List.mem_of_mem_erase hin),
      habs.move (.insert j hwalk hj) fun he => hne (TimerEvent.insert.inj he).symm⟩
  | call op j hlock => exact hkeep (.call op j hlock) hid rfl (by simp)
  | cancel j hlock => exact hkeep (.cancel j hlock) hid rfl (by simp)
  | release j hlock => exact hkeep (.release j hlock) hid rfl (by simp)
  | advance hthread => exact hkeep (.advance hthread) hid rfl (by simp)
  | begin hthread => exact hkeep (.begin hthread) hid rfl (by simp)
  | busy j rest hthread hlock => exact hkeep (.busy j rest hthread hlock) hid rfl (by simp)
  | check j rest hthread hlock =>
    have hc := timersCheck_checked { s with thread := .walking rest } j
    have hnext : s.next ≤ id := by
      rw [hc.next] at hid
      exact hid
    exact hkeep (.check j rest hthread hlock) hnext hc.waiting (by simp)
  | finish hthread => exact hkeep (.finish hthread) hid rfl (by simp)

theorem unborn_run (es : List TimerEvent) : Unborn (run timersStep timersInit es) := by
  refine run_invariant _ (P := fun _ _ => True) (fun s e h _ => h.move (timers_move s e)) ?_
    (along_of_forall _ (fun _ _ _ => trivial) _)
  intro id hid
  exact ⟨List.not_mem_nil, List.not_mem_nil,
    fun rest hrest => (nomatch hrest), by simp [Started, timersInit]⟩

end Absent

section Pending
variable {id k d first : Nat} {t expire : UInt32} {s s' : Timers} {e : TimerEvent}

def Aside (id : Nat) : TimerEvent → Prop
  | .call _ (some j) => j ≠ id
  | .insert j => j ≠ id
  | _ => True

/-- The timer is not cancelled, and no release holds its lock when timers_tick comes by. -/
def Unhindered (id : Nat) (s : Timers) : TimerEvent → Prop
  | .call op (some j) => j = id → op ≠ .cancel
  | .visit => ∀ rest, s.thread = .walking (id :: rest) → (s.heap id).lock = none
  | _ => True

theorem tick_succ (t : UInt32) (k : Nat) :
    t + UInt32.ofNat (10 * k) + 10 = t + UInt32.ofNat (10 * (k + 1)) := by
  have h10 : (10 : UInt32) = UInt32.ofNat 10 := rfl
  rw [UInt32.add_assoc, h10, ← UInt32.ofNat_add]
  rfl

structure Awaiting (id : Nat) (t expire : UInt32) (k : Nat) (s : Timers) : Prop where
  absent : Absent id s
  known : id < s.next
  waiting : id ∈ s.waiting
  tick : s.tick = t + UInt32.ofNat (10 * k)
  expires : (s.heap id).expires = t + expire
  lock : (s.heap id).lock = none
  cancelled : (s.heap id).cancelled = false

theorem Awaiting.keep (h : Awaiting id t expire k s) (habs : Absent id s')
    (hnext : s.next ≤ s'.next) (hwait : id ∈ s.waiting → id ∈ s'.waiting) (htick : s'.tick = s.tick)
    (hheap : s'.heap id = s.heap id) :
    Awaiting id t expire k s' where
  absent := habs
  known := Nat.lt_of_lt_of_le h.known hnext
  waiting := hwait h.waiting
  tick := htick.trans h.tick
  expires := by rw [hheap, h.expires]
  lock := by rw [hheap, h.lock]
  cancelled := by rw [hheap, h.cancelled]

theorem Awaiting.move (h : Awaiting id t expire k s) (hmove : TimersMove s e d s')
    (ha : Aside id e) :
    Awaiting id t expire (k + d) s' := by
  have habs : Absent id s' := h.absent.move hmove (by
    rintro rfl
    exact ha rfl)
  cases hmove with
  | same e => exact h
  | schedule owned expire' handler arg =>
    refine h.keep habs (Nat.le_succ _) (fun hin => ?_)
      rfl (Function.update_of_ne (Nat.ne_of_lt h.known) _ _)
    simp [timerSchedule, Timers.note, hin]
  | insert j hwalk hj =>
    exact h.keep habs (Nat.le_refl _) (fun hin =>
      (List.mem_erase_of_ne (Ne.symm ha)).mpr hin) rfl rfl
  | call op j hlock =>
    exact h.keep habs (Nat.le_refl _) (fun hin => hin) rfl (Function.update_of_ne (Ne.symm ha) _ _)
  | cancel j hlock =>
    have hne : id ≠ j := by
      rintro rfl
      simp [h.lock] at hlock
    exact h.keep habs (Nat.le_refl _) (fun hin => hin) rfl (Function.update_of_ne hne _ _)
  | release j hlock =>
    have hne : id ≠ j := by
      rintro rfl
      simp [h.lock] at hlock
    exact h.keep habs (Nat.le_refl _) (fun hin => hin) rfl (Function.update_of_ne hne _ _)
  | advance hthread =>
    refine { h with absent := habs, tick := ?_ }
    show s.tick + 10 = _
    rw [h.tick, tick_succ]
  | begin hthread => exact h.keep habs (Nat.le_refl _) (fun hin => hin) rfl rfl
  | busy j rest hthread hlock => exact h.keep habs (Nat.le_refl _) (fun hin => hin) rfl rfl
  | check j rest hthread hlock =>
    have hc := timersCheck_checked { s with thread := .walking rest } j
    have hne : id ≠ j := by
      rintro rfl
      exact h.absent.walk _ hthread (List.mem_cons_self ..)
    exact h.keep habs (Nat.le_of_eq hc.next.symm) (fun hin => by rw [hc.waiting]; exact hin) hc.tick
      (hc.others id hne)
  | finish hthread => exact h.keep habs (Nat.le_refl _) (fun hin => hin) rfl rfl

def Phase (id first k : Nat) (due : Nat → Prop) (started : Prop) : TimerThread → Prop
  | .asleep => first ≤ k + 1 ∧ ∀ j, first ≤ j → j ≤ k → due j → started
  | .ticked => first ≤ k ∧ ∀ j, first ≤ j → j < k → due j → started
  | .walking rest => first ≤ k ∧ (∀ j, first ≤ j → j < k → due j → started) ∧
    (id ∈ rest ∨ (due k → started))

structure Pending (id : Nat) (t expire : UInt32) (first k : Nat) (s : Timers) : Prop where
  known : id < s.next
  tick : s.tick = t + UInt32.ofNat (10 * k)
  expires : (s.heap id).expires = t + expire
  lock : (s.heap id).lock ≠ some .cancel
  flag : (s.heap id).cancelled = true ↔ Started s.log id
  listed : ¬ Started s.log id → id ∈ s.list
  soFar : Started s.log id → ∃ j, first ≤ j ∧ j ≤ k ∧ DueAt t expire j
  phase : Phase id first k (DueAt t expire) (Started s.log id) s.thread

theorem Pending.keepTimer (h : Pending id t expire first k s) (hnext : s.next ≤ s'.next)
    (htick : s'.tick = s.tick) (hexpires : (s'.heap id).expires = (s.heap id).expires)
    (hflag : (s'.heap id).cancelled = (s.heap id).cancelled)
    (hlock : (s'.heap id).lock ≠ some .cancel) (hstart : Started s'.log id ↔ Started s.log id)
    (hlist : id ∈ s.list → id ∈ s'.list)
    (hphase : Phase id first k (DueAt t expire) (Started s.log id) s'.thread) :
    Pending id t expire first k s' where
  known := Nat.lt_of_lt_of_le h.known hnext
  tick := htick.trans h.tick
  expires := hexpires.trans h.expires
  lock := hlock
  flag := by rw [hflag, hstart, h.flag]
  listed hnot := hlist (h.listed fun hs => hnot (hstart.mpr hs))
  soFar hs := h.soFar (hstart.mp hs)
  phase := by rw [propext hstart]; exact hphase

theorem Pending.keep (h : Pending id t expire first k s) (hnext : s.next ≤ s'.next)
    (htick : s'.tick = s.tick) (hheap : s'.heap id = s.heap id)
    (hstart : Started s'.log id ↔ Started s.log id) (hlist : id ∈ s.list → id ∈ s'.list)
    (hphase : Phase id first k (DueAt t expire) (Started s.log id) s'.thread) :
    Pending id t expire first k s' := by
  refine h.keepTimer hnext htick (congrArg Timer.expires hheap)
    (congrArg Timer.cancelled hheap) ?_ hstart hlist hphase
  rw [hheap]
  exact h.lock

theorem Pending.check (h : Pending id t expire first k s) {rest : List Nat}
    (hthread : s.thread = .walking (id :: rest)) :
    Pending id t expire first k (timersCheck { s with thread := .walking rest } id) := by
  have hc := timersCheck_checked { s with thread := .walking rest } id
  have hphase := h.phase
  rw [hthread] at hphase
  obtain ⟨hfirst, hbefore, -⟩ := hphase
  have hdue : (s.heap id).due s.tick = true ↔ ¬ Started s.log id ∧ DueAt t expire k := by
    rw [Timer.due, h.expires, h.tick, ← h.flag]
    simp [DueAt]
  have hstart : Started (timersCheck { s with thread := .walking rest } id).log id ↔
      Started s.log id ∨ DueAt t expire k := by
    rw [hc.started]
    simp only [true_and, hdue]
    by_cases hs : Started s.log id <;> simp [hs]
  exact {
    known := by rw [hc.next]; exact h.known
    tick := hc.tick.trans h.tick
    expires := by rw [hc.timer]; exact h.expires
    lock := by rw [hc.timer]; exact h.lock
    flag := by
      rw [hc.timer, hstart]
      simp only [Bool.or_eq_true, h.flag, hdue]
      by_cases hs : Started s.log id <;> simp [hs]
    listed := fun hnot => by
      have hin := h.listed fun hs => hnot (hstart.mpr (.inl hs))
      obtain hin | ⟨-, hgone⟩ := hc.listed id hin
      · exact hin
      · rw [hc.timer] at hgone
        simp only [Bool.or_eq_true, h.flag, hdue] at hgone
        exact absurd (hstart.mpr (hgone.imp_right And.right)) hnot
    soFar := fun hs => by
      obtain hs | hd := hstart.mp hs
      · exact h.soFar hs
      · exact ⟨k, hfirst, Nat.le_refl k, hd⟩
    phase := by
      rw [hc.thread]
      exact ⟨hfirst, fun j hj hjk hd => hstart.mpr (.inl (hbefore j hj hjk hd)),
        .inr fun hd => hstart.mpr (.inr hd)⟩ }

theorem Pending.move (h : Pending id t expire first k s) (hmove : TimersMove s e d s')
    (hu : Unhindered id s e) :
    Pending id t expire first (k + d) s' := by
  have hphase := h.phase
  cases hmove with
  | same e => exact h
  | schedule owned expire' handler arg =>
    exact h.keep (Nat.le_succ _) rfl (Function.update_of_ne (Nat.ne_of_lt h.known) _ _)
      (started_note _ rfl)
      (fun hin => hin) hphase
  | insert j hwalk hj =>
    exact h.keep (Nat.le_refl _) rfl rfl (started_note _ rfl)
      (fun hin => List.mem_append_left _ hin) hphase
  | call op j hlock =>
    by_cases hj : id = j
    · subst hj
      have hop : op ≠ .cancel := hu rfl
      refine h.keepTimer (Nat.le_refl _) rfl ?_ ?_ ?_ (started_note _ rfl) (fun hin => hin) hphase
      · simp [Timers.note]
      · simp [Timers.note]
      · simpa [Timers.note] using hop
    · exact h.keep (Nat.le_refl _) rfl (Function.update_of_ne hj _ _) (started_note _ rfl)
        (fun hin => hin) hphase
  | cancel j hlock =>
    have hj : id ≠ j := by
      rintro rfl
      exact h.lock hlock
    exact h.keep (Nat.le_refl _) rfl (Function.update_of_ne hj _ _) (started_note _ rfl)
      (fun hin => hin) hphase
  | release j hlock =>
    by_cases hj : id = j
    · subst hj
      refine h.keepTimer (Nat.le_refl _) rfl ?_ ?_ ?_ (started_note _ rfl) (fun hin => hin) hphase
      · simp [timerRelease, Timers.note]
      · simp [timerRelease, Timers.note]
      · simp [timerRelease, Timers.note]
    · exact h.keep (Nat.le_refl _) rfl (Function.update_of_ne hj _ _) (started_note _ rfl)
        (fun hin => hin) hphase
  | advance hthread =>
    rw [hthread] at hphase
    obtain ⟨hfirst, hbefore⟩ := hphase
    refine { h with tick := ?_, soFar := fun hs => ?_, phase := ⟨hfirst,
      fun j hj hjk => hbefore j hj (by omega)⟩ }
    · show s.tick + 10 = _
      rw [h.tick, tick_succ]
    · obtain ⟨j, hj, hjk, hd⟩ := h.soFar hs
      exact ⟨j, hj, by omega, hd⟩
  | begin hthread =>
    rw [hthread] at hphase
    refine h.keep (Nat.le_refl _) rfl rfl (started_note _ rfl) (fun hin => hin) ⟨hphase.1,
      hphase.2, ?_⟩
    by_cases hs : Started s.log id
    · exact .inr fun _ => hs
    · exact .inl (h.listed hs)
  | busy j rest hthread hlock =>
    have hj : id ≠ j := by
      rintro rfl
      rw [hu rest hthread] at hlock
      cases hlock
    rw [hthread] at hphase
    obtain ⟨hfirst, hbefore, hcome⟩ := hphase
    refine h.keep (Nat.le_refl _) rfl rfl (started_note _ rfl) (fun hin => hin) ⟨hfirst,
      hbefore, ?_⟩
    exact hcome.imp_left fun hin => (List.mem_cons.mp hin).resolve_left hj
  | check j rest hthread hlock =>
    by_cases hj : id = j
    · subst hj
      exact h.check hthread
    · rw [hthread] at hphase
      obtain ⟨hfirst, hbefore, hcome⟩ := hphase
      have hc := timersCheck_checked { s with thread := .walking rest } j
      refine h.keep (Nat.le_of_eq hc.next.symm) hc.tick (hc.others id hj) ?_ (fun hin => ?_) ?_
      · rw [hc.started]
        simp [hj]
      · exact (hc.listed id hin).resolve_right fun hgone => hj hgone.1
      · rw [hc.thread]
        exact ⟨hfirst, hbefore, hcome.imp_left fun hin => (List.mem_cons.mp hin).resolve_left hj⟩
  | finish hthread =>
    rw [hthread] at hphase
    obtain ⟨hfirst, hbefore, hcome⟩ := hphase
    refine h.keep (Nat.le_refl _) rfl rfl (started_note _ rfl) (fun hin => hin)
      ⟨by omega, fun j hj hjk hd => ?_⟩
    obtain hlt | rfl := Nat.lt_or_eq_of_le hjk
    · exact hbefore j hj hlt hd
    · exact hcome.resolve_left List.not_mem_nil hd

theorem Pending.run (h : Pending id t expire first k s) {es : List TimerEvent}
    (hes : Along timersStep (Unhindered id) s es) :
    Pending id t expire first (k + clockSteps s es) (run timersStep s es) := by
  induction es generalizing s k with
  | nil => exact h
  | cons e es ih =>
    rw [clockSteps, ← Nat.add_assoc]
    exact ih (h.move (timers_move s e) hes.1) hes.2

theorem Awaiting.run (h : Awaiting id t expire k s) {es : List TimerEvent}
    (hes : ∀ e ∈ es, Aside id e) :
    Awaiting id t expire (k + clockSteps s es) (run timersStep s es) := by
  induction es generalizing s k with
  | nil => exact h
  | cons e es ih =>
    rw [clockSteps, ← Nat.add_assoc]
    exact ih (h.move (timers_move s e) (hes e (by simp))) fun e' he' =>
      hes e' (List.mem_cons_of_mem e he')

end Pending

section Walks
variable {s : Timers} {id : Nat}

def Quiet (e : TimerEvent) : Prop := e = .advance ∨ e = .begin ∨ e = .visit

theorem Quiet.lock {e : TimerEvent} (h : Quiet e) (hlock : (s.heap id).lock = none) :
    ((timersStep s e).heap id).lock = none := by
  have hmove := timers_move s e
  generalize clockStep s e = k at hmove
  generalize timersStep s e = s' at hmove
  cases hmove with
  | check j rest hthread hj =>
    have hc := timersCheck_checked { s with thread := .walking rest } j
    by_cases he : id = j
    · rw [he, hc.timer]
      exact hj
    · rw [hc.others id he]
      exact hlock
  | schedule owned expire handler arg => cases owned <;> simp [Quiet, scheduleEvent] at h
  | insert j hwalk hj => exact hlock
  | call op j hl => simp [Quiet] at h
  | cancel j hl => simp [Quiet] at h
  | release j hl => simp [Quiet] at h
  | _ => exact hlock

theorem quiet_along {es : List TimerEvent} (hes : ∀ e ∈ es, Quiet e)
    (hlock : (s.heap id).lock = none) :
    Along timersStep (Unhindered id) s es := by
  induction es generalizing s with
  | nil => trivial
  | cons e es ih =>
    have he := hes e (by simp)
    refine ⟨?_, ih (fun e' he' => hes e' (List.mem_cons_of_mem e he')) (he.lock hlock)⟩
    obtain rfl | rfl | rfl := he
    · trivial
    · trivial
    · exact fun _ _ => hlock

theorem timersVisit_thread {j : Nat} {rest : List Nat} (hthread : s.thread = .walking (j :: rest)) :
    (timersVisit s).thread = .walking rest := by
  simp only [timersVisit, hthread]
  split_ifs
  · rfl
  · exact (timersCheck_checked { s with thread := .walking rest } j).thread

theorem walk_over {rest : List Nat} (hthread : s.thread = .walking rest) :
    ∃ es, (∀ e ∈ es, Quiet e) ∧ clockSteps s es = 0 ∧ (run timersStep s es).thread = .asleep := by
  induction rest generalizing s with
  | nil =>
    refine ⟨[.visit], by simp [Quiet], rfl, ?_⟩
    simp only [run, timersStep, timersVisit, hthread]
    rfl
  | cons j rest ih =>
    obtain ⟨es, hes, hclock, hover⟩ := ih (timersVisit_thread hthread)
    refine ⟨.visit :: es, ?_, ?_, hover⟩
    · simpa [Quiet] using hes
    · have hstep : clockStep s .visit = 0 := rfl
      rw [clockSteps, hstep, Nat.zero_add]
      exact hclock

/-- From any state, timers_start can come to rest without a step of the clock. -/
theorem comes_to_rest (s : Timers) :
    ∃ es, (∀ e ∈ es, Quiet e) ∧ clockSteps s es = 0 ∧ (run timersStep s es).thread = .asleep := by
  cases hthread : s.thread with
  | asleep => exact ⟨[], by simp, rfl, hthread⟩
  | walking rest => exact walk_over hthread
  | ticked =>
    have hbegin : (timersStep s .begin).thread = .walking s.list := by
      simp only [timersStep, timersBegin, hthread, if_true]
      rfl
    obtain ⟨es, hes, hclock, hover⟩ := walk_over hbegin
    refine ⟨.begin :: es, ?_, ?_, hover⟩
    · simpa [Quiet] using hes
    · have hstep : clockStep s .begin = 0 := rfl
      rw [clockSteps, hstep, Nat.zero_add]
      exact hclock

theorem reaches (s : Timers) (n : Nat) :
    ∃ es, (∀ e ∈ es, Quiet e) ∧ clockSteps s es = n ∧ (run timersStep s es).thread = .asleep := by
  induction n with
  | zero => exact comes_to_rest s
  | succ n ih =>
    obtain ⟨es, hes, hclock, hrest⟩ := ih
    obtain ⟨es', hes', hclock', hrest'⟩ := comes_to_rest (timersStep (run timersStep s es) .advance)
    have hstep : clockStep (run timersStep s es) .advance = 1 := if_pos hrest
    refine ⟨es ++ .advance :: es', ?_, ?_, ?_⟩
    · intro e he
      rcases List.mem_append.mp he with he | he
      · exact hes e he
      · rcases List.mem_cons.mp he with rfl | he
        · exact .inl rfl
        · exact hes' e he
    · rw [clockSteps_append, clockSteps, hclock, hstep, hclock']
    · rw [run_append]
      exact hrest'

end Walks

/-- A call of timer_oneshot or timer_add in any run, with what happens between its look at the tick
and the insertion into the list. -/
structure TimerRequest where
  past : List TimerEvent
  owned : Bool
  expire : UInt32
  handler : Nat
  arg : Nat
  meanwhile : List TimerEvent
  small : expire.toNat < 2 ^ 31
  aside : ∀ e ∈ meanwhile, Aside (run timersStep timersInit past).next e
  free : ∀ rest, (run timersStep (timersStep (run timersStep timersInit past)
    (scheduleEvent expire handler arg owned))
    meanwhile).thread ≠ .walking rest

namespace TimerRequest
variable (r : TimerRequest)

def before : Timers := run timersStep timersInit r.past

def id : Nat := r.before.next

def asked : Timers := timersStep r.before (scheduleEvent r.expire r.handler r.arg r.owned)

def waiting : Timers := run timersStep r.asked r.meanwhile

def inserted : Timers := timersStep r.waiting (.insert r.id)

def delay : Nat := clockSteps r.asked r.meanwhile

def first : Nat := r.delay + if r.waiting.thread = .asleep then 1 else 0

/-- After the events `es`, the handler has been started if a walk has been over that is the first
one more than `expire` milliseconds after the request, and not before that walk. -/
def OnTime (es : List TimerEvent) : Prop :=
  let s := run timersStep r.inserted es
  let k := r.delay + clockSteps r.inserted es
  (Started s.log r.id → r.first ≤ k ∧ r.expire.toNat < 10 * k) ∧
    (s.thread = .asleep → r.first ≤ k → r.expire.toNat < 10 * k → Started s.log r.id)

theorem awaiting : Awaiting r.id r.before.tick r.expire r.delay r.waiting := by
  have hborn := (unborn_run r.past) r.id (Nat.le_refl _)
  have hasked : r.asked = timerSchedule r.before (if r.owned then 1 else
      0) r.expire r.handler r.arg := by
    rw [asked]
    cases r.owned <;> rfl
  have hstart : Awaiting r.id r.before.tick r.expire 0 r.asked := by
    rw [hasked]
    exact {
      absent := ⟨hborn.2.list, hborn.2.walk, (started_note _ rfl).not.mpr hborn.2.started⟩
      known := Nat.lt_succ_self _
      waiting := by simp [timerSchedule, Timers.note, id]
      tick := by simp [timerSchedule, Timers.note]
      expires := by simp [timerSchedule, Timers.note, id]
      lock := by simp [timerSchedule, Timers.note, id]
      cancelled := by simp [timerSchedule, Timers.note, id] }
  have hrun := hstart.run r.aside
  rw [Nat.zero_add] at hrun
  exact hrun

theorem inserted_eq : r.inserted = Timers.note
    { r.waiting with waiting := r.waiting.waiting.erase r.id, list := r.waiting.list ++ [r.id] }
      (.inserted r.id) := by
  rw [inserted, timersStep, timerInsert]
  split
  · next rest hwalk => exact absurd hwalk (r.free rest)
  · rw [if_pos r.awaiting.waiting]

theorem pending : Pending r.id r.before.tick r.expire r.first r.delay r.inserted := by
  have h := r.awaiting
  have hinsert := r.inserted_eq
  have hnot : ¬ Started r.inserted.log r.id := by
    rw [hinsert]
    exact (started_note _ rfl).not.mpr h.absent.started
  have hthread : r.inserted.thread = r.waiting.thread := by
    rw [hinsert]
    rfl
  exact {
    known := by rw [hinsert]; exact h.known
    tick := by rw [hinsert]; exact h.tick
    expires := by rw [hinsert]; exact h.expires
    lock := by
      rw [hinsert]
      simp [Timers.note, h.lock]
    flag := by
      refine iff_of_false ?_ hnot
      rw [hinsert]
      simp [Timers.note, h.cancelled]
    listed := fun _ => by
      rw [hinsert]
      simp [Timers.note]
    soFar := fun hs => absurd hs hnot
    phase := by
      rw [hthread, first]
      cases hw : r.waiting.thread with
      | asleep =>
        exact ⟨Nat.le_refl _, fun j hj hjk => absurd (Nat.le_trans hj hjk) (Nat.not_succ_le_self _)⟩
      | ticked =>
        exact ⟨Nat.le_refl _, fun j hj hjk => absurd (Nat.lt_of_le_of_lt hj hjk) (Nat.lt_irrefl _)⟩
      | walking rest => exact absurd hw (r.free rest) }

/-- Whatever else happens, the timer is on time exactly when neither its expiry nor the walks up to
it go over the wrap of the counter, or all of them do. -/
theorem on_time_iff :
    (∀ es, Along timersStep (Unhindered r.id) r.inserted es → r.OnTime es) ↔
      OnTimeWhen r.before.tick r.expire r.first := by
  rw [← due_agrees_iff r.first r.small]
  constructor
  · intro h k
    by_cases hk : k < r.delay
    · have hfirst : r.delay ≤ r.first := Nat.le_add_right _ _
      exact iff_of_false (fun ⟨j, hj, hjk, _⟩ => by omega) (fun hle => by omega)
    -- a run that is at rest at this step
    obtain ⟨es, hquiet, hclock, hrest⟩ := reaches r.inserted (k - r.delay)
    have hlock : (r.inserted.heap r.id).lock = none := by
      rw [r.inserted_eq]
      exact r.awaiting.lock
    have halong := quiet_along hquiet hlock
    have hpending := r.pending.run halong
    have htime := h es halong
    have hstep : r.delay + clockSteps r.inserted es = k := by omega
    have hphase := hpending.phase
    simp only [OnTime, hstep] at htime
    rw [hrest, hstep] at hphase
    have hsoFar := hpending.soFar
    rw [hstep] at hsoFar
    constructor
    · rintro ⟨j, hj, hjk, hdue⟩
      exact htime.1 (hphase.2 j hj hjk hdue)
    · rintro ⟨hle, hlate⟩
      exact hsoFar (htime.2 hrest hle hlate)
  · intro h es halong
    have hpending := r.pending.run halong
    constructor
    · exact fun hs => (h _).mp (hpending.soFar hs)
    · intro hrest hle hlate
      obtain ⟨j, hj, hjk, hdue⟩ := (h _).mpr ⟨hle, hlate⟩
      have hphase := hpending.phase
      rw [hrest] at hphase
      exact hphase.2 j hj hjk hdue

end TimerRequest

/-- After 429496728 steps the tick is 16 short of the wrap. A timer of 100 ms is started by the next
walk, 10 ms later: its expiry has wrapped, the tick has not. -/
theorem timer_early :
    ¬ ∀ (r : TimerRequest) (es : List TimerEvent),
      Along timersStep (Unhindered r.id) r.inserted es → r.OnTime es := by
  intro h
  obtain ⟨past, -, hpast, hrest⟩ := reaches timersInit 429496728
  let r : TimerRequest :=
    { past := past, owned := false, expire := 100, handler := 0, arg := 0, meanwhile := [],
      small := by decide
      aside := by simp
      free := fun rest hwalk => by
        have hthread : TimerThread.asleep = .walking rest := hrest.symm.trans hwalk
        cases hthread }
  have htick : r.before.tick = 4294967280 := by
    have hrun := tick_run timersInit past
    rw [hpast] at hrun
    exact hrun
  have hfirst : r.first = 1 := by
    have hthread : r.waiting.thread = .asleep := hrest
    rw [TimerRequest.first, if_pos hthread]
    rfl
  have hlock : (r.inserted.heap r.id).lock = none := by
    rw [r.inserted_eq]
    exact r.awaiting.lock
  obtain ⟨es, hquiet, hclock, hover⟩ := reaches r.inserted 1
  have halong := quiet_along hquiet hlock
  have hstep : r.delay + clockSteps r.inserted es = 1 := by
    rw [hclock]
    rfl
  have hphase := (r.pending.run halong).phase
  rw [hover, hstep, hfirst, htick] at hphase
  have hdue : DueAt 4294967280 100 1 := by
    show (4294967280 : UInt32) + 100 < 4294967280 + UInt32.ofNat (10 * 1)
    decide
  have hlate := ((h r es halong).1 (hphase.2 1 (Nat.le_refl _) (Nat.le_refl _) hdue)).2
  have hexpire : r.expire.toNat = 100 := rfl
  omega

end AnpNetstack
