import AnpNetstack.ClockWrap
import AnpNetstack.IntrusiveList

/-! timers_tick on the links of its list. What is in memory after the walk is the list that the
model of timer.c has then, and the timers that it has dropped are freed. -/
namespace AnpNetstack
open Allocation LinkRing Runs

def TimerEvent.foreign : TimerEvent → Bool
  | .advance => false
  | .begin => false
  | .visit => false
  | _ => true

def timersFate (s : Timers) (id : Nat) : Fate :=
  let t := s.heap id
  if t.lock.isSome then .kept
  else if (t.cancelled || t.due s.tick) && t.refcnt = 0 then .released
  else .kept

/-- One visit; `others` are the calls that other threads have made meanwhile. -/
def timersChoose (others : Nat → Timers → List TimerEvent) (id : Nat) (w : Walk Nat Timers) :
    Fate × Timers :=
  let s := run timersStep w.rest (others id w.rest)
  (timersFate s id, timersVisit s)

def timersTick (others : Nat → Timers → List TimerEvent) (timers : Nat) (fuel : Nat)
    (links : Links Nat) (s : Timers) :
    Outcome Nat (List Nat × Walk Nat Timers) :=
  listForEachSafe timers Walk.links (walkBody (timersChoose others)) fuel (walkInit links s)

section TimerWalk
variable {s : Timers} {e : TimerEvent} {id : Nat} {todo : List Nat}

/-- The lock of the list keeps timer_oneshot and timer_add from it during the walk. -/
theorem foreign_step (he : e.foreign = true) (hthread : s.thread = .walking todo) :
    (timersStep s e).thread = .walking todo ∧ (timersStep s e).list = s.list := by
  cases e with
  | oneshot expire handler arg => exact ⟨hthread, rfl⟩
  | add expire handler arg => exact ⟨hthread, rfl⟩
  | insert id =>
    simp only [timersStep, timerInsert, hthread]
    exact ⟨trivial, trivial⟩
  | call op id =>
    cases id with
    | none => exact ⟨hthread, rfl⟩
    | some id =>
      simp only [timersStep, timerCall]
      split_ifs
      · exact ⟨hthread, rfl⟩
      · exact ⟨hthread, rfl⟩
  | unlock id =>
    simp only [timersStep, timerReturn]
    split
    · exact ⟨hthread, rfl⟩
    · exact ⟨hthread, rfl⟩
    · exact ⟨hthread, rfl⟩
  | advance => cases he
  | begin => cases he
  | visit => cases he

theorem foreign_run {es : List TimerEvent} (hes : ∀ e ∈ es, e.foreign = true)
    (hthread : s.thread = .walking todo) :
    (run timersStep s es).thread = .walking todo ∧ (run timersStep s es).list = s.list := by
  induction es generalizing s with
  | nil => exact ⟨hthread, rfl⟩
  | cons e es ih =>
    obtain ⟨hthread', hlist⟩ := foreign_step (hes e List.mem_cons_self) hthread
    obtain ⟨hthread'', hlist'⟩ := ih (fun e' he' => hes e' (List.mem_cons_of_mem e he')) hthread'
    exact ⟨hthread'', hlist'.trans hlist⟩

/-- timers_tick frees what it unlinks. -/
theorem timersFate_linked (s : Timers) (id : Nat) : timersFate s id ≠ .unlinked := by
  dsimp only [timersFate]
  split_ifs
  · decide
  · decide
  · decide

theorem timersVisit_list (hthread : s.thread = .walking (id :: todo)) :
    (timersVisit s).list = if timersFate s id = .kept then s.list else s.list.erase id := by
  cases hlock : (s.heap id).lock.isSome with
  | true =>
    have hfate : timersFate s id = .kept := if_pos hlock
    simp only [timersVisit, hthread, hlock, hfate, if_true]
    rfl
  | false =>
    cases hgone : ((s.heap id).cancelled || (s.heap id).due s.tick) && (s.heap id).refcnt = 0 with
    | true =>
      have hfate : timersFate s id = .released := by
        simp only [timersFate, hlock, hgone, Bool.false_eq_true, if_true, if_false]
      have hne : ¬ timersFate s id = .kept := by rw [hfate]; decide
      rw [if_neg hne]
      simp only [timersVisit, hthread, hlock, timersCheck, hgone, Bool.false_eq_true,
        if_true, if_false]
      rfl
    | false =>
      have hfate : timersFate s id = .kept := by
        simp only [timersFate, hlock, hgone, Bool.false_eq_true, if_false]
      rw [if_pos hfate]
      simp only [timersVisit, hthread, hlock, timersCheck, hgone, Bool.false_eq_true, if_false]
      rfl

theorem filter_update {fate : Nat → Fate} {items : List Nat} (hnodup : items.Nodup)
    (hid : fate id = .kept) (c : Fate) :
    items.filter (Function.update fate id c · = .kept) =
      if c = .kept then items.filter (fate · = .kept) else
        (items.filter (fate · = .kept)).erase id := by
  split_ifs with hc
  · have hsame : Function.update fate id c = fate :=
      Function.update_eq_self_iff.mpr (hc.trans hid.symm)
    rw [hsame]
  · rw [(hnodup.filter _).erase_eq_filter, List.filter_filter]
    refine List.filter_congr fun j _ => ?_
    by_cases hj : j = id
    · subst hj
      rw [Function.update_self, decide_eq_false hc, bne_self_eq_false, Bool.false_and]
    · rw [Function.update_of_ne hj, bne_iff_ne.mpr hj, Bool.true_and]

/-- After timers_tick the ring in memory is the list of the model. -/
theorem timersTick_ring {others : Nat → Timers → List TimerEvent}
    (hothers : ∀ id s, ∀ e ∈ others id s, e.foreign = true) (hthread : s.thread = .walking s.list)
    {links : Links Nat} {timers : Nat} (h : Ring links timers s.list) {fuel : Nat}
    (hfuel : s.list.length < fuel) :
    ∃ w, timersTick others timers fuel links s = .done (s.list, w) ∧ w.rest.thread = .walking [] ∧
      Ring w.links timers w.rest.list ∧ (∀ id ∈ s.list, id ∉ w.rest.list → w.links id = none) ∧
      ∀ b, b ∉ timers :: s.list → w.links b = links b := by
  have hnodup : s.list.Nodup := (List.nodup_cons.mp h.nodup).2
  have hinit : s.list = s.list.filter fun _ => decide (Fate.kept = .kept) :=
    (List.filter_eq_self.mpr fun _ _ => decide_eq_true rfl).symm
  have hkept : Fate.kept ≠ .unlinked := by decide
  obtain ⟨w, hrun, hw, hend, hlist, hfates⟩ := walk_rule (timersChoose others)
    (J := fun todo w => w.rest.thread = .walking todo ∧
      w.rest.list = s.list.filter (w.fate · = .kept) ∧
      ∀ id, w.fate id ≠ .unlinked) h ⟨hthread, hinit, fun _ => hkept⟩
    (fun id todo w w' hw hj hrest hfate => by
      obtain ⟨hthread, hlist, hfates⟩ := hj
      obtain ⟨hthread', hlist'⟩ := foreign_run (hothers id w.rest) hthread
      refine ⟨?_, ?_, fun j => ?_⟩
      · rw [hrest]
        exact timersVisit_thread hthread'
      · rw [hrest, hfate, filter_update hnodup (hw.ahead id List.mem_cons_self), ← hlist, ← hlist']
        exact timersVisit_list hthread'
      · rw [hfate]
        by_cases hj : j = id
        · rw [hj, Function.update_self]
          exact timersFate_linked _ id
        · rw [Function.update_of_ne hj]
          exact hfates j) hfuel
  refine ⟨w, hrun, hend, hlist ▸ hw.ring, fun id hid hout => hw.gone id hid ?_, hw.outside⟩
  cases hfate : w.fate id with
  | kept => exact absurd (hlist ▸ List.mem_filter.mpr ⟨hid, decide_eq_true hfate⟩) hout
  | unlinked => exact absurd hfate (hfates id)
  | released => rfl

end TimerWalk

end AnpNetstack
