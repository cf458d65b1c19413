import Mathlib.Tactic
import Mathlib.Logic.Relation

/-! What a piece of code does with mutexes, as a list of operations: whether it gives back
what it takes, and in which order it takes them. Independent of any program. -/
namespace LockTrace
variable {M : Type*}

/-- `wait` is a wait on a condition variable, which gives the mutex up and takes it again;
`init` makes a new mutex of it; `pause` is a place where the thread may wait for something
that is not a mutex. -/
inductive Op (M : Type*) where
  | lock (m : M)
  | unlock (m : M)
  | wait (m : M)
  | init (m : M)
  | pause
  deriving DecidableEq

section Rank
variable {rank : M → Nat} {m : M} {held : List M}

theorem not_mem_of_rank (h : ∀ x ∈ held, rank x < rank m) : m ∉ held :=
  fun hm => lt_irrefl _ (h m hm)

theorem rank_cons (h : ∀ x ∈ held, rank x < rank m) : ∀ x ∈ m :: held, rank x < rank m + 1 := by
  intro x hx
  cases List.mem_cons.mp hx with
  | inl he => exact he ▸ Nat.lt_succ_self _
  | inr hx => exact Nat.lt_succ_of_lt (h x hx)

end Rank

variable [DecidableEq M]

/-- The mutexes held at the end, if every operation is right: no mutex is taken twice, and
what is given up or waited with is held. -/
def exec : List M → List (Op M) → Option (List M)
  | held, [] => some held
  | held, .lock m :: ops => if m ∈ held then none else exec (m :: held) ops
  | held, .unlock m :: ops => if m ∈ held then exec (held.erase m) ops else none
  | held, .wait m :: ops => if m ∈ held then exec (m :: held.erase m) ops else none
  | held, .init m :: ops => exec (held.erase m) ops
  | held, .pause :: ops => exec held ops

def GivesBack (ops : List (Op M)) : Prop := exec [] ops = some []

instance (ops : List (Op M)) : Decidable (GivesBack ops) := inferInstanceAs (Decidable (_ = _))

def Ordered (rank : M → Nat) : List M → List (Op M) → Prop
  | _, [] => True
  | held, .lock m :: ops => (∀ x ∈ held, rank x < rank m) ∧ Ordered rank (m :: held) ops
  | held, .unlock m :: ops => Ordered rank (held.erase m) ops
  | held, .wait m :: ops =>
    (∀ x ∈ held.erase m, rank x < rank m) ∧ Ordered rank (m :: held.erase m) ops
  | held, .init m :: ops => Ordered rank (held.erase m) ops
  | held, .pause :: ops => Ordered rank held ops

theorem exec_append (held : List M) (a b : List (Op M)) :
    exec held (a ++ b) = (exec held a).bind (fun h => exec h b) := by
  induction a generalizing held with
  | nil => rfl
  | cons op a ih =>
    cases op with
    | lock m =>
      simp only [List.cons_append, exec]
      split_ifs
      · rfl
      · exact ih _
    | unlock m =>
      simp only [List.cons_append, exec]
      split_ifs
      · exact ih _
      · rfl
    | wait m =>
      simp only [List.cons_append, exec]
      split_ifs
      · exact ih _
      · rfl
    | init m => exact ih _
    | pause => exact ih _

theorem ordered_append {rank : M → Nat} {held held' : List M} {a b : List (Op M)}
    (ha : exec held a = some held') (h : Ordered rank held a) (hb : Ordered rank held' b) :
    Ordered rank held (a ++ b) := by
  induction a generalizing held with
  | nil =>
    rw [exec, Option.some.injEq] at ha
    exact ha ▸ hb
  | cons op a ih =>
    cases op with
    | lock m =>
      simp only [exec] at ha
      split_ifs at ha
      exact ⟨h.1, ih ha h.2⟩
    | unlock m =>
      simp only [exec] at ha
      split_ifs at ha
      exact ih ha h
    | wait m =>
      simp only [exec] at ha
      split_ifs at ha
      exact ⟨h.1, ih ha h.2⟩
    | init m => exact ih ha h
    | pause => exact ih ha h

/-- Code that takes mutexes of rank `r` and above, in order, and gives all of them back,
whatever of lower rank its caller holds. -/
def Neutral (rank : M → Nat) (r : Nat) (ops : List (Op M)) : Prop :=
  ∀ held, (∀ x ∈ held, rank x < r) → exec held ops = some held ∧ Ordered rank held ops

section Neutral
variable {rank : M → Nat} {r : Nat} {a b ops : List (Op M)} {m m' : M} {held : List M}

theorem Neutral.nil : Neutral rank r ([] : List (Op M)) := fun _ _ => ⟨rfl, trivial⟩

theorem Neutral.append (ha : Neutral rank r a) (hb : Neutral rank r b) :
    Neutral rank r (a ++ b) := by
  intro held hheld
  obtain ⟨hea, hoa⟩ := ha held hheld
  obtain ⟨heb, hob⟩ := hb held hheld
  refine ⟨?_, ordered_append hea hoa hob⟩
  rw [exec_append, hea]
  exact heb

theorem Neutral.mono {r' : Nat} (h : Neutral rank r' ops) (hr : r ≤ r') : Neutral rank r ops :=
  fun held hheld => h held (fun x hx => lt_of_lt_of_le (hheld x hx) hr)

theorem exec_kept (hops : Neutral rank (rank m + 1) ops) (h : ∀ x ∈ held, rank x < rank m) :
    exec held (.lock m :: ops) = some (m :: held) := by
  rw [exec, if_neg (not_mem_of_rank h)]
  exact (hops (m :: held) (rank_cons h)).1

theorem ordered_kept (hops : Neutral rank (rank m + 1) ops) (h : ∀ x ∈ held, rank x < rank m) :
    Ordered rank held (.lock m :: ops) :=
  ⟨h, (hops (m :: held) (rank_cons h)).2⟩

/-- A critical section; `w` says whether it waits at its end. -/
theorem Neutral.section (hops : Neutral rank (rank m + 1) ops) (w : Bool) :
    Neutral rank (rank m) (Op.lock m :: ops ++ (if w then [Op.wait m] else []) ++
      [Op.unlock m]) := by
  intro held hheld
  have hm : m ∉ held := not_mem_of_rank hheld
  obtain ⟨he, ho⟩ := hops (m :: held) (rank_cons hheld)
  have hend : exec (m :: held) ((if w then [Op.wait m] else []) ++ [Op.unlock m]) = some held ∧
      Ordered rank (m :: held) ((if w then [Op.wait m] else []) ++ [Op.unlock m]) := by
    cases w with
    | false => simp [exec, Ordered]
    | true => simpa [exec, Ordered] using hheld
  rw [List.cons_append, List.cons_append, List.append_assoc]
  refine ⟨?_, hheld, ordered_append he ho hend.2⟩
  rw [exec, if_neg hm, exec_append, he]
  exact hend.1

theorem Neutral.critical (hops : Neutral rank (rank m + 1) ops) :
    Neutral rank (rank m) (Op.lock m :: ops ++ [Op.unlock m]) := by
  have h := Neutral.section hops false
  rw [if_neg Bool.false_ne_true, List.append_nil] at h
  exact h

/-- Two mutexes given up in the order in which they were taken. -/
theorem Neutral.crossed (h : rank m < rank m') :
    Neutral rank (rank m) [.lock m, .lock m', .unlock m, .unlock m'] := by
  intro held hheld
  have hm : m ∉ held := not_mem_of_rank hheld
  have hm' : m' ∉ held := fun hx => absurd (hheld m' hx) (by omega)
  have hne : m' ≠ m := fun he => by simp [he] at h
  have hlow : ∀ x ∈ held, rank x < rank m' := fun x hx => lt_trans (hheld x hx) h
  constructor
  · simp [exec, hm, hm', hne]
  · simpa [Ordered, h] using ⟨hheld, hlow⟩

theorem Neutral.givesBack (h : Neutral rank r ops) : GivesBack ops := (h [] (by simp)).1

theorem Neutral.ordered (h : Neutral rank r ops) : Ordered rank [] ops := (h [] (by simp)).2

theorem Neutral.flatMap {α : Type*} {f : α → List (Op M)} {l : List α}
    (h : ∀ x ∈ l, Neutral rank r (f x)) : Neutral rank r (l.flatMap f) := by
  induction l with
  | nil => exact Neutral.nil
  | cons x l ih =>
    rw [List.flatMap_cons]
    exact (h x (by simp)).append (ih (fun y hy => h y (List.mem_cons_of_mem x hy)))

end Neutral

/-- A relation along which a number goes up whenever it can be followed further has no
cycle. -/
theorem no_cycle {T : Type*} {E : T → T → Prop} {f : T → Nat}
    (h : ∀ t u v, E t u → E u v → f t < f u) (t : T) : ¬ Relation.TransGen E t t := by
  have hup {a b : T} (hab : Relation.TransGen E a b) : ∀ c, E b c → f a < f b := by
    induction hab with
    | single he => exact fun c hc => h _ _ c he hc
    | tail _ he ih => exact fun c hc => lt_trans (ih _ he) (h _ _ c he hc)
  intro hcycle
  obtain ⟨c, hc, -⟩ := Relation.TransGen.head'_iff.mp hcycle
  exact lt_irrefl _ (hup hcycle c hc)

end LockTrace
