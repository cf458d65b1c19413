import Mathlib.Tactic

/-! Memory as a partial map. An access to an address where nothing is allocated is a fault at that
address, so a run without a fault has not touched what it had freed. Independent of what is
stored. -/
namespace Allocation
variable {ι α τ υ : Type*}

abbrev Store (ι α : Type*) := ι → Option α

def load (m : Store ι α) (a : ι) : Except ι α :=
  match m a with
  | some v => .ok v
  | none => .error a

theorem load_ok {m : Store ι α} {a : ι} {v : α} (h : m a = some v) : load m a = .ok v := by
  rw [load, h]

theorem load_error {m : Store ι α} {a : ι} (h : m a = none) : load m a = .error a := by
  rw [load, h]

theorem bind_ok {x : Except ι τ} {f : τ → Except ι υ} {r : υ} (h : x.bind f = .ok r) :
    ∃ t, x = .ok t ∧ f t = .ok r := by
  cases x with
  | error a => cases h
  | ok t => exact ⟨t, rfl, h⟩

theorem map_ok {x : Except ι τ} {f : τ → υ} {r : υ} (h : x.map f = .ok r) :
    ∃ t, x = .ok t ∧ f t = r := by
  cases x with
  | error a => cases h
  | ok t => exact ⟨t, rfl, Except.ok.inj h⟩

section Writing
variable [DecidableEq ι]

def put (m : Store ι α) (a : ι) (v : α) : Store ι α := Function.update m a (some v)

def drop (m : Store ι α) (a : ι) : Store ι α := Function.update m a none

def store (m : Store ι α) (a : ι) (v : α) : Except ι (Store ι α) :=
  (load m a).map fun _ => put m a v

def free (m : Store ι α) (a : ι) : Except ι (Store ι α) := (load m a).map fun _ => drop m a

variable {m : Store ι α} {a b : ι}

@[simp] theorem put_same (m : Store ι α) (a : ι) (v : α) : put m a v a = some v :=
  Function.update_self a _ m

@[simp] theorem drop_same (m : Store ι α) (a : ι) : drop m a a = none := Function.update_self a _ m

theorem put_other (h : b ≠ a) (v : α) : put m a v b = m b := Function.update_of_ne h _ m

theorem drop_other (h : b ≠ a) : drop m a b = m b := Function.update_of_ne h _ m

theorem put_load {v : α} (h : m a = some v) : put m a v = m := by
  rw [put, ← h, Function.update_eq_self]

theorem put_put (m : Store ι α) (a : ι) (v w : α) : put (put m a v) a w = put m a w :=
  Function.update_idem _ _ m

theorem store_ok (h : (m a).isSome) (v : α) : store m a v = .ok (put m a v) := by
  obtain ⟨w, hw⟩ := Option.isSome_iff_exists.mp h
  rw [store, load_ok hw]
  rfl

theorem free_eq {m' : Store ι α} (h : free m a = .ok m') : m' = drop m a := by
  obtain ⟨-, -, rfl⟩ := map_ok h
  rfl

theorem free_ok (h : (m a).isSome) : free m a = .ok (drop m a) := by
  obtain ⟨w, hw⟩ := Option.isSome_iff_exists.mp h
  rw [free, load_ok hw]
  rfl

end Writing

inductive Outcome (ι τ : Type*) where
  | running (state : τ)
  | fault (addr : ι)
  | done (state : τ)
  deriving DecidableEq

def Outcome.of : Except ι τ → Outcome ι τ
  | .ok t => .done t
  | .error a => .fault a

end Allocation
