import Mathlib.Tactic

/-! Sums of 16-bit words with end-around carry, as RFC 1071 defines them. -/
namespace OnesComplement

/-- One's-complement addition: a carry out of the top comes back in at the bottom. -/
def add (x y : UInt16) : UInt16 := if x.toNat + y.toNat < 65536 then x + y else x + y + 1

def sum : List UInt16 → UInt16
  | [] => 0
  | w :: ws => add w (sum ws)

def total (ws : List UInt16) : Nat := (ws.map UInt16.toNat).sum

theorem add_toNat (x y : UInt16) :
    (add x y).toNat = if x.toNat + y.toNat < 65536 then x.toNat + y.toNat else
      x.toNat + y.toNat - 65535 := by
  have hx := x.toNat_lt
  have hy := y.toNat_lt
  have h1 : (1 : UInt16).toNat = 1 := rfl
  unfold add
  split_ifs with h
  · rw [UInt16.toNat_add]
    omega
  · rw [UInt16.toNat_add, UInt16.toNat_add, h1]
    omega

@[simp] theorem total_nil : total [] = 0 := rfl

@[simp] theorem total_cons (w : UInt16) (ws : List UInt16) :
    total (w :: ws) = w.toNat + total ws := by
  simp [total]

@[simp] theorem total_append (a b : List UInt16) : total (a ++ b) = total a + total b := by
  simp [total]

/-- The sum is the total modulo 65535, and zero only for zeros. -/
theorem sum_spec (ws : List UInt16) :
    (sum ws).toNat % 65535 = total ws % 65535 ∧ ((sum ws).toNat = 0 ↔ total ws = 0) := by
  induction ws with
  | nil => exact ⟨rfl, Iff.rfl⟩
  | cons w ws ih =>
    have hw := w.toNat_lt
    have hs := (sum ws).toNat_lt
    rw [sum, add_toNat, total_cons]
    split_ifs <;> omega

end OnesComplement
