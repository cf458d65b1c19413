import Mathlib.Tactic

/-! 32-bit sequence numbers against a window from `u` to `v`. Where the window does not
wrap, the plain unsigned order of the numbers in it is the order of their distances from
`u`; where it does, nothing lies in it in the plain order. Independent of any protocol. -/
namespace SeqWindow
variable {u v x y k : UInt32}

theorem toNat_distance (x u : UInt32) :
    (x - u).toNat = (2 ^ 32 - u.toNat + x.toNat) % 2 ^ 32 := UInt32.toNat_sub x u

/-- In plain order, `x` lies in the window iff the window does not wrap and `x` is at a
distance that the window has. -/
theorem mem_iff : u < x ∧ x ≤ v ↔ u ≤ v ∧ 0 < x - u ∧ x - u ≤ v - u := by
  have hu := u.toNat_lt
  have hv := v.toNat_lt
  have hx := x.toNat_lt
  simp only [UInt32.lt_iff_toNat_lt, UInt32.le_iff_toNat_le, toNat_distance, UInt32.toNat_zero]
  omega

theorem lt_iff (h : u ≤ v) (hx : x - u ≤ v - u) (hy : y - u ≤ v - u) : x < y ↔ x - u < y - u := by
  have hu := u.toNat_lt
  have hv := v.toNat_lt
  have hxl := x.toNat_lt
  have hyl := y.toNat_lt
  simp only [UInt32.lt_iff_toNat_lt, UInt32.le_iff_toNat_le, toNat_distance] at h hx hy ⊢
  omega

theorem shift_distance (x u k : UInt32) : x + k - (u + k) = x - u := by
  grind

theorem shift_inj : x + k = y + k ↔ x = y := by
  constructor
  · intro h
    grind
  · intro h
    rw [h]

end SeqWindow
