import Mathlib.Tactic

/-! Arrays of a fixed size as C programs use them: block copies into the array
and moves inside it. The size is a field, so no operation can change it; what a
copy would write past the end is cut off. -/
namespace FixedBuffer
variable {α : Type*} {n : Nat}

structure Buffer (α : Type*) (n : Nat) where
  cells : List α
  size : cells.length = n

def fill (n : Nat) (a : α) : Buffer α n := ⟨List.replicate n a, by simp⟩

def Buffer.copyTo (b : Buffer α n) (off : Nat) (src : List α) : Buffer α n where
  cells := (b.cells.take off ++ src ++ b.cells.drop (off + src.length)).take n
  size := by
    have h := b.size
    simp only [List.length_take, List.length_append, List.length_drop]
    omega

def Buffer.moveDown (b : Buffer α n) (k r : Nat) : Buffer α n :=
  b.copyTo 0 ((b.cells.drop k).take r)

theorem Buffer.take_copyTo (b : Buffer α n) (off : Nat) (src : List α)
    (h : off + src.length ≤ n) :
    (b.copyTo off src).cells.take (off + src.length) = b.cells.take off ++ src := by
  have hb := b.size
  have ho : (b.cells.take off ++ src).length = off + src.length := by
    simp only [List.length_append, List.length_take]
    omega
  unfold Buffer.copyTo
  rw [List.take_take, Nat.min_eq_left h, List.take_append_of_le_length (by omega), ← ho,
    List.take_length]

theorem Buffer.take_moveDown (b : Buffer α n) (k r : Nat) (h : k + r ≤ n) :
    (b.moveDown k r).cells.take r = (b.cells.take (k + r)).drop k := by
  have hb := b.size
  have hl : ((b.cells.drop k).take r).length = r := by
    simp only [List.length_take, List.length_drop]
    omega
  have ht := b.take_copyTo 0 ((b.cells.drop k).take r) (by omega)
  rw [hl, Nat.zero_add] at ht
  rw [Buffer.moveDown, ht, List.take_zero, List.nil_append, List.drop_take]
  congr 1
  omega

theorem Buffer.eq_of_cells {a b : Buffer α n} (h : a.cells = b.cells) : a = b := by
  cases a
  cases b
  cases h
  rfl

theorem Buffer.copyTo_whole (b src : Buffer α n) : b.copyTo 0 src.cells = src := by
  have h := b.take_copyTo 0 src.cells (by rw [src.size, Nat.zero_add])
  have hsize := (b.copyTo 0 src.cells).size
  apply Buffer.eq_of_cells
  rw [Nat.zero_add, src.size, List.take_zero, List.nil_append,
    List.take_of_length_le (by omega)] at h
  exact h

theorem Buffer.copyTo_nil (b : Buffer α n) (off : Nat) : b.copyTo off [] = b := by
  apply Buffer.eq_of_cells
  simp [Buffer.copyTo, b.size]

-- Comparing two blocks must not unfold a copy cell by cell.
attribute [irreducible] Buffer.copyTo

end FixedBuffer
