import Mathlib.Tactic

/-! Words of packed structures in a byte buffer, as a little-endian host stores and loads them.
Loads beyond the end of the buffer give 0. -/
namespace Packed

def le16 (x : UInt16) : List UInt8 := [x.toUInt8, (x >>> 8).toUInt8]
def le32 (x : UInt32) : List UInt8 :=
  [x.toUInt8, (x >>> 8).toUInt8, (x >>> 16).toUInt8, (x >>> 24).toUInt8]

def read8 : List UInt8 → UInt8
  | b :: _ => b
  | _ => 0

def read16 : List UInt8 → UInt16
  | b :: b' :: _ => b.toUInt16 + 256 * b'.toUInt16
  | _ => 0

def read32 : List UInt8 → UInt32
  | b :: b' :: b'' :: b''' :: _ =>
    b.toUInt32 + 256 * b'.toUInt32 + 65536 * b''.toUInt32 + 16777216 * b'''.toUInt32
  | _ => 0

def overwrite (off : Nat) (bytes buf : List UInt8) : List UInt8 :=
  buf.take off ++ bytes ++ buf.drop (off + bytes.length)

/-- The `n` bytes from `off` on, each by its index; none if an index lies outside the buffer. -/
def load (buf : List UInt8) : Nat → Nat → Option (List UInt8)
  | _, 0 => some []
  | off, n + 1 => do
    let b ← buf[off]?
    let bs ← load buf (off + 1) n
    return b :: bs

@[simp] theorem read8_cons (x : UInt8) (rest : List UInt8) : read8 (x :: rest) = x := rfl

@[simp] theorem read16_le16 (x : UInt16) (rest : List UInt8) :
    read16 (x.toUInt8 :: (x >>> 8).toUInt8 :: rest) = x := by
  have hx := x.toNat_lt
  rw [← UInt16.toNat_inj]
  simp [read16, Nat.shiftRight_eq_div_pow]
  omega

@[simp] theorem read32_le32 (x : UInt32) (rest : List UInt8) :
    read32 (x.toUInt8 :: (x >>> 8).toUInt8 :: (x >>> 16).toUInt8 :: (x >>> 24).toUInt8 ::
      rest) = x := by
  have hx := x.toNat_lt
  rw [← UInt32.toNat_inj]
  simp [read32, Nat.shiftRight_eq_div_pow]
  omega

theorem overwrite_middle {off : Nat} {a old bytes b : List UInt8} (ha : a.length = off)
    (hlen : bytes.length = old.length) :
    overwrite off bytes (a ++ (old ++ b)) = a ++ (bytes ++ b) := by
  subst ha
  simp [overwrite, hlen]

theorem drop_middle {off : Nat} {a b : List UInt8} (ha : a.length = off) :
    (a ++ b).drop off = b := by
  subst ha
  simp

theorem drop_overwrite {off k : Nat} {bytes buf : List UInt8} (hoff : off ≤ buf.length)
    (hk : off + bytes.length ≤ k) : (overwrite off bytes buf).drop k = buf.drop k := by
  have hlen : (buf.take off ++ bytes).length = off + bytes.length := by simp [hoff]
  obtain ⟨j, rfl⟩ := Nat.exists_eq_add_of_le hk
  rw [overwrite, ← hlen, ← List.drop_drop, List.drop_left, hlen, List.drop_drop]

theorem overwrite_length {off : Nat} {bytes buf : List UInt8}
    (h : off + bytes.length ≤ buf.length) :
    (overwrite off bytes buf).length = buf.length := by
  simp only [overwrite, List.length_append, List.length_take, List.length_drop]
  omega

theorem le_overwrite_length (off : Nat) (bytes buf : List UInt8) :
    buf.length ≤ (overwrite off bytes buf).length := by
  simp only [overwrite, List.length_append, List.length_take, List.length_drop]
  omega

theorem load_inside {buf : List UInt8} {off n : Nat} (h : off + n ≤ buf.length) :
    load buf off n = some ((buf.drop off).take n) := by
  induction n generalizing off with
  | zero => simp [load]
  | succ n ih =>
    have hoff : off < buf.length := by omega
    have hrest : load buf (off + 1) n = some ((buf.drop (off + 1)).take n) := ih (by omega)
    rw [load, hrest, List.getElem?_eq_getElem hoff, List.drop_eq_getElem_cons hoff,
      List.take_succ_cons]
    rfl

theorem load_isSome (buf : List UInt8) (off n : Nat) :
    (load buf off n).isSome = true ↔ n = 0 ∨ off + n ≤ buf.length := by
  induction n generalizing off with
  | zero => simp [load]
  | succ n ih =>
    by_cases hoff : off < buf.length
    · have hstep : (load buf off (n + 1)).isSome = (load buf (off + 1) n).isSome := by
        rw [load, List.getElem?_eq_getElem hoff]
        cases load buf (off + 1) n <;> rfl
      rw [hstep, ih]
      omega
    · rw [load, List.getElem?_eq_none (by omega)]
      refine iff_of_false (by simp) (by omega)

theorem le16_read16 {m : List UInt8} (h : 2 ≤ m.length) : le16 (read16 m) = m.take 2 := by
  obtain ⟨b, b', rest, rfl⟩ : ∃ b b' rest, m = b :: b' :: rest := by
    match m, h with
    | b :: b' :: rest, _ => exact ⟨b, b', rest, rfl⟩
  have hb := b.toNat_lt
  have hb' := b'.toNat_lt
  have h256 : (256 : UInt16).toNat = 256 := rfl
  simp only [read16, le16, List.take_succ_cons, List.take_zero, List.cons.injEq, and_true]
  constructor
  · rw [← UInt8.toNat_inj]
    simp
  · rw [← UInt8.toNat_inj]
    simp [h256, Nat.shiftRight_eq_div_pow]
    omega

theorem le32_read32 {m : List UInt8} (h : 4 ≤ m.length) : le32 (read32 m) = m.take 4 := by
  obtain ⟨b, b', b'', b''', rest, rfl⟩ : ∃ b b' b'' b''' rest,
      m = b :: b' :: b'' :: b''' :: rest := by
    match m, h with
    | b :: b' :: b'' :: b''' :: rest, _ => exact ⟨b, b', b'', b''', rest, rfl⟩
  have hb := b.toNat_lt
  have hb' := b'.toNat_lt
  have hb'' := b''.toNat_lt
  have hb''' := b'''.toNat_lt
  simp only [read32, le32, List.take_succ_cons, List.take_zero, List.cons.injEq, and_true]
  refine ⟨?_, ?_, ?_, ?_⟩
  · rw [← UInt8.toNat_inj]
    simp
  all_goals
    rw [← UInt8.toNat_inj]
    simp [Nat.shiftRight_eq_div_pow]
    omega

/-! A word is read from its own bytes. -/

theorem read8_of_take {n : Nat} (m : List UInt8) (h : 1 ≤ n) : read8 (m.take n) = read8 m := by
  obtain ⟨k, rfl⟩ := Nat.exists_eq_add_of_le' h
  cases m <;> rfl

theorem read16_of_take {n : Nat} (m : List UInt8) (h : 2 ≤ n) : read16 (m.take n) = read16 m := by
  obtain ⟨k, rfl⟩ := Nat.exists_eq_add_of_le' h
  match m with
  | [] => rfl
  | [_] => rfl
  | _ :: _ :: _ => rfl

theorem read32_of_take {n : Nat} (m : List UInt8) (h : 4 ≤ n) : read32 (m.take n) = read32 m := by
  obtain ⟨k, rfl⟩ := Nat.exists_eq_add_of_le' h
  match m with
  | [] => rfl
  | [_] => rfl
  | [_, _] => rfl
  | [_, _, _] => rfl
  | _ :: _ :: _ :: _ :: _ => rfl

theorem read8_take {m : List UInt8} (h : 1 ≤ m.length) : [read8 m] = m.take 1 := by
  match m, h with
  | b :: rest, _ => rfl

theorem split_at {off n : Nat} {buf : List UInt8} (h : off + n ≤ buf.length) :
    ∃ a old b, buf = a ++ (old ++ b) ∧ a.length = off ∧ old.length = n := by
  refine ⟨buf.take off, (buf.drop off).take n, (buf.drop off).drop n, ?_, ?_, ?_⟩
  · rw [List.take_append_drop, List.take_append_drop]
  · rw [List.length_take]
    omega
  · rw [List.length_take, List.length_drop]
    omega

theorem overwrite_overwrite {off : Nat} {bytes bytes' buf : List UInt8}
    (h : off + bytes.length ≤ buf.length) (hlen : bytes'.length = bytes.length) :
    overwrite off bytes' (overwrite off bytes buf) = overwrite off bytes' buf := by
  obtain ⟨a, old, b, rfl, ha, ho⟩ := split_at h
  rw [overwrite_middle ha ho.symm, overwrite_middle ha hlen,
    overwrite_middle ha (hlen.trans ho.symm)]

theorem read32_overwrite {off : Nat} {buf : List UInt8} (h : off + 4 ≤ buf.length) (x : UInt32) :
    read32 ((overwrite off (le32 x) buf).drop off) = x := by
  obtain ⟨a, old, b, rfl, ha, ho⟩ := split_at h
  rw [overwrite_middle ha (by rw [ho]; rfl), drop_middle ha]
  exact read32_le32 x b

theorem overwrite_read32 {off : Nat} {buf : List UInt8} (h : off + 4 ≤ buf.length) :
    overwrite off (le32 (read32 (buf.drop off))) buf = buf := by
  obtain ⟨a, old, b, rfl, ha, ho⟩ := split_at h
  have hold : le32 (read32 (old ++ b)) = old := by
    rw [le32_read32 (by rw [List.length_append]; omega)]
    exact List.take_left' ho
  rw [drop_middle ha, hold, overwrite_middle ha rfl]

/-- The buffers are of one length and differ only in front of `off`. -/
def SameFrom (off : Nat) (buf buf' : List UInt8) : Prop :=
  buf'.length = buf.length ∧ buf'.drop off = buf.drop off

theorem SameFrom.refl (off : Nat) (buf : List UInt8) : SameFrom off buf buf := ⟨rfl, rfl⟩

theorem SameFrom.trans {off : Nat} {a b c : List UInt8} (h : SameFrom off a b)
    (h' : SameFrom off b c) :
    SameFrom off a c := ⟨h'.1.trans h.1, h'.2.trans h.2⟩

theorem sameFrom_overwrite {off k : Nat} {bytes buf : List UInt8} (hk : off + bytes.length ≤ k)
    (hbuf : k ≤ buf.length) : SameFrom k buf (overwrite off bytes buf) :=
  ⟨overwrite_length (hk.trans hbuf), drop_overwrite (by omega) hk⟩

end Packed
