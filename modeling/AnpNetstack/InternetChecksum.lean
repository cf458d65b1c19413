import AnpNetstack.IcmpChecksum
import AnpNetstack.RoundTrip

/-! do_csum with its loops as they stand in utilities.c, and what it computes: the checksum of RFC
1071, although the host reads the words in the other byte order. -/
namespace AnpNetstack.Wire
open OnesComplement Packed

section Loops

/-- The loop of sum_every_16bits with the bytes from `ptr` on, and what it adds behind it. -/
inductive SumLoop : List UInt8 → Int → UInt32 → UInt32 → Prop where
  | word {b b' : UInt8} {ptr : List UInt8} {count : Int} {sum result : UInt32} (h : count > 1)
      (rest : SumLoop ptr (count - 2) (sum + (b.toUInt32 + 256 * b'.toUInt32)) result) :
      SumLoop (b :: b' :: ptr) count sum result
  | leftOver {b : UInt8} {ptr : List UInt8} {count : Int} {sum : UInt32} (h1 : ¬ count > 1)
    (h : count > 0) :
      SumLoop (b :: ptr) count sum (sum + b.toUInt32)
  | done {ptr : List UInt8} {count : Int} {sum : UInt32} (h1 : ¬ count > 1) (h : ¬ count > 0) :
      SumLoop ptr count sum sum

inductive FoldLoop : UInt32 → UInt32 → Prop where
  | done {sum : UInt32} (h : sum >>> 16 = 0) : FoldLoop sum sum
  | round {sum result : UInt32} (h : sum >>> 16 ≠ 0)
      (rest : FoldLoop ((sum &&& (0xffff : UInt32)) + (sum >>> 16)) result) : FoldLoop sum result

def CsumReturns (bytes : List UInt8) (startSum : UInt32) (result : UInt16) : Prop :=
  ∃ sum folded, SumLoop bytes bytes.length 0 sum ∧ FoldLoop (startSum + sum) folded ∧
    result = (~~~ folded).toUInt16

theorem sumLoop_iff (bytes : List UInt8) (sum result : UInt32) :
    SumLoop bytes bytes.length sum result ↔ result = sum + sumEvery16bits bytes := by
  induction bytes using sumEvery16bits.induct generalizing sum with
  | case1 =>
    constructor
    · intro h
      cases h with
      | done h1 h => exact (UInt32.add_zero result).symm
    · rintro rfl
      rw [sumEvery16bits, UInt32.add_zero]
      exact .done (by decide) (by decide)
  | case2 b =>
    constructor
    · intro h
      cases h with
      | leftOver h1 h => rfl
      | done h1 h => exact absurd Int.one_pos h
    · rintro rfl
      exact .leftOver (Int.lt_irrefl 1) Int.one_pos
  | case3 b b' bs ih =>
    have hcount : ((b :: b' :: bs).length : Int) - 2 = bs.length := by
      simp only [List.length_cons]
      omega
    have hmore : ((b :: b' :: bs).length : Int) > 1 := by
      simp only [List.length_cons]
      omega
    have hrest := ih (sum + (b.toUInt32 + 256 * b'.toUInt32))
    rw [sumEvery16bits, ← UInt32.add_assoc, ← hrest, ← hcount]
    constructor
    · intro h
      cases h with
      | word h rest => exact rest
      | leftOver h1 h => exact absurd hmore h1
      | done h1 h => exact absurd hmore h1
    · exact .word hmore

theorem foldLoop_iff (sum result : UInt32) : FoldLoop sum result ↔ result = foldCarries 2 sum := by
  have hruns (fuel : Nat) (sum : UInt32) (h : foldCarries fuel sum >>> 16 = 0) :
      FoldLoop sum (foldCarries fuel sum) := by
    induction fuel generalizing sum with
    | zero => exact .done h
    | succ fuel ih =>
      simp only [foldCarries] at h ⊢
      split_ifs at h ⊢ with hs
      · exact .done hs
      · exact .round hs (ih _ h)
  have honly (h : FoldLoop sum result) (fuel : Nat) (hfuel : foldCarries fuel sum >>> 16 = 0) :
      result = foldCarries fuel sum := by
    induction h generalizing fuel with
    | done hs =>
      cases fuel with
      | zero => rfl
      | succ fuel => rw [foldCarries, if_pos hs]
    | round hs rest ih =>
      cases fuel with
      | zero => exact absurd hfuel hs
      | succ fuel =>
        rw [foldCarries, if_neg hs] at hfuel ⊢
        exact ih fuel hfuel
  constructor
  · intro h
    exact honly h 2 (foldCarries_done sum)
  · rintro rfl
    exact hruns 2 sum (foldCarries_done sum)

/-- Both loops come to an end, and there is one result. -/
theorem csumReturns_iff (bytes : List UInt8) (startSum : UInt32) (result : UInt16) :
    CsumReturns bytes startSum result ↔ result = doCsum bytes startSum := by
  simp only [CsumReturns, sumLoop_iff, foldLoop_iff, UInt32.zero_add]
  constructor
  · rintro ⟨_, _, rfl, rfl, rfl⟩
    rfl
  · rintro rfl
    exact ⟨_, _, rfl, rfl, rfl⟩

end Loops

section Meaning

/-- The checksum of RFC 1071, over words in network order with a zero behind a left-over byte. -/
def rfc1071 (bytes : List UInt8) : UInt16 := ~~~ sum (netWords bytes)

/-- The sum of the words that the host reads is the other sum with its bytes swapped. -/
theorem sum_leWords (bytes : List UInt8) : sum (leWords bytes) = htons (sum (netWords bytes)) := by
  obtain ⟨⟨k, hk⟩, hzero⟩ := total_netWords bytes
  obtain ⟨hmod, hnil⟩ := sum_spec (leWords bytes)
  obtain ⟨hmod', hnil'⟩ := sum_spec (netWords bytes)
  have hlt := (sum (leWords bytes)).toNat_lt
  have hlt' := (sum (netWords bytes)).toNat_lt
  rw [← UInt16.toNat_inj, htons_toNat]
  omega

theorem not_htons (x : UInt16) : ~~~ htons x = htons (~~~ x) := by
  have hx := x.toNat_lt
  have hsize : UInt16.size = 2 ^ 16 := rfl
  rw [← UInt16.toNat_inj, UInt16.toNat_not, htons_toNat, htons_toNat, UInt16.toNat_not]
  omega

theorem doCsum_rfc1071 {bytes : List UInt8} (h : bytes.length ≤ 131074) :
    le16 (doCsum bytes 0) = be16 (rfc1071 bytes) := by
  rw [doCsum_leWords h, sum_leWords, not_htons, le16_htons]
  rfl

theorem doCsum_field {bytes : List UInt8} {off : Nat} (heven : off % 2 = 0)
    (hoff : off + 2 ≤ bytes.length) :
    let zeroed := overwrite off (le16 0) bytes
    doCsum (overwrite off (le16 (doCsum zeroed 0)) zeroed) 0 = 0 := by
  intro zeroed
  obtain ⟨pre, old, post, rfl, rfl, hold⟩ := split_at hoff
  have hzeroed : zeroed = pre ++ (le16 0 ++ post) := overwrite_middle rfl hold.symm
  have hstored : overwrite pre.length (le16 (doCsum zeroed 0)) zeroed =
      pre ++ (le16 (doCsum zeroed 0) ++ post) := by
    rw [hzeroed]
    exact overwrite_middle rfl rfl
  rw [hstored, hzeroed]
  exact doCsum_stored heven post

end Meaning

theorem internet_checksum :
    (∀ bytes : List UInt8, bytes.length ≤ 131074 →
      (∀ result, CsumReturns bytes 0 result ↔ result = doCsum bytes 0) ∧
      le16 (doCsum bytes 0) = be16 (rfc1071 bytes) ∧
      (doCsum bytes 0 = 0 ↔ sum (netWords bytes) = 0xffff)) ∧
    ∀ (bytes : List UInt8) (off : Nat), off % 2 = 0 → off + 2 ≤ bytes.length →
      let zeroed := overwrite off (le16 0) bytes
      doCsum (overwrite off (le16 (doCsum zeroed 0)) zeroed) 0 = 0 := by
  refine ⟨fun bytes h => ⟨csumReturns_iff bytes 0, doCsum_rfc1071 h, doCsum_zero_iff h⟩, ?_⟩
  intro bytes off heven hoff
  exact doCsum_field heven hoff

end AnpNetstack.Wire
