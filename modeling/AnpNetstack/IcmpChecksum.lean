import AnpNetstack.TcpChecksum
import AnpNetstack.BufferReads

/-! What the checksum test of icmp_rx covers. It begins behind a header of twenty bytes and takes as
many bytes as the whole IP packet has: options that stand in front of the message count, and the
last bytes come from behind the packet. -/
namespace AnpNetstack
open OnesComplement

section Words

def netWords : List UInt8 → List UInt16
  | [] => []
  | [b] => [256 * b.toUInt16]
  | b :: b' :: bs => (256 * b.toUInt16 + b'.toUInt16) :: netWords bs

def Verifies (bytes : List UInt8) : Prop := sum (netWords bytes) = 0xffff

instance (bytes : List UInt8) : Decidable (Verifies bytes) := inferInstanceAs (Decidable (_ = _))

theorem sum_eq_ones_iff (ws : List UInt16) :
    sum ws = 0xffff ↔ total ws % 65535 = 0 ∧ total ws ≠ 0 := by
  have hlt := (sum ws).toNat_lt
  have hones : (0xffff : UInt16).toNat = 65535 := rfl
  obtain ⟨hmod, hzero⟩ := sum_spec ws
  rw [← UInt16.toNat_inj, hones]
  omega

theorem word_toNat (b b' : UInt8) :
    (256 * b.toUInt16 + b'.toUInt16).toNat = 256 * b.toNat + b'.toNat := by
  have hb := b.toNat_lt
  have hb' := b'.toNat_lt
  have h256 : (256 : UInt16).toNat = 256 := rfl
  simp only [UInt16.toNat_add, UInt16.toNat_mul, UInt8.toNat_toUInt16, h256]
  omega

theorem last_word_toNat (b : UInt8) : (256 * b.toUInt16).toNat = 256 * b.toNat := by
  have hword := word_toNat b 0
  have hzero : (0 : UInt8).toUInt16 = 0 := rfl
  rw [hzero, UInt16.add_zero] at hword
  exact hword

/-- In the other byte order the total is the same up to a factor of 256. -/
theorem total_netWords (bytes : List UInt8) :
    (∃ k, 256 * total (leWords bytes) = total (netWords bytes) + 65535 * k) ∧
      (total (netWords bytes) = 0 ↔ total (leWords bytes) = 0) := by
  induction bytes using netWords.induct with
  | case1 => exact ⟨⟨0, rfl⟩, Iff.rfl⟩
  | case2 b =>
    refine ⟨⟨0, ?_⟩, ?_⟩
    · simp only [netWords, leWords, total_cons, total_nil, last_word_toNat, UInt8.toNat_toUInt16]
      omega
    · simp only [netWords, leWords, total_cons, total_nil, last_word_toNat, UInt8.toNat_toUInt16]
      omega
  | case3 b b' bs ih =>
    obtain ⟨⟨k, hk⟩, hzero⟩ := ih
    have hle : (b.toUInt16 + 256 * b'.toUInt16).toNat = 256 * b'.toNat + b.toNat := by
      rw [UInt16.add_comm]
      exact word_toNat b' b
    refine ⟨⟨b'.toNat + k, ?_⟩, ?_⟩
    · simp only [netWords, leWords, total_cons, word_toNat, hle]
      omega
    · simp only [netWords, leWords, total_cons, word_toNat, hle]
      omega

/-- Over so few bytes that its counter does not overflow, do_csum is the sum of the words it
reads. -/
theorem doCsum_leWords {bytes : List UInt8} (h : bytes.length ≤ 131074) :
    doCsum bytes 0 = ~~~ sum (leWords bytes) := by
  have hle := total_leWords_le bytes
  have hcount : ((0 : UInt32) + sumEvery16bits bytes).toNat = total (leWords bytes) := by
    rw [UInt32.zero_add, sumEvery16bits_toNat]
    omega
  rw [doCsum_eq_iff, hcount]
  exact ⟨rfl, Iff.rfl⟩

/-- It gives zero exactly when the checksum verifies. -/
theorem doCsum_zero_iff {bytes : List UInt8} (h : bytes.length ≤ 131074) :
    doCsum bytes 0 = 0 ↔ Verifies bytes := by
  have hnot : ~~~ (0xffff : UInt16) = 0 := rfl
  have hflip : ~~~ sum (leWords bytes) = 0 ↔ sum (leWords bytes) = 0xffff := by
    rw [← hnot, UInt16.not_inj]
  obtain ⟨⟨k, hk⟩, hzero⟩ := total_netWords bytes
  rw [doCsum_leWords h, hflip, Verifies, sum_eq_ones_iff, sum_eq_ones_iff]
  omega

def oddPad (bytes : List UInt8) : List UInt8 := if bytes.length % 2 = 0 then [] else [0]

theorem total_netWords_append (a b : List UInt8) :
    total (netWords (a ++ b)) = total (netWords a) + total (netWords (oddPad a ++ b)) := by
  induction a using netWords.induct with
  | case1 => simp [netWords, oddPad]
  | case2 x =>
    cases b with
    | nil => simp [netWords, oddPad]
    | cons y b =>
      -- the first byte behind is the lower half of the last word
      have hpad : oddPad [x] ++ y :: b = 0 :: y :: b := rfl
      rw [hpad]
      simp only [List.singleton_append, netWords, total_cons, total_nil, word_toNat,
        last_word_toNat, UInt8.toNat_zero]
      omega
  | case3 x y a ih =>
    have hpad : oddPad (x :: y :: a) = oddPad a := by
      simp only [oddPad, List.length_cons, Nat.add_assoc, Nat.add_mod_right]
    simp only [List.cons_append, netWords, total_cons, ih, hpad]
    omega

end Words

namespace Wire
open Packed

def rxIphdr (mem : List UInt8) : Iphdr := hostIp (readIp (mem.drop ethHdrLen))

/-- The checksum that icmp_rx computes; `mem` is the memory from the head of the buffer on. -/
def icmpRxCsum (mem : List UInt8) : Option UInt16 :=
  let ih := rxIphdr mem
  doCsumAt (overwrite ethHdrLen (ipMem ih) mem) (ethHdrLen + ipHdrLen) ih.len.toNat 0

structure IcmpPacket where
  mem : List UInt8
  accepted : ipRx mem = .icmp
  payload : (rxIphdr mem).ihl.val * 4 + icmpHdrSize.toNat ≤ (rxIphdr mem).len.toNat
  mapped : ethHdrLen + ipHdrLen + (rxIphdr mem).len.toNat ≤ mem.length

section Parts
variable (p : IcmpPacket)

def IcmpPacket.len : Nat := (rxIphdr p.mem).len.toNat

def IcmpPacket.hdrLen : Nat := (rxIphdr p.mem).ihl.val * 4

def IcmpPacket.message : List UInt8 := (p.mem.drop (ethHdrLen + p.hdrLen)).take (p.len - p.hdrLen)

def IcmpPacket.options : List UInt8 :=
  (p.mem.drop (ethHdrLen + ipHdrLen)).take (p.hdrLen - ipHdrLen)

def IcmpPacket.trailer : List UInt8 := (p.mem.drop (ethHdrLen + p.len)).take ipHdrLen

def IcmpPacket.messageSum : UInt16 := sum (netWords p.message)

/-- The sum of the options and of the bytes behind the packet. Behind a message of odd length the
first of these falls into the lower half of a word. -/
def IcmpPacket.outsideSum : UInt16 :=
  sum (netWords p.options ++ netWords (oddPad p.message ++ p.trailer))

end Parts

theorem icmpRxAt_csum (env : Env) (mem : List UInt8) :
    let ih := rxIphdr mem
    let stored := overwrite ethHdrLen (ipMem ih) mem
    let ip := (tcpPacket ih stored).ip
    icmpRxAt env ip { allocSub anpMtu15MaxSize with buf := stored } =
      if ipPayloadLen ip < icmpHdrSize then some []
      else do
        let csum ← icmpRxCsum mem
        if csum ≠ 0 then return []
        else
          let type ← stored[ethHdrLen + ipHdrLen]?
          if type = icmpV4Echo then icmpReplyAt env ip { allocSub anpMtu15MaxSize with
            buf := stored }
          else return [] := rfl

section Range
variable (p : IcmpPacket)

theorem IcmpPacket.hdrLen_ge : ipHdrLen ≤ p.hdrLen := by
  have hrx := p.accepted
  have hihl : (rxIphdr p.mem).ihl = (readIp (p.mem.drop ethHdrLen)).ihl := rfl
  simp only [ipRx] at hrx
  split_ifs at hrx with hv hshort
  all_goals
    rw [Fin.lt_def] at hshort
    have h5 : (5 : Fin 16).val = 5 := rfl
    simp only [IcmpPacket.hdrLen, hihl, ipHdrLen]
    omega

/-- The bytes that are summed: options, message, and what follows. -/
theorem IcmpPacket.summed :
    (p.mem.drop (ethHdrLen + ipHdrLen)).take p.len = p.options ++ (p.message ++ p.trailer) := by
  have hmin := p.hdrLen_ge
  have hpay : p.hdrLen ≤ p.len := le_trans (Nat.le_add_right _ _) p.payload
  have hsplit (i n k : Nat) (m : List UInt8) : (m.drop i).take (n + k) =
      (m.drop i).take n ++ (m.drop (i + n)).take k := by
    rw [List.take_add, List.drop_drop]
  have htotal : p.len = (p.hdrLen - ipHdrLen) + ((p.len - p.hdrLen) + ipHdrLen) := by omega
  have hmsg : ethHdrLen + ipHdrLen + (p.hdrLen - ipHdrLen) = ethHdrLen + p.hdrLen := by omega
  have hend : ethHdrLen + p.hdrLen + (p.len - p.hdrLen) = ethHdrLen + p.len := by omega
  rw [htotal, hsplit, hsplit, hmsg, hend]
  rfl

theorem IcmpPacket.csum_eq :
    icmpRxCsum p.mem = some (doCsum (p.options ++ (p.message ++ p.trailer)) 0) := by
  have hmapped := p.mapped
  have hkeep : (overwrite ethHdrLen (ipMem (rxIphdr p.mem)) p.mem).drop (ethHdrLen + ipHdrLen) =
      p.mem.drop (ethHdrLen + ipHdrLen) :=
    drop_overwrite (by omega) (Nat.le_refl _)
  have hload : load (overwrite ethHdrLen (ipMem (rxIphdr p.mem)) p.mem)
      (ethHdrLen + ipHdrLen) p.len =
      some ((p.mem.drop (ethHdrLen + ipHdrLen)).take p.len) := by
    rw [← hkeep]
    exact load_inside (le_trans hmapped (le_overwrite_length _ _ _))
  rw [p.summed] at hload
  show (load _ _ p.len >>= fun bytes => some (doCsum bytes 0)) = _
  rw [hload]
  rfl

theorem IcmpPacket.options_even : oddPad p.options = [] := by
  have hmin := p.hdrLen_ge
  have hpay := p.payload
  have hmapped := p.mapped
  have hlen : p.options.length = p.hdrLen - ipHdrLen := by
    rw [IcmpPacket.options, List.length_take, List.length_drop]
    simp only [IcmpPacket.hdrLen] at *
    omega
  have heven : (p.hdrLen - ipHdrLen) % 2 = 0 := by
    simp only [IcmpPacket.hdrLen, ipHdrLen]
    omega
  rw [oddPad, hlen, if_pos heven]

theorem IcmpPacket.total_summed :
    total (netWords (p.options ++ (p.message ++ p.trailer))) =
      total (netWords p.message) + total (netWords p.options ++
        netWords (oddPad p.message ++ p.trailer)) := by
  rw [total_netWords_append, p.options_even, List.nil_append, total_netWords_append, total_append]
  omega

/-- The test of icmp_rx is that of the message when the bytes outside sum up to nothing, or do not
happen to make good for a message that does not verify. -/
theorem icmp_checksum_exact (p : IcmpPacket) :
    (icmpRxCsum p.mem = some 0 ↔ Verifies p.message) ↔
      (Verifies p.message → p.outsideSum = 0 ∨ p.outsideSum = 0xffff) ∧
        (¬ Verifies p.message → p.outsideSum ≠ ~~~ p.messageSum) := by
  have hlen : (p.options ++ (p.message ++ p.trailer)).length ≤ 65535 := by
    have hlt := (rxIphdr p.mem).len.toNat_lt
    rw [← p.summed, List.length_take, IcmpPacket.len]
    omega
  have hones : (0xffff : UInt16).toNat = 65535 := rfl
  have hzero : (0 : UInt16).toNat = 0 := rfl
  have hflip : (~~~ p.messageSum).toNat = 65535 - p.messageSum.toNat := by
    rw [UInt16.toNat_not]
    rfl
  have hm := p.messageSum.toNat_lt
  have ho := p.outsideSum.toNat_lt
  obtain ⟨hmod, hnil⟩ := sum_spec (netWords p.message)
  obtain ⟨hmod', hnil'⟩ := sum_spec (netWords p.options ++ netWords (oddPad p.message ++ p.trailer))
  have hverify : Verifies p.message ↔ p.messageSum.toNat = 65535 := UInt16.toNat_inj.symm
  rw [p.csum_eq, Option.some.injEq, doCsum_zero_iff (hlen.trans (by decide)), Verifies,
    sum_eq_ones_iff, p.total_summed, hverify]
  simp only [ne_eq, ← UInt16.toNat_inj, hflip, hones, hzero]
  rw [← IcmpPacket.messageSum] at hmod hnil
  rw [← IcmpPacket.outsideSum] at hmod' hnil'
  by_cases hv : p.messageSum.toNat = 65535
  · -- the message verifies: the bytes outside may add multiples of 65535 only
    simp only [hv, iff_true, true_imp_iff, not_true_eq_false, false_imp_iff, and_true]
    omega
  · simp only [hv, iff_false, false_imp_iff, true_and, not_false_eq_true, true_imp_iff]
    omega

end Range

def trailedEcho : List UInt8 :=
  List.replicate 12 0 ++ [0x08, 0x00] ++
    [0x45, 0, 0, 24, 0, 0, 0, 0, 64, 1, 0x66, 0xdd, 10, 0, 0, 5, 10, 0, 0, 4] ++ [8, 0, 0xf7,
      0xff] ++ [1]

theorem trailer_decides :
    ¬ ∀ p : IcmpPacket, icmpRxCsum p.mem = some 0 ↔ Verifies p.message := by
  intro h
  let p : IcmpPacket :=
    { mem := (ethHdr (rxBuf trailedEcho)).2
      accepted := by decide +kernel
      payload := by decide +kernel
      mapped := by decide +kernel }
  have hverify : Verifies p.message := by decide +kernel
  have hcsum : icmpRxCsum p.mem ≠ some 0 := by decide +kernel
  exact hcsum ((h p).mpr hverify)

end Wire
end AnpNetstack
