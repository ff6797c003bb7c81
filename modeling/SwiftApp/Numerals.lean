import Mathlib.Data.Nat.Digits.Defs
import Mathlib.Data.List.Basic

namespace Numerals

variable {b : Nat} {digits : List Nat}

/-- The number that digits denote in base `b`, the most significant digit first. -/
def numeral (b : Nat) (digits : List Nat) : Nat := digits.foldl (fun n d => b * n + d) 0

theorem numeral_eq_ofDigits : numeral b digits = Nat.ofDigits b digits.reverse := by
  rw [Nat.ofDigits_eq_foldr, List.foldr_reverse]
  unfold numeral
  simp only [Nat.cast_id, Nat.add_comm]

theorem numeral_lt (base : 1 < b) (small : ∀ d ∈ digits, d < b) :
    numeral b digits < b ^ digits.length := by
  rw [numeral_eq_ofDigits, ← List.length_reverse]
  exact Nat.ofDigits_lt_base_pow_length base fun d hd => small d (List.mem_reverse.mp hd)

/-- The first `n` digits denote the number without its low digits. -/
theorem numeral_take (base : 1 < b) (small : ∀ d ∈ digits, d < b) (n : Nat) :
    numeral b (digits.take n) = numeral b digits / b ^ (digits.length - n) := by
  rw [numeral_eq_ofDigits, numeral_eq_ofDigits, Nat.ofDigits_div_pow_eq_ofDigits_drop _ (by omega),
    List.drop_reverse]
  · rcases le_or_gt n digits.length with fits | long
    · rw [Nat.sub_sub_self fits]
    · rw [List.take_of_length_le (by omega), List.take_of_length_le (by omega)]
  · exact fun d hd => small d (List.mem_reverse.mp hd)

theorem numeral_drop (base : 1 < b) (small : ∀ d ∈ digits, d < b) (n : Nat) :
    numeral b (digits.drop n) = numeral b digits % b ^ (digits.length - n) := by
  rw [numeral_eq_ofDigits, numeral_eq_ofDigits, Nat.ofDigits_mod_pow_eq_ofDigits_take _ (by omega),
    List.take_reverse]
  · rcases le_or_gt n digits.length with fits | long
    · rw [Nat.sub_sub_self fits]
    · rw [List.drop_of_length_le (by omega), List.drop_of_length_le (by omega)]
  · exact fun d hd => small d (List.mem_reverse.mp hd)

/-- The field of `width` bits above the low `low` bits of a number. -/
def field (low width n : Nat) : Nat := n / 2 ^ low % 2 ^ width

theorem field_lt (low width n : Nat) : field low width n < 2 ^ width :=
  Nat.mod_lt _ (Nat.two_pow_pos width)

theorem field_add (low more width n : Nat) :
    field (low + more) width n = field more width (n / 2 ^ low) := by
  unfold field
  rw [pow_add, Nat.div_div_eq_div_mul]

/-- A field under the cut does not see what the cut drops. -/
theorem field_cut {low width cut : Nat} (inside : low + width ≤ cut) (n : Nat) :
    field low width (field 0 cut n) = field low width n := by
  have split : 2 ^ cut = 2 ^ low * 2 ^ (cut - low) := by
    rw [← pow_add]
    congr 1
    omega
  have fits : 2 ^ width ∣ 2 ^ (cut - low) := Nat.pow_dvd_pow 2 (by omega)
  unfold field
  rw [pow_zero, Nat.div_one, split, Nat.mod_mul_right_div_self, Nat.mod_mod_of_dvd _ fits]

/-- Shifting first and masking then reads a field. -/
theorem shift_mask (low width n : Nat) : (n >>> low) &&& (2 ^ width - 1) = field low width n := by
  rw [Nat.and_two_pow_sub_one_eq_mod, Nat.shiftRight_eq_div_pow]
  rfl

/-- Masking first and shifting then reads the same field. -/
theorem mask_shift (low width n : Nat) :
    (n &&& ((2 ^ width - 1) <<< low)) >>> low = field low width n := by
  rw [Nat.shiftRight_and_distrib, Nat.shiftLeft_shiftRight, shift_mask]

/-- An arithmetic shift reads the same field, as long as no copy of the sign bit gets into it. -/
theorem sshiftRight_mask {w : Nat} (x : BitVec w) {low width : Nat} (fits : low + width ≤ w) :
    (x.sshiftRight low &&& BitVec.ofNat w (2 ^ width - 1)).toNat = field low width x.toNat := by
  have same : x.sshiftRight low &&& BitVec.ofNat w (2 ^ width - 1) =
      x >>> low &&& BitVec.ofNat w (2 ^ width - 1) := by
    apply BitVec.eq_of_getLsbD_eq
    intro i hi
    rw [BitVec.getLsbD_and, BitVec.getLsbD_and, BitVec.getLsbD_sshiftRight,
      BitVec.getLsbD_ushiftRight, BitVec.getLsbD_ofNat, Nat.testBit_two_pow_sub_one]
    by_cases inside : i < width
    · have below : ¬ w ≤ i := by omega
      have top : low + i < w := by omega
      simp [below, top]
    · simp [inside]
  have mask : 2 ^ width - 1 < 2 ^ w := by
    have := Nat.pow_le_pow_right (show 0 < 2 by omega) (show width ≤ w by omega)
    have := Nat.two_pow_pos width
    omega
  rw [same, BitVec.toNat_and, BitVec.toNat_ushiftRight, BitVec.toNat_ofNat,
    Nat.mod_eq_of_lt mask, shift_mask]

end Numerals
