import SwiftApp.HexColor

namespace SwiftApp

open Numerals

/-- Both parsers give their invalid colour for a text that is no colour without the white space
around it. -/
def OnlyColours (U : UnicodeData) (s : List Char) (alpha : ℚ) : Prop :=
  (¬ IsColour [['#'], ['0', 'x'], ['0', 'X']] (trimmingCharacters s) → UIColor.color U s = .clear) ∧
    (¬ IsColour [['#']] (trimmingCharacters s) → UIColor.hex U s alpha = .gray)

/-- Where the upper case of a text is six code units behind an optional `0X` and an optional `#`,
or six characters behind an optional `#`: these are hexadecimal digits, the text is ASCII, and it
does not have both prefixes. -/
def SixAreDigits (U : UnicodeData) (text : List Char) : Prop :=
  (∀ middle rest, U.Behind ['0', 'X'] (U.uppercased text) middle → U.Behind ['#'] middle rest →
    (utf16 rest).length = 6 →
      HexDigits rest ∧ Ascii text ∧ U.uppercased text ≠ ['0', 'X', '#'] ++ rest) ∧
  ∀ rest, U.Behind ['#'] (U.uppercased text) rest → (U.characters rest).length = 6 →
    HexDigits rest ∧ Ascii text

/-- The parsers accept nothing but colours if and only if what has the length of a colour has
the digits of one. -/
theorem only_colours_iff (U : UnicodeData) (s : List Char) (alpha : ℚ) :
    OnlyColours U s alpha ↔ SixAreDigits U (trimmingCharacters s) := by
  refine and_congr ?_ ?_
  · apply Iff.intro
    · intro strict middle rest h0x hash six
      have accepted := UIColor.color_accepts_iff.mpr ⟨middle, rest, h0x, hash, six⟩
      exact (UIColor.isColour_iff_color h0x hash six).mp (not_imp_comm.mp strict accepted)
    · intro digits other
      by_contra accepted
      obtain ⟨middle, rest, h0x, hash, six⟩ := UIColor.color_accepts_iff.mp accepted
      exact other ((UIColor.isColour_iff_color h0x hash six).mpr (digits middle rest h0x hash six))
  · apply Iff.intro
    · intro strict rest hash six
      have accepted := (UIColor.hex_accepts_iff alpha).mpr ⟨rest, hash, six⟩
      exact (UIColor.isColour_iff_hex hash six).mp (not_imp_comm.mp strict accepted)
    · intro digits other
      by_contra accepted
      obtain ⟨rest, hash, six⟩ := (UIColor.hex_accepts_iff alpha).mp accepted
      exact other ((UIColor.isColour_iff_hex hash six).mpr (digits rest hash six))

/-- Unicode data that is right for ASCII text without a carriage return. -/
def asciiData : UnicodeData where
  uppercaseMapping c := [c.toUpper]
  characters text := text.map fun c => [c]
  uppercase_ascii _ _ := rfl
  characters_flatten text := by
    induction text with
    | nil => rfl
    | cons c text ih => exact congrArg (c :: ·) ih
  characters_ascii _ _ := rfl

theorem six_letters_accepted : ¬ OnlyColours asciiData "GGGGGG".toList 1 := by
  intro strict
  have other : ¬ IsColour [['#'], ['0', 'x'], ['0', 'X']] (trimmingCharacters "GGGGGG".toList) := by
    intro colour
    obtain ⟨start, _, digits, same, six, hex⟩ := colour
    obtain ⟨c, hc⟩ := List.exists_mem_of_length_pos (by omega : 0 < digits.length)
    have letter : c ∈ List.replicate 6 'G' := by
      rw [show List.replicate 6 'G' = start ++ digits from same]
      exact List.mem_append_right start hc
    have digit := hex c hc
    rw [(List.mem_replicate.mp letter).2] at digit
    exact absurd digit (by decide)
  cases strict.1 other

/-- Six hexadecimal digits with an optional `#` in front and white space around. -/
structure ColourText where
  leading : List Char
  hash : Bool
  digits : List Char
  trailing : List Char
  before : ∀ c ∈ leading, whitespacesAndNewlines c.toNat = true
  six : digits.length = 6
  hex : HexDigits digits
  after : ∀ c ∈ trailing, whitespacesAndNewlines c.toNat = true

namespace ColourText

variable (t : ColourText)

def start : List Char := if t.hash then ['#'] else []

def text : List Char := t.leading ++ (t.start ++ t.digits ++ t.trailing)

/-- The number the six digits denote in base 16. -/
def value : Nat := hexValue t.digits

def colour : UIColor :=
  .rgba ((t.value / 65536 : Nat) / 255) ((t.value / 256 % 256 : Nat) / 255) ((t.value % 256 : Nat) / 255) 1

theorem value_lt : t.value < 16777216 := by
  have bound := hexValue_lt t.digits
  rw [t.six] at bound
  exact bound

theorem ofBytes_value : UIColor.ofBytes t.value 1 = t.colour := by
  have red : field 16 8 t.value = t.value / 65536 := by
    have := t.value_lt
    unfold field
    omega
  have blue : field 0 8 t.value = t.value % 256 := by
    unfold field
    omega
  unfold UIColor.ofBytes colour
  rw [red, blue]
  rfl

theorem start_eq : t.start = [] ∨ t.start = ['#'] := by
  unfold start
  cases t.hash with
  | true => exact Or.inr rfl
  | false => exact Or.inl rfl

theorem trimmed : trimmingCharacters t.text = t.start ++ t.digits := by
  apply trimmingCharacters_padded t.before t.after
  intro c hc
  rcases List.mem_append.mp hc with hc | hc
  · rcases t.start_eq with same | same <;> rw [same] at hc
    · cases hc
    · cases List.mem_singleton.mp hc
      rfl
  · exact hexDigit_not_white (t.hex c hc)

theorem uppercased (U : UnicodeData) :
    U.uppercased (trimmingCharacters t.text) = t.start ++ t.digits.map Char.toUpper := by
  have digits := t.hex.ascii
  rw [t.trimmed]
  rcases t.start_eq with same | same <;> rw [same]
  · exact U.uppercased_ascii digits
  · have ascii : Ascii ('#' :: t.digits) := List.forall_mem_cons.mpr ⟨by decide, digits⟩
    exact U.uppercased_ascii ascii

theorem upper_value : hexValue (t.digits.map Char.toUpper) = t.value :=
  hexValue_toUpper t.hex.ascii

theorem color_eq (U : UnicodeData) : UIColor.color U t.text = t.colour := by
  obtain ⟨middle, h0x⟩ := U.exists_behind ['0', 'X'] (U.uppercased (trimmingCharacters t.text))
  obtain ⟨rest, hash⟩ := U.exists_behind ['#'] middle
  have one : t.start = [] ∨ t.start = ['#'] ∨ t.start = ['0', 'X'] := t.start_eq.imp_right Or.inl
  have left := h0x
  rw [t.uppercased U] at left
  have same := UIColor.behind_prefixes t.hex.toUpper one left hash
  subst same
  have six : (utf16 (t.digits.map Char.toUpper)).length = 6 := by
    rw [utf16_ascii t.hex.toUpper.ascii, List.length_map, List.length_map, t.six]
  rw [UIColor.color_behind h0x hash, if_neg (not_not.mpr six),
    UIColor.ofUnits_digits t.hex.toUpper (by rw [List.length_map, t.six]), t.upper_value, t.ofBytes_value]

theorem hex_eq (U : UnicodeData) : UIColor.hex U t.text 1 = t.colour := by
  obtain ⟨rest, hash⟩ := U.exists_behind ['#'] (U.uppercased (trimmingCharacters t.text))
  have left := hash
  rw [t.uppercased U] at left
  have same := UIColor.behind_hash t.hex.toUpper t.start_eq left
  subst same
  have six : (U.characters (t.digits.map Char.toUpper)).length = 6 := by
    rw [U.characters_ascii _ t.hex.toUpper.plain, List.length_map, List.length_map, t.six]
  rw [UIColor.hex_behind hash, if_neg (not_not.mpr six), UIColor.initValueRGB_eq,
    UIColor.scanHexInt64_digits t.hex.toUpper (by rw [List.length_map, t.six]), t.upper_value, t.ofBytes_value]

end ColourText

/-- The two parsers and the four integer decoders give the same colour. -/
theorem decoders_agree (U : UnicodeData) (t : ColourText) :
    UIColor.color U t.text = t.colour ∧ UIColor.hex U t.text 1 = t.colour ∧
      COLORFROM16 (.ofNat t.value) = t.colour ∧ UIColor.initRgb (.ofNat t.value) = some t.colour ∧
      UIColor.initValueRGB (.ofNat t.value) 1 = t.colour ∧
      UIColor.initHex ((UInt32.ofNat t.value <<< 8) ||| 0xFF) = t.colour := by
  have small := t.value_lt
  have word : (UInt64.ofNat t.value).toNat = t.value := by
    rw [UInt64.toNat_ofNat']
    omega
  have signed : (Int64.ofNat t.value).toUInt64 = UInt64.ofNat t.value := rfl
  have packed : ((UInt32.ofNat t.value <<< 8) ||| 0xFF).toNat = t.value * 256 + 255 := by
    have whole : (UInt32.ofNat t.value).toNat = t.value := by
      rw [UInt32.toNat_ofNat']
      omega
    have shifted : (UInt32.ofNat t.value <<< 8).toNat = t.value <<< 8 := by
      rw [UInt32.toNat_shiftLeft, whole]
      apply Nat.mod_eq_of_lt
      rw [Nat.shiftLeft_eq]
      exact show t.value * 256 < 2 ^ 32 by omega
    have apart : (255 : Nat) < 2 ^ 8 := by omega
    rw [UInt32.toNat_or, shifted, ← Nat.shiftLeft_eq t.value 8]
    exact (Nat.shiftLeft_add_eq_or_of_lt apart t.value).symm
  have low : field 0 8 (t.value * 256 + 255) = 255 := by
    unfold field
    omega
  refine ⟨t.color_eq U, t.hex_eq U, ?_, ?_, ?_, ?_⟩
  · rw [COLORFROM16_eq, signed, word, t.ofBytes_value]
  · rw [UIColor.initRgb_eq, signed, word, t.ofBytes_value]
  · rw [UIColor.initValueRGB_eq, word, t.ofBytes_value]
  · have high : (t.value * 256 + 255) / 256 = t.value := by omega
    rw [UIColor.initHex_eq, packed, high, low, Nat.cast_ofNat, div_self (by decide), t.ofBytes_value]

def amber : ColourText where
  leading := [' ', '\n']
  hash := true
  digits := "fFcC00".toList
  trailing := ['\t']
  before := List.all_eq_true.mp rfl
  six := rfl
  hex := by decide
  after := List.all_eq_true.mp rfl

theorem decoders_agree_amber :
    UIColor.color asciiData " \n#fFcC00\t".toList = .rgba 1 (204 / 255) 0 1 ∧
      UIColor.hex asciiData " \n#fFcC00\t".toList 1 = .rgba 1 (204 / 255) 0 1 ∧
      COLORFROM16 0xFFCC00 = .rgba 1 (204 / 255) 0 1 := by
  have colour : amber.colour = .rgba 1 (204 / 255) 0 1 := by decide +kernel
  obtain ⟨color, hex, from16, _⟩ := decoders_agree asciiData amber
  rw [colour] at color hex from16
  exact ⟨color, hex, from16⟩

end SwiftApp
