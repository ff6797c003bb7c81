import SwiftApp.UIColor
import SwiftApp.SwiftText

namespace SwiftApp

open Numerals

namespace UIColor

/-- What `color(hex:)` makes of six code units: three scans of two units each. -/
def ofUnits (cstr : List Nat) : UIColor :=
  let rStr := cstr.take 2
  let gStr := (cstr.drop 2).take 2
  let bStr := (cstr.drop 4).take 2
  let r := scanHexInt32 rStr 0
  let g := scanHexInt32 gStr 0
  let b := scanHexInt32 bStr 0
  .rgba (r.toNat / 255) (g.toNat / 255) (b.toNat / 255) 1

/-- `UIColor.color(hex:)`; `0X` and `#` have one code unit to a character. -/
def color (U : UnicodeData) (hex : List Char) : UIColor :=
  let cstr := U.uppercased (trimmingCharacters hex)
  if (utf16 cstr).length < 6 then .clear
  else
    let cstr := if U.hasPrefix cstr ['0', 'X'] then cstr.drop 2 else cstr
    let cstr := if U.hasPrefix cstr ['#'] then cstr.drop 1 else cstr
    if (utf16 cstr).length ≠ 6 then .clear else ofUnits (utf16 cstr)

def hex (U : UnicodeData) (hex : List Char) (alpha : ℚ) : UIColor :=
  let cString := U.uppercased (trimmingCharacters hex)
  let cString := if U.hasPrefix cString ['#'] then U.removeFirst cString else cString
  if (U.characters cString).length ≠ 6 then .gray
  else
    let rgbValue := scanHexInt64 (utf16 cString) 0
    .rgba (((rgbValue &&& 0xFF0000) >>> 16).toNat / 255) (((rgbValue &&& 0x00FF00) >>> 8).toNat / 255)
      ((rgbValue &&& 0x0000FF).toNat / 255) alpha

end UIColor

/-- Six hexadecimal digits of either case, behind one of the prefixes at most. -/
def IsColour (prefixes : List (List Char)) (text : List Char) : Prop :=
  ∃ start ∈ [] :: prefixes, ∃ digits, text = start ++ digits ∧ digits.length = 6 ∧ HexDigits digits

theorem plain_hash : Plain ['#'] := by decide

theorem plain_0X : Plain ['0', 'X'] := by decide

/-- `rest` is `text` behind `start`, or all of `text` where it does not begin so. -/
inductive UnicodeData.Behind (U : UnicodeData) (start : List Char) : List Char → List Char → Prop
  | present {rest : List Char} : U.hasPrefix (start ++ rest) start = true → Behind U start (start ++ rest) rest
  | absent {text : List Char} : U.hasPrefix text start = false → Behind U start text text

namespace UnicodeData

variable {U : UnicodeData} {text start rest middle : List Char}

theorem behind_iff :
    U.Behind start text rest ↔ (if U.hasPrefix text start then text.drop start.length else text) = rest := by
  apply Iff.intro
  · intro h
    cases h with
    | present h => rw [if_pos h, List.drop_left]
    | absent h => rw [if_neg (by simp [h])]
  · intro h
    subst h
    cases found : U.hasPrefix text start with
    | true =>
      obtain ⟨rest, rfl⟩ := hasPrefix_append found
      rw [if_pos rfl, List.drop_left]
      exact .present found
    | false => exact .absent found

theorem exists_behind (U : UnicodeData) (start text : List Char) : ∃ rest, U.Behind start text rest :=
  ⟨_, behind_iff.mpr rfl⟩

theorem Behind.length_le (h : U.Behind start text rest) :
    (utf16 rest).length ≤ (utf16 text).length := by
  cases h with
  | present => simp [utf16_append]
  | absent => exact le_rfl

theorem behind_present (plain : Plain (start ++ rest)) (h : U.Behind start (start ++ rest) middle) :
    middle = rest := by
  have found : U.hasPrefix (start ++ rest) start = true :=
    (hasPrefix_iff plain fun c hc => plain c (List.mem_append_left _ hc)).mpr (List.prefix_append _ _)
  rw [behind_iff, if_pos found, List.drop_left] at h
  exact h.symm

theorem behind_absent (plain : Plain text) (plain_start : Plain start) (other : ¬ start <+: text)
    (h : U.Behind start text middle) : middle = text := by
  have missing : ¬ U.hasPrefix text start = true := mt (hasPrefix_iff plain plain_start).mp other
  rw [behind_iff, if_neg missing] at h
  exact h.symm

/-- Hexadecimal digits begin with neither of the prefixes. -/
theorem behind_digits (digits : HexDigits text) (plain : Plain start) {c : Char} (hc : c ∈ start)
    (other : (hexDigit c.toNat).isSome = false) (h : U.Behind start text middle) : middle = text :=
  behind_absent digits.plain plain (fun found => not_mem_of_hexDigits digits other (found.subset hc)) h

end UnicodeData

theorem HexDigits.toUpper {digits : List Char} (h : HexDigits digits) :
    HexDigits (digits.map Char.toUpper) := by
  intro c hc
  obtain ⟨d, hd, rfl⟩ := List.mem_map.mp hc
  rw [hexDigit_toUpper (h.ascii d hd)]
  exact h d hd

/-- A colour is upper-cased to its prefix and six hexadecimal digits. -/
theorem IsColour.uppercased {prefixes : List (List Char)} {text : List Char}
    (colour : IsColour prefixes text) (ascii : ∀ start ∈ prefixes, Ascii start) (U : UnicodeData) :
    Ascii text ∧ ∃ start ∈ [] :: prefixes, ∃ digits, digits.length = 6 ∧ HexDigits digits ∧
      U.uppercased text = start.map Char.toUpper ++ digits := by
  obtain ⟨start, known, digits, rfl, six, hex⟩ := colour
  have all : Ascii (start ++ digits) := by
    intro c hc
    rcases List.mem_append.mp hc with hc | hc
    · rcases List.mem_cons.mp known with rfl | known
      · cases hc
      · exact ascii start known c hc
    · exact hex.ascii c hc
  refine ⟨all, start, known, digits.map Char.toUpper, by rw [List.length_map, six], hex.toUpper, ?_⟩
  rw [U.uppercased_ascii all, List.map_append]

/-- ASCII text is a colour if its upper case is that of a prefix with six hexadecimal digits. -/
theorem isColour_of_uppercased {U : UnicodeData} {prefixes : List (List Char)}
    {text start rest : List Char} (ascii : Ascii text) (upper : U.uppercased text = start ++ rest)
    (digits : HexDigits rest) (six : rest.length = 6)
    (known : ∀ first, Ascii first → first.map Char.toUpper = start → first ∈ [] :: prefixes) :
    IsColour prefixes text := by
  rw [U.uppercased_ascii ascii] at upper
  obtain ⟨first, last, rfl, same, rfl⟩ := List.map_eq_append_iff.mp upper
  have first_known := known first (fun c hc => ascii c (List.mem_append_left last hc)) same
  refine ⟨first, first_known, last, rfl, by rw [← six, List.length_map], ?_⟩
  intro c hc
  have digit := digits c.toUpper (List.mem_map_of_mem hc)
  rwa [hexDigit_toUpper (ascii c (List.mem_append_right first hc))] at digit

/-- So it is if nothing stands before the digits. -/
theorem isColour_of_digits {U : UnicodeData} {prefixes : List (List Char)} {text rest : List Char}
    (ascii : Ascii text) (upper : U.uppercased text = rest) (digits : HexDigits rest)
    (six : rest.length = 6) : IsColour prefixes text := by
  have all : U.uppercased text = [] ++ rest := upper
  apply isColour_of_uppercased ascii all digits six
  intro first _ same
  rw [List.map_eq_nil_iff.mp same]
  exact List.mem_cons_self

theorem toUpper_hash {start : List Char} (ascii : Ascii start)
    (h : start.map Char.toUpper = ['#']) : start = ['#'] := by
  obtain ⟨c, rfl, upper⟩ := List.map_eq_singleton_iff.mp h
  have same := forall_ascii (p := fun c => c.toUpper = '#' → c = '#') (by decide)
    (ascii c List.mem_cons_self) upper
  rw [same]

theorem toUpper_0X {start : List Char} (ascii : Ascii start)
    (h : start.map Char.toUpper = ['0', 'X']) : start = ['0', 'x'] ∨ start = ['0', 'X'] := by
  obtain ⟨zero, tail, rfl, upper, rest⟩ := List.map_eq_cons_iff.mp h
  obtain ⟨x, rfl, upper_x⟩ := List.map_eq_singleton_iff.mp rest
  have same := forall_ascii (p := fun c => c.toUpper = '0' → c = '0') (by decide)
    (ascii zero List.mem_cons_self) upper
  have either := forall_ascii (p := fun c => c.toUpper = 'X' → c = 'x' ∨ c = 'X') (by decide)
    (ascii x (List.mem_cons_of_mem _ List.mem_cons_self)) upper_x
  rcases either with rfl | rfl <;> simp [same]

namespace UIColor

variable {U : UnicodeData}

theorem color_behind {text middle rest : List Char}
    (h0x : U.Behind ['0', 'X'] (U.uppercased (trimmingCharacters text)) middle)
    (hash : U.Behind ['#'] middle rest) :
    color U text = if (utf16 rest).length ≠ 6 then .clear else ofUnits (utf16 rest) := by
  have shorter := hash.length_le.trans h0x.length_le
  unfold color
  by_cases short : (utf16 (U.uppercased (trimmingCharacters text))).length < 6
  · rw [if_pos short, if_pos (by omega)]
  · rw [if_neg short]
    dsimp only
    rw [UnicodeData.behind_iff] at h0x hash
    exact h0x ▸ hash ▸ rfl

theorem hex_behind {text rest : List Char} {alpha : ℚ}
    (hash : U.Behind ['#'] (U.uppercased (trimmingCharacters text)) rest) :
    hex U text alpha = if (U.characters rest).length ≠ 6 then .gray
      else initValueRGB (scanHexInt64 (utf16 rest) 0) alpha := by
  have left : (if U.hasPrefix (U.uppercased (trimmingCharacters text)) ['#'] then
      U.removeFirst (U.uppercased (trimmingCharacters text))
      else U.uppercased (trimmingCharacters text)) = rest := by
    rw [← UnicodeData.behind_iff.mp hash]
    split
    next found => exact UnicodeData.removeFirst_eq plain_hash found
    next => rfl
  unfold hex
  dsimp only
  rw [left]
  rfl

theorem ofUnits_ne_clear {units : List Nat} : ofUnits units ≠ .clear := by
  intro h
  cases h

theorem color_accepts_iff {text : List Char} :
    color U text ≠ .clear ↔ ∃ middle rest,
      U.Behind ['0', 'X'] (U.uppercased (trimmingCharacters text)) middle ∧
        U.Behind ['#'] middle rest ∧ (utf16 rest).length = 6 := by
  apply Iff.intro
  · intro accepted
    obtain ⟨middle, h0x⟩ := U.exists_behind ['0', 'X'] (U.uppercased (trimmingCharacters text))
    obtain ⟨rest, hash⟩ := U.exists_behind ['#'] middle
    refine ⟨middle, rest, h0x, hash, ?_⟩
    by_contra other
    exact accepted ((color_behind h0x hash).trans (if_pos other))
  · intro h
    obtain ⟨middle, rest, h0x, hash, six⟩ := h
    rw [color_behind h0x hash, if_neg (not_not.mpr six)]
    exact ofUnits_ne_clear

theorem hex_accepts_iff {text : List Char} (alpha : ℚ) :
    hex U text alpha ≠ .gray ↔ ∃ rest,
      U.Behind ['#'] (U.uppercased (trimmingCharacters text)) rest ∧ (U.characters rest).length = 6 := by
  apply Iff.intro
  · intro accepted
    obtain ⟨rest, hash⟩ := U.exists_behind ['#'] (U.uppercased (trimmingCharacters text))
    refine ⟨rest, hash, ?_⟩
    by_contra other
    exact accepted ((hex_behind hash).trans (if_pos other))
  · intro h
    obtain ⟨rest, hash, six⟩ := h
    rw [hex_behind hash, if_neg (not_not.mpr six)]
    intro same
    cases same

theorem behind_hash {start digits rest : List Char} (hex : HexDigits digits)
    (known : start = [] ∨ start = ['#']) (hash : U.Behind ['#'] (start ++ digits) rest) :
    rest = digits := by
  rcases known with rfl | rfl
  · exact UnicodeData.behind_digits hex plain_hash List.mem_cons_self rfl hash
  · exact UnicodeData.behind_present (plain_hash.append hex.plain) hash

/-- What is left of hexadecimal digits behind one upper-case prefix at most. -/
theorem behind_prefixes {start digits middle rest : List Char} (hex : HexDigits digits)
    (known : start = [] ∨ start = ['#'] ∨ start = ['0', 'X'])
    (h0x : U.Behind ['0', 'X'] (start ++ digits) middle) (hash : U.Behind ['#'] middle rest) :
    rest = digits := by
  rcases known with rfl | rfl | rfl
  · have same := UnicodeData.behind_digits hex plain_0X (c := 'X') (by simp) rfl h0x
    subst same
    exact behind_hash hex (Or.inl rfl) hash
  · have same := UnicodeData.behind_absent (plain_hash.append hex.plain) plain_0X (by simp) h0x
    subst same
    exact behind_hash hex (Or.inr rfl) hash
  · have same := UnicodeData.behind_present (plain_0X.append hex.plain) h0x
    subst same
    exact behind_hash hex (Or.inl rfl) hash

/-- Six units that `color(hex:)` has left come from a colour if and only if they are hexadecimal
digits, upper-casing has made none of them, and not both prefixes were there. -/
theorem isColour_iff_color {text middle rest : List Char}
    (h0x : U.Behind ['0', 'X'] (U.uppercased text) middle) (hash : U.Behind ['#'] middle rest)
    (six : (utf16 rest).length = 6) : IsColour [['#'], ['0', 'x'], ['0', 'X']] text ↔
      HexDigits rest ∧ Ascii text ∧ U.uppercased text ≠ ['0', 'X', '#'] ++ rest := by
  apply Iff.intro
  · intro colour
    obtain ⟨ascii, start, known, digits, length, hex, upper⟩ := colour.uppercased (by decide) U
    have one : start.map Char.toUpper = [] ∨ start.map Char.toUpper = ['#'] ∨
        start.map Char.toUpper = ['0', 'X'] := by
      simp only [List.mem_cons, List.not_mem_nil, or_false] at known
      rcases known with rfl | rfl | rfl | rfl <;> decide
    rw [upper] at h0x ⊢
    have same := behind_prefixes hex one h0x hash
    subst same
    refine ⟨hex, ascii, ?_⟩
    intro both
    rw [List.append_cancel_right both] at one
    exact absurd one (by decide)
  · intro h
    obtain ⟨digits, ascii, one⟩ := h
    rw [utf16_ascii digits.ascii, List.length_map] at six
    generalize upper : U.uppercased text = u at h0x one
    cases h0x with
    | present =>
      cases hash with
      | present => exact absurd rfl one
      | absent =>
        apply isColour_of_uppercased ascii upper digits six
        intro first plain same
        rcases toUpper_0X plain same with rfl | rfl <;> simp
    | absent =>
      cases hash with
      | present =>
        apply isColour_of_uppercased ascii upper digits six
        intro first plain same
        rw [toUpper_hash plain same]
        simp
      | absent => exact isColour_of_digits ascii upper digits six

theorem isColour_iff_hex {text rest : List Char} (hash : U.Behind ['#'] (U.uppercased text) rest)
    (six : (U.characters rest).length = 6) :
    IsColour [['#']] text ↔ HexDigits rest ∧ Ascii text := by
  apply Iff.intro
  · intro colour
    obtain ⟨ascii, start, known, digits, length, hex, upper⟩ := colour.uppercased (by decide) U
    have one : start.map Char.toUpper = [] ∨ start.map Char.toUpper = ['#'] := by
      simp only [List.mem_cons, List.not_mem_nil, or_false] at known
      rcases known with rfl | rfl <;> decide
    rw [upper] at hash
    have same := behind_hash hex one hash
    subst same
    exact ⟨hex, ascii⟩
  · intro h
    obtain ⟨digits, ascii⟩ := h
    rw [U.characters_ascii rest digits.plain, List.length_map] at six
    generalize upper : U.uppercased text = u at hash
    cases hash with
    | present =>
      apply isColour_of_uppercased ascii upper digits six
      intro first plain same
      simp [toUpper_hash plain same]
    | absent => exact isColour_of_digits ascii upper digits six

theorem scanHexInt32_digits {digits : List Char} (hex : HexDigits digits) (two : digits.length = 2) :
    (scanHexInt32 (digits.map Char.toNat) 0).toNat = hexValue digits := by
  have small := hexValue_lt digits
  rw [two] at small
  have some_digit : digits ≠ [] := List.ne_nil_of_length_pos (by omega)
  unfold scanHexInt32
  rw [scanHexInt_digits hex some_digit (by omega), UInt32.toNat_ofNat']
  omega

/-- Six digits cut into three pairs are the three bytes of their number. -/
theorem ofUnits_digits {digits : List Char} (hex : HexDigits digits) (six : digits.length = 6) :
    ofUnits (utf16 digits) = ofBytes (hexValue digits) 1 := by
  have pair (low : Nat) (fits : low ≤ 4) :
      (scanHexInt32 (((digits.map Char.toNat).drop low).take 2) 0).toNat =
        hexValue digits % 16 ^ (6 - low) / 16 ^ (4 - low) := by
    have part : HexDigits ((digits.drop low).take 2) :=
      fun c hc => hex c (List.mem_of_mem_drop (List.mem_of_mem_take hc))
    have two : ((digits.drop low).take 2).length = 2 := by
      rw [List.length_take, List.length_drop]
      omega
    rw [← List.map_drop, ← List.map_take, scanHexInt32_digits part two, hexValue_take, hexValue_drop,
      List.length_drop, six, show 6 - low - 2 = 4 - low by omega]
  have bound := hexValue_lt digits
  rw [six] at bound
  have red : (scanHexInt32 ((digits.map Char.toNat).take 2) 0).toNat = field 16 8 (hexValue digits) := by
    have first := pair 0 (by omega)
    rw [List.drop_zero] at first
    rw [first]
    unfold field
    omega
  have green : (scanHexInt32 (((digits.map Char.toNat).drop 2).take 2) 0).toNat =
      field 8 8 (hexValue digits) := by
    rw [pair 2 (by omega)]
    unfold field
    omega
  have blue : (scanHexInt32 (((digits.map Char.toNat).drop 4).take 2) 0).toNat =
      field 0 8 (hexValue digits) := by
    rw [pair 4 (by omega)]
    unfold field
    omega
  unfold ofUnits ofBytes
  dsimp only
  rw [utf16_ascii hex.ascii, red, green, blue]

theorem scanHexInt64_digits {digits : List Char} (hex : HexDigits digits) (six : digits.length = 6) :
    (scanHexInt64 (utf16 digits) 0).toNat = hexValue digits := by
  have small := hexValue_lt digits
  rw [six] at small
  have some_digit : digits ≠ [] := List.ne_nil_of_length_pos (by omega)
  unfold scanHexInt64
  rw [utf16_ascii hex.ascii, scanHexInt_digits hex some_digit (by omega), UInt64.toNat_ofNat']
  omega

end UIColor

end SwiftApp
