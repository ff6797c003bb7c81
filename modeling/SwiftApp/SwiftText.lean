import SwiftApp.Numerals
import Mathlib.Data.List.DropRight

namespace SwiftApp

open Numerals

/-- `CharacterSet.whitespacesAndNewlines`: the separators of category Z, tab, U+000A to U+000D
and U+0085. -/
def whitespacesAndNewlines (code : Nat) : Bool :=
  (0x09 ≤ code && code ≤ 0x0D) || code == 0x20 || code == 0x85 || code == 0xA0 || code == 0x1680 ||
    (0x2000 ≤ code && code ≤ 0x200A) || code == 0x2028 || code == 0x2029 || code == 0x202F ||
    code == 0x205F || code == 0x3000

def trimmingCharacters (text : List Char) : List Char :=
  (text.dropWhile fun c => whitespacesAndNewlines c.toNat).rdropWhile fun c =>
    whitespacesAndNewlines c.toNat

/-- The UTF-16 code units of a text, which `NSString` counts. -/
def utf16 (text : List Char) : List Nat :=
  text.flatMap fun c =>
    if c.toNat < 0x10000 then [c.toNat]
    else [0xD800 + (c.toNat - 0x10000) / 0x400, 0xDC00 + (c.toNat - 0x10000) % 0x400]

/-- What the system's Unicode tables decide, with what Unicode says about ASCII text: upper case
is that of ASCII, and no two characters join except a carriage return and a line feed. -/
structure UnicodeData where
  uppercaseMapping : Char → List Char
  /-- the extended grapheme clusters of a text, Swift's `Character`s -/
  characters : List Char → List (List Char)
  uppercase_ascii : ∀ c, c.toNat < 128 → uppercaseMapping c = [c.toUpper]
  characters_flatten : ∀ text, (characters text).flatten = text
  characters_ascii : ∀ text, (∀ c ∈ text, c.toNat < 128 ∧ c ≠ '\r') →
    characters text = text.map fun c => [c]

namespace UnicodeData

variable (U : UnicodeData)

def uppercased (text : List Char) : List Char := text.flatMap U.uppercaseMapping

/-- A prefix in whole characters, for `String` and for the anchored search of `NSString`. -/
def hasPrefix (text start : List Char) : Bool :=
  (U.characters start).isPrefixOf (U.characters text)

/-- `remove(at: startIndex)` -/
def removeFirst (text : List Char) : List Char := (U.characters text).tail.flatten

end UnicodeData

def hexDigit (code : Nat) : Option Nat :=
  if 0x30 ≤ code ∧ code ≤ 0x39 then some (code - 0x30)
  else if 0x41 ≤ code ∧ code ≤ 0x46 then some (code - 0x41 + 10)
  else if 0x61 ≤ code ∧ code ≤ 0x66 then some (code - 0x61 + 10)
  else none

/-- The values of the hexadecimal digits up to the first code unit that is none. -/
def hexRun : List Nat → List Nat
  | [] => []
  | code :: text =>
    match hexDigit code with
    | some digit => digit :: hexRun text
    | none => []

/-- An optional `0x` or `0X` in front. -/
def skip0x (text : List Nat) : List Nat :=
  if [0x30, 0x78].isPrefixOf text || [0x30, 0x58].isPrefixOf text then text.drop 2 else text

/-- The variable after `Scanner.scanHexInt`, `old` being its value before; a number that does
not fit becomes the largest that does. -/
def scanHexInt (largest : Nat) (text : List Nat) (old : Nat) : Nat :=
  match hexRun (skip0x (text.dropWhile whitespacesAndNewlines)) with
  | [] => old
  | digits => min (numeral 16 digits) largest

def scanHexInt32 (text : List Nat) (old : UInt32) : UInt32 :=
  .ofNat (scanHexInt 0xFFFFFFFF text old.toNat)

def scanHexInt64 (text : List Nat) (old : UInt64) : UInt64 :=
  .ofNat (scanHexInt 0xFFFFFFFFFFFFFFFF text old.toNat)

def Ascii (text : List Char) : Prop := ∀ c ∈ text, c.toNat < 128

/-- Hexadecimal digits of either case. -/
def HexDigits (text : List Char) : Prop := ∀ c ∈ text, (hexDigit c.toNat).isSome

instance (text : List Char) : Decidable (HexDigits text) :=
  List.decidableBAll (fun c : Char => (hexDigit c.toNat).isSome = true) text

instance (text : List Char) : Decidable (Ascii text) :=
  List.decidableBAll (fun c : Char => c.toNat < 128) text

theorem hexDigit_spec {code digit : Nat} (h : hexDigit code = some digit) : digit < 16 ∧
    (0x30 ≤ code ∧ code ≤ 0x39 ∨ 0x41 ≤ code ∧ code ≤ 0x46 ∨ 0x61 ≤ code ∧ code ≤ 0x66) := by
  unfold hexDigit at h
  split at h
  next => cases h; omega
  next =>
    split at h
    next => cases h; omega
    next =>
      split at h
      next => cases h; omega
      next => cases h

theorem hexDigit_range {code : Nat} (h : (hexDigit code).isSome) :
    0x30 ≤ code ∧ code ≤ 0x39 ∨ 0x41 ≤ code ∧ code ≤ 0x46 ∨ 0x61 ≤ code ∧ code ≤ 0x66 := by
  obtain ⟨digit, h⟩ := Option.isSome_iff_exists.mp h
  exact (hexDigit_spec h).2

theorem HexDigits.ascii {text : List Char} (h : HexDigits text) : Ascii text := by
  intro c hc
  have := hexDigit_range (h c hc)
  omega

/-- No hexadecimal digit is white space. -/
theorem hexDigit_not_white {code : Nat} (h : (hexDigit code).isSome) :
    whitespacesAndNewlines code = false := by
  have := hexDigit_range h
  unfold whitespacesAndNewlines
  simp only [Bool.or_eq_false_iff, Bool.and_eq_false_iff, decide_eq_false_iff_not,
    beq_eq_false_iff_ne]
  omega

theorem forall_ascii {p : Char → Prop} (h : ∀ n < 128, p (Char.ofNat n)) {c : Char}
    (ascii : c.toNat < 128) : p c := by
  have := h c.toNat ascii
  rwa [Char.ofNat_toNat] at this

/-- Upper-casing keeps the digits and their values, and makes none. -/
theorem hexDigit_toUpper {c : Char} (ascii : c.toNat < 128) :
    hexDigit c.toUpper.toNat = hexDigit c.toNat :=
  forall_ascii (p := fun c => hexDigit c.toUpper.toNat = hexDigit c.toNat) (by decide) ascii

/-- Text of ASCII characters without a carriage return. -/
def Plain (text : List Char) : Prop := ∀ c ∈ text, c.toNat < 128 ∧ c ≠ '\r'

instance (text : List Char) : Decidable (Plain text) :=
  List.decidableBAll (fun c : Char => c.toNat < 128 ∧ c ≠ '\r') text

theorem Plain.append {text more : List Char} (h : Plain text) (hm : Plain more) :
    Plain (text ++ more) :=
  fun c hc => (List.mem_append.mp hc).elim (h c) (hm c)

theorem HexDigits.plain {text : List Char} (h : HexDigits text) : Plain text := by
  intro c hc
  have := hexDigit_range (h c hc)
  refine ⟨by omega, ?_⟩
  intro same
  subst same
  exact absurd (h '\r' hc) (by decide)

theorem dropWhile_none {p : Char → Bool} {text : List Char} (h : ∀ c ∈ text, p c = false) :
    text.dropWhile p = text := by
  rw [List.dropWhile_eq_self_iff]
  intro some_character
  simp [h _ (List.getElem_mem some_character)]

/-- Trimming takes the white space around a text without white space, and no more. -/
theorem trimmingCharacters_padded {leading body trailing : List Char}
    (before : ∀ c ∈ leading, whitespacesAndNewlines c.toNat = true)
    (after : ∀ c ∈ trailing, whitespacesAndNewlines c.toNat = true)
    (dark : ∀ c ∈ body, whitespacesAndNewlines c.toNat = false) :
    trimmingCharacters (leading ++ (body ++ trailing)) = body := by
  unfold trimmingCharacters
  rw [List.dropWhile_append_of_pos before, List.dropWhile_append, dropWhile_none dark]
  cases body with
  | nil =>
    have gone := List.dropWhile_eq_nil_iff.mpr after
    simp [gone]
  | cons c body =>
    rw [if_neg (by simp)]
    unfold List.rdropWhile
    have after' : ∀ d ∈ trailing.reverse, whitespacesAndNewlines d.toNat = true :=
      fun d hd => after d (List.mem_reverse.mp hd)
    rw [List.reverse_append, List.dropWhile_append_of_pos after', dropWhile_none, List.reverse_reverse]
    exact fun d hd => dark d (List.mem_reverse.mp hd)

theorem utf16_append (text more : List Char) : utf16 (text ++ more) = utf16 text ++ utf16 more :=
  List.flatMap_append

theorem utf16_ascii {text : List Char} (h : Ascii text) : utf16 text = text.map Char.toNat := by
  induction text with
  | nil => rfl
  | cons c text ih =>
    have ascii := h c List.mem_cons_self
    have rest := ih fun d hd => h d (List.mem_cons_of_mem c hd)
    unfold utf16 at rest ⊢
    rw [List.flatMap_cons, rest, if_pos (by omega)]
    rfl

theorem UnicodeData.uppercased_ascii (U : UnicodeData) {text : List Char} (h : Ascii text) :
    U.uppercased text = text.map Char.toUpper := by
  induction text with
  | nil => rfl
  | cons c text ih =>
    have rest := ih fun d hd => h d (List.mem_cons_of_mem c hd)
    unfold uppercased at rest ⊢
    rw [List.flatMap_cons, rest, U.uppercase_ascii c (h c List.mem_cons_self)]
    rfl

namespace UnicodeData

variable {U : UnicodeData}

theorem hasPrefix_iff {text start : List Char} (h : Plain text) (hs : Plain start) :
    U.hasPrefix text start = true ↔ start <+: text := by
  unfold hasPrefix
  rw [U.characters_ascii text h, U.characters_ascii start hs, List.isPrefixOf_iff_prefix]
  exact List.prefix_map_iff_of_injective fun a b same => List.head_eq_of_cons_eq same

theorem hasPrefix_append {text start : List Char} (h : U.hasPrefix text start = true) :
    ∃ rest, text = start ++ rest := by
  obtain ⟨more, same⟩ := List.isPrefixOf_iff_prefix.mp h
  refine ⟨more.flatten, ?_⟩
  rw [← U.characters_flatten text, ← same, List.flatten_append, U.characters_flatten]

theorem removeFirst_eq {text : List Char} {c : Char} (plain : Plain [c])
    (h : U.hasPrefix text [c] = true) : U.removeFirst text = text.drop 1 := by
  obtain ⟨more, same⟩ := List.isPrefixOf_iff_prefix.mp h
  rw [U.characters_ascii [c] plain] at same
  have all := U.characters_flatten text
  unfold removeFirst
  rw [← same] at all ⊢
  rw [← all]
  rfl

end UnicodeData

/-- The number a hexadecimal digit stands for. -/
def digitValue (c : Char) : Nat := (hexDigit c.toNat).getD 0

theorem digitValue_toUpper {c : Char} (ascii : c.toNat < 128) :
    digitValue c.toUpper = digitValue c := by
  unfold digitValue
  rw [hexDigit_toUpper ascii]

theorem digitValue_lt {c : Char} : digitValue c < 16 := by
  unfold digitValue
  cases h : hexDigit c.toNat with
  | none => simp
  | some digit => exact (hexDigit_spec h).1

theorem digitValues_lt (text : List Char) : ∀ d ∈ text.map digitValue, d < 16 := by
  intro d hd
  obtain ⟨c, _, rfl⟩ := List.mem_map.mp hd
  exact digitValue_lt

/-- The number that hexadecimal digits denote. -/
def hexValue (digits : List Char) : Nat := numeral 16 (digits.map digitValue)

theorem hexValue_lt (digits : List Char) : hexValue digits < 16 ^ digits.length := by
  have bound := numeral_lt (by omega) (digitValues_lt digits)
  rwa [List.length_map] at bound

theorem hexValue_take (digits : List Char) (n : Nat) :
    hexValue (digits.take n) = hexValue digits / 16 ^ (digits.length - n) := by
  unfold hexValue
  rw [List.map_take, numeral_take (by omega) (digitValues_lt digits), List.length_map]

theorem hexValue_drop (digits : List Char) (n : Nat) :
    hexValue (digits.drop n) = hexValue digits % 16 ^ (digits.length - n) := by
  unfold hexValue
  rw [List.map_drop, numeral_drop (by omega) (digitValues_lt digits), List.length_map]

theorem hexValue_toUpper {digits : List Char} (ascii : Ascii digits) :
    hexValue (digits.map Char.toUpper) = hexValue digits := by
  unfold hexValue
  rw [List.map_map]
  exact congrArg _ (List.map_congr_left fun c hc => digitValue_toUpper (ascii c hc))

theorem hexRun_digits {text : List Char} (h : HexDigits text) :
    hexRun (text.map Char.toNat) = text.map digitValue := by
  induction text with
  | nil => rfl
  | cons c text ih =>
    have rest := ih fun d hd => h d (List.mem_cons_of_mem c hd)
    obtain ⟨digit, hc⟩ := Option.isSome_iff_exists.mp (h c List.mem_cons_self)
    simp only [List.map_cons, hexRun, hc, rest]
    simp [digitValue, hc]

theorem not_mem_of_hexDigits {text : List Char} (h : HexDigits text) {c : Char}
    (other : (hexDigit c.toNat).isSome = false) : c ∉ text := by
  intro hc
  rw [h c hc] at other
  cases other

theorem skip0x_digits {text : List Char} (h : HexDigits text) :
    skip0x (text.map Char.toNat) = text.map Char.toNat := by
  have no_x {x : Nat} (other : hexDigit x = none) :
      [0x30, x].isPrefixOf (text.map Char.toNat) = false := by
    rw [← Bool.not_eq_true, List.isPrefixOf_iff_prefix]
    intro start
    obtain ⟨c, hc, same⟩ := List.mem_map.mp (start.subset (List.mem_cons_of_mem _ List.mem_cons_self))
    have digit := h c hc
    rw [same, other] at digit
    cases digit
  unfold skip0x
  rw [no_x (x := 0x78) rfl, no_x (x := 0x58) rfl]
  rfl

/-- A scan of hexadecimal digits reads the number they denote. -/
theorem scanHexInt_digits {text : List Char} (h : HexDigits text) (some_digit : text ≠ [])
    {largest old : Nat} (fits : hexValue text ≤ largest) :
    scanHexInt largest (text.map Char.toNat) old = hexValue text := by
  have kept : (text.map Char.toNat).dropWhile whitespacesAndNewlines = text.map Char.toNat := by
    cases text with
    | nil => rfl
    | cons c text =>
      have dark := hexDigit_not_white (h c List.mem_cons_self)
      rw [List.map_cons, List.dropWhile_cons_of_neg (by simp [dark])]
  unfold scanHexInt
  rw [kept, skip0x_digits h, hexRun_digits h]
  split
  next empty => exact absurd (List.map_eq_nil_iff.mp empty) some_digit
  next => exact min_eq_left fits

end SwiftApp
