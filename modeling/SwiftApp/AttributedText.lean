import SwiftApp.Occurrence
import SwiftApp.SwiftText
import SwiftApp.UIColor

namespace SwiftApp

open Occurrence

def NSNotFound : Nat := 2 ^ 63 - 1

structure NSRange where
  location : Nat
  length : Nat
deriving DecidableEq

/-- The UTF-16 units of a string; its indices are machine integers. -/
structure NSString where
  units : List Nat
  addressable : units.length < NSNotFound

def NSString.range (str : NSString) (searchString : NSString) : NSRange :=
  if searchString.units = [] then ⟨NSNotFound, 0⟩
  else
    match first searchString.units str.units with
    | some location => ⟨location, searchString.units.length⟩
    | none => ⟨NSNotFound, 0⟩

inductive UIFont
  | systemFont (ofSize : ℚ)
  | named (name : String) (size : ℚ)
deriving DecidableEq

structure TextAttributes where
  foregroundColor : Option UIColor
  font : Option UIFont
deriving DecidableEq

namespace TextAttributes

def setForegroundColor (value : UIColor) (attributes : TextAttributes) : TextAttributes :=
  { attributes with foregroundColor := some value }

def setFont (value : UIFont) (attributes : TextAttributes) : TextAttributes :=
  { attributes with font := some value }

end TextAttributes

/-- The attributes of each unit of the text. -/
abbrev NSMutableAttributedString := List TextAttributes

namespace NSMutableAttributedString

def initString (string : NSString) : NSMutableAttributedString :=
  List.replicate string.units.length ⟨none, none⟩

/-- The attributes with `value` applied inside the range. -/
def setting (attrstring : NSMutableAttributedString) (value : TextAttributes → TextAttributes)
    (range : NSRange) : NSMutableAttributedString :=
  attrstring.mapIdx fun i attributes =>
    if range.location ≤ i ∧ i < range.location + range.length then value attributes
    else attributes

/-- `none`: the exception for a range that lies beyond the end. -/
def addAttribute (attrstring : NSMutableAttributedString)
    (value : TextAttributes → TextAttributes) (range : NSRange) :
    Option NSMutableAttributedString :=
  if attrstring.length < range.location then none else some (attrstring.setting value range)

def addForegroundColor (attrstring : NSMutableAttributedString) (value : UIColor) (range : NSRange) :
    Option NSMutableAttributedString :=
  attrstring.addAttribute (TextAttributes.setForegroundColor value) range

def addFont (attrstring : NSMutableAttributedString) (value : UIFont) (range : NSRange) :
    Option NSMutableAttributedString :=
  attrstring.addAttribute (TextAttributes.setFont value) range

end NSMutableAttributedString

def attributedtext (text : NSString) (mainColor : UIColor) (_mainFont : ℚ) (mainText : NSString)
    (subColor : UIColor) (subFont : ℚ) (subText : NSString) : Option NSMutableAttributedString := do
  let attrstring := NSMutableAttributedString.initString text
  let theRange := text.range mainText
  let attrstring ← attrstring.addForegroundColor mainColor theRange
  let attrstring ← attrstring.addForegroundColor mainColor theRange
  let theSubRange := text.range subText
  let attrstring ← attrstring.addForegroundColor subColor theSubRange
  attrstring.addFont (.systemFont subFont) theSubRange

/-- The unit belongs to the first occurrence of the needle. -/
def NSString.Covers (text needle : NSString) (i : Nat) : Prop :=
  ∃ start, FirstAt needle.units text.units start ∧ start ≤ i ∧ i < start + needle.units.length

/-- The needle can be found in the text. -/
def NSString.Contains (text needle : NSString) : Prop :=
  needle.units ≠ [] ∧ needle.units <:+: text.units

/-- Every unit has what its place calls for, the sub text before the main text. -/
structure StyledExactly (text : NSString) (mainColor : UIColor) (mainText : NSString)
    (subColor : UIColor) (subFont : ℚ) (subText : NSString)
    (result : NSMutableAttributedString) : Prop where
  length : result.length = text.units.length
  sub : ∀ i, text.Covers subText i →
    result[i]? = some ⟨some subColor, some (.systemFont subFont)⟩
  main : ∀ i, ¬ text.Covers subText i → text.Covers mainText i →
    result[i]? = some ⟨some mainColor, none⟩
  rest : ∀ i < text.units.length, ¬ text.Covers subText i → ¬ text.Covers mainText i →
    result[i]? = some ⟨none, none⟩

theorem NSString.range_of_firstAt {text needle : NSString} {start : Nat}
    (solid : needle.units ≠ []) (h : FirstAt needle.units text.units start) :
    text.range needle = ⟨start, needle.units.length⟩ := by
  unfold NSString.range
  rw [if_neg solid, first_eq_some_iff.mpr h]

theorem NSString.range_of_absent {text needle : NSString} (absent : ¬ text.Contains needle) :
    text.range needle = ⟨NSNotFound, 0⟩ := by
  unfold NSString.range
  split
  next => rfl
  next solid =>
    have none : first needle.units text.units = none :=
      first_eq_none_iff.mpr fun occurs => absent ⟨solid, occurs⟩
    rw [none]

theorem NSString.exists_range {text needle : NSString} (h : text.Contains needle) :
    ∃ start, text.range needle = ⟨start, needle.units.length⟩ ∧ start ≤ text.units.length ∧
      ∀ i, text.Covers needle i ↔ start ≤ i ∧ i < start + needle.units.length := by
  obtain ⟨start, here⟩ := exists_firstAt_iff.mpr h.2
  refine ⟨start, NSString.range_of_firstAt h.1 here, here.start_le, ?_⟩
  intro i
  apply Iff.intro
  · intro covers
    obtain ⟨other, there, inside⟩ := covers
    cases here.unique there
    exact inside
  · exact fun inside => ⟨start, here, inside⟩

theorem NSString.covers_lt {text needle : NSString} {i : Nat} (h : text.Covers needle i) :
    i < text.units.length := by
  obtain ⟨start, here, _, inside⟩ := h
  have fits := here.fits
  omega

theorem NSString.exists_covers {text needle : NSString} (h : text.Contains needle) :
    ∃ i, text.Covers needle i := by
  obtain ⟨start, _, _, covers⟩ := NSString.exists_range h
  have size : 0 < needle.units.length := List.length_pos_iff.mpr h.1
  exact ⟨start, (covers start).mpr ⟨by omega, by omega⟩⟩

namespace NSMutableAttributedString

theorem length_setting (attrstring : NSMutableAttributedString)
    (value : TextAttributes → TextAttributes) (range : NSRange) :
    (attrstring.setting value range).length = attrstring.length :=
  List.length_mapIdx

theorem getElem?_setting (attrstring : NSMutableAttributedString)
    (value : TextAttributes → TextAttributes) (range : NSRange) (i : Nat) :
    (attrstring.setting value range)[i]? = attrstring[i]?.map fun attributes =>
      if range.location ≤ i ∧ i < range.location + range.length then value attributes
      else attributes :=
  List.getElem?_mapIdx

theorem addAttribute_some {attrstring : NSMutableAttributedString} {range : NSRange}
    (fits : range.location ≤ attrstring.length) (value : TextAttributes → TextAttributes) :
    attrstring.addAttribute value range = some (attrstring.setting value range) := by
  unfold addAttribute
  rw [if_neg (by omega)]

theorem setting_setting (attrstring : NSMutableAttributedString)
    (first second : TextAttributes → TextAttributes) (range : NSRange) :
    (attrstring.setting first range).setting second range =
      attrstring.setting (second ∘ first) range := by
  unfold setting
  rw [List.mapIdx_mapIdx]
  congr 1
  funext i attributes
  by_cases inside : range.location ≤ i ∧ i < range.location + range.length <;> simp [inside]

/-- Two attributes set one after the other on a range inside the text. -/
theorem addAttribute_twice {attrstring : NSMutableAttributedString} {range : NSRange}
    (fits : range.location ≤ attrstring.length) (first second : TextAttributes → TextAttributes) :
    ((attrstring.addAttribute first range).bind fun attrstring =>
      attrstring.addAttribute second range) = some (attrstring.setting (second ∘ first) range) := by
  have again : range.location ≤ (attrstring.setting first range).length := by
    rw [length_setting]
    exact fits
  rw [addAttribute_some fits, Option.bind_some, addAttribute_some again, setting_setting]

theorem addAttribute_notFound {attrstring : NSMutableAttributedString}
    (short : attrstring.length < NSNotFound) (value : TextAttributes → TextAttributes) :
    attrstring.addAttribute value ⟨NSNotFound, 0⟩ = none := by
  unfold addAttribute
  rw [if_pos short]

theorem length_initString (text : NSString) : (initString text).length = text.units.length :=
  List.length_replicate

theorem getElem?_initString {text : NSString} {i : Nat} (h : i < text.units.length) :
    (initString text)[i]? = some ⟨none, none⟩ := by
  unfold initString
  rw [List.getElem?_replicate, if_pos h]

/-- Two attributes set on a needle that is found change its first occurrence and nothing else. -/
theorem addAttribute_twice_found {text needle : NSString} (contains : text.Contains needle)
    {attrstring : NSMutableAttributedString} (h : attrstring.length = text.units.length)
    (first second : TextAttributes → TextAttributes) :
    ∃ result : NSMutableAttributedString,
      ((attrstring.addAttribute first (text.range needle)).bind fun attrstring =>
        attrstring.addAttribute second (text.range needle)) = some result ∧
      result.length = text.units.length ∧
      (∀ i, text.Covers needle i → result[i]? = attrstring[i]?.map (second ∘ first)) ∧
      ∀ i, ¬ text.Covers needle i → result[i]? = attrstring[i]? := by
  obtain ⟨start, range, fits, covers⟩ := NSString.exists_range contains
  have room : (text.range needle).location ≤ attrstring.length := by
    rw [range, h]
    exact fits
  refine ⟨attrstring.setting (second ∘ first) (text.range needle), ?_, ?_, ?_, ?_⟩
  · exact addAttribute_twice room first second
  · rw [length_setting, h]
  · intro i covered
    rw [getElem?_setting, range]
    simp only [if_pos ((covers i).mp covered)]
  · intro i free
    rw [getElem?_setting, range]
    simp only [if_neg (mt (covers i).mpr free)]
    exact Option.map_id'

end NSMutableAttributedString

section

variable {text mainText subText : NSString} {mainColor subColor : UIColor} {mainFont subFont : ℚ}

open NSMutableAttributedString

/-- The main text is coloured twice, and then the sub text styled. -/
theorem attributedtext_eq :
    attributedtext text mainColor mainFont mainText subColor subFont subText =
      (((initString text).addForegroundColor mainColor (text.range mainText)).bind fun attrstring =>
        attrstring.addForegroundColor mainColor (text.range mainText)).bind fun attrstring =>
          (attrstring.addForegroundColor subColor (text.range subText)).bind fun attrstring =>
            attrstring.addFont (.systemFont subFont) (text.range subText) := by
  rw [Option.bind_assoc]
  rfl

theorem attributedtext_without_main (absent : ¬ text.Contains mainText) :
    attributedtext text mainColor mainFont mainText subColor subFont subText = none := by
  have short : (initString text).length < NSNotFound := by
    rw [length_initString]
    exact text.addressable
  rw [attributedtext_eq, NSString.range_of_absent absent, addForegroundColor,
    addAttribute_notFound short, Option.bind_none, Option.bind_none]

/-- With the main text found, what is left is the styling of the sub text. -/
theorem attributedtext_with_main (contains : text.Contains mainText) (mainColor : UIColor) :
    ∃ coloured : NSMutableAttributedString, coloured.length = text.units.length ∧
      (∀ i, text.Covers mainText i → coloured[i]? = some ⟨some mainColor, none⟩) ∧
      (∀ i < text.units.length, ¬ text.Covers mainText i → coloured[i]? = some ⟨none, none⟩) ∧
      ∀ mainFont subColor subFont subText,
        attributedtext text mainColor mainFont mainText subColor subFont subText =
          (coloured.addForegroundColor subColor (text.range subText)).bind fun attrstring =>
            attrstring.addFont (.systemFont subFont) (text.range subText) := by
  obtain ⟨coloured, twice, length, inside, outside⟩ := addAttribute_twice_found contains
    (length_initString text) (TextAttributes.setForegroundColor mainColor)
    (TextAttributes.setForegroundColor mainColor)
  refine ⟨coloured, length, ?_, ?_, ?_⟩
  · intro i covered
    rw [inside i covered, getElem?_initString (NSString.covers_lt covered)]
    rfl
  · intro i bound free
    rw [outside i free, getElem?_initString bound]
  · intro mainFont subColor subFont subText
    rw [attributedtext_eq]
    simp only [addForegroundColor]
    rw [twice, Option.bind_some]

theorem attributedtext_without_sub (contains : text.Contains mainText)
    (absent : ¬ text.Contains subText) :
    attributedtext text mainColor mainFont mainText subColor subFont subText = none := by
  obtain ⟨coloured, length, _, _, rest⟩ := attributedtext_with_main contains mainColor
  have short : coloured.length < NSNotFound := by
    rw [length]
    exact text.addressable
  rw [rest, NSString.range_of_absent absent, addForegroundColor, addAttribute_notFound short,
    Option.bind_none]

theorem attributedtext_with_both (main : text.Contains mainText) (sub : text.Contains subText) :
    ∃ result, attributedtext text mainColor mainFont mainText subColor subFont subText =
      some result ∧ StyledExactly text mainColor mainText subColor subFont subText result := by
  obtain ⟨coloured, length, inMain, plain, rest⟩ := attributedtext_with_main main mainColor
  obtain ⟨result, styled, sameLength, inside, outside⟩ := addAttribute_twice_found sub length
    (TextAttributes.setForegroundColor subColor) (TextAttributes.setFont (.systemFont subFont))
  refine ⟨result, ?_, ?_⟩
  · rw [rest, addForegroundColor]
    exact styled
  apply StyledExactly.mk
  · exact sameLength
  · intro i covered
    rw [inside i covered]
    by_cases both : text.Covers mainText i
    · rw [inMain i both]
      rfl
    · rw [plain i (NSString.covers_lt covered) both]
      rfl
  · intro i free covered
    rw [outside i free, inMain i covered]
  · intro i bound free notMain
    rw [outside i free, plain i bound notMain]

end

/-- `attributedtext` returns, with exactly the first occurrences styled, if and only if both
needles are non-empty and occur in the text. -/
theorem attributedtext_exact_iff (text mainText subText : NSString) (mainColor subColor : UIColor)
    (mainFont subFont : ℚ) :
    (∃ result, attributedtext text mainColor mainFont mainText subColor subFont subText =
        some result ∧ StyledExactly text mainColor mainText subColor subFont subText result) ↔
      text.Contains mainText ∧ text.Contains subText := by
  apply Iff.intro
  · intro returns
    obtain ⟨result, returned, _⟩ := returns
    by_contra absent
    have trapped : attributedtext text mainColor mainFont mainText subColor subFont subText = none := by
      by_cases main : text.Contains mainText
      · exact attributedtext_without_sub main fun sub => absent ⟨main, sub⟩
      · exact attributedtext_without_main main
    cases trapped.symm.trans returned
  · intro contains
    exact attributedtext_with_both contains.1 contains.2

/-- The texts of the call in the source's documentation; the main text ends with a wide comma. -/
def documentedText : NSString :=
  ⟨utf16 ['1', '2', '3', '4', '5', '6', '7', '8', '9', '0'], by decide⟩

def documentedMainText : NSString := ⟨utf16 ['1', '2', '3', '4', '5', '，'], by decide⟩

def documentedSubText : NSString := ⟨utf16 ['6', '7', '8', '9', '0'], by decide⟩

theorem documented_call_raises : attributedtext documentedText .gray 12 documentedMainText .clear 12
    documentedSubText = none := by
  have comma : 0xFF0C ∈ documentedMainText.units := by decide
  have missing : 0xFF0C ∉ documentedText.units := by decide
  have absent : ¬ documentedText.Contains documentedMainText := by
    intro contains
    exact missing (contains.2.subset comma)
  exact attributedtext_without_main absent

end SwiftApp
