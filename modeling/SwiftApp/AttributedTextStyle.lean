import SwiftApp.AttributedText

namespace SwiftApp

open Occurrence

/-- `UIFont(name:size:)`; `installed` says which names are those of a font. -/
def UIFont.initName (installed : String → Bool) (name : String) (size : ℚ) : Option UIFont :=
  if installed name then some (.named name size) else none

namespace NSMutableAttributedString

/-- The value is an optional font; a missing one is stored as the null object, which is no font. -/
def addOptionalFont (attrstring : NSMutableAttributedString) (value : Option UIFont)
    (range : NSRange) : Option NSMutableAttributedString :=
  attrstring.addAttribute (fun attributes => { attributes with font := value }) range

end NSMutableAttributedString

def attributedtextStyle (installed : String → Bool) (text : NSString) (mainColor : UIColor)
    (_mainFont : ℚ) (_mainFontName : String) (mainText : NSString) (subColor : UIColor)
    (subFont : ℚ) (subFontName : String) (subText : NSString) (_lastColor : UIColor) (_lastFont : ℚ)
    (_lastFontName : String) (_lastText : NSString) : Option NSMutableAttributedString := do
  let attrstring := NSMutableAttributedString.initString text
  let theRange := text.range mainText
  let attrstring ← attrstring.addForegroundColor mainColor theRange
  let attrstring ← attrstring.addForegroundColor mainColor theRange
  let theSubRange := text.range subText
  let attrstring ← attrstring.addForegroundColor subColor theSubRange
  attrstring.addOptionalFont (UIFont.initName installed subFontName subFont) theSubRange

structure TextSegment where
  color : UIColor
  font : ℚ
  fontName : String
  text : NSString

/-- The attributes that a segment asks for. -/
def TextSegment.attributes (segment : TextSegment) : TextAttributes :=
  ⟨some segment.color, some (.named segment.fontName segment.font)⟩

/-- A call whose three needles are found at disjoint places and whose fonts are installed. -/
structure StyleCall (installed : String → Bool) where
  text : NSString
  main : TextSegment
  sub : TextSegment
  last : TextSegment
  found : ∀ segment ∈ [main, sub, last], text.Contains segment.text
  apart : [main, sub, last].Pairwise fun first second =>
    ∀ i, text.Covers first.text i → ¬ text.Covers second.text i
  fonts : ∀ segment ∈ [main, sub, last], installed segment.fontName

namespace StyleCall

variable {installed : String → Bool}

open NSMutableAttributedString

def result (call : StyleCall installed) : Option NSMutableAttributedString :=
  attributedtextStyle installed call.text call.main.color call.main.font call.main.fontName
    call.main.text call.sub.color call.sub.font call.sub.fontName call.sub.text call.last.color
    call.last.font call.last.fontName call.last.text

/-- Every segment has its own colour and font, and every other unit is plain. -/
structure StylesAll (call : StyleCall installed) (result : NSMutableAttributedString) : Prop where
  length : result.length = call.text.units.length
  segment : ∀ segment ∈ [call.main, call.sub, call.last], ∀ i, call.text.Covers segment.text i →
    result[i]? = some segment.attributes
  rest : ∀ i < call.text.units.length,
    (∀ segment ∈ [call.main, call.sub, call.last], ¬ call.text.Covers segment.text i) →
      result[i]? = some ⟨none, none⟩

theorem result_eq (call : StyleCall installed) : call.result =
    ((((initString call.text).addAttribute (.setForegroundColor call.main.color)
      (call.text.range call.main.text)).bind fun attrstring =>
        attrstring.addAttribute (.setForegroundColor call.main.color)
          (call.text.range call.main.text)).bind fun attrstring =>
      (attrstring.addAttribute (.setForegroundColor call.sub.color)
        (call.text.range call.sub.text)).bind fun attrstring =>
          attrstring.addAttribute (fun attributes =>
            { attributes with font := UIFont.initName installed call.sub.fontName call.sub.font })
            (call.text.range call.sub.text)) := by
  rw [Option.bind_assoc]
  rfl

/-- The main text gets its colour alone, the sub text both, and the last text nothing. -/
theorem result_exact (call : StyleCall installed) :
    ∃ result : NSMutableAttributedString, call.result = some result ∧
      result.length = call.text.units.length ∧
      (∀ i, call.text.Covers call.main.text i → result[i]? = some ⟨some call.main.color, none⟩) ∧
      (∀ i, call.text.Covers call.sub.text i → result[i]? = some call.sub.attributes) ∧
      ∀ i < call.text.units.length, ¬ call.text.Covers call.main.text i →
        ¬ call.text.Covers call.sub.text i → result[i]? = some ⟨none, none⟩ := by
  have mainSub := (List.pairwise_cons.mp call.apart).1 call.sub (by simp)
  have font : UIFont.initName installed call.sub.fontName call.sub.font =
      some (.named call.sub.fontName call.sub.font) := by
    unfold UIFont.initName
    rw [if_pos (call.fonts call.sub (by simp))]
  obtain ⟨coloured, twice, length, inMain, besideMain⟩ := addAttribute_twice_found
    (call.found call.main (by simp)) (length_initString call.text)
    (.setForegroundColor call.main.color) (.setForegroundColor call.main.color)
  obtain ⟨result, styled, sameLength, inSub, besideSub⟩ := addAttribute_twice_found
    (call.found call.sub (by simp)) length (.setForegroundColor call.sub.color)
    fun attributes => { attributes with
      font := UIFont.initName installed call.sub.fontName call.sub.font }
  refine ⟨result, ?_, sameLength, ?_, ?_, ?_⟩
  · rw [result_eq, twice, Option.bind_some]
    exact styled
  · intro i covered
    rw [besideSub i (mainSub i covered), inMain i covered,
      getElem?_initString (NSString.covers_lt covered)]
    rfl
  · intro i covered
    have free : ¬ call.text.Covers call.main.text i := fun other => mainSub i other covered
    rw [inSub i covered, besideMain i free, getElem?_initString (NSString.covers_lt covered), font]
    rfl
  · intro i bound notMain notSub
    rw [besideSub i notSub, besideMain i notMain, getElem?_initString bound]

end StyleCall

/-- `attributedtextStyle` styles all three segments on no input: the main text has no font. -/
theorem attributedtextStyle_never_stylesAll (installed : String → Bool)
    (call : StyleCall installed) : ¬ ∃ result, call.result = some result ∧ call.StylesAll result := by
  intro all
  obtain ⟨styled, returned, exact⟩ := all
  obtain ⟨result, same, _, main, _⟩ := call.result_exact
  cases returned.symm.trans same
  obtain ⟨i, covered⟩ := NSString.exists_covers (call.found call.main (by simp))
  have asked := exact.segment call.main (by simp) i covered
  cases (main i covered).symm.trans asked

/-- A text of three letters, with one letter for each of the segments. -/
def lettersText : NSString := ⟨[0x61, 0x62, 0x63], by decide⟩

def letterSegment (unit : Nat) : TextSegment :=
  ⟨.gray, 12, "Georgia", ⟨[unit], by rw [List.length_singleton]; decide⟩⟩

theorem lettersText_contains : ∀ segment ∈ [0x61, 0x62, 0x63].map letterSegment,
    lettersText.Contains segment.text := by
  intro segment member
  obtain ⟨unit, place, rfl⟩ := List.mem_map.mp member
  obtain ⟨before, after, split⟩ := List.append_of_mem place
  refine ⟨List.cons_ne_nil _ _, before, after, ?_⟩
  exact (List.append_assoc _ _ _).trans split.symm

theorem lettersText_covers {unit i : Nat} (h : lettersText.Covers (letterSegment unit).text i) :
    lettersText.units[i]? = some unit := by
  obtain ⟨start, ⟨here, _⟩, low, high⟩ := h
  have same : i = start := by
    have size : (letterSegment unit).text.units.length = 1 := rfl
    omega
  obtain ⟨after, split⟩ := here
  have read := congrArg (·[0]?) split
  rw [List.getElem?_drop] at read
  rw [same]
  exact read.symm

def lettersCall : StyleCall fun _ => true where
  text := lettersText
  main := letterSegment 0x61
  sub := letterSegment 0x62
  last := letterSegment 0x63
  found := lettersText_contains
  apart := by
    have distinct : [0x61, 0x62, 0x63].Pairwise (· ≠ ·) := by decide
    apply List.pairwise_map.mpr (distinct.imp _)
    intro first second differ i inFirst inSecond
    exact differ (Option.some.inj
      ((lettersText_covers inFirst).symm.trans (lettersText_covers inSecond)))
  fonts := fun _ _ => rfl

theorem lettersCall_not_stylesAll : ¬ ∃ result, lettersCall.result = some result ∧
    lettersCall.StylesAll result := by
  intro all
  obtain ⟨result, returned, exact⟩ := all
  have run : lettersCall.result =
      some [⟨some .gray, none⟩, ⟨some .gray, some (.named "Georgia" 12)⟩, ⟨none, none⟩] := by
    decide +kernel
  cases run.symm.trans returned
  have first : FirstAt [0x61] lettersText.units 0 := ⟨by decide, by intro j below; omega⟩
  have asked := exact.segment lettersCall.main (by simp) 0
    ⟨0, first, Nat.le_refl 0, Nat.zero_lt_one⟩
  cases asked

end SwiftApp
