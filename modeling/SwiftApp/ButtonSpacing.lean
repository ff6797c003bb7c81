import SwiftApp.ButtonLayout
import Mathlib.Tactic.NormNum.OfScientific

namespace SwiftApp

open ImageTitleButton

/-- `Positions` for a side of the title. -/
def ButtonImageEdgeInsetsStyle.position : ButtonImageEdgeInsetsStyle → Positions
  | .top => .top
  | .left => .left
  | .right => .right
  | .bottom => .bottom

/-- The calls that put a given spacing between image and title. -/
inductive SpacingCall
  | adjustImageTitlePosition (style : ButtonImageEdgeInsetsStyle)
  | layoutButton

namespace SpacingCall

def run (call : SpacingCall) (button : ImageTitleButton) (spacing : ℚ) : Option ImageTitleButton :=
  match call with
  | .adjustImageTitlePosition style => button.adjustImageTitlePosition style.position spacing
  | .layoutButton => button.layoutButton spacing

/-- Where the image is asked to be. -/
def style : SpacingCall → ButtonImageEdgeInsetsStyle
  | .adjustImageTitlePosition style => style
  | .layoutButton => .top

/-- The gap that comes of a spacing. -/
def gap (call : SpacingCall) (spacing : ℚ) : ℚ :=
  match call.style with
  | .left | .right => spacing
  | .top | .bottom => spacing / 2

variable (image title : CGSize) (imageInsets titleInsets : UIEdgeInsets)

theorem layoutButton_eq (spacing : ℚ) :
    (shown (some image) image title imageInsets titleInsets).layoutButton spacing =
      (shown (some image) image title imageInsets titleInsets).adjustImageTitlePosition .top
        spacing := rfl

/-- Image and title end up on the requested side, in line, `gap` apart. -/
theorem adjust_arranged (style : ButtonImageEdgeInsetsStyle) (spacing : ℚ) (center : CGPoint) :
    ∃ result, (shown (some image) image title imageInsets titleInsets).adjustImageTitlePosition
        style.position spacing = some result ∧
      result.Arranged style ((SpacingCall.adjustImageTitlePosition style).gap spacing) center := by
  cases style with
  | top | bottom | left | right =>
    refine ⟨_, rfl, arranged_iff.mpr ?_⟩
    unfold UIEdgeInsets.offset
    apply And.intro
    · simp only [gap, SpacingCall.style]
      linarith
    · linarith

theorem run_arranged (call : SpacingCall) (spacing : ℚ) (center : CGPoint) :
    ∃ result, call.run (shown (some image) image title imageInsets titleInsets) spacing =
        some result ∧ result.Arranged call.style (call.gap spacing) center := by
  cases call with
  | adjustImageTitlePosition style =>
    exact adjust_arranged image title imageInsets titleInsets style spacing center
  | layoutButton =>
    simp only [run, layoutButton_eq]
    exact adjust_arranged image title imageInsets titleInsets .top spacing center

theorem gap_eq_iff (call : SpacingCall) (spacing : ℚ) :
    call.gap spacing = spacing ↔ call.style = .left ∨ call.style = .right ∨ spacing = 0 := by
  unfold gap
  cases call.style with
  | left | right => simp only [reduceCtorEq, or_true, true_or]
  | top | bottom =>
    simp only [reduceCtorEq, false_or]
    exact ⟨fun h => by linarith, fun h => by linarith⟩

end SpacingCall

/-- The gap is the spacing exactly for the horizontal arrangements, and for no spacing at all. -/
theorem spacingCall_exact_iff (call : SpacingCall) (image title : CGSize)
    (imageInsets titleInsets : UIEdgeInsets) (spacing : ℚ) (center : CGPoint) :
    (∃ result, call.run (shown (some image) image title imageInsets titleInsets) spacing =
        some result ∧ result.Arranged call.style spacing center) ↔
      call.style = .left ∨ call.style = .right ∨ spacing = 0 := by
  obtain ⟨result, returned, arranged⟩ :=
    call.run_arranged image title imageInsets titleInsets spacing center
  rw [returned, ← call.gap_eq_iff]
  apply Iff.intro
  · intro exact
    obtain ⟨same, returned, requested⟩ := exact
    cases Option.some.inj returned
    exact arranged.gap_unique requested
  · intro exact
    rw [exact] at arranged
    exact ⟨result, rfl, arranged⟩

theorem adjust_top_halves_spacing : ¬ ∃ result,
    (shown (some ⟨20, 20⟩) ⟨20, 20⟩ ⟨40, 16⟩ ⟨0, 0, 0, 0⟩ ⟨0, 0, 0, 0⟩).adjustImageTitlePosition
      .top 10 = some result ∧ result.Arranged .top 10 ⟨0, 0⟩ := by
  intro exact
  obtain ⟨result, returned, arranged⟩ := exact
  cases Option.some.inj returned
  have gap := (arranged_iff.mp arranged).1
  revert gap
  decide +kernel

end SwiftApp
