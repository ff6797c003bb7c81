import SwiftApp.ButtonLayout
import Mathlib.Tactic.NormNum.OfScientific

namespace SwiftApp

/-- The insets move an element without changing its size. -/
def UIEdgeInsets.SumsToZero (insets : UIEdgeInsets) : Prop :=
  insets.left + insets.right = 0 ∧ insets.top + insets.bottom = 0

namespace ImageTitleButton

/-- The function for each side of the title. -/
def iconIn (button : ImageTitleButton) (style : ButtonImageEdgeInsetsStyle) (spacing : ℚ) :
    ImageTitleButton :=
  match style with
  | .top => button.iconInTop spacing
  | .left => button.iconInLeft spacing
  | .right => button.iconInRight spacing
  | .bottom => button.iconInBottom spacing

/-- The image is where it is asked to be, and no element is resized. -/
structure ExactLayout (button : ImageTitleButton) (style : ButtonImageEdgeInsetsStyle) (spacing : ℚ)
    (center : CGPoint) : Prop where
  image : button.imageEdgeInsets.SumsToZero
  title : button.titleEdgeInsets.SumsToZero
  arranged : button.Arranged style spacing center
  centred : button.Centred style center

variable (asset : Option CGSize) (image title : CGSize) (imageInsets titleInsets : UIEdgeInsets)
  (style : ButtonImageEdgeInsetsStyle) (spacing : ℚ)

@[simp] theorem imageSize_shown :
    (shown asset image title imageInsets titleInsets).imageSize = image := rfl

@[simp] theorem titleSize_shown :
    (shown asset image title imageInsets titleInsets).titleSize = title := rfl

theorem iconIn_eq : (shown asset image title imageInsets titleInsets).iconIn style spacing =
    (shown asset image title imageInsets titleInsets).imagePosition style spacing := by
  cases style with
  | top | bottom | left | right =>
    simp only [iconIn, iconInTop, iconInLeft, iconInRight, iconInBottom, imageSize_shown,
      titleSize_shown]
    unfold shown imagePosition
    congr 2 <;> linarith

theorem iconIn_sumsToZero (button : ImageTitleButton) :
    (button.iconIn style spacing).imageEdgeInsets.SumsToZero ∧
      (button.iconIn style spacing).titleEdgeInsets.SumsToZero := by
  unfold UIEdgeInsets.SumsToZero iconIn
  cases style with
  | top | bottom | left | right =>
    refine ⟨⟨?_, ?_⟩, ?_, ?_⟩
    all_goals
      simp only [iconInTop, iconInLeft, iconInRight, iconInBottom]
      linarith

theorem iconIn_arranged (center : CGPoint) :
    ((shown asset image title imageInsets titleInsets).iconIn style spacing).Arranged style spacing
      center := by
  cases style with
  | top | bottom | left | right =>
    refine arranged_iff.mpr ?_
    simp only [UIEdgeInsets.offset, imageSize_shown, titleSize_shown]
    apply And.intro <;> linarith

theorem iconIn_centred (center : CGPoint) :
    ((shown asset image title imageInsets titleInsets).iconIn style spacing).Centred style
      center := by
  cases style with
  | top | bottom =>
    refine centred_iff.mpr ?_
    simp only [imageFrame, titleFrame, CGRect.offsetBy, UIEdgeInsets.offset, imageSize_shown,
      titleSize_shown, ButtonImageEdgeInsetsStyle.CentredAt, CGRect.midX]
    apply And.intro <;> linarith
  | left | right =>
    refine centred_iff.mpr ?_
    simp only [imageFrame, titleFrame, CGRect.offsetBy, UIEdgeInsets.offset, imageSize_shown,
      titleSize_shown, ButtonImageEdgeInsetsStyle.CentredAt, CGRect.maxX]
    linarith

end ImageTitleButton

open ImageTitleButton

/-- Both ways of placing the image set the same insets, and these place it exactly. -/
theorem iconIn_agrees_and_exact (style : ButtonImageEdgeInsetsStyle) (asset : Option CGSize)
    (image title : CGSize) (imageInsets titleInsets : UIEdgeInsets) (spacing : ℚ)
    (center : CGPoint) :
    (shown asset image title imageInsets titleInsets).iconIn style spacing =
        (shown asset image title imageInsets titleInsets).imagePosition style spacing ∧
      ((shown asset image title imageInsets titleInsets).iconIn style spacing).ExactLayout style
        spacing center := by
  have zero := iconIn_sumsToZero style spacing (shown asset image title imageInsets titleInsets)
  refine ⟨iconIn_eq asset image title imageInsets titleInsets style spacing, ?_⟩
  apply ExactLayout.mk
  · exact zero.1
  · exact zero.2
  · exact iconIn_arranged asset image title imageInsets titleInsets style spacing center
  · exact iconIn_centred asset image title imageInsets titleInsets style spacing center

end SwiftApp
