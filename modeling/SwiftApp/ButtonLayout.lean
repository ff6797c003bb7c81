import SwiftApp.ImageTitleButton

namespace SwiftApp

namespace ButtonImageEdgeInsetsStyle

/-- The image is on this side of the title, at this distance, and their centres are in line. -/
def Separates (style : ButtonImageEdgeInsetsStyle) (spacing : ℚ) (image title : CGRect) : Prop :=
  match style with
  | .top => title.y - image.maxY = spacing ∧ image.midX = title.midX
  | .left => title.x - image.maxX = spacing ∧ image.midY = title.midY
  | .right => image.x - title.maxX = spacing ∧ image.midY = title.midY
  | .bottom => image.y - title.maxY = spacing ∧ image.midX = title.midX

/-- The pair is centred at `x`: its outer edges side by side, its two centres otherwise. -/
def CentredAt (style : ButtonImageEdgeInsetsStyle) (x : ℚ) (image title : CGRect) : Prop :=
  match style with
  | .left => x - image.x = title.maxX - x
  | .right => x - title.x = image.maxX - x
  | .top | .bottom => image.midX = x ∧ title.midX = x

/-- `Separates` for the offsets from the layout in which image and title start side by side. -/
def Offsets (style : ButtonImageEdgeInsetsStyle) (spacing : ℚ) (imageSize titleSize : CGSize)
    (image title : CGPoint) : Prop :=
  match style with
  | .top => title.y - image.y = (imageSize.height + titleSize.height) / 2 + spacing ∧
      image.x - title.x = (imageSize.width + titleSize.width) / 2
  | .left => title.x - image.x = spacing ∧ image.y = title.y
  | .right => image.x - title.x = imageSize.width + titleSize.width + spacing ∧ image.y = title.y
  | .bottom => image.y - title.y = (imageSize.height + titleSize.height) / 2 + spacing ∧
      image.x - title.x = (imageSize.width + titleSize.width) / 2

end ButtonImageEdgeInsetsStyle

namespace ImageTitleButton

/-- Where the image is: image and title start side by side around the button's centre, and the
insets move each. -/
def imageFrame (center : CGPoint) (image title : CGSize) (insets : UIEdgeInsets) : CGRect :=
  (CGRect.mk (center.x - (image.width + title.width) / 2) (center.y - image.height / 2)
    image.width image.height).offsetBy insets.offset

/-- Where the title is. -/
def titleFrame (center : CGPoint) (image title : CGSize) (insets : UIEdgeInsets) : CGRect :=
  (CGRect.mk (center.x - (image.width + title.width) / 2 + image.width)
    (center.y - title.height / 2) title.width title.height).offsetBy insets.offset

def frames (button : ImageTitleButton) (center : CGPoint) : Option (CGRect × CGRect) := do
  let image := (← button.imageView).frameSize
  let title := (← button.titleLabel).frameSize
  some (imageFrame center image title button.imageEdgeInsets,
    titleFrame center image title button.titleEdgeInsets)

def Arranged (button : ImageTitleButton) (style : ButtonImageEdgeInsetsStyle) (spacing : ℚ)
    (center : CGPoint) : Prop :=
  ∃ image title, button.frames center = some (image, title) ∧ style.Separates spacing image title

def Centred (button : ImageTitleButton) (style : ButtonImageEdgeInsetsStyle) (center : CGPoint) :
    Prop :=
  ∃ image title, button.frames center = some (image, title) ∧ style.CentredAt center.x image title

/-- A button that shows an image and a title of these sizes. -/
def shown (asset : Option CGSize) (image title : CGSize) (imageInsets titleInsets : UIEdgeInsets) :
    ImageTitleButton :=
  ⟨some ⟨asset, image⟩, some ⟨title, title⟩, imageInsets, titleInsets⟩

section

variable {asset : Option CGSize} {image title : CGSize} {imageInsets titleInsets : UIEdgeInsets}
  {style : ButtonImageEdgeInsetsStyle} {spacing : ℚ} {center : CGPoint}

theorem exists_frames_iff {Relation : CGRect → CGRect → Prop} :
    (∃ imageRect titleRect,
      (shown asset image title imageInsets titleInsets).frames center =
        some (imageRect, titleRect) ∧ Relation imageRect titleRect) ↔
      Relation (imageFrame center image title imageInsets)
        (titleFrame center image title titleInsets) := by
  apply Iff.intro
  · intro h
    obtain ⟨imageRect, titleRect, frames, relation⟩ := h
    cases Option.some.inj frames
    exact relation
  · exact fun relation => ⟨_, _, rfl, relation⟩

theorem centred_iff :
    (shown asset image title imageInsets titleInsets).Centred style center ↔
      style.CentredAt center.x (imageFrame center image title imageInsets)
        (titleFrame center image title titleInsets) :=
  exists_frames_iff

theorem arranged_iff :
    (shown asset image title imageInsets titleInsets).Arranged style spacing center ↔
      style.Offsets spacing image title imageInsets.offset titleInsets.offset := by
  apply exists_frames_iff.trans
  unfold imageFrame titleFrame CGRect.offsetBy
  cases style with
  | top | bottom =>
    apply and_congr
    · unfold CGRect.maxY
      exact ⟨fun h => by linarith, fun h => by linarith⟩
    · unfold CGRect.midX
      exact ⟨fun h => by linarith, fun h => by linarith⟩
  | left | right =>
    apply and_congr
    · unfold CGRect.maxX
      exact ⟨fun h => by linarith, fun h => by linarith⟩
    · unfold CGRect.midY
      exact ⟨fun h => by linarith, fun h => by linarith⟩

theorem Arranged.gap_unique {button : ImageTitleButton} {spacing' : ℚ}
    (h : button.Arranged style spacing center) (h' : button.Arranged style spacing' center) :
    spacing = spacing' := by
  obtain ⟨image, title, frames, separated⟩ := h
  obtain ⟨image', title', frames', separated'⟩ := h'
  cases frames.symm.trans frames'
  cases style with
  | top | left | right | bottom => exact separated.1.symm.trans separated'.1

end

end ImageTitleButton

end SwiftApp
