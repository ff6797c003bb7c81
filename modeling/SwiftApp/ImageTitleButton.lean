import SwiftApp.CoreGraphics

namespace SwiftApp

structure UIEdgeInsets where
  top : ℚ
  left : ℚ
  bottom : ℚ
  right : ℚ

/-- How far centred content moves to the right and down. -/
def UIEdgeInsets.offset (insets : UIEdgeInsets) : CGPoint :=
  ⟨(insets.left - insets.right) / 2, (insets.top - insets.bottom) / 2⟩

structure UIImageView where
  /-- `image?.size` -/
  image : Option CGSize
  frameSize : CGSize

structure UILabel where
  frameSize : CGSize
  intrinsicContentSize : CGSize

/-- A button with its image, its title and their insets. -/
structure ImageTitleButton where
  imageView : Option UIImageView
  titleLabel : Option UILabel
  imageEdgeInsets : UIEdgeInsets
  titleEdgeInsets : UIEdgeInsets

inductive Positions
  | top
  | left
  | bottom
  | bottomReturn
  | right

/-- On which side of the title the image is. -/
inductive ButtonImageEdgeInsetsStyle
  | top
  | left
  | right
  | bottom

namespace ImageTitleButton

variable (button : ImageTitleButton)

/-- `none`: a forced unwrapping of a size that is missing. The call of `sizeToFit` in front changes
the size of the button alone. -/
def adjustImageTitlePosition (position : Positions) (spacing : ℚ) : Option ImageTitleButton :=
  let imageWidth := (button.imageView.bind (·.image)).map (·.width)
  let imageHeight := (button.imageView.bind (·.image)).map (·.height)
  let labelWidth := button.titleLabel.map (·.frameSize.width)
  let labelHeight := button.titleLabel.map (·.frameSize.height)
  match position with
  | .top => do
    let imageEdgeInsets := ⟨-(← labelHeight) - spacing / 2, 0, 0, -(← labelWidth)⟩
    let titleEdgeInsets := ⟨0, -(← imageWidth), -(← imageHeight) - spacing / 2, 0⟩
    some { button with imageEdgeInsets, titleEdgeInsets }
  | .left =>
    some { button with
      imageEdgeInsets := ⟨0, -spacing / 2, 0, 0⟩
      titleEdgeInsets := ⟨0, spacing * 1.5, 0, 0⟩ }
  | .bottom => do
    let imageEdgeInsets := ⟨0, 0, -(← labelHeight) - spacing / 2, -(← labelWidth)⟩
    let titleEdgeInsets := ⟨-(← imageHeight) - spacing / 2, -(← imageWidth), 0, 0⟩
    some { button with imageEdgeInsets, titleEdgeInsets }
  | .bottomReturn => do
    let titleEdgeInsets :=
      ⟨0, -(← imageWidth), -(← labelHeight) - spacing / 2, -(← labelWidth)⟩
    let imageEdgeInsets := ⟨-(← imageHeight) - spacing / 2, -(← imageWidth), 0, 0⟩
    some { button with imageEdgeInsets, titleEdgeInsets }
  | .right => do
    let imageEdgeInsets := ⟨0, (← labelWidth) + spacing / 2, 0, -(← labelWidth) - spacing / 2⟩
    let titleEdgeInsets := ⟨0, -(← imageWidth) - spacing / 2, 0, (← imageWidth) + spacing / 2⟩
    some { button with imageEdgeInsets, titleEdgeInsets }

def layoutButton (imageTitleSpace : ℚ) : Option ImageTitleButton := do
  let imageWidth := button.imageView.map (·.frameSize.width)
  let imageHeight := button.imageView.map (·.frameSize.height)
  let labelWidth := button.titleLabel.map (·.intrinsicContentSize.width)
  let labelHeight := button.titleLabel.map (·.intrinsicContentSize.height)
  let imageEdgeInsets := ⟨-(← labelHeight) - imageTitleSpace / 2, 0, 0, -(← labelWidth)⟩
  let labelEdgeInsets := ⟨0, -(← imageWidth), -(← imageHeight) - imageTitleSpace / 2, 0⟩
  some { button with titleEdgeInsets := labelEdgeInsets, imageEdgeInsets }

/-- `imageView?.frame.size ?? 0` -/
def imageSize : CGSize := (button.imageView.map (·.frameSize)).getD ⟨0, 0⟩

/-- `titleLabel?.frame.size ?? 0` -/
def titleSize : CGSize := (button.titleLabel.map (·.frameSize)).getD ⟨0, 0⟩

def iconInRight (spacing : ℚ) : ImageTitleButton :=
  let img_w := button.imageSize.width
  let title_w := button.titleSize.width
  { button with
    titleEdgeInsets := ⟨0, -(img_w + spacing / 2), 0, img_w + spacing / 2⟩
    imageEdgeInsets := ⟨0, title_w + spacing / 2, 0, -(title_w + spacing / 2)⟩ }

def iconInLeft (spacing : ℚ) : ImageTitleButton :=
  { button with
    titleEdgeInsets := ⟨0, spacing / 2, 0, -spacing / 2⟩
    imageEdgeInsets := ⟨0, -spacing / 2, 0, spacing / 2⟩ }

def iconInTop (spacing : ℚ) : ImageTitleButton :=
  let img_W := button.imageSize.width
  let img_H := button.imageSize.height
  let tit_W := button.titleSize.width
  let tit_H := button.titleSize.height
  { button with
    titleEdgeInsets := ⟨tit_H / 2 + spacing / 2, -(img_W / 2), -(tit_H / 2 + spacing / 2), img_W / 2⟩
    imageEdgeInsets :=
      ⟨-(img_H / 2 + spacing / 2), tit_W / 2, img_H / 2 + spacing / 2, -(tit_W / 2)⟩ }

def iconInBottom (spacing : ℚ) : ImageTitleButton :=
  let img_W := button.imageSize.width
  let img_H := button.imageSize.height
  let tit_W := button.titleSize.width
  let tit_H := button.titleSize.height
  { button with
    titleEdgeInsets := ⟨-(tit_H / 2 + spacing / 2), -(img_W / 2), tit_H / 2 + spacing / 2, img_W / 2⟩
    imageEdgeInsets :=
      ⟨img_H / 2 + spacing / 2, tit_W / 2, -(img_H / 2 + spacing / 2), -(tit_W / 2)⟩ }

def imagePosition (style : ButtonImageEdgeInsetsStyle) (space : ℚ) : ImageTitleButton :=
  match button.imageView, button.titleLabel with
  | some imageV, some titleL =>
    let imageWidth := imageV.frameSize.width
    let imageHeight := imageV.frameSize.height
    let labelWidth := titleL.intrinsicContentSize.width
    let labelHeight := titleL.intrinsicContentSize.height
    match style with
    | .left =>
      { button with
        imageEdgeInsets := ⟨0, -space * 0.5, 0, space * 0.5⟩
        titleEdgeInsets := ⟨0, space * 0.5, 0, -space * 0.5⟩ }
    | .right =>
      { button with
        imageEdgeInsets := ⟨0, labelWidth + space * 0.5, 0, -labelWidth - space * 0.5⟩
        titleEdgeInsets := ⟨0, -imageWidth - space * 0.5, 0, imageWidth + space * 0.5⟩ }
    | .top =>
      { button with
        imageEdgeInsets := ⟨-imageHeight * 0.5 - space * 0.5, labelWidth * 0.5,
          imageHeight * 0.5 + space * 0.5, -labelWidth * 0.5⟩
        titleEdgeInsets := ⟨labelHeight * 0.5 + space * 0.5, -imageWidth * 0.5,
          -labelHeight * 0.5 - space * 0.5, imageWidth * 0.5⟩ }
    | .bottom =>
      { button with
        imageEdgeInsets := ⟨imageHeight * 0.5 + space * 0.5, labelWidth * 0.5,
          -imageHeight * 0.5 - space * 0.5, -labelWidth * 0.5⟩
        titleEdgeInsets := ⟨-labelHeight * 0.5 - space * 0.5, -imageWidth * 0.5,
          labelHeight * 0.5 + space * 0.5, imageWidth * 0.5⟩ }
  | _, _ => button

/-- `.left` needs no sizes; every other position needs those of the image and of the title. -/
theorem adjustImageTitlePosition_isSome_iff (position : Positions) (spacing : ℚ) :
    (button.adjustImageTitlePosition position spacing).isSome = true ↔
      position = .left ∨
        (button.imageView.bind (·.image)).isSome = true ∧ button.titleLabel.isSome = true := by
  unfold adjustImageTitlePosition
  cases button.imageView.bind (·.image) with
  | none => cases position <;> cases button.titleLabel <;> simp
  | some image => cases position <;> cases button.titleLabel <;> simp

end ImageTitleButton

end SwiftApp
