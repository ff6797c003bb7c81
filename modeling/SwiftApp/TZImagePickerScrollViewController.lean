import SwiftApp.CoreGraphics
import Mathlib.Data.List.Range

namespace SwiftApp

/-- What can be in the scroll view; `other` is a view UIKit puts there. -/
inductive ScrollSubview (UIImage : Type)
  | addButton
  | imageView (image : UIImage) (frame : CGRect)
  | other (id : Nat)

namespace ScrollSubview

variable {UIImage : Type}

def isAddButton : ScrollSubview UIImage → Bool
  | .addButton => true
  | _ => false

def imageView? : ScrollSubview UIImage → Option (UIImage × CGRect)
  | .imageView image frame => some (image, frame)
  | _ => none

end ScrollSubview

structure TZImagePickerScrollViewController (UIImage : Type) where
  selectedImages : List UIImage
  subviews : List (ScrollSubview UIImage)
  addButtonFrame : CGRect
  contentSize : CGSize
  /-- `scrollView.frame.height` -/
  frameHeight : ℚ

namespace TZImagePickerScrollViewController

variable {UIImage : Type}

def imageSize : ℚ := 100

def spacing : ℚ := 10

/-- A scroll view before `viewDidLoad`, with whatever views UIKit put into it. -/
def unloaded (others : List Nat) (frameHeight : ℚ) : TZImagePickerScrollViewController UIImage :=
  ⟨[], others.map .other, ⟨0, 0, 0, 0⟩, ⟨0, 0⟩, frameHeight⟩

def setupUI (s : TZImagePickerScrollViewController UIImage) :
    TZImagePickerScrollViewController UIImage :=
  { s with subviews := s.subviews ++ [.addButton] }

def imageFrame (index : Nat) : CGRect := ⟨index * (imageSize + spacing), 0, imageSize, imageSize⟩

def updateImageViews (s : TZImagePickerScrollViewController UIImage) :
    TZImagePickerScrollViewController UIImage :=
  let addButtonX := s.selectedImages.length * (imageSize + spacing)
  let contentWidth := addButtonX + imageSize + spacing
  { s with
    subviews := s.subviews.filter ScrollSubview.isAddButton ++
      s.selectedImages.zipIdx.map fun (image, index) => .imageView image (imageFrame index)
    addButtonFrame := ⟨addButtonX, 0, imageSize, imageSize⟩
    contentSize := ⟨contentWidth, s.frameHeight⟩ }

def viewDidLoad (s : TZImagePickerScrollViewController UIImage) :
    TZImagePickerScrollViewController UIImage :=
  s.setupUI.updateImageViews

/-- `didFinishPickingPhotosHandle` of the picker `onAddButtonClick` opens. -/
def didFinishPickingPhotosHandle (s : TZImagePickerScrollViewController UIImage) :
    Option (List UIImage) → TZImagePickerScrollViewController UIImage
  | some photos => updateImageViews { s with selectedImages := s.selectedImages ++ photos }
  | none => s

end TZImagePickerScrollViewController

inductive ScrollStep (UIImage : Type)
  | session (photos : Option (List UIImage))
  /-- UIKit puts a view of its own into the scroll view -/
  | addOther (id : Nat)
  | layout (frameHeight : ℚ)

/-- The photos a session brings. -/
def ScrollStep.photos {UIImage : Type} : ScrollStep UIImage → List UIImage
  | .session photos => photos.getD []
  | .addOther _ | .layout _ => []

namespace TZImagePickerScrollViewController

variable {UIImage : Type}

def step (s : TZImagePickerScrollViewController UIImage) :
    ScrollStep UIImage → TZImagePickerScrollViewController UIImage
  | .session photos => s.didFinishPickingPhotosHandle photos
  | .addOther id => { s with subviews := s.subviews ++ [.other id] }
  | .layout frameHeight => { s with frameHeight := frameHeight }

/-- The image views in the scroll view, with their frames. -/
def imageViews (s : TZImagePickerScrollViewController UIImage) : List (UIImage × CGRect) :=
  s.subviews.filterMap ScrollSubview.imageView?

def imageFrames (s : TZImagePickerScrollViewController UIImage) : List CGRect :=
  s.imageViews.map Prod.snd

/-- The frames of the images and the button. -/
def frames (s : TZImagePickerScrollViewController UIImage) : List CGRect :=
  s.imageFrames ++ [s.addButtonFrame]

structure LaidOut (s : TZImagePickerScrollViewController UIImage) : Prop where
  /-- nothing is in the scroll view but the button and image views -/
  subviews : s.subviews = .addButton :: s.imageViews.map fun view => .imageView view.1 view.2
  images : s.imageViews.map Prod.fst = s.selectedImages
  apart : s.imageFrames.IsChain fun f g => g.x = f.maxX + spacing
  disjoint : s.frames.Pairwise fun f g => ¬ f.Overlaps g
  addButton : s.addButtonFrame.x = (s.imageFrames.getLast?.elim 0 fun last => last.maxX + spacing)
  inside : ∀ f ∈ s.frames, 0 ≤ f.x ∧ f.maxX ≤ s.contentSize.width

theorem selectedImages_step (s : TZImagePickerScrollViewController UIImage) (a : ScrollStep UIImage) :
    (s.step a).selectedImages = s.selectedImages ++ a.photos := by
  cases a with
  | session photos =>
    cases photos with
    | none => exact (List.append_nil _).symm
    | some photos => rfl
  | addOther id => exact (List.append_nil _).symm
  | layout frameHeight => exact (List.append_nil _).symm

theorem selectedImages_run (steps : List (ScrollStep UIImage)) (s : TZImagePickerScrollViewController UIImage) :
    (steps.foldl step s).selectedImages = s.selectedImages ++ steps.flatMap ScrollStep.photos := by
  induction steps generalizing s with
  | nil => exact (List.append_nil _).symm
  | cons a steps ih =>
    rw [List.foldl_cons, ih, selectedImages_step, List.append_assoc]
    rfl

theorem imageFrame_next (index : Nat) :
    (imageFrame (index + 1)).x = (imageFrame index).maxX + spacing := by
  unfold imageFrame CGRect.maxX imageSize spacing
  rw [Nat.cast_succ]
  linarith

theorem imageFrame_before {i j : Nat} (h : i < j) : (imageFrame i).maxX ≤ (imageFrame j).x := by
  have cast : (i : ℚ) + 1 ≤ j := by exact_mod_cast h
  unfold imageFrame CGRect.maxX imageSize spacing
  linarith

theorem imageFrame_nonneg (index : Nat) : 0 ≤ (imageFrame index).x := by
  have cast : (0 : ℚ) ≤ index := Nat.cast_nonneg index
  unfold imageFrame imageSize spacing
  linarith

theorem imageFrame_inside {index count : Nat} (h : index ≤ count) :
    (imageFrame index).maxX ≤ count * (imageSize + spacing) + imageSize + spacing := by
  have cast : (index : ℚ) ≤ count := Nat.cast_le.mpr h
  unfold imageFrame CGRect.maxX imageSize spacing
  linarith

/-- The frame after so many images is spaced from the last of them, or at the left edge. -/
theorem imageFrame_after (count : Nat) : (imageFrame count).x =
    (((List.range count).map imageFrame).getLast?.elim 0 fun last => last.maxX + spacing) := by
  cases count with
  | zero =>
    unfold imageFrame
    simp
  | succ count =>
    rw [List.range_succ, List.map_append, List.map_singleton, List.getLast?_concat]
    exact imageFrame_next count

/-- The add button stays in the scroll view, once. -/
def OneAddButton (s : TZImagePickerScrollViewController UIImage) : Prop :=
  s.subviews.filter ScrollSubview.isAddButton = [.addButton]

theorem filter_imageViews (enumerated : List (UIImage × Nat)) :
    (enumerated.map fun (image, index) => ScrollSubview.imageView image (imageFrame index)).filter
      ScrollSubview.isAddButton = [] := by
  apply List.filter_eq_nil_iff.mpr
  intro view hv
  obtain ⟨_, _, rfl⟩ := List.mem_map.mp hv
  simp [ScrollSubview.isAddButton]

theorem oneAddButton_update {s : TZImagePickerScrollViewController UIImage} (h : s.OneAddButton) :
    s.updateImageViews.OneAddButton := by
  unfold OneAddButton updateImageViews
  rw [List.filter_append, filter_imageViews, h]
  rfl

theorem oneAddButton_step {s : TZImagePickerScrollViewController UIImage} (h : s.OneAddButton)
    (a : ScrollStep UIImage) : (s.step a).OneAddButton := by
  cases a with
  | session photos =>
    cases photos with
    | none => exact h
    | some photos => exact oneAddButton_update h
  | addOther id =>
    unfold OneAddButton
    simp only [step, List.filter_append]
    rw [h]
    rfl
  | layout frameHeight => exact h

theorem oneAddButton_setupUI (others : List Nat) (frameHeight : ℚ) :
    (unloaded others frameHeight : TZImagePickerScrollViewController UIImage).setupUI.OneAddButton := by
  unfold OneAddButton setupUI unloaded
  rw [List.filter_append]
  have none : (others.map (ScrollSubview.other : Nat → ScrollSubview UIImage)).filter
      ScrollSubview.isAddButton = [] := by
    apply List.filter_eq_nil_iff.mpr
    intro view hv
    obtain ⟨id, _, rfl⟩ := List.mem_map.mp hv
    simp [ScrollSubview.isAddButton]
  rw [none]
  rfl

theorem imageViews_update {s : TZImagePickerScrollViewController UIImage} (h : s.OneAddButton) :
    s.updateImageViews.imageViews =
      s.selectedImages.zipIdx.map fun (image, index) => (image, imageFrame index) := by
  have viewOf : (ScrollSubview.imageView? ∘ fun (image, index) =>
      ScrollSubview.imageView image (imageFrame index)) =
        some ∘ fun ((image, index) : UIImage × Nat) => (image, imageFrame index) := rfl
  unfold imageViews updateImageViews
  rw [h, List.filterMap_append, List.filterMap_map, viewOf, List.filterMap_eq_map]
  rfl

theorem imageFrames_update {s : TZImagePickerScrollViewController UIImage} (h : s.OneAddButton) :
    s.updateImageViews.imageFrames = (List.range s.selectedImages.length).map imageFrame := by
  unfold imageFrames
  rw [imageViews_update h, List.map_map, List.range_eq_range', ← List.zipIdx_map_snd 0, List.map_map]
  rfl

/-- The button is where the next image would be. -/
theorem frames_update {s : TZImagePickerScrollViewController UIImage} (h : s.OneAddButton) :
    s.updateImageViews.frames = (List.range (s.selectedImages.length + 1)).map imageFrame := by
  unfold frames
  rw [imageFrames_update h, List.range_succ, List.map_append]
  rfl

theorem laidOut_update {s : TZImagePickerScrollViewController UIImage} (h : s.OneAddButton) :
    s.updateImageViews.LaidOut := by
  apply LaidOut.mk
  · rw [imageViews_update h, List.map_map]
    exact congrArg (· ++ _) h
  · rw [imageViews_update h, List.map_map]
    exact List.zipIdx_map_fst 0 _
  · rw [imageFrames_update h, List.isChain_map, List.isChain_range]
    exact fun index _ => imageFrame_next index
  · rw [frames_update h, List.pairwise_map]
    refine List.pairwise_lt_range.imp ?_
    intro i j before overlap
    exact absurd overlap.2.1 (not_lt.mpr (imageFrame_before before))
  · rw [imageFrames_update h]
    exact imageFrame_after s.selectedImages.length
  · rw [frames_update h]
    intro f hf
    obtain ⟨index, inside, rfl⟩ := List.mem_map.mp hf
    rw [List.mem_range, Nat.lt_succ_iff] at inside
    exact ⟨imageFrame_nonneg index, imageFrame_inside inside⟩

end TZImagePickerScrollViewController

open TZImagePickerScrollViewController

/-- When the view is loaded and after every session that brings photos, whatever happened before,
the strip shows every photo of the sessions so far once and in order, with the button behind the
last one. -/
theorem strip_laid_out {UIImage : Type} (others : List Nat) (frameHeight : ℚ)
    (steps : List (ScrollStep UIImage)) (photos : List UIImage) :
    let loaded : TZImagePickerScrollViewController UIImage := viewDidLoad (unloaded others frameHeight)
    let picked := (steps.foldl step loaded).didFinishPickingPhotosHandle (some photos)
    (loaded.LaidOut ∧ loaded.selectedImages = []) ∧
      picked.LaidOut ∧ picked.selectedImages = steps.flatMap ScrollStep.photos ++ photos := by
  intro loaded picked
  have start : (unloaded others frameHeight : TZImagePickerScrollViewController UIImage).setupUI.OneAddButton :=
    oneAddButton_setupUI others frameHeight
  have inv : (steps.foldl step loaded).OneAddButton :=
    List.foldlRecOn steps step (oneAddButton_update start) fun _ h a _ => oneAddButton_step h a
  refine ⟨⟨laidOut_update start, rfl⟩, ?_, ?_⟩
  · exact laidOut_update (s := { steps.foldl step _ with selectedImages := _ }) inv
  · exact congrArg (· ++ photos) (selectedImages_run steps loaded)

/-- Two sessions with a cancelled one between them, over a view of UIKit's own. -/
theorem strip_laid_out_three :
    let steps : List (ScrollStep String) :=
      [.session (some ["a", "b"]), .addOther 1, .session none, .layout 80]
    let loaded : TZImagePickerScrollViewController String := viewDidLoad (unloaded [0] 100)
    let picked := (steps.foldl step loaded).didFinishPickingPhotosHandle (some ["c"])
    picked.LaidOut ∧ picked.imageViews.map Prod.fst = ["a", "b", "c"] := by
  intro steps loaded picked
  obtain ⟨laid, selected⟩ := (strip_laid_out [0] 100 steps ["c"]).2
  exact ⟨laid, laid.images.trans selected⟩

end SwiftApp
