import SwiftApp.StepRun
import Mathlib.Data.Rat.Floor
import Mathlib.Tactic.Linarith

namespace SwiftApp

open StepRun

inductive NSLayoutAttribute
  | leading | trailing | top | height
deriving DecidableEq

structure NSLayoutConstraint where
  firstAttribute : NSLayoutAttribute
  constant : ℚ
deriving DecidableEq

inductive ReuseIdentifier
  | imageCell | addButtonCell
deriving DecidableEq

/-- The selected images and the constraints the collection view holds itself. -/
structure TZImagePickerCollectionViewController (UIImage : Type) where
  selectedImages : List UIImage
  constraints : List NSLayoutConstraint

namespace TZImagePickerCollectionViewController

variable {UIImage : Type}

def imageSize : ℚ := 100

def spacing : ℚ := 10

def itemsPerRow : Nat := 3

def maxImages : Nat := 9

def calculateCollectionViewHeight (selectedImages : List UIImage) : ℚ :=
  let totalItems := selectedImages.length + 1
  let rows : ℚ := ((totalItems + itemsPerRow - 1) / itemsPerRow : Nat)
  rows * imageSize + (rows - 1) * spacing

def viewDidLoad : TZImagePickerCollectionViewController UIImage where
  selectedImages := []
  constraints := [⟨.height, calculateCollectionViewHeight ([] : List UIImage)⟩]

/-- The loaded controller with these images selected. -/
def showing (selectedImages : List UIImage) : TZImagePickerCollectionViewController UIImage :=
  { (viewDidLoad : TZImagePickerCollectionViewController UIImage) with
    selectedImages := selectedImages }

def numberOfItemsInSection (s : TZImagePickerCollectionViewController UIImage) : Nat :=
  if s.selectedImages.length < maxImages then s.selectedImages.length + 1
  else s.selectedImages.length

/-- Which branch of `cellForItemAt` an item takes. -/
def identifierForItemAt (s : TZImagePickerCollectionViewController UIImage) (item : Nat) :
    ReuseIdentifier :=
  if item < s.selectedImages.length then .imageCell else .addButtonCell

def hasAddButton (s : TZImagePickerCollectionViewController UIImage) : Bool :=
  (List.range s.numberOfItemsInSection).any fun item => s.identifierForItemAt item = .addButtonCell

def updateCollectionViewHeight (s : TZImagePickerCollectionViewController UIImage) :
    TZImagePickerCollectionViewController UIImage :=
  let newHeight := calculateCollectionViewHeight s.selectedImages
  { s with constraints := s.constraints.map fun constraint =>
      if constraint.firstAttribute = .height then { constraint with constant := newHeight }
      else constraint }

/-- The picker is opened with the whole limit. -/
def maxImagesCount : Nat := maxImages

/-- `didFinishPickingPhotosHandle` of the picker `onAddButtonClick` opens. -/
def didFinishPickingPhotosHandle (s : TZImagePickerCollectionViewController UIImage) :
    Option (List UIImage) → TZImagePickerCollectionViewController UIImage
  | some photos => updateCollectionViewHeight { s with selectedImages := s.selectedImages ++ photos }
  | none => s

/-- A picker session: the add button opens it, and it returns at most as many photos as it
was opened for. -/
def step (s : TZImagePickerCollectionViewController UIImage) (photos : Option (List UIImage)) :
    Option (TZImagePickerCollectionViewController UIImage) :=
  if s.hasAddButton ∧ (photos.getD []).length ≤ maxImagesCount then
    some (s.didFinishPickingPhotosHandle photos)
  else none

theorem hasAddButton_iff {s : TZImagePickerCollectionViewController UIImage} :
    s.hasAddButton = true ↔ s.selectedImages.length < maxImages := by
  unfold hasAddButton numberOfItemsInSection identifierForItemAt
  rw [List.any_eq_true]
  apply Iff.intro
  · intro h
    obtain ⟨item, inside, button⟩ := h
    simp only [List.mem_range, decide_eq_true_eq] at inside button
    by_contra full
    rw [if_neg full] at inside
    rw [if_pos inside] at button
    cases button
  · intro room
    refine ⟨s.selectedImages.length, ?_, ?_⟩
    · rw [if_pos room, List.mem_range]
      omega
    · simp

theorem didFinish_selectedImages {s : TZImagePickerCollectionViewController UIImage}
    {photos : Option (List UIImage)} :
    (s.didFinishPickingPhotosHandle photos).selectedImages = s.selectedImages ++ photos.getD [] := by
  cases photos with
  | none => exact (List.append_nil _).symm
  | some photos => rfl

theorem step_some {s t : TZImagePickerCollectionViewController UIImage}
    {photos : Option (List UIImage)} (h : s.step photos = some t) :
    s.selectedImages.length < maxImages ∧ (photos.getD []).length ≤ maxImages ∧
      t.selectedImages = s.selectedImages ++ photos.getD [] := by
  obtain ⟨allowed, rfl⟩ := guarded h
  exact ⟨hasAddButton_iff.mp allowed.1, allowed.2, didFinish_selectedImages⟩

/-- The sessions never select more than one image short of twice the limit. -/
theorem selectedImages_bound {sessions : List (Option (List UIImage))}
    {s : TZImagePickerCollectionViewController UIImage}
    (h : run step viewDidLoad sessions = some s) : s.selectedImages.length < 2 * maxImages := by
  have keep : ∀ (s : TZImagePickerCollectionViewController UIImage) photos t,
      step s photos = some t → s.selectedImages.length < 2 * maxImages →
        t.selectedImages.length < 2 * maxImages := by
    intro s photos t hstep _
    obtain ⟨room, few, same⟩ := step_some hstep
    rw [same, List.length_append]
    omega
  exact run_invariant keep h (by decide : 0 < 2 * maxImages)

/-- The height constraint always has the height computed for the images selected. -/
theorem constraints_run {sessions : List (Option (List UIImage))}
    {s : TZImagePickerCollectionViewController UIImage}
    (h : run step viewDidLoad sessions = some s) :
    s.constraints = [⟨.height, calculateCollectionViewHeight s.selectedImages⟩] := by
  have keep : ∀ (s : TZImagePickerCollectionViewController UIImage) photos t,
      step s photos = some t →
        s.constraints = [⟨.height, calculateCollectionViewHeight s.selectedImages⟩] →
          t.constraints = [⟨.height, calculateCollectionViewHeight t.selectedImages⟩] := by
    intro s photos t hstep same
    obtain ⟨_, rfl⟩ := guarded hstep
    cases photos with
    | none => exact same
    | some photos =>
      simp only [didFinishPickingPhotosHandle, updateCollectionViewHeight, same]
      rfl
  exact run_invariant keep h rfl

def WithinLimit (s : TZImagePickerCollectionViewController UIImage) : Prop :=
  s.selectedImages.length ≤ maxImages

/-- The session returns no more photos than there are places left. -/
def FillsPlacesLeft (s : TZImagePickerCollectionViewController UIImage)
    (photos : Option (List UIImage)) : Prop :=
  (photos.getD []).length ≤ maxImages - s.selectedImages.length

theorem withinLimit_step {s t : TZImagePickerCollectionViewController UIImage}
    {photos : Option (List UIImage)} (h : s.step photos = some t) :
    t.WithinLimit ↔ s.FillsPlacesLeft photos := by
  obtain ⟨room, _, same⟩ := step_some h
  unfold WithinLimit FillsPlacesLeft
  rw [same, List.length_append]
  omega

end TZImagePickerCollectionViewController

open TZImagePickerCollectionViewController

/-- The images stay within the limit all through the sessions if and only if no session returns
more photos than there are places left when it is opened. -/
theorem grid_within_limit_iff {UIImage : Type} (sessions : List (Option (List UIImage))) :
    Always step WithinLimit viewDidLoad sessions ↔
      StepsMeet step FillsPlacesLeft viewDidLoad sessions :=
  always_iff_stepsMeet_of_step (fun _ _ _ h _ => withinLimit_step h) (Nat.zero_le maxImages)

theorem grid_exceeds_limit :
    ¬ Always step WithinLimit viewDidLoad [some (List.range 8), some (List.range 9)] := by
  intro always
  have ends : ∃ s, run step viewDidLoad [some (List.range 8), some (List.range 9)] = some s ∧
      s.selectedImages.length = 17 := ⟨_, rfl, rfl⟩
  obtain ⟨s, hs, count⟩ := ends
  have within := always_end always hs
  unfold WithinLimit maxImages at within
  omega

/-- A view as wide as one image and the insets on both sides, or wider. -/
structure GridView where
  width : ℚ
  wide : 140 ≤ width

namespace GridView

/-- The items the flow layout fits in a row, with the collection view inset by 20 on each side. -/
def columns (v : GridView) : Nat := ⌊(v.width - 40 + spacing) / (imageSize + spacing)⌋₊

/-- The height of the flow layout's content. -/
def contentHeight (v : GridView) (items : Nat) : ℚ :=
  let rows : ℚ := ⌈(items : ℚ) / v.columns⌉₊
  rows * imageSize + (rows - 1) * spacing

theorem columns_pos (v : GridView) : 0 < v.columns := by
  have wide := v.wide
  unfold columns
  rw [Nat.floor_pos, one_le_div₀]
  · unfold spacing imageSize
    linarith
  · unfold spacing imageSize
    linarith

/-- Heights of grids are equal when their rows are. -/
theorem height_inj {m n : Nat} :
    (m : ℚ) * imageSize + (m - 1) * spacing = n * imageSize + (n - 1) * spacing ↔ m = n := by
  apply Iff.intro
  · intro same
    unfold imageSize spacing at same
    have cast : (m : ℚ) = n := by linarith
    exact Nat.cast_inj.mp cast
  · intro same
    rw [same]

theorem ceil_rows {columns : Nat} (positive : 0 < columns) (items rows : Nat) :
    ⌈(items : ℚ) / columns⌉₊ = rows + 1 ↔
      columns * rows < items ∧ items ≤ columns * (rows + 1) := by
  have cast : (0 : ℚ) < columns := Nat.cast_pos.mpr positive
  rw [Nat.ceil_eq_iff (by omega : rows + 1 ≠ 0), Nat.add_sub_cancel, lt_div_iff₀ cast,
    div_le_iff₀ cast, ← Nat.cast_mul, ← Nat.cast_mul, Nat.cast_lt, Nat.cast_le,
    Nat.mul_comm columns, Nat.mul_comm columns]

end GridView

/-- The counts of images for which a grid of so many columns has the rows the code computes. -/
def RowsFit (columns count : Nat) : Prop :=
  columns = 3 ∧ (count < maxImages ∨ count % 3 ≠ 0) ∨ 3 ≤ columns ∧ count < 3 ∨
    columns = 1 ∧ count = 0 ∨ columns = 2 ∧ (count < 2 ∨ count = 3) ∨
    columns = 4 ∧ (count = 4 ∨ count = 5 ∨ count = 8) ∨ columns = 5 ∧ count = 5

theorem rowsFit_iff {columns count items : Nat} (positive : 0 < columns)
    (shown : items = if count < maxImages then count + 1 else count) :
    columns * (count / 3) < items ∧ items ≤ columns * (count / 3 + 1) ↔ RowsFit columns count := by
  unfold RowsFit
  have limit : maxImages = 9 := rfl
  rw [limit] at shown ⊢
  rcases Nat.lt_or_ge columns 6 with few | many
  · have cases : columns = 1 ∨ columns = 2 ∨ columns = 3 ∨ columns = 4 ∨ columns = 5 := by omega
    rcases cases with rfl | rfl | rfl | rfl | rfl <;> split at shown <;> omega
  · have wider : 6 * (count / 3) ≤ columns * (count / 3) := Nat.mul_le_mul_right _ many
    have inRow : columns * (count / 3 + 1) = columns * (count / 3) + columns := Nat.mul_succ _ _
    rw [inRow]
    apply Iff.intro
    · intro rows
      have small : count < 3 := by
        split at shown <;> omega
      omega
    · intro fit
      have small : count < 3 := by omega
      have none : count / 3 = 0 := by omega
      rw [none, Nat.mul_zero]
      split at shown <;> omega

theorem calculate_rows {UIImage : Type} (images : List UIImage) :
    calculateCollectionViewHeight images =
      ((images.length / 3 + 1 : Nat) : ℚ) * imageSize +
        (((images.length / 3 + 1 : Nat) : ℚ) - 1) * spacing := by
  have rows : (images.length + 1 + itemsPerRow - 1) / itemsPerRow = images.length / 3 + 1 := by
    unfold itemsPerRow
    omega
  simp only [calculateCollectionViewHeight, rows]

/-- After every update the height constraint is the height of what the collection view shows if
and only if the number of images is one of those that fill the rows the code computes. -/
theorem grid_height_fits_iff {UIImage : Type} (v : GridView) (images : List UIImage) :
    (showing images).updateCollectionViewHeight.constraints =
        [⟨.height, v.contentHeight (showing images).numberOfItemsInSection⟩] ↔
      RowsFit v.columns images.length := by
  have updated : (showing images).updateCollectionViewHeight.constraints =
      [⟨.height, calculateCollectionViewHeight images⟩] := rfl
  rw [updated, calculate_rows, ← rowsFit_iff v.columns_pos rfl, ← GridView.ceil_rows v.columns_pos]
  unfold GridView.contentHeight
  simp only [List.cons.injEq, NSLayoutConstraint.mk.injEq, true_and, and_true]
  rw [GridView.height_inj]
  exact eq_comm

/-- A view of the width of a small phone. -/
def phone : GridView := ⟨375, by norm_num⟩

theorem grid_height_misfits :
    (showing (List.range 9)).updateCollectionViewHeight.constraints ≠
      [⟨.height, phone.contentHeight (showing (List.range 9)).numberOfItemsInSection⟩] := by
  have columns : phone.columns = 3 := by
    unfold GridView.columns phone spacing imageSize
    rw [Nat.floor_eq_iff (by norm_num)]
    norm_num
  have shown : ⌈((showing (List.range 9)).numberOfItemsInSection : ℚ) / phone.columns⌉₊ = 2 + 1 := by
    rw [columns, GridView.ceil_rows (by omega)]
    decide
  intro same
  have height : calculateCollectionViewHeight (List.range 9) = _ :=
    (NSLayoutConstraint.mk.inj (List.cons.inj same).1).2
  rw [calculate_rows] at height
  have rows := (GridView.height_inj.mp height).trans shown
  rw [List.length_range] at rows
  omega

end SwiftApp
