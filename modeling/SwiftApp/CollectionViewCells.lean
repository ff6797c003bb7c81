import SwiftApp.TZImagePickerCollectionViewController

namespace SwiftApp

open StepRun

variable {UIImage : Type}

inductive CellSubview (UIImage : Type)
  | imageView (image : UIImage)
  | addButton

structure UICollectionViewCell (UIImage : Type) where
  reuseIdentifier : ReuseIdentifier
  subviews : List (CellSubview UIImage)

namespace UICollectionViewCell

/-- The images that image views of the cell show. -/
def images (cell : UICollectionViewCell UIImage) : List UIImage :=
  cell.subviews.filterMap fun
    | .imageView image => some image
    | .addButton => none

def buttons (cell : UICollectionViewCell UIImage) : Nat :=
  cell.subviews.countP fun
    | .imageView _ => false
    | .addButton => true

def addSubview (cell : UICollectionViewCell UIImage) (view : CellSubview UIImage) :
    UICollectionViewCell UIImage :=
  { cell with subviews := cell.subviews ++ [view] }

end UICollectionViewCell

/-- The controller with the cells on the screen and the cells free to be used again. -/
structure CollectionScreen (UIImage : Type) where
  controller : TZImagePickerCollectionViewController UIImage
  visible : List (UICollectionViewCell UIImage)
  released : List (UICollectionViewCell UIImage)

inductive CollectionStep (UIImage : Type)
  | addPhotos (photos : Option (List UIImage))
  /-- a reload or scroll takes a cell off the screen -/
  | release (index : Nat)
  /-- `none`: the collection view hands out a new cell -/
  | cellForItemAt (item : Nat) (reused : Option Nat)

/-- `collectionView(_:cellForItemAt:)` from the dequeued cell on. -/
def TZImagePickerCollectionViewController.cellForItemAt
    (controller : TZImagePickerCollectionViewController UIImage) (item : Nat)
    (cell : UICollectionViewCell UIImage) : UICollectionViewCell UIImage :=
  if h : item < controller.selectedImages.length then
    cell.addSubview (.imageView controller.selectedImages[item])
  else cell.addSubview .addButton

/-- The item's content is on the cell once. -/
def TZImagePickerCollectionViewController.ShowsItem
    (controller : TZImagePickerCollectionViewController UIImage) (item : Nat)
    (cell : UICollectionViewCell UIImage) : Prop :=
  if h : item < controller.selectedImages.length then
    cell.images = [controller.selectedImages[item]]
  else cell.buttons = 1

namespace CollectionScreen

def initial : CollectionScreen UIImage := ⟨.viewDidLoad, [], []⟩

/-- The cell handed out and the cells still free. -/
def dequeueReusableCell (s : CollectionScreen UIImage) (withReuseIdentifier : ReuseIdentifier) :
    Option Nat → Option (UICollectionViewCell UIImage × List (UICollectionViewCell UIImage))
  | none => some (⟨withReuseIdentifier, []⟩, s.released)
  | some index =>
    match s.released[index]? with
    | some cell =>
      if cell.reuseIdentifier = withReuseIdentifier then some (cell, s.released.eraseIdx index)
      else none
    | none => none

def step (s : CollectionScreen UIImage) : CollectionStep UIImage → Option (CollectionScreen UIImage)
  | .addPhotos photos =>
    some { s with controller := s.controller.didFinishPickingPhotosHandle photos }
  | .release index =>
    match s.visible[index]? with
    | some cell =>
      some { s with visible := s.visible.eraseIdx index, released := s.released ++ [cell] }
    | none => none
  | .cellForItemAt item reused =>
    if item < s.controller.numberOfItemsInSection then
      match s.dequeueReusableCell (s.controller.identifierForItemAt item) reused with
      | some (cell, released) =>
        some { s with
          visible := s.visible ++ [s.controller.cellForItemAt item cell], released := released }
      | none => none
    else none

/-- A call of `cellForItemAt` returns a cell that shows its item once. -/
def ReturnsItem (s : CollectionScreen UIImage) : CollectionStep UIImage → Prop
  | .cellForItemAt item reused => ∀ cell released,
    s.dequeueReusableCell (s.controller.identifierForItemAt item) reused = some (cell, released) →
      s.controller.ShowsItem item (s.controller.cellForItemAt item cell)
  | _ => True

/-- A call of `cellForItemAt` is handed a new cell. -/
def DequeuesNew (_ : CollectionScreen UIImage) : CollectionStep UIImage → Prop
  | .cellForItemAt _ reused => reused = none
  | _ => True

end CollectionScreen

namespace UICollectionViewCell

/-- The cell has been filled before. -/
def Used (cell : UICollectionViewCell UIImage) : Prop :=
  match cell.reuseIdentifier with
  | .imageCell => cell.images ≠ []
  | .addButtonCell => cell.buttons ≠ 0

theorem images_addSubview (cell : UICollectionViewCell UIImage) (image : UIImage) :
    (cell.addSubview (.imageView image)).images = cell.images ++ [image] := by
  simp [images, addSubview]

theorem buttons_addSubview (cell : UICollectionViewCell UIImage) :
    (cell.addSubview .addButton).buttons = cell.buttons + 1 := by
  simp [buttons, addSubview]

end UICollectionViewCell

namespace TZImagePickerCollectionViewController

/-- The call shows the item once exactly when the cell had nothing of its kind on it. -/
theorem showsItem_cellForItemAt (controller : TZImagePickerCollectionViewController UIImage)
    (item : Nat) (cell : UICollectionViewCell UIImage)
    (identifier : cell.reuseIdentifier = controller.identifierForItemAt item) :
    controller.ShowsItem item (controller.cellForItemAt item cell) ↔ ¬ cell.Used := by
  unfold ShowsItem cellForItemAt UICollectionViewCell.Used
  rw [identifier]
  unfold identifierForItemAt
  by_cases image : item < controller.selectedImages.length
  · simp only [image, if_true, dite_true, UICollectionViewCell.images_addSubview]
    simp
  · simp only [image, if_false, dite_false, UICollectionViewCell.buttons_addSubview]
    omega

theorem used_cellForItemAt (controller : TZImagePickerCollectionViewController UIImage)
    (item : Nat) (cell : UICollectionViewCell UIImage)
    (identifier : cell.reuseIdentifier = controller.identifierForItemAt item) :
    (controller.cellForItemAt item cell).Used := by
  have same : (controller.cellForItemAt item cell).reuseIdentifier = cell.reuseIdentifier := by
    unfold cellForItemAt
    split <;> rfl
  unfold UICollectionViewCell.Used
  rw [same, identifier]
  unfold cellForItemAt identifierForItemAt
  by_cases image : item < controller.selectedImages.length
  · simp only [image, if_true, dite_true, UICollectionViewCell.images_addSubview]
    simp
  · simp only [image, if_false, dite_false, UICollectionViewCell.buttons_addSubview]
    omega

end TZImagePickerCollectionViewController

namespace CollectionScreen

/-- Every cell on the screen or free to be used again has been filled before. -/
def AllUsed (s : CollectionScreen UIImage) : Prop :=
  (∀ cell ∈ s.visible, cell.Used) ∧ ∀ cell ∈ s.released, cell.Used

theorem dequeue_identifier {s : CollectionScreen UIImage} {identifier : ReuseIdentifier}
    {reused : Option Nat} {cell : UICollectionViewCell UIImage}
    {free : List (UICollectionViewCell UIImage)}
    (h : s.dequeueReusableCell identifier reused = some (cell, free)) :
    cell.reuseIdentifier = identifier ∧ free ⊆ s.released ∧
      ((reused = none ∧ cell.subviews = []) ∨ (reused ≠ none ∧ cell ∈ s.released)) := by
  cases reused with
  | none =>
    cases Option.some.inj h
    exact ⟨rfl, fun _ hc => hc, Or.inl ⟨rfl, rfl⟩⟩
  | some index =>
    simp only [dequeueReusableCell] at h
    split at h
    next found place =>
      split at h
      next same =>
        cases Option.some.inj h
        refine ⟨same, List.eraseIdx_subset, Or.inr ⟨by simp, ?_⟩⟩
        exact List.mem_of_getElem? place
      next => cases h
    next => cases h

/-- Among used cells a call returns its item once exactly when it is handed a new cell. -/
theorem returnsItem_iff {s : CollectionScreen UIImage} {item : Nat} {reused : Option Nat}
    {cell : UICollectionViewCell UIImage} {free : List (UICollectionViewCell UIImage)}
    (used : s.AllUsed)
    (h : s.dequeueReusableCell (s.controller.identifierForItemAt item) reused = some (cell, free)) :
    s.controller.ShowsItem item (s.controller.cellForItemAt item cell) ↔ reused = none := by
  obtain ⟨identifier, _, origin⟩ := dequeue_identifier h
  rw [TZImagePickerCollectionViewController.showsItem_cellForItemAt _ _ _ identifier]
  rcases origin with ⟨fresh, empty⟩ | ⟨old, again⟩
  · refine iff_of_true ?_ fresh
    unfold UICollectionViewCell.Used UICollectionViewCell.images UICollectionViewCell.buttons
    rw [empty]
    cases cell.reuseIdentifier <;> simp
  · exact iff_of_false (fun new => new (used.2 cell again)) old

theorem step_cellForItemAt {s t : CollectionScreen UIImage} {item : Nat} {reused : Option Nat}
    (h : s.step (.cellForItemAt item reused) = some t) :
    ∃ cell free, s.dequeueReusableCell (s.controller.identifierForItemAt item) reused =
        some (cell, free) ∧
      t = { s with visible := s.visible ++ [s.controller.cellForItemAt item cell], released := free } := by
  simp only [step] at h
  split at h
  next =>
    split at h
    next cell free dequeued => exact ⟨cell, free, dequeued, (Option.some.inj h).symm⟩
    next => cases h
  next => cases h

theorem allUsed_step {s t : CollectionScreen UIImage} {a : CollectionStep UIImage}
    (hstep : s.step a = some t) (used : s.AllUsed) : t.AllUsed := by
  cases a with
  | addPhotos photos =>
    cases Option.some.inj hstep
    exact used
  | release index =>
    simp only [step] at hstep
    split at hstep
    next cell place =>
      cases Option.some.inj hstep
      have shown := List.mem_of_getElem? place
      refine ⟨fun c hc => used.1 c (List.eraseIdx_subset hc), ?_⟩
      intro c hc
      rcases List.mem_append.mp hc with old | new
      · exact used.2 c old
      · cases List.mem_singleton.mp new
        exact used.1 _ shown
    next => cases hstep
  | cellForItemAt item reused =>
    obtain ⟨cell, free, dequeued, rfl⟩ := step_cellForItemAt hstep
    obtain ⟨identifier, fewer, _⟩ := dequeue_identifier dequeued
    refine ⟨?_, fun c hc => used.2 c (fewer hc)⟩
    intro c hc
    rcases List.mem_append.mp hc with old | new
    · exact used.1 c old
    · cases List.mem_singleton.mp new
      exact s.controller.used_cellForItemAt item cell identifier

end CollectionScreen

/-- Every cell returned in a run shows its item once if and only if the collection view never
hands out a released cell again. -/
theorem cells_show_one_iff (steps : List (CollectionStep UIImage)) :
    StepsMeet CollectionScreen.step CollectionScreen.ReturnsItem .initial steps ↔
      StepsMeet CollectionScreen.step CollectionScreen.DequeuesNew .initial steps := by
  have start : (CollectionScreen.initial : CollectionScreen UIImage).AllUsed :=
    ⟨fun _ no => absurd no List.not_mem_nil, fun _ no => absurd no List.not_mem_nil⟩
  refine stepsMeet_iff (fun s a t hstep used => CollectionScreen.allUsed_step hstep used) ?_ start
  intro s a t hstep used
  cases a with
  | addPhotos photos => exact Iff.rfl
  | release index => exact Iff.rfl
  | cellForItemAt item reused =>
    obtain ⟨cell, free, dequeued, _⟩ := CollectionScreen.step_cellForItemAt hstep
    rw [CollectionScreen.DequeuesNew, ← CollectionScreen.returnsItem_iff used dequeued]
    apply Iff.intro
    · exact fun every => every cell free dequeued
    · intro this other rest again
      cases dequeued.symm.trans again
      exact this

/-- A photo is shown, its cell leaves the screen, and the same cell comes back. -/
def reloadRun : List (CollectionStep Nat) :=
  [.addPhotos (some [7]), .cellForItemAt 0 none, .release 0, .cellForItemAt 0 (some 0)]

theorem reused_cell_shows_two :
    ¬ StepsMeet CollectionScreen.step CollectionScreen.ReturnsItem .initial reloadRun := by
  intro meets
  obtain ⟨_, afterPhotos⟩ := meets _ rfl
  obtain ⟨_, afterFirst⟩ := afterPhotos _ rfl
  obtain ⟨_, afterRelease⟩ := afterFirst _ rfl
  obtain ⟨second, _⟩ := afterRelease _ rfl
  have shows : [7, 7] = [7] := second _ _ rfl
  cases shows

end SwiftApp
