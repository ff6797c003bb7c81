import SwiftApp.CoreGraphics
import Mathlib.Algebra.Order.Ring.NNRat

namespace SwiftApp

open scoped NNRat

/-- The four distances of `setEnlargeEdge`, which are set together. -/
structure EnlargeEdge where
  top : ℚ≥0
  right : ℚ≥0
  bottom : ℚ≥0
  left : ℚ≥0

/-- A button with what decides where it can be touched; the size of its bounds is never negative. -/
structure TouchButton where
  isHidden : Bool
  alpha : ℚ
  isUserInteractionEnabled : Bool
  bounds : CGRect
  width_nonneg : 0 ≤ bounds.width
  height_nonneg : 0 ≤ bounds.height
  expandSize : Option ℚ≥0
  enlargeEdge : Option EnlargeEdge

namespace TouchButton

/-- The distances are kept as they are; `numberWithFloat:` would round them to 32-bit floats. -/
def setEnlargeEdge (button : TouchButton) (top right bottom left : ℚ≥0) : TouchButton :=
  { button with enlargeEdge := some ⟨top, right, bottom, left⟩ }

def lzh_expandSize (button : TouchButton) (size : ℚ≥0) : TouchButton :=
  { button with expandSize := some size }

def enlargedRect (button : TouchButton) : CGRect :=
  match button.enlargeEdge with
  | some edge =>
    ⟨button.bounds.x - edge.left, button.bounds.y - edge.top,
      button.bounds.width + edge.left + edge.right, button.bounds.height + edge.top + edge.bottom⟩
  | none => button.bounds

def expandRect (button : TouchButton) : CGRect :=
  match button.expandSize with
  | some expandSize =>
    ⟨button.bounds.x - expandSize, button.bounds.y - expandSize,
      button.bounds.width + 2 * expandSize, button.bounds.height + 2 * expandSize⟩
  | none => button.bounds

def pointInside (button : TouchButton) (point : CGPoint) : Bool :=
  let buttonRect := button.expandRect
  if buttonRect = button.bounds then button.bounds.contains point else buttonRect.contains point

/-- UIKit's own conditions for a view to receive touches. -/
def receivesTouches (button : TouchButton) : Bool :=
  !button.isHidden && decide (1 / 100 < button.alpha) && button.isUserInteractionEnabled

/-- `hitTest` of the superclass; a button has no subview that takes touches. -/
def superHitTest (button : TouchButton) (point : CGPoint) : Bool :=
  button.receivesTouches && button.pointInside point

/-- Whether the button is the result of the hit test. -/
def hitTest (button : TouchButton) (point : CGPoint) : Bool :=
  let rect := button.enlargedRect
  if rect = button.bounds then button.superHitTest point else rect.contains point

end TouchButton

/-- All four distances are zero. -/
def EnlargeEdge.IsZero (edge : EnlargeEdge) : Prop :=
  (edge.top = 0 ∧ edge.right = 0) ∧ edge.bottom = 0 ∧ edge.left = 0

/-- No distance is smaller than `size`. -/
def EnlargeEdge.AtLeast (edge : EnlargeEdge) (size : ℚ≥0) : Prop :=
  (size ≤ edge.top ∧ size ≤ edge.right) ∧ size ≤ edge.bottom ∧ size ≤ edge.left

namespace TouchButton

/-- The bounds grown by the expansion size. -/
def expandedBounds (button : TouchButton) (size : ℚ≥0) : CGRect :=
  button.bounds.grown size size size size

/-- The bounds grown by the four distances. -/
def enlargedBounds (button : TouchButton) (edge : EnlargeEdge) : CGRect :=
  button.bounds.grown edge.top edge.right edge.bottom edge.left

/-- The point lies in the bounds, or in what either setting makes of them. -/
def InTouchArea (button : TouchButton) (point : CGPoint) : Prop :=
  button.bounds.contains point = true ∨
    (∃ size ∈ button.expandSize, (button.expandedBounds size).contains point = true) ∨
      ∃ edge ∈ button.enlargeEdge, (button.enlargedBounds edge).contains point = true

/-- Only a button that receives touches is hit, and such a button in all of its touch area. -/
structure RespectsTouches (button : TouchButton) : Prop where
  visible : ∀ point, button.hitTest point = true → button.receivesTouches = true
  covers : button.receivesTouches = true → ∀ point, button.InTouchArea point →
    button.hitTest point = true

theorem expandRect_none {button : TouchButton} (h : button.expandSize = none) :
    button.expandRect = button.bounds := by
  unfold expandRect
  rw [h]

theorem expandRect_some {button : TouchButton} {size : ℚ≥0} (h : button.expandSize = some size) :
    button.expandRect = button.expandedBounds size := by
  unfold expandRect expandedBounds CGRect.grown
  rw [h]
  simp only [CGRect.mk.injEq, true_and]
  apply And.intro <;> linarith

theorem enlargedRect_none {button : TouchButton} (h : button.enlargeEdge = none) :
    button.enlargedRect = button.bounds := by
  unfold enlargedRect
  rw [h]

theorem enlargedRect_some {button : TouchButton} {edge : EnlargeEdge}
    (h : button.enlargeEdge = some edge) : button.enlargedRect = button.enlargedBounds edge := by
  unfold enlargedRect
  rw [h]
  rfl

theorem pointInside_eq (button : TouchButton) (point : CGPoint) :
    button.pointInside point = button.expandRect.contains point := by
  simp only [pointInside]
  split
  next same => rw [same]
  next => rfl

theorem hitTest_plain {button : TouchButton} (h : button.enlargedRect = button.bounds)
    (point : CGPoint) : button.hitTest point =
      (button.receivesTouches && button.expandRect.contains point) := by
  simp only [hitTest]
  rw [if_pos h, superHitTest, pointInside_eq]

theorem hitTest_enlarged {button : TouchButton} {edge : EnlargeEdge}
    (h : button.enlargeEdge = some edge) (grows : ¬ edge.IsZero) (point : CGPoint) :
    button.hitTest point = (button.enlargedBounds edge).contains point := by
  have changed : button.enlargedBounds edge ≠ button.bounds := by
    intro same
    have zero := CGRect.grown_eq_self_iff.mp same
    simp only [NNRat.cast_eq_zero] at zero
    exact grows zero
  simp only [hitTest]
  rw [enlargedRect_some h, if_neg changed]

/-- Once distances are set, the expansion size is never looked at. -/
theorem hitTest_lzh_expandSize {button : TouchButton} {edge : EnlargeEdge}
    (h : button.enlargeEdge = some edge) (grows : ¬ edge.IsZero) (size : ℚ≥0) (point : CGPoint) :
    (button.lzh_expandSize size).hitTest point = button.hitTest point := by
  have still : (button.lzh_expandSize size).enlargeEdge = some edge := h
  rw [hitTest_enlarged still grows, hitTest_enlarged h grows]
  rfl

theorem bounds_subset_expandRect (button : TouchButton) :
    button.bounds.region ⊆ button.expandRect.region := by
  cases h : button.expandSize with
  | none => rw [expandRect_none h]
  | some size =>
    rw [expandRect_some h]
    exact button.bounds.subset_grown size.cast_nonneg size.cast_nonneg size.cast_nonneg
      size.cast_nonneg

theorem bounds_subset_enlargedBounds (button : TouchButton) (edge : EnlargeEdge) :
    button.bounds.region ⊆ (button.enlargedBounds edge).region :=
  button.bounds.subset_grown edge.top.cast_nonneg edge.right.cast_nonneg edge.bottom.cast_nonneg
    edge.left.cast_nonneg

theorem enlargedBounds_region_eq_empty_iff (button : TouchButton) (edge : EnlargeEdge) :
    (button.enlargedBounds edge).region = ∅ ↔ (button.enlargedBounds edge).isEmpty = true := by
  have width := button.width_nonneg
  have height := button.height_nonneg
  have top : (0 : ℚ) ≤ edge.top := edge.top.cast_nonneg
  have right : (0 : ℚ) ≤ edge.right := edge.right.cast_nonneg
  have bottom : (0 : ℚ) ≤ edge.bottom := edge.bottom.cast_nonneg
  have left : (0 : ℚ) ≤ edge.left := edge.left.cast_nonneg
  apply CGRect.region_eq_empty_iff
  · unfold enlargedBounds CGRect.grown
    linarith
  · unfold enlargedBounds CGRect.grown
    linarith

theorem expandedBounds_subset_iff (button : TouchButton) (size : ℚ≥0) (edge : EnlargeEdge) :
    (button.expandedBounds size).region ⊆ (button.enlargedBounds edge).region ↔
      (button.expandedBounds size).isEmpty = true ∨ edge.AtLeast size := by
  have width := button.width_nonneg
  have height := button.height_nonneg
  have nonneg : (0 : ℚ) ≤ size := size.cast_nonneg
  unfold EnlargeEdge.AtLeast
  simp only [← NNRat.cast_le (K := ℚ)]
  apply CGRect.grown_subset_iff
  · unfold CGRect.grown
    linarith
  · unfold CGRect.grown
    linarith

theorem enlargedRect_of_zero {button : TouchButton}
    (zero : ∀ edge ∈ button.enlargeEdge, edge.IsZero) : button.enlargedRect = button.bounds := by
  cases h : button.enlargeEdge with
  | none => exact enlargedRect_none h
  | some edge =>
    rw [enlargedRect_some h]
    apply CGRect.grown_eq_self_iff.mpr
    simp only [NNRat.cast_eq_zero]
    exact zero edge h

/-- Without distances the hit test is the superclass's, on the expanded rectangle. -/
theorem respectsTouches_of_zero {button : TouchButton}
    (zero : ∀ edge ∈ button.enlargeEdge, edge.IsZero) : button.RespectsTouches := by
  have plain := enlargedRect_of_zero zero
  have reaches (point : CGPoint) (inside : button.bounds.contains point = true) :
      button.expandRect.contains point = true :=
    CGRect.contains_iff.mpr (button.bounds_subset_expandRect (CGRect.contains_iff.mp inside))
  apply RespectsTouches.mk
  · intro point hit
    rw [hitTest_plain plain, Bool.and_eq_true] at hit
    exact hit.1
  · intro receives point area
    rw [hitTest_plain plain, Bool.and_eq_true]
    refine ⟨receives, ?_⟩
    rcases area with inside | ⟨size, set, inside⟩ | ⟨edge, set, inside⟩
    · exact reaches point inside
    · rw [expandRect_some set]
      exact inside
    · rw [← enlargedRect_some set, plain] at inside
      exact reaches point inside

/-- A button that receives touches, hit in its enlarged rectangle alone. -/
theorem respectsTouches_iff_of_receives {button : TouchButton} {edge : EnlargeEdge}
    (h : button.enlargeEdge = some edge) (grows : ¬ edge.IsZero)
    (receives : button.receivesTouches = true) :
    button.RespectsTouches ↔ ∀ size ∈ button.expandSize,
      (button.expandedBounds size).region ⊆ (button.enlargedBounds edge).region := by
  have hits := hitTest_enlarged h grows
  apply Iff.intro
  · intro respects size set
    apply CGRect.forall_contains_iff.mp
    intro point inside
    rw [← hits]
    exact respects.covers receives point (Or.inr (Or.inl ⟨size, set, inside⟩))
  · intro larger
    apply RespectsTouches.mk
    · exact fun _ _ => receives
    · intro _ point area
      rw [hits]
      rcases area with inside | ⟨size, set, inside⟩ | ⟨other, set, inside⟩
      · exact CGRect.contains_iff.mpr
          (button.bounds_subset_enlargedBounds edge (CGRect.contains_iff.mp inside))
      · exact CGRect.forall_contains_iff.mpr (larger size set) point inside
      · cases h.symm.trans set
        exact inside

/-- A button that receives no touches is hit nowhere only if its enlarged rectangle is empty. -/
theorem respectsTouches_iff_of_not_receives {button : TouchButton} {edge : EnlargeEdge}
    (h : button.enlargeEdge = some edge) (grows : ¬ edge.IsZero)
    (receives : button.receivesTouches = false) :
    button.RespectsTouches ↔ (button.enlargedBounds edge).region = ∅ := by
  have hits := hitTest_enlarged h grows
  apply Iff.intro
  · intro respects
    apply Set.eq_empty_of_forall_notMem
    intro place inside
    have hit : (button.enlargedBounds edge).contains ⟨place.1, place.2⟩ = true :=
      CGRect.contains_iff.mpr inside
    rw [← hits] at hit
    exact Bool.false_ne_true (receives.symm.trans (respects.visible _ hit))
  · intro nothing
    apply RespectsTouches.mk
    · intro point hit
      rw [hits, CGRect.contains_iff, nothing] at hit
      exact hit.elim
    · intro received
      cases received.symm.trans receives

end TouchButton

/-- The hit test respects touches exactly when the distances are unset or zero, or the button
receives touches and they reach as far as the expansion size, or it does not and is empty. -/
theorem respectsTouches_iff (button : TouchButton) :
    button.RespectsTouches ↔ ∀ edge ∈ button.enlargeEdge, edge.IsZero ∨
      (button.receivesTouches = true ∧ ∀ size ∈ button.expandSize,
        (button.expandedBounds size).isEmpty = true ∨ edge.AtLeast size) ∨
      (button.receivesTouches = false ∧ (button.enlargedBounds edge).isEmpty = true) := by
  simp only [← TouchButton.expandedBounds_subset_iff,
    ← TouchButton.enlargedBounds_region_eq_empty_iff]
  by_cases zero : ∀ edge ∈ button.enlargeEdge, edge.IsZero
  · have respects := TouchButton.respectsTouches_of_zero zero
    exact ⟨fun _ edge set => Or.inl (zero edge set), fun _ => respects⟩
  · push Not at zero
    obtain ⟨edge, set, grows⟩ := zero
    have only : button.enlargeEdge = some edge := set
    simp only [only, Option.mem_some_iff, forall_eq', grows, false_or]
    cases receives : button.receivesTouches with
    | true =>
      simp only [TouchButton.respectsTouches_iff_of_receives only grows receives, reduceCtorEq,
        true_and, false_and, or_false]
    | false =>
      simp only [TouchButton.respectsTouches_iff_of_not_receives only grows receives, reduceCtorEq,
        true_and, false_and, false_or]

/-- A hidden button of ten by ten points. -/
def hiddenButton : TouchButton := ⟨true, 1, true, ⟨0, 0, 10, 10⟩, by decide, by decide, none, none⟩

theorem hiddenButton_swallows_touches : ¬ (hiddenButton.setEnlargeEdge 10 10 10 10).RespectsTouches := by
  intro respects
  have hit : (hiddenButton.setEnlargeEdge 10 10 10 10).hitTest ⟨5, 5⟩ = true := by decide +kernel
  cases respects.visible ⟨5, 5⟩ hit

end SwiftApp
