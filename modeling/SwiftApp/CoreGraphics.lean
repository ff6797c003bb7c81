import Mathlib.Algebra.Order.Field.Rat
import Mathlib.Data.Rat.Defs
import Mathlib.Data.Set.Prod
import Mathlib.Order.Interval.Set.Basic
import Mathlib.Tactic.Linarith

namespace SwiftApp

structure CGPoint where
  x : ℚ
  y : ℚ

structure CGSize where
  width : ℚ
  height : ℚ

structure CGRect where
  x : ℚ
  y : ℚ
  width : ℚ
  height : ℚ
deriving DecidableEq

namespace CGRect

def maxX (f : CGRect) : ℚ := f.x + f.width

def maxY (f : CGRect) : ℚ := f.y + f.height

def midX (f : CGRect) : ℚ := f.x + f.width / 2

def midY (f : CGRect) : ℚ := f.y + f.height / 2

def offsetBy (f : CGRect) (offset : CGPoint) : CGRect :=
  ⟨f.x + offset.x, f.y + offset.y, f.width, f.height⟩

def Overlaps (f g : CGRect) : Prop := f.x < g.maxX ∧ g.x < f.maxX ∧ f.y < g.maxY ∧ g.y < f.maxY

def contains (f : CGRect) (point : CGPoint) : Bool :=
  decide (f.x ≤ point.x ∧ point.x < f.maxX ∧ f.y ≤ point.y ∧ point.y < f.maxY)

def isEmpty (f : CGRect) : Bool := decide (f.width = 0 ∨ f.height = 0)

/-- The rectangle with each side moved outwards by its own amount. -/
def grown (f : CGRect) (top right bottom left : ℚ) : CGRect :=
  ⟨f.x - left, f.y - top, f.width + left + right, f.height + top + bottom⟩

/-- The points of the rectangle as a set; the far edges are outside. -/
def region (f : CGRect) : Set (ℚ × ℚ) := Set.Ico f.x f.maxX ×ˢ Set.Ico f.y f.maxY

theorem contains_iff {f : CGRect} {point : CGPoint} :
    f.contains point = true ↔ (point.x, point.y) ∈ f.region := by
  unfold contains region
  rw [decide_eq_true_iff, Set.mem_prod, Set.mem_Ico, Set.mem_Ico, and_assoc]

theorem forall_contains_iff {f g : CGRect} :
    (∀ point, f.contains point = true → g.contains point = true) ↔ f.region ⊆ g.region := by
  simp only [contains_iff]
  exact ⟨fun h point => h ⟨point.1, point.2⟩, fun h point => @h (point.x, point.y)⟩

theorem region_eq_empty_iff {f : CGRect} (hw : 0 ≤ f.width) (hh : 0 ≤ f.height) :
    f.region = ∅ ↔ f.isEmpty = true := by
  unfold region isEmpty
  rw [Set.prod_eq_empty_iff, Set.Ico_eq_empty_iff, Set.Ico_eq_empty_iff, decide_eq_true_iff,
    not_lt, not_lt]
  unfold maxX maxY
  apply or_congr
  · exact ⟨fun h => by linarith, fun h => by linarith⟩
  · exact ⟨fun h => by linarith, fun h => by linarith⟩

/-- A rectangle that is not empty lies in another exactly when its edges do. -/
theorem region_subset_iff {f g : CGRect} (hw : 0 < f.width) (hh : 0 < f.height) :
    f.region ⊆ g.region ↔ (g.x ≤ f.x ∧ f.maxX ≤ g.maxX) ∧ g.y ≤ f.y ∧ f.maxY ≤ g.maxY := by
  have wide : f.x < f.maxX := by
    unfold maxX
    linarith
  have tall : f.y < f.maxY := by
    unfold maxY
    linarith
  have solid : (Set.Ico f.x f.maxX ×ˢ Set.Ico f.y f.maxY).Nonempty :=
    (Set.nonempty_Ico.mpr wide).prod (Set.nonempty_Ico.mpr tall)
  unfold region
  rw [Set.prod_subset_prod_iff' solid, Set.Ico_subset_Ico_iff wide, Set.Ico_subset_Ico_iff tall]

theorem grown_zero (f : CGRect) : f.grown 0 0 0 0 = f := by
  unfold grown
  simp only [sub_zero, add_zero]

/-- More on every side, and the rectangle contains the one with less. -/
theorem grown_mono (f : CGRect) {top right bottom left top' right' bottom' left' : ℚ}
    (ht : top ≤ top') (hr : right ≤ right') (hb : bottom ≤ bottom') (hl : left ≤ left') :
    (f.grown top right bottom left).region ⊆ (f.grown top' right' bottom' left').region := by
  unfold region maxX maxY grown
  apply Set.prod_mono
  · exact Set.Ico_subset_Ico (by linarith) (by linarith)
  · exact Set.Ico_subset_Ico (by linarith) (by linarith)

theorem subset_grown (f : CGRect) {top right bottom left : ℚ} (ht : 0 ≤ top) (hr : 0 ≤ right)
    (hb : 0 ≤ bottom) (hl : 0 ≤ left) : f.region ⊆ (f.grown top right bottom left).region := by
  have inside := grown_mono f ht hr hb hl
  rw [grown_zero] at inside
  exact inside

theorem grown_eq_self_iff {f : CGRect} {top right bottom left : ℚ} :
    f.grown top right bottom left = f ↔ (top = 0 ∧ right = 0) ∧ bottom = 0 ∧ left = 0 := by
  apply Iff.intro
  · intro same
    have x : f.x - left = f.x := congrArg CGRect.x same
    have y : f.y - top = f.y := congrArg CGRect.y same
    have width : f.width + left + right = f.width := congrArg CGRect.width same
    have height : f.height + top + bottom = f.height := congrArg CGRect.height same
    refine ⟨⟨?_, ?_⟩, ?_, ?_⟩ <;> linarith
  · intro zero
    rw [zero.1.1, zero.1.2, zero.2.1, zero.2.2, grown_zero]

theorem grown_subset_iff {f : CGRect} {top right bottom left top' right' bottom' left' : ℚ}
    (hw : 0 ≤ (f.grown top right bottom left).width)
    (hh : 0 ≤ (f.grown top right bottom left).height) :
    (f.grown top right bottom left).region ⊆ (f.grown top' right' bottom' left').region ↔
      (f.grown top right bottom left).isEmpty = true ∨
        (top ≤ top' ∧ right ≤ right') ∧ bottom ≤ bottom' ∧ left ≤ left' := by
  apply Iff.intro
  · intro inside
    by_cases empty : (f.grown top right bottom left).isEmpty = true
    · exact Or.inl empty
    · unfold isEmpty at empty
      rw [decide_eq_true_iff, not_or] at empty
      have edges := (region_subset_iff (lt_of_le_of_ne hw (Ne.symm empty.1))
        (lt_of_le_of_ne hh (Ne.symm empty.2))).mp inside
      unfold maxX maxY grown at edges
      refine Or.inr ⟨⟨?_, ?_⟩, ?_, ?_⟩ <;> linarith
  · intro h
    rcases h with empty | ⟨⟨ht, hr⟩, hb, hl⟩
    · rw [(region_eq_empty_iff hw hh).mpr empty]
      exact Set.empty_subset _
    · exact grown_mono f ht hr hb hl

end CGRect

end SwiftApp
