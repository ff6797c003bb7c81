import SwiftApp.UIViewController

namespace SwiftApp

/-- `getCurrentVcFrom(_:)`; `none` is a trap on a forced unwrap. -/
def getCurrentVcFrom (rootVc : Placed) : Option Placed :=
  let rootCtr := rootVc.presentedViewController.getD rootVc
  if rootVc.controller.isUITabBarController then
    match _h : rootVc.selectedViewController with
    | some selectedViewController => getCurrentVcFrom selectedViewController
    | none => none
  else if rootVc.controller.isUINavigationController then
    match _h : rootVc.visibleViewController with
    | some visibleViewController => getCurrentVcFrom visibleViewController
    | none => none
  else some rootCtr
termination_by rootVc.weight
decreasing_by
  · exact Placed.selectedViewController_weight _h
  · exact Placed.visibleViewController_weight _h

namespace Placed

def isContainer (c : Placed) : Bool :=
  c.controller.isUINavigationController || c.controller.isUITabBarController

/-- A controller that shows itself: no container, and it presents nothing. -/
def Topmost (c : Placed) : Prop := c.presentedViewController = none ∧ c.isContainer = false

/-- The containers lead from one controller to the other, which is none itself. -/
inductive LeadsTo : Placed → Placed → Prop
  | here {c : Placed} : c.isContainer = false → LeadsTo c c
  | visible {c v p : Placed} : c.visibleViewController = some v → LeadsTo v p → LeadsTo c p
  | selected {c s p : Placed} : c.selectedViewController = some s → LeadsTo s p → LeadsTo c p

/-- It presents nothing, or a controller that shows itself. -/
def AtMostOneModal (c : Placed) : Prop := ∀ m, c.presentedViewController = some m → m.Topmost

theorem visible_or_selected {c : Placed} (container : c.isContainer = true) :
    ∃ next, next.weight < c.weight ∧
      (c.visibleViewController = some next ∨ c.selectedViewController = some next) := by
  cases hs : c.selectedViewController with
  | some s => exact ⟨s, selectedViewController_weight hs, Or.inr rfl⟩
  | none =>
    cases hv : c.visibleViewController with
    | some v => exact ⟨v, visibleViewController_weight hv, Or.inl rfl⟩
    | none =>
      obtain ⟨controller, inherited⟩ := c
      cases controller with
      | plain id presented => cases container
      | tabBar id before selected after presented => cases hs
      | navigation id below top presented =>
        simp [visibleViewController] at hv

/-- From every controller the containers lead somewhere. -/
theorem exists_leadsTo (c : Placed) : ∃ p, c.LeadsTo p := by
  cases container : c.isContainer with
  | false => exact ⟨c, .here container⟩
  | true =>
    obtain ⟨next, smaller, link⟩ := visible_or_selected container
    obtain ⟨p, hp⟩ := exists_leadsTo next
    rcases link with visible | selected
    · exact ⟨p, .visible visible hp⟩
    · exact ⟨p, .selected selected hp⟩
termination_by c.weight

theorem isUINavigationController_of_visible {c v : Placed} (h : c.visibleViewController = some v) :
    c.controller.isUINavigationController = true ∧ c.controller.isUITabBarController = false := by
  unfold visibleViewController at h
  split at h
  next same => rw [same]; exact ⟨rfl, rfl⟩
  next => cases h

theorem isUITabBarController_of_selected {c s : Placed} (h : c.selectedViewController = some s) :
    c.controller.isUITabBarController = true := by
  unfold selectedViewController at h
  split at h
  next same => rw [same]; rfl
  next => cases h

end Placed

/-- The search looks through the containers and past one presentation. -/
theorem getCurrentVcFrom_eq {c p : Placed} (h : c.LeadsTo p) :
    getCurrentVcFrom c = some (p.presentedViewController.getD p) := by
  induction h with
  | here plain =>
    rw [getCurrentVcFrom]
    simp only [Placed.isContainer, Bool.or_eq_false_iff] at plain
    simp [plain]
  | visible link _ ih =>
    obtain ⟨navigation, noTab⟩ := Placed.isUINavigationController_of_visible link
    rw [getCurrentVcFrom]
    simp only [noTab, navigation, Bool.false_eq_true, if_false, if_true]
    split
    next v same => rw [link] at same; cases same; exact ih
    next same => rw [link] at same; cases same
  | selected link _ ih =>
    have tab := Placed.isUITabBarController_of_selected link
    rw [getCurrentVcFrom]
    simp only [tab, if_true]
    split
    next s same => rw [link] at same; cases same; exact ih
    next same => rw [link] at same; cases same

theorem leadsTo_plain {c p : Placed} (h : c.LeadsTo p) : p.isContainer = false := by
  induction h with
  | here plain => exact plain
  | visible _ _ ih => exact ih
  | selected _ _ ih => exact ih

/-- `getCurrentVcFrom` always returns; it returns a controller that shows itself if and only if
the one the containers lead to has at most one modal on it, and that no container. -/
theorem current_vc_topmost_iff (root : UIViewController) :
    (∃ found, getCurrentVcFrom (.root root) = some found ∧ found.Topmost) ↔
      ∀ p, (Placed.root root).LeadsTo p → p.AtMostOneModal := by
  apply Iff.intro
  · intro h p leads m presents
    obtain ⟨found, hf, topmost⟩ := h
    rw [getCurrentVcFrom_eq leads, presents] at hf
    cases hf
    exact topmost
  · intro h
    obtain ⟨p, leads⟩ := Placed.exists_leadsTo (.root root)
    refine ⟨_, getCurrentVcFrom_eq leads, ?_⟩
    cases presents : p.presentedViewController with
    | none => exact ⟨presents, leadsTo_plain leads⟩
    | some m => exact h p leads m presents

/-- A plain controller that presents a navigation controller. -/
def modalNavigation : UIViewController :=
  .plain 0 (some (.navigation 1 [] (.plain 2 none) none))

theorem current_vc_is_container :
    ¬ ∃ found, getCurrentVcFrom (.root modalNavigation) = some found ∧ found.Topmost := by
  intro h
  obtain ⟨found, hf, _, plain⟩ := h
  have leads : (Placed.root modalNavigation).LeadsTo (.root modalNavigation) := .here rfl
  rw [getCurrentVcFrom_eq leads] at hf
  cases hf
  cases plain

end SwiftApp
