import Mathlib.Data.List.Nodup

namespace SwiftApp

/-- A finite hierarchy: each controller has what it presented itself; a navigation controller
its stack, a tab bar controller its children, one of them selected. -/
inductive UIViewController
  | plain (id : Nat) (presented : Option UIViewController)
  | navigation (id : Nat) (below : List UIViewController) (top : UIViewController)
    (presented : Option UIViewController)
  | tabBar (id : Nat) (before : List UIViewController) (selected : UIViewController)
    (after : List UIViewController) (presented : Option UIViewController)

namespace UIViewController

def id : UIViewController → Nat
  | .plain id _ | .navigation id _ _ _ | .tabBar id _ _ _ _ => id

def presented : UIViewController → Option UIViewController
  | .plain _ presented | .navigation _ _ _ presented | .tabBar _ _ _ _ presented => presented

def isUINavigationController : UIViewController → Bool
  | .navigation _ _ _ _ => true
  | _ => false

def isUITabBarController : UIViewController → Bool
  | .tabBar _ _ _ _ _ => true
  | _ => false

mutual

/-- Every controller of the hierarchy, by its identity. -/
def ids : UIViewController → List Nat
  | .plain id presented => id :: presentedIds presented
  | .navigation id below top presented =>
    id :: (childIds below ++ ids top ++ presentedIds presented)
  | .tabBar id before selected after presented =>
    id :: (childIds before ++ ids selected ++ childIds after ++ presentedIds presented)

def presentedIds : Option UIViewController → List Nat
  | none => []
  | some controller => ids controller

def childIds : List UIViewController → List Nat
  | [] => []
  | controller :: controllers => ids controller ++ childIds controllers

end

mutual

/-- Number of controllers the searches can reach. -/
def weight : UIViewController → Nat
  | .plain _ presented => 1 + presentedWeight presented
  | .navigation _ _ top presented => 1 + weight top + presentedWeight presented
  | .tabBar _ _ selected _ presented => 1 + weight selected + presentedWeight presented

def presentedWeight : Option UIViewController → Nat
  | none => 0
  | some controller => weight controller

end

/-- Induction along the links the searches follow: presented, top and selected. -/
@[elab_as_elim, induction_eliminator]
theorem links_induction {P : UIViewController → Prop}
    (plain : ∀ id presented, (∀ m, presented = some m → P m) → P (.plain id presented))
    (navigation : ∀ id below top presented, P top → (∀ m, presented = some m → P m) →
      P (.navigation id below top presented))
    (tabBar : ∀ id before selected after presented, P selected →
      (∀ m, presented = some m → P m) → P (.tabBar id before selected after presented)) :
    ∀ c, P c
  | .plain id none => plain id none (by simp)
  | .plain id (some m) => plain id (some m) fun _ h => Option.some.inj h ▸
      links_induction plain navigation tabBar m
  | .navigation id below top none =>
    navigation id below top none (links_induction plain navigation tabBar top) (by simp)
  | .navigation id below top (some m) =>
    navigation id below top (some m) (links_induction plain navigation tabBar top) fun _ h =>
      Option.some.inj h ▸ links_induction plain navigation tabBar m
  | .tabBar id before selected after none =>
    tabBar id before selected after none (links_induction plain navigation tabBar selected) (by simp)
  | .tabBar id before selected after (some m) =>
    tabBar id before selected after (some m) (links_induction plain navigation tabBar selected)
      fun _ h => Option.some.inj h ▸ links_induction plain navigation tabBar m

theorem presented_ids {c m : UIViewController} (h : c.presented = some m) : m.ids ⊆ c.ids := by
  intro x hx
  cases c <;> cases h <;> simp [ids, presentedIds, hx]

theorem presentedWeight_le {c : UIViewController} : presentedWeight c.presented < c.weight := by
  cases c <;> simp only [presented, weight] <;> omega

end UIViewController

/-- A controller in its place: `inherited` is what the nearest containment ancestor that
presented something presented. -/
structure Placed where
  controller : UIViewController
  inherited : Option UIViewController

namespace Placed

open UIViewController

/-- A controller with no containment ancestor: the root, or a presented one. -/
def root (controller : UIViewController) : Placed := ⟨controller, none⟩

/-- What the controller presented itself, else what it inherits. -/
def modal (c : Placed) : Option UIViewController := c.controller.presented.or c.inherited

def presentedViewController (c : Placed) : Option Placed := c.modal.map root

def visibleViewController (c : Placed) : Option Placed :=
  match c.controller with
  | .navigation _ _ top _ => c.presentedViewController.or (some ⟨top, c.modal⟩)
  | _ => none

def selectedViewController (c : Placed) : Option Placed :=
  match c.controller with
  | .tabBar _ _ selected _ _ => some ⟨selected, c.modal⟩
  | _ => none

/-- What is left to search, the inherited controller counted in. -/
def weight (c : Placed) : Nat := c.controller.weight + presentedWeight c.inherited

theorem presentedWeight_modal {c : Placed} :
    presentedWeight c.modal ≤ presentedWeight c.controller.presented + presentedWeight c.inherited := by
  unfold modal
  cases c.controller.presented with
  | none => simp [presentedWeight]
  | some m => simp [presentedWeight]

/-- A contained controller that inherits what its container presents. -/
theorem contained_weight {c : Placed} {contained : UIViewController}
    (h : contained.weight + presentedWeight c.controller.presented < c.controller.weight) :
    weight ⟨contained, c.modal⟩ < c.weight := by
  have fits := c.presentedWeight_modal
  show contained.weight + presentedWeight c.modal < c.controller.weight + presentedWeight c.inherited
  omega

theorem presentedViewController_weight {c p : Placed} (h : c.presentedViewController = some p) :
    p.weight < c.weight := by
  obtain ⟨m, hm, rfl⟩ := Option.map_eq_some_iff.mp h
  have fits := c.presentedWeight_modal
  have small := c.controller.presentedWeight_le
  rw [hm] at fits
  simp only [weight, root, presentedWeight] at fits ⊢
  omega

theorem visibleViewController_weight {c v : Placed} (h : c.visibleViewController = some v) :
    v.weight < c.weight := by
  unfold visibleViewController at h
  split at h
  next id below top presented same =>
    cases hp : c.presentedViewController with
    | some p =>
      rw [hp] at h
      cases h
      exact presentedViewController_weight hp
    | none =>
      rw [hp] at h
      cases h
      apply contained_weight
      rw [same, UIViewController.weight, UIViewController.presented]
      omega
  next => cases h

theorem selectedViewController_weight {c s : Placed} (h : c.selectedViewController = some s) :
    s.weight < c.weight := by
  unfold selectedViewController at h
  split at h
  next id before selected after presented same =>
    cases h
    apply contained_weight
    rw [same, UIViewController.weight, UIViewController.presented]
    omega
  next => cases h

end Placed

/-- A hierarchy whose controllers are all different ones. -/
structure Hierarchy where
  rootViewController : UIViewController
  distinct : rootViewController.ids.Nodup

end SwiftApp
