import SwiftApp.UIViewController

namespace SwiftApp

open UIViewController

def searchWeight (controller : Option Placed) : Nat := controller.elim 0 fun c => c.weight + 1

theorem searchWeight_lt {next : Option Placed} {c : Placed}
    (h : ∀ n, next = some n → n.weight < c.weight) : searchWeight next < searchWeight (some c) := by
  cases next with
  | none => exact Nat.succ_pos _
  | some n => exact Nat.succ_lt_succ (h n rfl)

/-- `UIApplication.topViewController(controller:)` -/
def topViewController : Option Placed → Option Placed
  | none => none
  | some controller =>
    if controller.controller.isUINavigationController then
      topViewController controller.visibleViewController
    else
      match _hs : controller.selectedViewController with
      | some selected => topViewController (some selected)
      | none =>
        match _hp : controller.presentedViewController with
        | some presented => topViewController (some presented)
        | none => some controller
termination_by controller => searchWeight controller
decreasing_by
  · exact searchWeight_lt fun _ h => Placed.visibleViewController_weight h
  · exact searchWeight_lt fun _ h => Placed.selectedViewController_weight (_hs.trans h)
  · exact searchWeight_lt fun _ h => Placed.presentedViewController_weight (_hp.trans h)

/-- The search both Objective-C classes make; a message to nil answers nil. -/
def presentedFirst : Option Placed → Option Placed
  | none => none
  | some rootViewController =>
    match _hp : rootViewController.presentedViewController with
    | some presented => presentedFirst (some presented)
    | none =>
      if rootViewController.controller.isUINavigationController then
        presentedFirst rootViewController.visibleViewController
      else if rootViewController.controller.isUITabBarController then
        presentedFirst rootViewController.selectedViewController
      else some rootViewController
termination_by rootViewController => searchWeight rootViewController
decreasing_by
  · exact searchWeight_lt fun _ h => Placed.presentedViewController_weight (_hp.trans h)
  · exact searchWeight_lt fun _ h => Placed.visibleViewController_weight h
  · exact searchWeight_lt fun _ h => Placed.selectedViewController_weight h

/-- `+[MBProgressHUD topViewControllerWithRootViewController:]` -/
def topViewControllerWithRootViewController (rootViewController : Option Placed) : Option Placed :=
  presentedFirst rootViewController

/-- `-[AliyunUploadVideoTool currentViewControllerWithRootViewController:]` -/
def currentViewControllerWithRootViewController (rootViewController : Option Placed) :
    Option Placed :=
  presentedFirst rootViewController

/-- Neither the controller nor, under tab bar controllers, the selected one presents anything. -/
def UIViewController.Quiet : UIViewController → Prop
  | .plain _ presented => presented = none
  | .navigation _ _ _ presented => presented = none
  | .tabBar _ _ selected _ presented => presented = none ∧ selected.Quiet

/-- Wherever the search comes to a tab bar controller that presents something, what is
selected under it presents nothing. -/
def UIViewController.OneModal : UIViewController → Prop
  | .plain _ none => True
  | .plain _ (some m) => m.OneModal
  | .navigation _ _ top none => top.OneModal
  | .navigation _ _ _ (some m) => m.OneModal
  | .tabBar _ _ selected _ none => selected.OneModal
  | .tabBar _ _ selected _ (some m) => selected.Quiet ∧ m.OneModal

/-! What one step of each search does. -/

theorem topViewController_navigation {id : Nat} {below : List UIViewController}
    {top : UIViewController} {presented inherited : Option UIViewController} :
    topViewController (some ⟨.navigation id below top presented, inherited⟩) =
      match presented.or inherited with
      | some m => topViewController (some (.root m))
      | none => topViewController (some (.root top)) := by
  rw [topViewController]
  simp only [isUINavigationController, if_true, Placed.visibleViewController,
    Placed.presentedViewController, Placed.modal, UIViewController.presented]
  cases presented.or inherited <;> rfl

theorem topViewController_tabBar {id : Nat} {before after : List UIViewController}
    {selected : UIViewController} {presented inherited : Option UIViewController} :
    topViewController (some ⟨.tabBar id before selected after presented, inherited⟩) =
      topViewController (some ⟨selected, presented.or inherited⟩) := by
  rw [topViewController]
  rfl

theorem topViewController_plain {id : Nat} {presented inherited : Option UIViewController} :
    topViewController (some ⟨.plain id presented, inherited⟩) =
      match presented.or inherited with
      | some m => topViewController (some (.root m))
      | none => some ⟨.plain id presented, inherited⟩ := by
  rw [topViewController]
  simp only [isUINavigationController, Bool.false_eq_true, if_false, Placed.selectedViewController]
  cases h : presented.or inherited with
  | none =>
    split
    next p hp => simp [Placed.presentedViewController, Placed.modal, UIViewController.presented, h] at hp
    next => rfl
  | some m =>
    split
    next p hp =>
      simp only [Placed.presentedViewController, Placed.modal, UIViewController.presented, h,
        Option.map_some, Option.some.injEq] at hp
      rw [← hp]
    next hp => simp [Placed.presentedViewController, Placed.modal, UIViewController.presented, h] at hp

theorem presentedFirst_modal {c m : UIViewController} (h : c.presented = some m) :
    presentedFirst (some (.root c)) = presentedFirst (some (.root m)) := by
  have modal : (Placed.root c).presentedViewController = some (.root m) := by
    unfold Placed.presentedViewController Placed.modal Placed.root
    rw [h]
    rfl
  rw [presentedFirst]
  split
  next p hp => rw [Option.some.inj (hp.symm.trans modal)]
  next hp => exact absurd (hp.symm.trans modal) (by simp)

theorem presentedFirst_navigation {id : Nat} {below : List UIViewController}
    {top : UIViewController} :
    presentedFirst (some (.root (.navigation id below top none))) =
      presentedFirst (some (.root top)) := by
  rw [presentedFirst]
  rfl

theorem presentedFirst_tabBar {id : Nat} {before after : List UIViewController}
    {selected : UIViewController} :
    presentedFirst (some (.root (.tabBar id before selected after none))) =
      presentedFirst (some (.root selected)) := by
  rw [presentedFirst]
  rfl

theorem presentedFirst_plain {id : Nat} :
    presentedFirst (some (.root (.plain id none))) = some (.root (.plain id none)) := by
  rw [presentedFirst]
  rfl

/-- The Objective-C searches always find a controller. -/
theorem presentedFirst_mem (c : UIViewController) :
    ∃ found, presentedFirst (some (.root c)) = some found ∧ found.controller.id ∈ c.ids := by
  induction c with
  | plain id presented modal =>
    cases presented with
    | none => exact ⟨_, presentedFirst_plain, List.mem_cons_self⟩
    | some m =>
      obtain ⟨found, hf, hm⟩ := modal m rfl
      exact ⟨found, by rw [presentedFirst_modal rfl, hf], presented_ids rfl hm⟩
  | navigation id below top presented inTop modal =>
    cases presented with
    | none =>
      obtain ⟨found, hf, hm⟩ := inTop
      exact ⟨found, by rw [presentedFirst_navigation, hf], by simp [ids, hm]⟩
    | some m =>
      obtain ⟨found, hf, hm⟩ := modal m rfl
      exact ⟨found, by rw [presentedFirst_modal rfl, hf], presented_ids rfl hm⟩
  | tabBar id before selected after presented inSelected modal =>
    cases presented with
    | none =>
      obtain ⟨found, hf, hm⟩ := inSelected
      exact ⟨found, by rw [presentedFirst_tabBar, hf], by simp [ids, hm]⟩
    | some m =>
      obtain ⟨found, hf, hm⟩ := modal m rfl
      exact ⟨found, by rw [presentedFirst_modal rfl, hf], presented_ids rfl hm⟩

/-- Under quiet containers the Swift search comes back to the inherited modal. -/
theorem topViewController_quiet {c m : UIViewController} (quiet : c.Quiet) :
    topViewController (some ⟨c, some m⟩) = topViewController (some (.root m)) := by
  induction c with
  | plain id presented _ =>
    cases quiet
    exact topViewController_plain
  | navigation id below top presented _ _ =>
    cases quiet
    exact topViewController_navigation
  | tabBar id before selected after presented inSelected _ =>
    obtain ⟨rfl, quiet⟩ := quiet
    rw [topViewController_tabBar]
    exact inSelected quiet

/-- The Swift search finds a controller of the hierarchy it starts in, or goes to the
inherited modal because everything it passes is quiet. -/
theorem topViewController_mem (c : UIViewController) (inherited : Option UIViewController)
    (here : inherited = none ∨ ¬ c.Quiet) :
    ∃ found, topViewController (some ⟨c, inherited⟩) = some found ∧
      found.controller.id ∈ c.ids := by
  induction c generalizing inherited with
  | plain id presented modal =>
    rw [topViewController_plain]
    cases presented with
    | none =>
      have nothing : inherited = none := here.resolve_right (not_not.mpr rfl)
      subst nothing
      exact ⟨_, rfl, List.mem_cons_self⟩
    | some m =>
      obtain ⟨found, hf, hm⟩ := modal m rfl none (Or.inl rfl)
      exact ⟨found, hf, presented_ids rfl hm⟩
  | navigation id below top presented inTop modal =>
    rw [topViewController_navigation]
    cases presented with
    | none =>
      have nothing : inherited = none := here.resolve_right (not_not.mpr rfl)
      subst nothing
      obtain ⟨found, hf, hm⟩ := inTop none (Or.inl rfl)
      exact ⟨found, hf, by simp [ids, hm]⟩
    | some m =>
      obtain ⟨found, hf, hm⟩ := modal m rfl none (Or.inl rfl)
      exact ⟨found, hf, presented_ids rfl hm⟩
  | tabBar id before selected after presented inSelected modal =>
    rw [topViewController_tabBar]
    cases presented with
    | none =>
      have here' : inherited = none ∨ ¬ selected.Quiet :=
        here.imp_right fun loud quiet => loud ⟨rfl, quiet⟩
      obtain ⟨found, hf, hm⟩ := inSelected inherited here'
      exact ⟨found, hf, by simp [ids, hm]⟩
    | some m =>
      by_cases quiet : selected.Quiet
      · obtain ⟨found, hf, hm⟩ := modal m rfl none (Or.inl rfl)
        refine ⟨found, ?_, presented_ids rfl hm⟩
        rw [Option.some_or, topViewController_quiet quiet]
        exact hf
      · obtain ⟨found, hf, hm⟩ := inSelected (some m) (Or.inr quiet)
        exact ⟨found, hf, by simp [ids, hm]⟩

theorem searches_agree {c : UIViewController} (distinct : c.ids.Nodup) :
    topViewController (some (.root c)) = presentedFirst (some (.root c)) ↔ c.OneModal := by
  induction c with
  | plain id presented modal =>
    unfold Placed.root
    rw [topViewController_plain]
    cases presented with
    | none =>
      rw [← Placed.root, presentedFirst_plain]
      simp [OneModal, Placed.root]
    | some m =>
      rw [← Placed.root, presentedFirst_modal rfl, OneModal]
      exact modal m rfl (List.nodup_cons.mp distinct).2
  | navigation id below top presented inTop modal =>
    simp only [ids, List.nodup_cons, List.nodup_append] at distinct
    unfold Placed.root
    rw [topViewController_navigation]
    cases presented with
    | none =>
      rw [← Placed.root, presentedFirst_navigation, OneModal]
      exact inTop distinct.2.1.2.1
    | some m =>
      rw [← Placed.root, presentedFirst_modal rfl, OneModal]
      exact modal m rfl distinct.2.2.1
  | tabBar id before selected after presented inSelected modal =>
    simp only [ids, List.nodup_cons, List.nodup_append] at distinct
    unfold Placed.root
    rw [topViewController_tabBar]
    cases presented with
    | none =>
      rw [← Placed.root, presentedFirst_tabBar, OneModal]
      exact inSelected distinct.2.1.1.2.1
    | some m =>
      rw [← Placed.root, presentedFirst_modal rfl, OneModal, Option.some_or]
      by_cases quiet : selected.Quiet
      · rw [topViewController_quiet quiet, modal m rfl distinct.2.2.1]
        exact (and_iff_right quiet).symm
      · obtain ⟨found, swift, inSel⟩ := topViewController_mem selected (some m) (Or.inr quiet)
        obtain ⟨other, objc, inModal⟩ := presentedFirst_mem m
        refine iff_of_false ?_ fun one => quiet one.1
        intro same
        rw [swift, objc] at same
        cases same
        have apart := distinct.2.2.2 found.controller.id (by simp [inSel]) found.controller.id inModal
        exact apart rfl

/-- The three recursive searches find the same controller, whatever is presented where, if and
only if wherever they come to a tab bar controller that presents something, what is
selected under it presents nothing. -/
theorem top_searches_agree_iff (h : Hierarchy) :
    (∃ found, topViewController (some (.root h.rootViewController)) = some found ∧
      topViewControllerWithRootViewController (some (.root h.rootViewController)) = some found ∧
      currentViewControllerWithRootViewController (some (.root h.rootViewController)) =
        some found) ↔ h.rootViewController.OneModal := by
  rw [← searches_agree h.distinct]
  obtain ⟨found, hf, _⟩ := presentedFirst_mem h.rootViewController
  unfold topViewControllerWithRootViewController currentViewControllerWithRootViewController
  apply Iff.intro
  · intro same
    obtain ⟨other, swift, objc, _⟩ := same
    rw [swift, objc]
  · intro same
    exact ⟨found, same.trans hf, hf, hf⟩

/-- A tab bar controller presents 1 while its selected child 2 presents 3. -/
def twoModals : Hierarchy where
  rootViewController :=
    .tabBar 0 [] (.plain 2 (some (.plain 3 none))) [] (some (.plain 1 none))
  distinct := by decide

theorem top_searches_differ : ¬ ∃ found,
    topViewController (some (.root twoModals.rootViewController)) = some found ∧
    topViewControllerWithRootViewController (some (.root twoModals.rootViewController)) =
      some found ∧
    currentViewControllerWithRootViewController (some (.root twoModals.rootViewController)) =
      some found := by
  have swift : topViewController (some (.root twoModals.rootViewController)) =
      some (.root (.plain 3 none)) := by
    unfold Placed.root twoModals
    rw [topViewController_tabBar, topViewController_plain]
    exact topViewController_plain
  have objc : topViewControllerWithRootViewController
      (some (.root twoModals.rootViewController)) = some (.root (.plain 1 none)) := by
    unfold topViewControllerWithRootViewController twoModals
    rw [presentedFirst_modal rfl, presentedFirst_plain]
  intro h
  obtain ⟨found, one, two, _⟩ := h
  have same := (swift.symm.trans one).trans (two.symm.trans objc)
  cases same

end SwiftApp
