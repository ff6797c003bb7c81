import SwiftApp.CurrentVc

namespace SwiftApp

namespace Placed

open UIViewController

def topViewController (c : Placed) : Option Placed :=
  match c.controller with
  | .navigation _ _ top _ => some ⟨top, c.modal⟩
  | _ => none

theorem topViewController_weight {c t : Placed} (h : c.topViewController = some t) :
    t.weight < c.weight := by
  unfold topViewController at h
  split at h
  next id below top presented same =>
    cases h
    apply contained_weight
    rw [same, UIViewController.weight, UIViewController.presented]
    omega
  next => cases h

/-- The first loop of `current`. -/
def lastPresented (current : Placed) : Placed :=
  match _h : current.presentedViewController with
  | some presentedViewController => lastPresented presentedViewController
  | none => current
termination_by current.weight
decreasing_by exact presentedViewController_weight _h

/-- The second loop of `current`. -/
def lastTop (current : Placed) : Placed :=
  match _h : current.topViewController with
  | some topViewController => lastTop topViewController
  | none => current
termination_by current.weight
decreasing_by exact topViewController_weight _h

/-- The controller that stands in front of `c`, when a link applies. -/
def inFront (c : Placed) : Option Placed :=
  c.presentedViewController.or (c.selectedViewController.or c.topViewController)

/-- Following the links from one controller ends at the other, where none applies. -/
inductive LeadsToLeaf : Placed → Placed → Prop
  | leaf {c : Placed} : c.inFront = none → LeadsToLeaf c c
  | link {c next p : Placed} : c.inFront = some next → LeadsToLeaf next p → LeadsToLeaf c p

theorem inFront_weight {c next : Placed} (h : c.inFront = some next) : next.weight < c.weight := by
  rcases Option.or_eq_some_iff.mp h with presented | later
  · exact presentedViewController_weight presented
  · rcases Option.or_eq_some_iff.mp later.2 with selected | top
    · exact selectedViewController_weight selected
    · exact topViewController_weight top.2

theorem exists_leaf (c : Placed) : ∃ p, c.LeadsToLeaf p := by
  cases h : c.inFront with
  | none => exact ⟨c, .leaf h⟩
  | some next =>
    have smaller := inFront_weight h
    obtain ⟨p, hp⟩ := exists_leaf next
    exact ⟨p, .link h hp⟩
termination_by c.weight

theorem leaf_inFront {c p : Placed} (h : c.LeadsToLeaf p) : p.inFront = none := by
  induction h with
  | leaf none => exact none
  | link _ _ ih => exact ih

theorem leadsToLeaf_link {c next p : Placed} (h : c.inFront = some next) :
    c.LeadsToLeaf p ↔ next.LeadsToLeaf p := by
  apply Iff.intro
  · intro leads
    cases leads with
    | leaf nothing => cases nothing.symm.trans h
    | link other leads =>
      cases other.symm.trans h
      exact leads
  · exact .link h

theorem leadsToLeaf_unique {c p q : Placed} (hp : c.LeadsToLeaf p) (hq : c.LeadsToLeaf q) :
    p = q := by
  induction hp with
  | leaf nothing =>
    cases hq with
    | leaf _ => rfl
    | link h _ => cases nothing.symm.trans h
  | link h _ ih => exact ih ((leadsToLeaf_link h).mp hq)

/-- The links from a controller always lead to a leaf, and to one only. -/
theorem existsUnique_leaf (c : Placed) : ∃! p, c.LeadsToLeaf p := by
  obtain ⟨p, leads⟩ := exists_leaf c
  exact ⟨p, leads, fun other h => leadsToLeaf_unique h leads⟩

theorem lastPresented_of_some {c m : Placed} (h : c.presentedViewController = some m) :
    c.lastPresented = m.lastPresented := by
  rw [lastPresented]
  split
  next other same => rw [Option.some.inj (same.symm.trans h)]
  next same => cases same.symm.trans h

theorem lastPresented_of_none {c : Placed} (h : c.presentedViewController = none) :
    c.lastPresented = c := by
  rw [lastPresented]
  split
  next other same => cases same.symm.trans h
  next => rfl

theorem lastTop_of_some {c t : Placed} (h : c.topViewController = some t) :
    c.lastTop = t.lastTop := by
  rw [lastTop]
  split
  next other same => rw [Option.some.inj (same.symm.trans h)]
  next same => cases same.symm.trans h

theorem lastTop_of_none {c : Placed} (h : c.topViewController = none) : c.lastTop = c := by
  rw [lastTop]
  split
  next other same => cases same.symm.trans h
  next => rfl

/-- Down a stack, what is inherited stays inherited. -/
theorem lastTop_modal (controller m : UIViewController) :
    (lastTop ⟨controller, some m⟩).presentedViewController ≠ none := by
  induction controller generalizing m with
  | plain id presented _ =>
    rw [lastTop_of_none rfl]
    cases presented <;> simp [presentedViewController, modal, UIViewController.presented]
  | navigation id below top presented inTop _ =>
    rw [lastTop_of_some rfl]
    cases presented with
    | none => exact inTop m
    | some own => exact inTop own
  | tabBar id before selected after presented _ _ =>
    rw [lastTop_of_none rfl]
    cases presented <;> simp [presentedViewController, modal, UIViewController.presented]

end Placed

/-- The path `current` takes through the hierarchy. -/
def UIViewController.current (rootViewController : Option Placed) : Option Placed :=
  let current := rootViewController.map Placed.lastPresented
  let current := current.map fun tabbar => tabbar.selectedViewController.getD tabbar
  current.map Placed.lastTop

namespace UIViewController

/-- Navigation controllers down to a plain one, none of which presents anything. -/
def QuietStack : UIViewController → Prop
  | .plain _ presented => presented = none
  | .navigation _ _ top presented => presented = none ∧ top.QuietStack
  | .tabBar _ _ _ _ _ => False

/-- Past everything presented, at most one tab bar controller and then a quiet stack. -/
def TabThenStack : UIViewController → Prop
  | .plain _ none => True
  | .plain _ (some m) => m.TabThenStack
  | .navigation _ _ top none => top.QuietStack
  | .navigation _ _ _ (some m) => m.TabThenStack
  | .tabBar _ _ selected _ none => selected.QuietStack
  | .tabBar _ _ _ _ (some m) => m.TabThenStack

end UIViewController

namespace Placed

open UIViewController

/-- From the front of a stack the second loop reaches the leaf exactly when the stack is quiet. -/
theorem lastTop_leaf_iff (c : UIViewController) :
    (root c).LeadsToLeaf (root c).lastTop ∧ (root c).lastTop.isContainer = false ↔
      c.QuietStack := by
  induction c with
  | plain id presented _ =>
    rw [lastTop_of_none rfl]
    unfold QuietStack
    apply Iff.intro
    · intro h
      have nothing := leaf_inFront h.1
      cases presented with
      | none => rfl
      | some m => cases nothing
    · intro h
      subst h
      exact ⟨.leaf rfl, rfl⟩
  | navigation id below top presented inTop _ =>
    unfold QuietStack
    rw [lastTop_of_some rfl]
    cases presented with
    | none =>
      rw [leadsToLeaf_link rfl, ← inTop]
      exact (and_iff_right rfl).symm
    | some m =>
      refine iff_of_false ?_ fun h => by cases h.1
      intro h
      exact lastTop_modal top m (Option.or_eq_none_iff.mp (leaf_inFront h.1)).1
  | tabBar id before selected after presented _ _ =>
    rw [lastTop_of_none rfl]
    exact iff_of_false (fun h => by cases h.2) fun h => h

theorem current_of_presented {c m : UIViewController} (h : c.presented = some m) :
    UIViewController.current (some (root c)) = UIViewController.current (some (root m)) := by
  have link : (root c).presentedViewController = some (root m) := by
    unfold presentedViewController modal root
    rw [h]
    rfl
  unfold UIViewController.current
  rw [Option.map_some, lastPresented_of_some link]
  rfl

theorem current_of_quiet {c : UIViewController} (h : c.presented = none) :
    UIViewController.current (some (root c)) =
      some ((root c).selectedViewController.getD (root c)).lastTop := by
  have nothing : (root c).presentedViewController = none := by
    unfold presentedViewController modal root
    rw [h]
    rfl
  unfold UIViewController.current
  rw [Option.map_some, lastPresented_of_none nothing]
  rfl

/-- `current` finds the leaf: it returns what following the links ends at, and no container. -/
def FindsLeaf (c : UIViewController) : Prop :=
  ∃ found, UIViewController.current (some (root c)) = some found ∧ found.isContainer = false ∧
    (root c).LeadsToLeaf found

theorem findsLeaf_of_presented {c m : UIViewController} (h : c.presented = some m) :
    FindsLeaf c ↔ FindsLeaf m := by
  have link : (root c).inFront = some (root m) := by
    unfold inFront presentedViewController modal root
    rw [h]
    rfl
  unfold FindsLeaf
  rw [current_of_presented h]
  simp only [leadsToLeaf_link link]

/-- With nothing presented, `current` follows the selected controller and then the tops. -/
theorem findsLeaf_of_quiet {c front : UIViewController} (quiet : c.presented = none)
    (stack : ((root c).selectedViewController.getD (root c)).lastTop = (root front).lastTop)
    (link : ∀ p, (root c).LeadsToLeaf p ↔ (root front).LeadsToLeaf p) :
    FindsLeaf c ↔ front.QuietStack := by
  unfold FindsLeaf
  rw [current_of_quiet quiet, stack, ← lastTop_leaf_iff]
  apply Iff.intro
  · intro h
    obtain ⟨found, hf, plain, leads⟩ := h
    cases hf
    exact ⟨(link _).mp leads, plain⟩
  · intro h
    exact ⟨_, rfl, h.2, (link _).mpr h.1⟩

theorem findsLeaf_iff (c : UIViewController) : FindsLeaf c ↔ c.TabThenStack := by
  induction c with
  | plain id presented modal =>
    cases presented with
    | none =>
      rw [findsLeaf_of_quiet rfl rfl fun _ => Iff.rfl]
      exact iff_of_true rfl trivial
    | some m => rw [findsLeaf_of_presented rfl, modal m rfl, TabThenStack]
  | navigation id below top presented inTop modal =>
    cases presented with
    | none =>
      exact findsLeaf_of_quiet rfl (lastTop_of_some rfl) fun _ => leadsToLeaf_link rfl
    | some m => rw [findsLeaf_of_presented rfl, modal m rfl, TabThenStack]
  | tabBar id before selected after presented inSelected modal =>
    cases presented with
    | none => exact findsLeaf_of_quiet rfl rfl fun _ => leadsToLeaf_link rfl
    | some m => rw [findsLeaf_of_presented rfl, modal m rfl, TabThenStack]

end Placed

/-- `current` returns the one leaf the links lead to, and that no container, if and only if past
everything presented there is at most one tab bar controller and then a stack of navigation
controllers over a plain one, none of which presents anything. -/
theorem current_is_leaf_iff (h : Hierarchy) :
    (∃ found, UIViewController.current (some (.root h.rootViewController)) = some found ∧
      found.isContainer = false ∧
      ∀ leaf, (Placed.root h.rootViewController).LeadsToLeaf leaf ↔ leaf = found) ↔
      h.rootViewController.TabThenStack := by
  rw [← Placed.findsLeaf_iff]
  apply Iff.intro
  · intro finds
    obtain ⟨found, hf, plain, leads⟩ := finds
    exact ⟨found, hf, plain, (leads found).mpr rfl⟩
  · intro finds
    obtain ⟨found, hf, plain, leads⟩ := finds
    refine ⟨found, hf, plain, fun leaf => ?_⟩
    apply Iff.intro
    · exact fun other => Placed.leadsToLeaf_unique other leads
    · exact fun same => same ▸ leads

/-- A tab bar controller whose selected stack shows a controller that presents one itself. -/
def modalOverStack : Hierarchy where
  rootViewController :=
    .tabBar 0 [] (.navigation 1 [] (.plain 2 (some (.plain 3 none))) none) [] none
  distinct := by decide

/-- A navigation controller with a tab bar controller at the top of its stack. -/
def tabOnStack : Hierarchy where
  rootViewController := .navigation 0 [] (.tabBar 1 [] (.plain 2 none) [] none) none
  distinct := by decide

theorem current_misses_leaf :
    (¬ ∃ found, UIViewController.current (some (.root modalOverStack.rootViewController)) =
        some found ∧ found.isContainer = false ∧
        ∀ leaf, (Placed.root modalOverStack.rootViewController).LeadsToLeaf leaf ↔ leaf = found) ∧
      ¬ ∃ found, UIViewController.current (some (.root tabOnStack.rootViewController)) =
        some found ∧ found.isContainer = false ∧
        ∀ leaf, (Placed.root tabOnStack.rootViewController).LeadsToLeaf leaf ↔ leaf = found := by
  have covered : UIViewController.current (some (.root modalOverStack.rootViewController)) =
      some (.root (.plain 2 (some (.plain 3 none)))) := by
    rw [Placed.current_of_quiet rfl, Placed.lastTop_of_some rfl, Placed.lastTop_of_none rfl]
    rfl
  have container : UIViewController.current (some (.root tabOnStack.rootViewController)) =
      some (.root (.tabBar 1 [] (.plain 2 none) [] none)) := by
    rw [Placed.current_of_quiet rfl, Placed.lastTop_of_some rfl, Placed.lastTop_of_none rfl]
    rfl
  refine ⟨?_, ?_⟩
  · intro finds
    obtain ⟨found, hf, _, leads⟩ := finds
    cases covered.symm.trans hf
    cases Placed.leaf_inFront ((leads _).mpr rfl)
  · intro finds
    obtain ⟨found, hf, plain, _⟩ := finds
    cases container.symm.trans hf
    cases plain

end SwiftApp
