import SwiftApp.MBProgressHUD
import SwiftApp.FrontSplit

namespace SwiftApp

open FrontSplit

namespace Screen

/-- The unfinished HUDs of a view from front to back. -/
def openHUDs (s : Screen) (view : Option Nat) : List Nat :=
  (s.subviewsOf view).reverse.filterMap s.unfinished

def hudOf : Subview → Option Nat
  | .hud hud => some hud
  | .other => none

/-- All HUDs of a view from front to back, finished or not. -/
def hudsOf (s : Screen) (view : Option Nat) : List Nat :=
  (s.subviewsOf view).reverse.filterMap hudOf

def isIndeterminate (s : Screen) (hud : Nat) : Bool := (s.huds hud).mode = .indeterminate

theorem HUDForView_eq (s : Screen) (view : Option Nat) :
    s.HUDForView view = (s.openHUDs view).head? := by
  unfold HUDForView openHUDs
  rw [List.head?_filterMap]

theorem openHUDs_eq (s : Screen) (view : Option Nat) :
    s.openHUDs view = (s.hudsOf view).filter fun hud => !(s.huds hud).hasFinished := by
  unfold openHUDs hudsOf
  rw [List.filter_filterMap]
  refine congrArg (List.filterMap · _) (funext fun x => ?_)
  cases x with
  | other => rfl
  | hud hud => cases h : (s.huds hud).hasFinished <;> simp [unfinished, hudOf, Option.filter, h]

theorem mem_openHUDs {s : Screen} {view : Option Nat} {hud : Nat} :
    hud ∈ s.openHUDs view ↔ hud ∈ s.hudsOf view ∧ (s.huds hud).hasFinished = false := by
  rw [openHUDs_eq, List.mem_filter, Bool.not_eq_true']

/-- `t` comes from `s` by hiding `hud`: it is finished, and detached from its view at most. -/
structure HidesOne (s : Screen) (hud : Nat) (t : Screen) : Prop where
  finished : (t.huds hud).hasFinished = true
  mode : (t.huds hud).mode = (s.huds hud).mode
  frame : ∀ g, g ≠ hud → t.huds g = s.huds g
  subviews : ∀ view, t.subviews view = s.subviews view ∨
    t.subviews view = (s.subviews view).filter (· ≠ .hud hud)

theorem hideAnimated_one (s : Screen) (hud : Nat) : s.HidesOne hud (s.hideAnimated hud) := by
  unfold hideAnimated hideUsingAnimation
  split
  next => exact ⟨by simp [setHud], by simp [setHud], fun g hg => by simp [setHud, hg], fun _ => Or.inl rfl⟩
  next =>
    dsimp only
    unfold done
    split
    next => exact ⟨by simp [setHud, removeFromSuperview], by simp [setHud, removeFromSuperview],
        fun g hg => by simp [setHud, removeFromSuperview, hg], fun _ => Or.inr rfl⟩
    next => exact ⟨by simp [setHud], by simp [setHud], fun g hg => by simp [setHud, hg], fun _ => Or.inl rfl⟩

theorem hideHUDForView_one {s : Screen} {view : Option Nat} {hud : Nat}
    (top : s.HUDForView view = some hud) : s.HidesOne hud (s.hideHUDForView view) := by
  unfold hideHUDForView
  rw [top]
  have hidden := (s.setHud hud fun h => { h with removeFromSuperViewOnHide := true }).hideAnimated_one hud
  refine ⟨hidden.finished, ?_, ?_, hidden.subviews⟩
  · rw [hidden.mode]
    simp [setHud]
  · intro g hg
    rw [hidden.frame g hg]
    simp [setHud, hg]

theorem HidesOne.unfinished {s t : Screen} {hud : Nat} (h : s.HidesOne hud t) (x : Subview) :
    t.unfinished x = (s.unfinished x).filter (· ≠ hud) := by
  cases x with
  | other => rfl
  | hud g =>
    simp only [Screen.unfinished]
    by_cases same : g = hud
    · subst same
      rw [if_pos h.finished]
      split <;> simp [Option.filter]
    · rw [h.frame g same]
      split <;> simp [Option.filter, same]

theorem HidesOne.openHUDs {s t : Screen} {hud : Nat} (h : s.HidesOne hud t) (view : Option Nat) :
    t.openHUDs view = (s.openHUDs view).filter (· ≠ hud) := by
  unfold Screen.openHUDs
  rw [List.filter_filterMap]
  cases view with
  | none => rfl
  | some view =>
    simp only [subviewsOf]
    rcases h.subviews view with same | detached
    · rw [same]
      exact congrArg (List.filterMap · _) (funext h.unfinished)
    · rw [detached, ← List.filter_reverse, List.filterMap_filter]
      refine congrArg (List.filterMap · _) (funext fun x => ?_)
      rw [h.unfinished x]
      split
      next => rfl
      next gone =>
        have here : x = .hud hud := by simpa using gone
        subst here
        simp only [Screen.unfinished]
        split <;> simp [Option.filter]

/-- `t` comes from `s` by hiding the first `n` unfinished HUDs of a view, and no others. -/
structure HidesFirst (s : Screen) (view : Option Nat) (n : Nat) (t : Screen) : Prop where
  openHUDs : t.openHUDs view = (s.openHUDs view).drop n
  mode : ∀ g, (t.huds g).mode = (s.huds g).mode
  finished : ∀ g, (t.huds g).hasFinished = true ↔
    (s.huds g).hasFinished = true ∨ g ∈ (s.openHUDs view).take n
  attached : ∀ v x, x ∈ t.subviews v → x ∈ s.subviews v

theorem HidesFirst.zero (s : Screen) (view : Option Nat) : s.HidesFirst view 0 s :=
  ⟨rfl, fun _ => rfl, fun g => by simp, fun _ _ h => h⟩

theorem HidesFirst.add {s t u : Screen} {view : Option Nat} {n m : Nat}
    (h : s.HidesFirst view n t) (h' : t.HidesFirst view m u) : s.HidesFirst view (n + m) u where
  openHUDs := by rw [h'.openHUDs, h.openHUDs, List.drop_drop]
  mode g := (h'.mode g).trans (h.mode g)
  finished g := by
    rw [h'.finished, h.finished, h.openHUDs, List.take_add, List.mem_append, or_assoc]
  attached v x hx := h.attached v x (h'.attached v x hx)

theorem hideHUDForView_first {s : Screen} {view : Option Nat} (nodup : (s.openHUDs view).Nodup) :
    s.HidesFirst view 1 (s.hideHUDForView view) := by
  have top := s.HUDForView_eq view
  cases hopen : s.openHUDs view with
  | nil =>
    rw [hopen] at top
    have same : s.hideHUDForView view = s := by
      unfold hideHUDForView
      rw [top]
      rfl
    rw [same]
    exact ⟨by simp [hopen], fun _ => rfl, fun g => by simp [hopen], fun _ _ h => h⟩
  | cons hud rest =>
    rw [hopen] at top nodup
    have one := hideHUDForView_one top
    refine ⟨?_, ?_, ?_, (s.hideHUDForView_hides view).attached⟩
    · rw [one.openHUDs, hopen, List.filter_cons_of_neg (by simp), List.drop_one, List.tail_cons,
        List.filter_eq_self]
      intro g hg
      simpa using fun same : g = hud => (List.nodup_cons.mp nodup).1 (same ▸ hg)
    · intro g
      by_cases same : g = hud
      · rw [same, one.mode]
      · rw [one.frame g same]
    · intro g
      by_cases same : g = hud
      · simp [same, one.finished, hopen]
      · rw [one.frame g same, hopen]
        simp [same]

/-- The loop of `+hideHUD` over the snapshot of the window's subviews. -/
def hideLoop (s : Screen) (view : Option Nat) (subviews : List Subview) : Screen :=
  subviews.foldl (fun t subview => match subview with
    | .hud hud => if (t.huds hud).mode = .indeterminate then t.hideHUDForView view else t
    | .other => t) s

theorem hideHUD_eq (s : Screen) (window currentVC : Option Nat) :
    s.hideHUD window currentVC =
      (s.hideLoop window (s.subviewsOf window).reverse).hideHUDForView currentVC := rfl

theorem isIndeterminate_congr {s t : Screen} (mode : ∀ g, (t.huds g).mode = (s.huds g).mode) :
    t.isIndeterminate = s.isIndeterminate := by
  funext g
  unfold isIndeterminate
  rw [mode g]

theorem hideLoop_hud {s : Screen} {view : Option Nat} {hud : Nat} {subviews : List Subview} :
    s.hideLoop view (.hud hud :: subviews) =
      (if s.isIndeterminate hud = true then s.hideHUDForView view else s).hideLoop view subviews := by
  unfold hideLoop isIndeterminate
  simp only [List.foldl_cons, decide_eq_true_eq]

theorem hudsIn_hud {hud : Nat} {subviews : List Subview} :
    (Subview.hud hud :: subviews).filterMap hudOf = hud :: subviews.filterMap hudOf := rfl

/-- The loop hides one HUD for each indeterminate one it passes. -/
theorem hideLoop_first {s : Screen} {view : Option Nat} (subviews : List Subview)
    (nodup : (s.openHUDs view).Nodup) :
    s.HidesFirst view ((subviews.filterMap hudOf).countP s.isIndeterminate)
      (s.hideLoop view subviews) := by
  induction subviews generalizing s with
  | nil => exact .zero s view
  | cons x xs ih =>
    cases x with
    | other => exact ih nodup
    | hud hud =>
      cases spinner : s.isIndeterminate hud with
      | true =>
        have first := hideHUDForView_first nodup
        have left : ((s.hideHUDForView view).openHUDs view).Nodup := by
          rw [first.openHUDs]
          exact nodup.sublist (List.drop_sublist 1 _)
        have later := first.add (ih left)
        rw [isIndeterminate_congr first.mode] at later
        rw [hideLoop_hud, if_pos spinner, hudsIn_hud, List.countP_cons_of_pos spinner, Nat.add_comm]
        exact later
      | false =>
        have other : ¬ s.isIndeterminate hud = true := by simp [spinner]
        rw [hideLoop_hud, if_neg other, hudsIn_hud, List.countP_cons_of_neg other]
        exact ih nodup

theorem hideHUDForView_frame {s : Screen} {view : Option Nat} {g : Nat}
    (elsewhere : Subview.hud g ∉ s.subviewsOf view) :
    (s.hideHUDForView view).huds g = s.huds g := by
  cases top : s.HUDForView view with
  | none =>
    unfold hideHUDForView
    rw [top]
  | some hud =>
    apply (hideHUDForView_one top).frame
    intro same
    subst same
    obtain ⟨x, hx, found⟩ := List.exists_of_findSome?_eq_some top
    cases x with
    | other => cases found
    | hud hud =>
      simp only [Screen.unfinished] at found
      split at found
      next => cases found
      next =>
        cases found
        exact elsewhere (List.mem_reverse.mp hx)

end Screen

/-- A screen with the application window and the view of the current view controller, another
one; a HUD is a subview of one view, and once. -/
structure WindowScreen where
  screen : Screen
  window : Nat
  currentVC : Option Nat
  notWindow : currentVC ≠ some window
  once : (screen.hudsOf (some window)).Nodup
  oneSuperview : ∀ view hud, .hud hud ∈ screen.subviews view →
    .hud hud ∈ screen.subviews window → view = window

namespace WindowScreen

def afterHideHUD (w : WindowScreen) : Screen := w.screen.hideHUD (some w.window) w.currentVC

/-- `+hideHUD` finishes every indeterminate HUD of the window and no other unfinished one. -/
def HidesSpinners (w : WindowScreen) : Prop :=
  ∀ hud ∈ w.screen.hudsOf (some w.window),
    (w.screen.isIndeterminate hud = true → (w.afterHideHUD.huds hud).hasFinished = true) ∧
    (w.screen.isIndeterminate hud = false → (w.screen.huds hud).hasFinished = false →
      (w.afterHideHUD.huds hud).hasFinished = false)

/-- Among the unfinished HUDs the indeterminate ones are in front; and no finished
indeterminate HUD is still there, unless there is nothing else to hide. -/
def SpinnersInFront (w : WindowScreen) : Prop :=
  (w.screen.openHUDs (some w.window)).Pairwise (fun front back =>
    w.screen.isIndeterminate back = true → w.screen.isIndeterminate front = true) ∧
  ((∀ hud ∈ w.screen.hudsOf (some w.window), w.screen.isIndeterminate hud = true →
      (w.screen.huds hud).hasFinished = false) ∨
    ∀ hud ∈ w.screen.openHUDs (some w.window), w.screen.isIndeterminate hud = true)

theorem mem_subviews_of_hudsOf {s : Screen} {view hud : Nat} (h : hud ∈ s.hudsOf (some view)) :
    .hud hud ∈ s.subviews view := by
  obtain ⟨x, hx, same⟩ := List.mem_filterMap.mp h
  cases x with
  | other => cases same
  | hud g =>
    cases same
    exact List.mem_reverse.mp hx

theorem openOnce (w : WindowScreen) : (w.screen.openHUDs (some w.window)).Nodup := by
  rw [Screen.openHUDs_eq]
  exact w.once.filter _

theorem finished_afterHideHUD (w : WindowScreen) {hud : Nat}
    (onWindow : hud ∈ w.screen.hudsOf (some w.window)) :
    (w.afterHideHUD.huds hud).hasFinished = true ↔ (w.screen.huds hud).hasFinished = true ∨
      hud ∈ (w.screen.openHUDs (some w.window)).take
        ((w.screen.hudsOf (some w.window)).countP w.screen.isIndeterminate) := by
  have loop := Screen.hideLoop_first (w.screen.subviewsOf (some w.window)).reverse w.openOnce
  have stays : Subview.hud hud ∉ (w.screen.hideLoop (some w.window)
      (w.screen.subviewsOf (some w.window)).reverse).subviewsOf w.currentVC := by
    cases hvc : w.currentVC with
    | none => simp [Screen.subviewsOf]
    | some view =>
      intro there
      have attached := loop.attached view _ there
      have same := w.oneSuperview view hud attached (mem_subviews_of_hudsOf onWindow)
      exact w.notWindow (hvc.trans (congrArg some same))
  unfold afterHideHUD
  rw [Screen.hideHUD_eq, Screen.hideHUDForView_frame stays, loop.finished]
  rfl

/-- What `+hideHUD` finishes are the first unfinished HUDs, as many as there are indeterminate
ones. -/
theorem hidesSpinners_iff_take (w : WindowScreen) : w.HidesSpinners ↔
    ∀ hud ∈ w.screen.openHUDs (some w.window),
      w.screen.isIndeterminate hud = true ↔ hud ∈ (w.screen.openHUDs (some w.window)).take
        ((w.screen.hudsOf (some w.window)).countP w.screen.isIndeterminate) := by
  apply Iff.intro
  · intro h hud isOpen
    obtain ⟨onWindow, up⟩ := Screen.mem_openHUDs.mp isOpen
    have after := w.finished_afterHideHUD onWindow
    rw [up] at after
    apply Iff.intro
    · intro spinner
      exact (after.mp ((h hud onWindow).1 spinner)).resolve_left (by simp)
    · intro taken
      by_contra other
      have kept := (h hud onWindow).2 (by simpa using other) up
      rw [after.mpr (Or.inr taken)] at kept
      cases kept
  · intro h hud onWindow
    have after := w.finished_afterHideHUD onWindow
    cases up : (w.screen.huds hud).hasFinished with
    | true => exact ⟨fun _ => after.mpr (Or.inl up), fun _ down => absurd down (by simp)⟩
    | false =>
      have taken := h hud (Screen.mem_openHUDs.mpr ⟨onWindow, up⟩)
      rw [up] at after
      refine ⟨fun spinner => after.mpr (Or.inr (taken.mp spinner)), ?_⟩
      intro other _
      rw [← Bool.not_eq_true, after]
      simp [← taken, other]

/-- The window has no more indeterminate HUDs than unfinished indeterminate ones if and only if
none of them is finished. -/
theorem spinners_open_iff (w : WindowScreen) :
    (w.screen.hudsOf (some w.window)).countP w.screen.isIndeterminate =
      (w.screen.openHUDs (some w.window)).countP w.screen.isIndeterminate ↔
    ∀ hud ∈ w.screen.hudsOf (some w.window), w.screen.isIndeterminate hud = true →
      (w.screen.huds hud).hasFinished = false := by
  rw [Screen.openHUDs_eq, countP_filter_eq_iff]
  simp only [Bool.not_eq_eq_eq_not, Bool.not_true]

/-- `+hideHUD` hides the window's spinners and nothing else on it if and only if the unfinished
spinners are in front of all else unfinished, and none is finished and still there, unless
spinners are all there is to hide. -/
theorem hide_hud_spinners_iff (w : WindowScreen) : w.HidesSpinners ↔ w.SpinnersInFront := by
  have enough : (w.screen.openHUDs (some w.window)).countP w.screen.isIndeterminate ≤
      (w.screen.hudsOf (some w.window)).countP w.screen.isIndeterminate := by
    rw [Screen.openHUDs_eq]
    exact List.Sublist.countP_le List.filter_sublist
  rw [w.hidesSpinners_iff_take, mem_take_iff_split w.openOnce enough, w.spinners_open_iff]
  rfl

/-- A text message in front of a spinner. -/
def messageInFront : WindowScreen where
  screen :=
    { huds := fun hud => ⟨if hud = 0 then .indeterminate else .text, false, true, true, (0, 1)⟩
      subviews := fun view => if view = 0 then [.other, .hud 0, .hud 1] else []
      fading := []
      next := 2
      known := by
        intro view hud h
        split at h
        next => simp at h; omega
        next => cases h }
  window := 0
  currentVC := none
  notWindow := by simp
  once := by decide
  oneSuperview := by
    intro view hud h _
    dsimp only at h
    split at h
    next same => exact same
    next => cases h

theorem message_hidden_instead : ¬ messageInFront.HidesSpinners := by
  intro h
  have hidden := (h 0 (by decide)).1 rfl
  exact absurd hidden (by decide)

end WindowScreen

end SwiftApp
