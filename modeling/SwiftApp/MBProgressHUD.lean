import Mathlib.Data.List.Basic
import Mathlib.Logic.Function.Basic

namespace SwiftApp

inductive MBProgressHUDMode
  | indeterminate | determinate | determinateHorizontalBar | annularDeterminate | customView | text
deriving DecidableEq

structure MBProgressHUD where
  mode : MBProgressHUDMode
  hasFinished : Bool
  showStarted : Bool
  removeFromSuperViewOnHide : Bool
  progress : Int × Int
deriving DecidableEq

/-- What `commonInit` leaves. -/
def MBProgressHUD.initial : MBProgressHUD := ⟨.indeterminate, false, false, false, (0, 1)⟩

inductive Subview
  | hud (hud : Nat)
  | other
deriving DecidableEq

/-- The HUD objects by address, the subviews of each view from back to front, and the HUDs
whose hiding animation is still running. Addresses from `next` on are free. -/
structure Screen where
  huds : Nat → MBProgressHUD
  subviews : Nat → List Subview
  fading : List Nat
  next : Nat
  known : ∀ view hud, Subview.hud hud ∈ subviews view → hud < next

def Screen.blank : Screen := ⟨fun _ => .initial, fun _ => [], [], 0, fun _ _ h => by cases h⟩

def Screen.subviewsOf (s : Screen) : Option Nat → List Subview
  | some view => s.subviews view
  | none => []

def Screen.setHud (s : Screen) (hud : Nat) (f : MBProgressHUD → MBProgressHUD) : Screen :=
  { s with huds := Function.update s.huds hud (f (s.huds hud)) }

/-- An unfinished HUD, as `HUDForView:` looks for one. -/
def Screen.unfinished (s : Screen) : Subview → Option Nat
  | .hud hud => if (s.huds hud).hasFinished then none else some hud
  | .other => none

def Screen.HUDForView (s : Screen) (view : Option Nat) : Option Nat :=
  (s.subviewsOf view).reverse.findSome? s.unfinished

def Screen.showAnimated (s : Screen) (hud : Nat) : Screen :=
  s.setHud hud fun h => { h with hasFinished := false, showStarted := true }

def Screen.addSubview (s : Screen) (view : Option Nat) : Screen where
  huds := Function.update s.huds s.next { MBProgressHUD.initial with removeFromSuperViewOnHide := true }
  subviews v := if view = some v then s.subviews v ++ [.hud s.next] else s.subviews v
  fading := s.fading
  next := s.next + 1
  known v hud h := by
    split at h
    · rcases List.mem_append.mp h with h | h
      · exact Nat.lt_succ_of_lt (s.known v hud h)
      · cases List.mem_singleton.mp h
        exact Nat.lt_succ_self _
    · exact Nat.lt_succ_of_lt (s.known v hud h)

/-- Without a view the HUD is made and shown nowhere, as in a release build, where the assertion of
`initWithView:` is off. -/
def Screen.showHUDAddedTo (s : Screen) (view : Option Nat) : Nat × Screen :=
  (s.next, (s.addSubview view).showAnimated s.next)

def Screen.removeFromSuperview (s : Screen) (hud : Nat) : Screen :=
  { s with
    subviews := fun view => (s.subviews view).filter (· ≠ .hud hud)
    known := fun view h mem => s.known view h (List.mem_filter.mp mem).1 }

def Screen.done (s : Screen) (hud : Nat) : Screen :=
  if (s.huds hud).hasFinished && (s.huds hud).removeFromSuperViewOnHide then s.removeFromSuperview hud
  else s

def Screen.hideUsingAnimation (s : Screen) (hud : Nat) : Screen :=
  let t := s.setHud hud fun h => { h with showStarted := false }
  if (s.huds hud).showStarted then { t with fading := t.fading ++ [hud] } else t.done hud

def Screen.hideAnimated (s : Screen) (hud : Nat) : Screen :=
  (s.setHud hud fun h => { h with hasFinished := true }).hideUsingAnimation hud

def Screen.hideHUDForView (s : Screen) (view : Option Nat) : Screen :=
  match s.HUDForView view with
  | some hud => (s.setHud hud fun h => { h with removeFromSuperViewOnHide := true }).hideAnimated hud
  | none => s

/-- `+hideHUD`: the window's list of subviews is read once, the modes as the loop goes. -/
def Screen.hideHUD (s : Screen) (window currentVC : Option Nat) : Screen :=
  ((s.subviewsOf window).reverse.foldl (fun t subview => match subview with
    | .hud hud => if (t.huds hud).mode = .indeterminate then t.hideHUDForView window else t
    | .other => t) s).hideHUDForView currentVC

theorem Screen.HUDForView_last {s : Screen} {view hud : Nat}
    (last : (s.subviews view).getLast? = some (.hud hud)) (up : (s.huds hud).hasFinished = false) :
    s.HUDForView (some view) = some hud := by
  obtain ⟨back, split⟩ := List.getLast?_eq_some_iff.mp last
  simp [Screen.HUDForView, Screen.subviewsOf, split, Screen.unfinished, up]

/-- `t` comes from `s` by hiding and detaching HUDs alone. -/
structure Screen.Hides (s t : Screen) : Prop where
  next : t.next = s.next
  attached : ∀ view x, x ∈ t.subviews view → x ∈ s.subviews view
  front : ∀ view x, (s.subviews view).getLast? = some x → x ∈ t.subviews view →
    (t.subviews view).getLast? = some x
  finished : ∀ hud, (s.huds hud).hasFinished = true → (t.huds hud).hasFinished = true

theorem Screen.Hides.refl (s : Screen) : s.Hides s :=
  ⟨rfl, fun _ _ h => h, fun _ _ h _ => h, fun _ h => h⟩

theorem Screen.Hides.trans {s t u : Screen} (h : s.Hides t) (h' : t.Hides u) : s.Hides u where
  next := h'.next.trans h.next
  attached view x hx := h.attached view x (h'.attached view x hx)
  front view x last hx := h'.front view x (h.front view x last (h'.attached view x hx)) hx
  finished hud up := h'.finished hud (h.finished hud up)

theorem Screen.setHud_hides {s : Screen} {hud : Nat} {f : MBProgressHUD → MBProgressHUD}
    (keep : (s.huds hud).hasFinished = true → (f (s.huds hud)).hasFinished = true) :
    s.Hides (s.setHud hud f) where
  next := rfl
  attached _ _ h := h
  front _ _ h _ := h
  finished g up := by
    by_cases same : g = hud
    · subst g
      simpa [Screen.setHud] using keep up
    · simpa [Screen.setHud, Function.update_of_ne same] using up

theorem Screen.done_hides (s : Screen) (hud : Nat) : s.Hides (s.done hud) := by
  unfold Screen.done
  split
  next =>
    refine ⟨rfl, fun _ _ h => (List.mem_filter.mp h).1, ?_, fun _ h => h⟩
    intro view x last hx
    obtain ⟨back, split⟩ := List.getLast?_eq_some_iff.mp last
    have kept : x ≠ .hud hud := by simpa using (List.mem_filter.mp hx).2
    simp [Screen.removeFromSuperview, split, kept]
  next => exact .refl s

theorem Screen.hideAnimated_hides (s : Screen) (hud : Nat) : s.Hides (s.hideAnimated hud) := by
  have finish : s.Hides (s.setHud hud fun h => { h with hasFinished := true }) :=
    Screen.setHud_hides fun _ => rfl
  apply finish.trans
  unfold Screen.hideAnimated Screen.hideUsingAnimation
  have stop : ∀ t : Screen, t.Hides (t.setHud hud fun h => { h with showStarted := false }) :=
    fun t => Screen.setHud_hides fun h => h
  split
  next => exact ⟨rfl, fun _ _ h => h, fun _ _ h _ => h, (stop _).finished⟩
  next => exact (stop _).trans (Screen.done_hides _ hud)

theorem Screen.hideHUDForView_hides (s : Screen) (view : Option Nat) :
    s.Hides (s.hideHUDForView view) := by
  unfold Screen.hideHUDForView
  split
  next hud _ =>
    have detach : s.Hides (s.setHud hud fun h => { h with removeFromSuperViewOnHide := true }) :=
      Screen.setHud_hides fun h => h
    exact detach.trans (Screen.hideAnimated_hides _ hud)
  next => exact .refl s

theorem Screen.hideHUD_hides (s : Screen) (window currentVC : Option Nat) :
    s.Hides (s.hideHUD window currentVC) := by
  have loop : ∀ (xs : List Subview) (t : Screen), t.Hides (xs.foldl (fun t subview => match subview with
      | .hud hud => if (t.huds hud).mode = .indeterminate then t.hideHUDForView window else t
      | .other => t) t) := by
    intro xs
    induction xs with
    | nil => exact Screen.Hides.refl
    | cons x xs ih =>
      intro t
      refine Screen.Hides.trans ?_ (ih _)
      cases x with
      | hud hud =>
        simp only
        split
        next => exact t.hideHUDForView_hides window
        next => exact .refl t
      | other => exact .refl t
  exact (loop _ s).trans (Screen.hideHUDForView_hides _ currentVC)

theorem Screen.hideAnimated_finished (s : Screen) (hud : Nat) :
    ((s.hideAnimated hud).huds hud).hasFinished = true := by
  unfold Screen.hideAnimated Screen.hideUsingAnimation
  split
  next => simp [Screen.setHud]
  next =>
    apply (Screen.done_hides _ hud).finished hud
    simp [Screen.setHud]

theorem Screen.hideHUDForView_finished {s : Screen} {view : Option Nat} {hud : Nat}
    (top : s.HUDForView view = some hud) : ((s.hideHUDForView view).huds hud).hasFinished = true := by
  simp only [Screen.hideHUDForView, top]
  exact Screen.hideAnimated_finished _ hud

end SwiftApp
