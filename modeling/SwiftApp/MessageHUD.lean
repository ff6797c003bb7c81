import SwiftApp.HUDExpand
import SwiftApp.TimedScreen

namespace SwiftApp

open StepRun
open scoped NNRat

/-- `showMessage:delayTime:isWindow:` and the functions beside it. A HUD goes to the window or to
the view of the current view controller. -/
inductive MessageCall
  | showMessage (delayTime : ℤ) (isWindow : Bool)
  | showActivityMessage (isWindow : Bool) (delayTime : ℤ)
  | showCustomImage (isWindow : Bool)
  | showSpinner

namespace MessageCall

/-- `DelayTime` -/
def delayTime : ℤ := 2

def showInWindowMessage : MessageCall := .showMessage delayTime true

def showInWindowMessageDelayTime (time : ℤ) : MessageCall := .showMessage time true

def showInWindowActivityWithMessage : MessageCall := .showActivityMessage true delayTime

def showInWindowActivityWithMessageDelayTime (time : ℤ) : MessageCall := .showActivityMessage true time

def showInWindowCustomImage : MessageCall := .showCustomImage true

def showInViewMessage : MessageCall := .showMessage delayTime false

def showInViewMessageDelayTime (time : ℤ) : MessageCall := .showMessage time false

def showInViewActivityWithMessage : MessageCall := .showActivityMessage false delayTime

def showInViewActivityWithMessageDelayTime (time : ℤ) : MessageCall := .showActivityMessage false time

def showInViewCustomImage : MessageCall := .showCustomImage false

def showSuccessMessage : MessageCall := showInWindowCustomImage

def showFailMessage : MessageCall := showInWindowCustomImage

def showWarnMessage : MessageCall := showInWindowCustomImage

def showInfoMessage : MessageCall := showInWindowCustomImage

def showProgressHudWithMessage : MessageCall := .showSpinner

def showHUD : MessageCall := .showSpinner

def showHUDText : MessageCall := .showSpinner

def showTransparentHUD : MessageCall := .showSpinner

def isWindow : MessageCall → Bool
  | .showMessage _ isWindow | .showActivityMessage isWindow _ | .showCustomImage isWindow => isWindow
  | .showSpinner => true

def mode : MessageCall → MBProgressHUDMode
  | .showMessage _ _ => .text
  | .showActivityMessage _ _ | .showSpinner => .indeterminate
  | .showCustomImage _ => .customView

/-- The delay of `hideAnimated:afterDelay:`, which an activity message asks for if its own delay
is positive, but with 0.7 s. -/
def hideDelay : MessageCall → Option ℚ≥0
  | .showMessage delayTime _ => some (timeInterval delayTime)
  | .showActivityMessage _ delayTime => if 0 < delayTime then some (7 / 10) else none
  | .showCustomImage _ => some 2
  | .showSpinner => none

end MessageCall

structure MessageScreen where
  screen : Screen
  window : ℕ
  hideDelayTimer : ℕ → Option ℚ≥0
  now : ℚ≥0

/-- The view of the current view controller is looked up at each call; where there is none, what
happens is what a release build does. -/
inductive MessageEvent
  | message (call : MessageCall) (currentVC : Option ℕ)
  | hideHUD (currentVC : Option ℕ)
  | wait (seconds : ℚ≥0)
  | hideTimerFires (hud : ℕ)
  | fadeEnds (hud : ℕ)

namespace MessageScreen

def start (window : ℕ) : MessageScreen := ⟨.blank, window, fun _ => none, 0⟩

def viewFor (s : MessageScreen) (call : MessageCall) (currentVC : Option ℕ) : Option ℕ :=
  if call.isWindow then some s.window else currentVC

/-- `createMBProgerssHUDWithMessage:isWindow:`, then the mode and the delay of the call. -/
def showCall (s : MessageScreen) (call : MessageCall) (currentVC : Option ℕ) : MessageScreen :=
  let (hud, screen) := s.screen.showHUDAddedTo (s.viewFor call currentVC)
  { s with
    screen := (screen.setHud hud fun h => { h with removeFromSuperViewOnHide := true }).setHud hud
      fun h => { h with mode := call.mode }
    hideDelayTimer := Function.update s.hideDelayTimer hud (call.hideDelay.map (s.now + ·)) }

/-- The completion of a hiding animation takes the hide timer of the HUD off the run loop. Timers
that are due fire in any order, that of their dates among them. -/
def step (s : MessageScreen) : MessageEvent → Option MessageScreen
  | .message call currentVC => some (s.showCall call currentVC)
  | .hideHUD currentVC => some { s with screen := s.screen.hideHUD (some s.window) currentVC }
  | .wait seconds => some { s with now := s.now + seconds }
  | .hideTimerFires hud =>
    if (s.hideDelayTimer hud).any (· ≤ s.now) then
      some { s with
        screen := s.screen.hideAnimated hud
        hideDelayTimer := Function.update s.hideDelayTimer hud none }
    else none
  | .fadeEnds hud =>
    if hud ∈ s.screen.fading then
      some { s with
        screen := { s.screen.done hud with fading := s.screen.fading.erase hud }
        hideDelayTimer := Function.update s.hideDelayTimer hud none }
    else none

/-- Nothing is left that could still hide a HUD by itself. -/
structure Quiet (s : MessageScreen) : Prop where
  hideDelayTimer : ∀ hud, s.hideDelayTimer hud = none
  fading : s.screen.fading = []

/-- Where a call puts its HUD, and whether it gives it a delay. -/
structure Shown where
  view : Option ℕ
  delayed : Bool

def shown (window : ℕ) : MessageEvent → Option Shown
  | .message call currentVC =>
    some ⟨if call.isWindow then some window else currentVC, call.hideDelay.isSome⟩
  | _ => none

/-- A HUD the way its call left it, or told to hide and fading or gone. -/
structure Tidy (x : Shown) (timer : Option ℚ≥0) (s : Screen) (hud : ℕ) : Prop where
  removes : (s.huds hud).removeFromSuperViewOnHide = true
  open_ : (s.huds hud).hasFinished = false → (s.huds hud).showStarted = true ∧ hud ∉ s.fading ∧
    (∀ view, Subview.hud hud ∈ s.subviews view ↔ x.view = some view) ∧ timer.isSome = x.delayed
  closed : (s.huds hud).hasFinished = true → hud ∈ s.fading ∨ ∀ view, Subview.hud hud ∉ s.subviews view

theorem Tidy.of_same {x : Shown} {timer : Option ℚ≥0} {s t : Screen} {hud : ℕ}
    (tidy : Tidy x timer s hud) (same : SameHud s t hud) : Tidy x timer t hud := by
  have fading : hud ∈ t.fading ↔ hud ∈ s.fading := by
    rw [← List.count_pos_iff, same.fading, List.count_pos_iff]
  refine ⟨same.huds ▸ tidy.removes, fun running => ?_, fun finished => ?_⟩
  · rw [same.huds] at running
    obtain ⟨shown, still, attached, timed⟩ := tidy.open_ running
    exact ⟨same.huds ▸ shown, fun fades => still (fading.mp fades),
      fun view => (same.subviews view).trans (attached view), timed⟩
  · rw [same.huds] at finished
    rcases tidy.closed finished with fades | gone
    · exact Or.inl (fading.mpr fades)
    · exact Or.inr fun view here => gone view ((same.subviews view).mp here)

theorem done_detaches {s : Screen} {hud : ℕ} (finished : (s.huds hud).hasFinished = true)
    (removes : (s.huds hud).removeFromSuperViewOnHide = true) (view : ℕ) :
    Subview.hud hud ∉ (s.done hud).subviews view := by
  unfold Screen.done
  rw [finished, removes]
  show Subview.hud hud ∉ (s.subviews view).filter (· ≠ .hud hud)
  simp

theorem done_huds (s : Screen) (hud other : ℕ) : (s.done hud).huds other = s.huds other := by
  unfold Screen.done
  split <;> rfl

/-- Told to hide, a HUD fades or goes at once. -/
theorem tidy_hideAnimated {x : Shown} {timer : Option ℚ≥0} {s : Screen} {hud : ℕ}
    (removes : (s.huds hud).removeFromSuperViewOnHide = true) :
    Tidy x timer (s.hideAnimated hud) hud ∧ ((s.hideAnimated hud).huds hud).hasFinished = true := by
  have finished := s.hideAnimated_finished hud
  have both : ((s.hideAnimated hud).huds hud).removeFromSuperViewOnHide = true ∧
      (hud ∈ (s.hideAnimated hud).fading ∨ ∀ view, Subview.hud hud ∉ (s.hideAnimated hud).subviews view) := by
    unfold Screen.hideAnimated Screen.hideUsingAnimation
    split
    next =>
      refine ⟨by simpa [Screen.setHud] using removes, Or.inl ?_⟩
      exact List.mem_append_right _ (List.mem_singleton_self hud)
    next =>
      refine ⟨?_, Or.inr fun view => done_detaches ?_ ?_ view⟩
      · rw [done_huds]
        simpa [Screen.setHud] using removes
      · simp [Screen.setHud]
      · simpa [Screen.setHud] using removes
  exact ⟨⟨both.1, fun running => absurd finished (by simp [running]), fun _ => both.2⟩, finished⟩

/-- The HUDs are those of the calls, in their order. -/
structure Sound (calls : List Shown) (s : MessageScreen) : Prop where
  next : s.screen.next = calls.length
  fading : ∀ hud ∈ s.screen.fading, hud < calls.length
  timers : ∀ hud, calls.length ≤ hud → s.hideDelayTimer hud = none
  tidy : ∀ hud x, calls[hud]? = some x → Tidy x (s.hideDelayTimer hud) s.screen hud

theorem sound_start (window : ℕ) : Sound [] (start window) :=
  ⟨rfl, fun _ none_fades => (by cases none_fades), fun _ _ => rfl, fun _ _ none_yet => (by cases none_yet)⟩

/-- One HUD changes and stays tidy, the others stay as they are. -/
theorem Sound.update {calls : List Shown} {s t : MessageScreen} {hud : ℕ} (sound : Sound calls s)
    (known : hud < calls.length) (next : t.screen.next = s.screen.next)
    (same : ∀ other, other ≠ hud → SameHud s.screen t.screen other)
    (timers : ∀ other, other ≠ hud → t.hideDelayTimer other = s.hideDelayTimer other)
    (changed : ∀ x, Tidy x (s.hideDelayTimer hud) s.screen hud →
      Tidy x (t.hideDelayTimer hud) t.screen hud) : Sound calls t := by
  refine ⟨next.trans sound.next, fun g => fading_lt same sound.fading known, fun g fresh => ?_,
    fun g x call => ?_⟩
  · rw [timers g (by omega)]
    exact sound.timers g fresh
  · by_cases eq : g = hud
    · subst eq
      exact changed x (sound.tidy g x call)
    · rw [timers g eq]
      exact (sound.tidy g x call).of_same (same g eq)

theorem Sound.hideHUDForView {calls : List Shown} {s : MessageScreen} (sound : Sound calls s)
    (view : Option ℕ) : Sound calls { s with screen := s.screen.hideHUDForView view } := by
  cases top : s.screen.HUDForView view with
  | none =>
    unfold Screen.hideHUDForView
    rw [top]
    exact sound
  | some hud =>
    obtain ⟨subview, listed, found⟩ := List.exists_of_findSome?_eq_some top
    have known : hud < calls.length := by
      rw [← sound.next]
      cases subview with
      | other => cases found
      | hud g =>
        simp only [Screen.unfinished] at found
        split at found
        next => cases found
        next =>
          cases found
          cases view with
          | none => cases listed
          | some view => exact s.screen.known view hud (List.mem_reverse.mp listed)
    unfold Screen.hideHUDForView
    rw [top]
    refine sound.update known (Screen.hideAnimated_hides _ hud).next (fun other ne => ?_) (fun _ _ => rfl)
      fun x tidy => (tidy_hideAnimated ?_).1
    · exact (Screen.setHud_other ne).trans (Screen.hideAnimated_other ne)
    · simp [Screen.setHud]

theorem Sound.hideHUD {calls : List Shown} {s : MessageScreen} (sound : Sound calls s)
    (window currentVC : Option ℕ) :
    Sound calls { s with screen := s.screen.hideHUD window currentVC } := by
  have loop (subviews : List Subview) (t : Screen) (sound : Sound calls { s with screen := t }) :
      Sound calls { s with screen := t.hideLoop window subviews } := by
    induction subviews generalizing t with
    | nil => exact sound
    | cons subview subviews ih =>
      apply ih
      cases subview with
      | other => exact sound
      | hud hud =>
        dsimp only
        split
        next => exact sound.hideHUDForView window
        next => exact sound
  rw [Screen.hideHUD_eq]
  exact (loop _ _ sound).hideHUDForView currentVC

theorem Sound.showCall {calls : List Shown} {s : MessageScreen} (sound : Sound calls s)
    (call : MessageCall) (currentVC : Option ℕ) :
    Sound (calls ++ [⟨s.viewFor call currentVC, call.hideDelay.isSome⟩]) (s.showCall call currentVC) := by
  have new : s.screen.next = calls.length := sound.next
  refine ⟨by simp [MessageScreen.showCall, Screen.showHUDAddedTo, Screen.showAnimated, Screen.addSubview,
    Screen.setHud, new], fun hud fades => ?_, fun hud fresh => ?_, fun hud x listed => ?_⟩
  · have known := sound.fading hud fades
    simp only [List.length_append, List.length_singleton]
    omega
  · simp only [List.length_append, List.length_singleton] at fresh
    have ne : hud ≠ s.screen.next := by omega
    show Function.update s.hideDelayTimer s.screen.next _ hud = none
    rw [Function.update_of_ne ne]
    exact sound.timers hud (by omega)
  · rw [List.getElem?_append] at listed
    split at listed
    next old =>
      have ne : hud ≠ s.screen.next := by omega
      have added : SameHud s.screen (s.screen.showHUDAddedTo (s.viewFor call currentVC)).2 hud :=
        Screen.addSubview_other (new ▸ old)
      have same : SameHud s.screen (s.showCall call currentVC).screen hud :=
        ⟨(Function.update_of_ne ne _ _).trans ((Function.update_of_ne ne _ _).trans added.huds),
          added.fading, added.subviews⟩
      have timer : (s.showCall call currentVC).hideDelayTimer hud = s.hideDelayTimer hud :=
        Function.update_of_ne ne _ _
      rw [timer]
      exact (sound.tidy hud x listed).of_same same
    next fresh =>
      have last : hud = s.screen.next := by
        have bound := (List.getElem?_eq_some_iff.mp listed).1
        simp only [List.length_singleton] at bound
        omega
      subst last
      rw [new, Nat.sub_self] at listed
      cases Option.some.inj listed
      have timer : (s.showCall call currentVC).hideDelayTimer s.screen.next =
          call.hideDelay.map (s.now + ·) := Function.update_self _ _ _
      rw [timer]
      have running : ((s.showCall call currentVC).screen.huds s.screen.next).hasFinished = false := by
        simp [MessageScreen.showCall, Screen.showHUDAddedTo, Screen.showAnimated, Screen.setHud]
      refine ⟨?_, fun _ => ⟨?_, fun fades => ?_, fun view => ?_, ?_⟩, fun finished => ?_⟩
      · simp [MessageScreen.showCall, Screen.showHUDAddedTo, Screen.showAnimated, Screen.setHud]
      · simp [MessageScreen.showCall, Screen.showHUDAddedTo, Screen.showAnimated, Screen.setHud]
      · have old := sound.fading _ fades
        omega
      · exact s.screen.addSubview_attached _ view
      · cases call.hideDelay <;> rfl
      · rw [running] at finished
        cases finished

theorem step_window {s t : MessageScreen} {event : MessageEvent} (taken : s.step event = some t) :
    t.window = s.window := by
  cases event with
  | message call currentVC => cases taken; rfl
  | hideHUD currentVC => cases taken; rfl
  | wait seconds => cases taken; rfl
  | hideTimerFires hud =>
    obtain ⟨-, rfl⟩ := guarded taken
    rfl
  | fadeEnds hud =>
    obtain ⟨-, rfl⟩ := guarded taken
    rfl

theorem Sound.step {calls : List Shown} {s t : MessageScreen} {event : MessageEvent}
    (sound : Sound calls s) (taken : s.step event = some t) :
    Sound (calls ++ (shown s.window event).toList) t := by
  have kept {t : MessageScreen} (sound : Sound calls t) : Sound (calls ++ []) t := by
    rw [List.append_nil]
    exact sound
  have other {hud g : ℕ} {timer : Option ℚ≥0} (ne : g ≠ hud) :
      Function.update s.hideDelayTimer hud timer g = s.hideDelayTimer g := Function.update_of_ne ne _ _
  cases event with
  | message call currentVC =>
    cases taken
    exact sound.showCall call currentVC
  | hideHUD currentVC =>
    cases taken
    exact kept (sound.hideHUD (some s.window) currentVC)
  | wait seconds =>
    cases taken
    exact kept ⟨sound.next, sound.fading, sound.timers, sound.tidy⟩
  | hideTimerFires hud =>
    obtain ⟨due, rfl⟩ := guarded taken
    have known : hud < calls.length := by
      by_contra fresh
      rw [sound.timers hud (by omega)] at due
      cases due
    refine kept (sound.update known (Screen.hideAnimated_hides s.screen hud).next
      (fun _ => Screen.hideAnimated_other) (fun _ => other) fun x tidy => ?_)
    exact (tidy_hideAnimated tidy.removes).1
  | fadeEnds hud =>
    obtain ⟨fades, rfl⟩ := guarded taken
    refine kept (sound.update (sound.fading hud fades) (Screen.done_next s.screen hud)
      (fun _ => Screen.faded_other) (fun _ => other) fun x tidy => ?_)
    have finished : (s.screen.huds hud).hasFinished = true := by
      rw [← Bool.not_eq_false]
      exact fun running => (tidy.open_ running).2.1 fades
    have same : (s.screen.done hud).huds hud = s.screen.huds hud := done_huds _ _ _
    refine ⟨by rw [same]; exact tidy.removes, fun running => ?_, fun _ => Or.inr ?_⟩
    · rw [same, finished] at running
      cases running
    · exact done_detaches finished tidy.removes

/-- A HUD without a delay stays until it is told to hide. -/
def Pinned (calls : List Shown) (s : MessageScreen) : Prop :=
  ∀ hud x, calls[hud]? = some x → x.delayed = false → (s.screen.huds hud).hasFinished = false

def isHideHUD : MessageEvent → Bool
  | .hideHUD _ => true
  | _ => false

theorem Pinned.append {calls : List Shown} {s : MessageScreen} {x : Shown} (pinned : Pinned calls s)
    (new : (s.screen.huds calls.length).hasFinished = false) : Pinned (calls ++ [x]) s := by
  intro hud y listed spinner
  rw [List.getElem?_append] at listed
  split at listed
  next => exact pinned hud y listed spinner
  next fresh =>
    have bound := (List.getElem?_eq_some_iff.mp listed).1
    simp only [List.length_singleton] at bound
    rw [show hud = calls.length by omega]
    exact new

/-- A HUD that finishes has a timer that is due, or it has finished before. -/
theorem Pinned.of_other {calls : List Shown} {s t : MessageScreen} {hud : ℕ} (pinned : Pinned calls s)
    (delayed : ∀ x, calls[hud]? = some x → x.delayed = false → False)
    (same : ∀ other, other ≠ hud → SameHud s.screen t.screen other) : Pinned calls t := by
  intro g x listed spinner
  by_cases eq : g = hud
  · subst eq
    exact (delayed x listed spinner).elim
  · rw [(same g eq).huds]
    exact pinned g x listed spinner

theorem Pinned.step {calls : List Shown} {s t : MessageScreen} {event : MessageEvent}
    (pinned : Pinned calls s) (sound : Sound calls s) (taken : s.step event = some t)
    (other : isHideHUD event = false) : Pinned (calls ++ (shown s.window event).toList) t := by
  have kept {t : MessageScreen} (pinned : Pinned calls t) : Pinned (calls ++ []) t := by
    rw [List.append_nil]
    exact pinned
  cases event with
  | message call currentVC =>
    cases taken
    apply Pinned.append
    · intro hud x listed spinner
      have old := (List.getElem?_eq_some_iff.mp listed).1
      have ne : hud ≠ s.screen.next := by
        rw [sound.next]
        omega
      have same : (s.showCall call currentVC).screen.huds hud = s.screen.huds hud := by
        simp [MessageScreen.showCall, Screen.showHUDAddedTo, Screen.showAnimated, Screen.addSubview,
          Screen.setHud, Function.update_of_ne ne]
      rw [same]
      exact pinned hud x listed spinner
    · rw [← sound.next]
      simp [MessageScreen.showCall, Screen.showHUDAddedTo, Screen.showAnimated, Screen.setHud]
  | hideHUD currentVC => cases other
  | wait seconds =>
    cases taken
    exact kept pinned
  | hideTimerFires hud =>
    obtain ⟨due, rfl⟩ := guarded taken
    refine kept (pinned.of_other (fun x listed spinner => ?_) fun _ => Screen.hideAnimated_other)
    obtain ⟨-, -, -, timed⟩ := (sound.tidy hud x listed).open_ (pinned hud x listed spinner)
    rw [spinner] at timed
    cases timer : s.hideDelayTimer hud with
    | none => rw [timer] at due; cases due
    | some date => rw [timer] at timed; cases timed
  | fadeEnds hud =>
    obtain ⟨fades, rfl⟩ := guarded taken
    refine kept (pinned.of_other (fun x listed spinner => ?_) fun _ => Screen.faded_other)
    exact ((sound.tidy hud x listed).open_ (pinned hud x listed spinner)).2.1 fades

theorem sound_run {window : ℕ} {events : List MessageEvent} {t : MessageScreen}
    (reached : run step (start window) events = some t) :
    Sound (events.filterMap (shown window)) t := by
  have preserve (calls : List Shown) (s : MessageScreen) (event : MessageEvent) (t : MessageScreen)
      (_ : event ∈ events) (taken : s.step event = some t)
      (inv : s.window = window ∧ Sound calls s) :
      t.window = window ∧ Sound (calls ++ (shown window event).toList) t := by
    obtain ⟨rfl, sound⟩ := inv
    exact ⟨step_window taken, sound.step taken⟩
  exact (run_collects preserve reached ⟨rfl, sound_start window⟩).2

theorem pinned_run {window : ℕ} {events : List MessageEvent} {t : MessageScreen}
    (reached : run step (start window) events = some t)
    (others : ∀ event ∈ events, isHideHUD event = false) :
    Pinned (events.filterMap (shown window)) t := by
  have preserve (calls : List Shown) (s : MessageScreen) (event : MessageEvent) (t : MessageScreen)
      (listed : event ∈ events) (taken : s.step event = some t)
      (inv : s.window = window ∧ Sound calls s ∧ Pinned calls s) :
      t.window = window ∧ Sound (calls ++ (shown window event).toList) t ∧
        Pinned (calls ++ (shown window event).toList) t := by
    obtain ⟨rfl, sound, pinned⟩ := inv
    exact ⟨step_window taken, sound.step taken, pinned.step sound taken (others event listed)⟩
  have start : Pinned [] (start window) := fun _ _ none_yet => (by cases none_yet)
  exact (run_collects preserve reached ⟨rfl, sound_start window, start⟩).2.2

/-- Once no timer and no animation is left, the HUD of each call with a delay is gone, and that of
each other call is on its view unless `hideHUD` has hidden it. -/
theorem left_on_screen {window : ℕ} {events : List MessageEvent} {t : MessageScreen}
    (reached : run step (start window) events = some t) (quiet : t.Quiet) (hud : ℕ) {x : Shown}
    (call : (events.filterMap (shown window))[hud]? = some x) :
    (∀ view, Subview.hud hud ∈ t.screen.subviews view ↔
      x.view = some view ∧ (t.screen.huds hud).hasFinished = false) ∧
    (x.delayed = true → (t.screen.huds hud).hasFinished = true) ∧
    ((∀ event ∈ events, isHideHUD event = false) → x.delayed = false →
      (t.screen.huds hud).hasFinished = false) := by
  have tidy := (sound_run reached).tidy hud x call
  rw [quiet.hideDelayTimer hud] at tidy
  refine ⟨fun view => ?_, fun delayed => ?_, fun others spinner => ?_⟩
  · cases finished : (t.screen.huds hud).hasFinished with
    | false =>
      rw [(tidy.open_ finished).2.2.1 view]
      simp
    | true =>
      rcases tidy.closed finished with fades | gone
      · rw [quiet.fading] at fades
        cases fades
      · simp [gone view]
  · rw [← Bool.not_eq_false]
    intro running
    have timed := (tidy.open_ running).2.2.2
    rw [delayed] at timed
    cases timed
  · exact pinned_run reached others hud x call spinner

/-- A spinner, then a message of two seconds that goes by. -/
def spinnerAndMessage : List MessageEvent :=
  [.message .showHUD none, .message .showInWindowMessage none, .wait 2, .hideTimerFires 1, .fadeEnds 1]

theorem left_on_screen_spinnerAndMessage :
    ∃ t, run step (start 7) spinnerAndMessage = some t ∧ t.Quiet ∧
      Subview.hud 0 ∈ t.screen.subviews 7 ∧ Subview.hud 1 ∉ t.screen.subviews 7 := by
  have ends : (run step (start 7) spinnerAndMessage).any (fun t =>
      t.hideDelayTimer 0 = none ∧ t.hideDelayTimer 1 = none ∧ t.screen.fading = []) = true := by
    decide +kernel
  obtain ⟨t, reached, still⟩ := (Option.any_eq_true _ _).mp ends
  obtain ⟨first, second, fading⟩ := of_decide_eq_true still
  have quiet : t.Quiet := by
    refine ⟨fun hud => ?_, fading⟩
    match hud with
    | 0 => exact first
    | 1 => exact second
    | hud + 2 => exact (sound_run reached).timers (hud + 2) (Nat.le_add_left 2 hud)
  have others : ∀ event ∈ spinnerAndMessage, isHideHUD event = false := by decide
  obtain ⟨attached, -, pinned⟩ := left_on_screen reached quiet 0 rfl
  obtain ⟨attached', gone, -⟩ := left_on_screen reached quiet 1 rfl
  refine ⟨t, reached, quiet, (attached 7).mpr ⟨rfl, pinned others rfl⟩, fun here => ?_⟩
  have running := ((attached' 7).mp here).2
  rw [gone rfl] at running
  cases running

end MessageScreen

end SwiftApp
