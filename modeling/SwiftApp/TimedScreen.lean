import SwiftApp.MBProgressHUDTimers

namespace SwiftApp

open StepRun

/-- The HUDs by address with their clocks and timers, and the views they were added to. Addresses
from `next` on are free. -/
structure TimedScreen where
  huds : ℕ → TimedHUD
  view : ℕ → Option ℕ
  now : ℚ
  next : ℕ

inductive TimedScreenEvent
  | showHUDAddedTo (view : Option ℕ) (animated : Bool)
  | wait (seconds : ℚ)
  | tell (hud : ℕ) (event : HUDEvent)

/-- The date of the timer that fires, if the event is one of a timer. -/
def TimedHUD.fireDate? (s : TimedHUD) : HUDEvent → Option ℚ
  | .graceTimerFires timer => (s.graceTimers.find? fun t => t.id = timer).map NSTimer.fireDate
  | .minShowTimerFires timer => (s.minShowTimers.find? fun t => t.id = timer).map NSTimer.fireDate
  | .hideTimerFires timer => (s.hideTimers.find? fun t => t.id = timer).map NSTimer.fireDate
  | _ => none

namespace TimedScreen

def blank : TimedScreen := ⟨fun _ => .added 0 0 0, fun _ => none, 0, 0⟩

def showHUDAddedTo (t : TimedScreen) (view : Option ℕ) (animated : Bool) : TimedScreen where
  huds := Function.update t.huds t.next
    ({ TimedHUD.added 0 0 t.now with inSuperview := view.isSome }.showAnimated animated)
  view := Function.update t.view t.next view
  now := t.now
  next := t.next + 1

/-- A timer fires in its turn: no HUD has one with an earlier date. -/
def InTurn (t : TimedScreen) (hud : ℕ) (event : HUDEvent) : Prop :=
  ∀ date ∈ (t.huds hud).fireDate? event, ∀ other < t.next, ∀ d ∈ (t.huds other).fireDates, date ≤ d

instance (t : TimedScreen) (hud : ℕ) (event : HUDEvent) : Decidable (t.InTurn hud event) :=
  inferInstanceAs (Decidable (∀ date ∈ (t.huds hud).fireDate? event,
    ∀ other < t.next, ∀ d ∈ (t.huds other).fireDates, date ≤ d))

/-- Time passes for all HUDs at once. -/
def step (t : TimedScreen) : TimedScreenEvent → Option TimedScreen
  | .showHUDAddedTo view animated => some (t.showHUDAddedTo view animated)
  | .wait seconds =>
    if 0 ≤ seconds then
      some { t with
        huds := fun hud => { t.huds hud with now := (t.huds hud).now + seconds }
        now := t.now + seconds }
    else none
  | .tell _ (.wait _) => none
  | .tell hud event =>
    if hud < t.next ∧ t.InTurn hud event then
      ((t.huds hud).step event).map fun u => { t with huds := Function.update t.huds hud u }
    else none

end TimedScreen

inductive ScreenCommand
  | showHUDAddedTo (view : Option ℕ)
  | showAnimated (hud : ℕ)
  | hideAnimated (hud : ℕ)
  | faded (hud : ℕ)

def Screen.step (s : Screen) : ScreenCommand → Option Screen
  | .showHUDAddedTo view => some (s.showHUDAddedTo view).2
  | .showAnimated hud => if hud < s.next then some (s.showAnimated hud) else none
  | .hideAnimated hud => if hud < s.next then some (s.hideAnimated hud) else none
  | .faded hud =>
    if hud ∈ s.fading then some { s.done hud with fading := s.fading.erase hud } else none

/-- What the screen without clocks sees of an event. -/
def TimedScreenEvent.command : TimedScreenEvent → Option ScreenCommand
  | .showHUDAddedTo view _ => some (.showHUDAddedTo view)
  | .tell hud (.showAnimated _) => some (.showAnimated hud)
  | .tell hud (.hideAnimated _) | .tell hud (.hideTimerFires _) => some (.hideAnimated hud)
  | .tell hud .fadeEnds => some (.faded hud)
  | _ => none

/-- Every command asks for its animation. -/
def TimedScreenEvent.Animated : TimedScreenEvent → Prop
  | .showHUDAddedTo _ animated | .tell _ (.showAnimated animated) | .tell _ (.hideAnimated animated)
  | .tell _ (.hideAnimatedAfterDelay animated _) => animated = true
  | _ => True

/-- The HUD at an address of the screen without clocks is a HUD with a clock, added to a view. -/
structure Shadows (u : TimedHUD) (view : Option ℕ) (s : Screen) (hud : ℕ) : Prop where
  finished : (s.huds hud).hasFinished = u.finished
  shown : (s.huds hud).showStarted = u.showStarted.isSome
  removes : (s.huds hud).removeFromSuperViewOnHide = u.removeFromSuperViewOnHide
  fading : s.fading.count hud = u.fadingOut
  attached : ∀ v, Subview.hud hud ∈ s.subviews v ↔ view = some v ∧ u.inSuperview = true

/-- A HUD without a grace time and a minimum time waits for neither, and its hide timers animate. -/
structure Instant (u : TimedHUD) : Prop where
  graceTime : u.graceTime ≤ 0
  minShowTime : u.minShowTime ≤ 0
  graceTimers : u.graceTimers = []
  minShowTimers : u.minShowTimers = []
  hideTimers : ∀ timer ∈ u.hideTimers, timer.userInfo = true

/-- The screens agree on a HUD. -/
structure SameHud (s t : Screen) (hud : ℕ) : Prop where
  huds : t.huds hud = s.huds hud
  fading : t.fading.count hud = s.fading.count hud
  subviews : ∀ v, Subview.hud hud ∈ t.subviews v ↔ Subview.hud hud ∈ s.subviews v

theorem SameHud.trans {s t u : Screen} {hud : ℕ} (first : SameHud s t hud) (second : SameHud t u hud) :
    SameHud s u hud :=
  ⟨second.huds.trans first.huds, second.fading.trans first.fading,
    fun v => (second.subviews v).trans (first.subviews v)⟩

theorem Shadows.of_same {u : TimedHUD} {view : Option ℕ} {s t : Screen} {hud : ℕ}
    (shadows : Shadows u view s hud) (same : SameHud s t hud) : Shadows u view t hud where
  finished := same.huds ▸ shadows.finished
  shown := same.huds ▸ shadows.shown
  removes := same.huds ▸ shadows.removes
  fading := same.fading.trans shadows.fading
  attached v := (same.subviews v).trans (shadows.attached v)

theorem Screen.setHud_other {s : Screen} {hud other : ℕ} {f : MBProgressHUD → MBProgressHUD}
    (ne : other ≠ hud) : SameHud s (s.setHud hud f) other :=
  ⟨Function.update_of_ne ne _ _, rfl, fun _ => Iff.rfl⟩

theorem Screen.done_other {s : Screen} {hud other : ℕ} (ne : other ≠ hud) :
    SameHud s (s.done hud) other := by
  unfold Screen.done
  split
  next =>
    refine ⟨rfl, rfl, fun v => ?_⟩
    simp [Screen.removeFromSuperview, List.mem_filter, ne]
  next => exact ⟨rfl, rfl, fun _ => Iff.rfl⟩

theorem Screen.hideAnimated_other {s : Screen} {hud other : ℕ} (ne : other ≠ hud) :
    SameHud s (s.hideAnimated hud) other := by
  have told : SameHud s (s.setHud hud fun h => { h with hasFinished := true }) other :=
    Screen.setHud_other ne
  refine told.trans ?_
  unfold Screen.hideAnimated Screen.hideUsingAnimation
  split
  next =>
    refine ⟨Function.update_of_ne ne _ _, ?_, fun _ => Iff.rfl⟩
    show (_ ++ [hud]).count other = _
    rw [List.count_append, List.count_singleton, if_neg (by simpa using Ne.symm ne)]
    rfl
  next => exact (Screen.setHud_other ne).trans (Screen.done_other ne)

theorem Shadows.done {u : TimedHUD} {view : Option ℕ} {s : Screen} {hud : ℕ}
    (shadows : Shadows u view s hud) : Shadows u.done view (s.done hud) hud := by
  unfold Screen.done
  rw [shadows.finished, shadows.removes]
  split
  next gone =>
    refine ⟨shadows.finished, shadows.shown, shadows.removes, shadows.fading, fun v => ?_⟩
    simp [Screen.removeFromSuperview, TimedHUD.done, gone]
  next kept =>
    refine ⟨shadows.finished, shadows.shown, shadows.removes, shadows.fading, fun v => ?_⟩
    rw [shadows.attached]
    simp [TimedHUD.done, kept]

theorem Shadows.setHud {u u' : TimedHUD} {view : Option ℕ} {s : Screen} {hud : ℕ}
    {f : MBProgressHUD → MBProgressHUD} (shadows : Shadows u view s hud)
    (finished : (f (s.huds hud)).hasFinished = u'.finished)
    (shown : (f (s.huds hud)).showStarted = u'.showStarted.isSome)
    (removes : (f (s.huds hud)).removeFromSuperViewOnHide = u'.removeFromSuperViewOnHide)
    (fading : u'.fadingOut = u.fadingOut) (inSuperview : u'.inSuperview = u.inSuperview) :
    Shadows u' view (s.setHud hud f) hud := by
  have new : (s.setHud hud f).huds hud = f (s.huds hud) := Function.update_self _ _ _
  refine ⟨new ▸ finished, new ▸ shown, new ▸ removes, fading ▸ shadows.fading, fun v => ?_⟩
  rw [inSuperview]
  exact shadows.attached v

theorem Shadows.hideUsingAnimation {u : TimedHUD} {view : Option ℕ} {s : Screen} {hud : ℕ}
    (shadows : Shadows u view s hud) :
    Shadows (u.hideUsingAnimation true) view (s.hideUsingAnimation hud) hud := by
  have stopped : Shadows { u with showStarted := none, bezelAlpha := false } view
      (s.setHud hud fun h => { h with showStarted := false }) hud :=
    shadows.setHud shadows.finished rfl shadows.removes rfl rfl
  unfold Screen.hideUsingAnimation TimedHUD.hideUsingAnimation
  simp only [shadows.shown, Bool.true_and]
  split
  next =>
    refine ⟨stopped.finished, stopped.shown, stopped.removes, ?_, stopped.attached⟩
    show (_ ++ [hud]).count hud = u.fadingOut + 1
    rw [List.count_append, List.count_singleton_self]
    exact congrArg (· + 1) stopped.fading
  next => exact stopped.done

theorem Instant.hideAnimated_eq {u : TimedHUD} (instant : Instant u) (animated : Bool) :
    u.hideAnimated animated = (u.toldToHide animated).hideUsingAnimation animated := by
  unfold TimedHUD.hideAnimated TimedHUD.toldToHide
  cases u.showStarted with
  | none => rfl
  | some started => exact if_neg fun wait => not_lt.mpr instant.minShowTime wait.1

theorem Instant.showAnimated_eq {u : TimedHUD} (instant : Instant u) (animated : Bool) :
    u.showAnimated animated = TimedHUD.showUsingAnimation { u with
      minShowTimers := invalidate u.minShowTimer u.minShowTimers
      useAnimation := animated
      finished := false } := by
  unfold TimedHUD.showAnimated
  exact if_neg (not_lt.mpr instant.graceTime)

theorem mem_hideTimers_hideUsingAnimation {u : TimedHUD} {animated : Bool} {timer : NSTimer Bool}
    (listed : timer ∈ (u.hideUsingAnimation animated).hideTimers) : timer ∈ u.hideTimers := by
  rcases TimedHUD.hideUsingAnimation_cases u animated with fades | at_once
  · rw [fades] at listed
    exact listed
  · rw [at_once] at listed
    exact TimedHUD.mem_of_mem_invalidate listed

theorem Instant.hideUsingAnimation {u : TimedHUD} (instant : Instant u) (animated : Bool) :
    Instant (u.hideUsingAnimation animated) := by
  have timers : ∀ timer ∈ (u.hideUsingAnimation animated).hideTimers, timer.userInfo = true :=
    fun timer listed => instant.hideTimers timer (mem_hideTimers_hideUsingAnimation listed)
  rcases TimedHUD.hideUsingAnimation_cases u animated with fades | at_once
  · rw [fades] at timers ⊢
    exact ⟨instant.graceTime, instant.minShowTime, instant.graceTimers, instant.minShowTimers, timers⟩
  · rw [at_once] at timers ⊢
    exact ⟨instant.graceTime, instant.minShowTime, instant.graceTimers, instant.minShowTimers, timers⟩

/-- `hideAnimated:` on the HUD with a clock and on the one without. -/
theorem Shadows.hideAnimated {u : TimedHUD} {view : Option ℕ} {s : Screen} {hud : ℕ}
    (shadows : Shadows u view s hud) (instant : Instant u) :
    Shadows (u.hideAnimated true) view (s.hideAnimated hud) hud ∧ Instant (u.hideAnimated true) := by
  rw [instant.hideAnimated_eq]
  have told : Shadows (u.toldToHide true) view
      (s.setHud hud fun h => { h with hasFinished := true }) hud :=
    shadows.setHud rfl shadows.shown shadows.removes rfl rfl
  refine ⟨told.hideUsingAnimation, Instant.hideUsingAnimation ?_ true⟩
  refine ⟨instant.graceTime, instant.minShowTime, ?_, instant.minShowTimers, instant.hideTimers⟩
  show invalidate u.graceTimer u.graceTimers = []
  rw [instant.graceTimers]
  rfl

theorem Shadows.showAnimated {u : TimedHUD} {view : Option ℕ} {s : Screen} {hud : ℕ}
    (shadows : Shadows u view s hud) (instant : Instant u) (animated : Bool) :
    Shadows (u.showAnimated animated) view (s.showAnimated hud) hud ∧
      Instant (u.showAnimated animated) := by
  rw [instant.showAnimated_eq]
  refine ⟨shadows.setHud rfl rfl shadows.removes rfl rfl, ?_⟩
  refine ⟨instant.graceTime, instant.minShowTime, instant.graceTimers, ?_, ?_⟩
  · show invalidate u.minShowTimer u.minShowTimers = []
    rw [instant.minShowTimers]
    rfl
  · exact fun timer listed => instant.hideTimers timer (TimedHUD.mem_of_mem_invalidate listed)

theorem Shadows.fadeEnds {u : TimedHUD} {view : Option ℕ} {s : Screen} {hud : ℕ}
    (shadows : Shadows u view s hud) :
    Shadows { u with fadingOut := u.fadingOut - 1 }.done view
      { s.done hud with fading := s.fading.erase hud } hud := by
  have done := shadows.done
  refine ⟨done.finished, done.shown, done.removes, ?_, done.attached⟩
  show (s.fading.erase hud).count hud = u.fadingOut - 1
  rw [List.count_erase_self, shadows.fading]

theorem Screen.faded_other {s : Screen} {hud other : ℕ} (ne : other ≠ hud) :
    SameHud s { s.done hud with fading := s.fading.erase hud } other := by
  have done : SameHud s (s.done hud) other := Screen.done_other ne
  exact ⟨done.huds, List.count_erase_of_ne ne, done.subviews⟩

theorem Screen.done_next (s : Screen) (hud : ℕ) : (s.done hud).next = s.next :=
  (Screen.done_hides s hud).next

/-- One event of a HUD with a clock is at most one command on the screen without clocks, which
leaves the other HUDs alone. -/
theorem Shadows.step {u u' : TimedHUD} {view : Option ℕ} {s : Screen} {hud : ℕ} {event : HUDEvent}
    (shadows : Shadows u view s hud) (instant : Instant u) (known : hud < s.next)
    (animated : (TimedScreenEvent.tell hud event).Animated) (taken : u.step event = some u') :
    ∃ s', run Screen.step s (TimedScreenEvent.tell hud event).command.toList = some s' ∧
      (Shadows u' view s' hud ∧ Instant u') ∧ s'.next = s.next ∧
      ∀ other, other ≠ hud → SameHud s s' other := by
  have same (other : ℕ) (_ : other ≠ hud) : SameHud s s other := ⟨rfl, rfl, fun _ => Iff.rfl⟩
  have told {command : ScreenCommand} {t : Screen} (answer : s.step command = some t) :
      run Screen.step s (some command).toList = some t := run_singleton.trans answer
  cases event with
  | showAnimated animated' =>
    cases taken
    exact ⟨s.showAnimated hud, told (if_pos known), shadows.showAnimated instant animated', rfl,
      fun _ => Screen.setHud_other⟩
  | hideAnimated animated' =>
    cases taken
    cases animated
    exact ⟨s.hideAnimated hud, told (if_pos known), shadows.hideAnimated instant,
      (Screen.hideAnimated_hides s hud).next, fun _ => Screen.hideAnimated_other⟩
  | hideAnimatedAfterDelay animated' delay =>
    cases taken
    cases animated
    refine ⟨s, rfl, ⟨⟨shadows.finished, shadows.shown, shadows.removes, shadows.fading,
      shadows.attached⟩, ?_⟩, rfl, same⟩
    refine ⟨instant.graceTime, instant.minShowTime, instant.graceTimers, instant.minShowTimers, ?_⟩
    intro timer listed
    rcases List.mem_append.mp listed with old | new
    · exact instant.hideTimers timer (TimedHUD.mem_of_mem_invalidate old)
    · cases List.mem_singleton.mp new
      rfl
  | wait seconds =>
    obtain ⟨-, rfl⟩ := guarded taken
    exact ⟨s, rfl, ⟨⟨shadows.finished, shadows.shown, shadows.removes, shadows.fading,
      shadows.attached⟩, ⟨instant.graceTime, instant.minShowTime, instant.graceTimers,
      instant.minShowTimers, instant.hideTimers⟩⟩, rfl, same⟩
  | graceTimerFires timer =>
    obtain ⟨fired, fires, -⟩ := Option.map_eq_some_iff.mp taken
    rw [instant.graceTimers] at fires
    cases fires
  | minShowTimerFires timer =>
    obtain ⟨fired, fires, -⟩ := Option.map_eq_some_iff.mp taken
    rw [instant.minShowTimers] at fires
    cases fires
  | hideTimerFires timer =>
    obtain ⟨fired, fires, rfl⟩ := Option.map_eq_some_iff.mp taken
    have shadows' : Shadows { u with hideTimers := invalidate (some timer) u.hideTimers } view s hud :=
      ⟨shadows.finished, shadows.shown, shadows.removes, shadows.fading, shadows.attached⟩
    have instant' : Instant { u with hideTimers := invalidate (some timer) u.hideTimers } :=
      ⟨instant.graceTime, instant.minShowTime, instant.graceTimers, instant.minShowTimers,
        fun t listed => instant.hideTimers t (TimedHUD.mem_of_mem_invalidate listed)⟩
    unfold TimedHUD.handleHideTimer
    rw [instant.hideTimers fired (TimedHUD.due_spec fires).1]
    exact ⟨s.hideAnimated hud, told (if_pos known), shadows'.hideAnimated instant',
      (Screen.hideAnimated_hides s hud).next, fun _ => Screen.hideAnimated_other⟩
  | fadeEnds =>
    obtain ⟨fading, rfl⟩ := guarded taken
    rw [← shadows.fading] at fading
    refine ⟨_, told (if_pos (List.count_pos_iff.mp fading)), ⟨shadows.fadeEnds, ?_⟩,
      Screen.done_next s hud, fun _ => Screen.faded_other⟩
    exact ⟨instant.graceTime, instant.minShowTime, instant.graceTimers, instant.minShowTimers,
      fun timer listed => instant.hideTimers timer (TimedHUD.mem_of_mem_invalidate listed)⟩

/-- Every HUD there is looks the same on the screen with clocks and on the one without. -/
structure Shows (t : TimedScreen) (s : Screen) : Prop where
  next : s.next = t.next
  huds : ∀ hud < t.next, Shadows (t.huds hud) (t.view hud) s hud ∧ Instant (t.huds hud)
  fading : ∀ hud ∈ s.fading, hud < s.next

theorem shows_blank : Shows .blank .blank :=
  ⟨rfl, fun _ none_yet => absurd none_yet (Nat.not_lt_zero _), fun _ none_fades => by cases none_fades⟩

theorem Screen.addSubview_other {s : Screen} {view : Option ℕ} {other : ℕ} (known : other < s.next) :
    SameHud s (s.showHUDAddedTo view).2 other := by
  have ne : other ≠ s.next := known.ne
  refine ⟨?_, rfl, fun v => ?_⟩
  · exact (Function.update_of_ne ne _ _).trans (Function.update_of_ne ne _ _)
  · show _ ∈ (if view = some v then s.subviews v ++ [.hud s.next] else s.subviews v) ↔ _
    split
    next => simp [ne]
    next => exact Iff.rfl

theorem Screen.addSubview_attached (s : Screen) (view : Option ℕ) (v : ℕ) :
    Subview.hud s.next ∈ (s.addSubview view).subviews v ↔ view = some v := by
  have free : Subview.hud s.next ∉ s.subviews v := fun h => (s.known v _ h).false
  show _ ∈ (if view = some v then s.subviews v ++ [.hud s.next] else s.subviews v) ↔ _
  split
  next added => simp [added]
  next other => simp [other, free]

theorem Shows.showHUDAddedTo {t : TimedScreen} {s : Screen} (agree : Shows t s) (view : Option ℕ)
    (animated : Bool) : Shows (t.showHUDAddedTo view animated) (s.showHUDAddedTo view).2 := by
  have new : Shadows { TimedHUD.added 0 0 t.now with inSuperview := view.isSome } view
      (s.addSubview view) s.next := by
    have start : (s.addSubview view).huds s.next =
        { MBProgressHUD.initial with removeFromSuperViewOnHide := true } := Function.update_self _ _ _
    have unused : s.fading.count s.next = 0 :=
      List.count_eq_zero.mpr fun fades => (agree.fading _ fades).false
    refine ⟨by rw [start]; rfl, by rw [start]; rfl, by rw [start]; rfl, unused, fun v => ?_⟩
    rw [s.addSubview_attached view v]
    exact ⟨fun added => ⟨added, by rw [added]; rfl⟩, And.left⟩
  have instant : Instant { TimedHUD.added 0 0 t.now with inSuperview := view.isSome } :=
    ⟨le_refl _, le_refl _, rfl, rfl, fun _ none_yet => by cases none_yet⟩
  refine ⟨congrArg (· + 1) agree.next, ?_, ?_⟩
  · intro hud known
    rcases Nat.lt_succ_iff_lt_or_eq.mp known with old | rfl
    · have ne : hud ≠ t.next := old.ne
      obtain ⟨shadows, instant⟩ := agree.huds hud old
      unfold TimedScreen.showHUDAddedTo
      simp only [Function.update_of_ne ne]
      exact ⟨shadows.of_same (Screen.addSubview_other (agree.next ▸ old)), instant⟩
    · unfold TimedScreen.showHUDAddedTo
      simp only [Function.update_self]
      have shown := new.showAnimated instant animated
      rw [agree.next] at shown
      unfold Screen.showHUDAddedTo
      rw [agree.next]
      exact shown
  · exact fun hud fades => Nat.lt_succ_of_lt (agree.fading hud fades)

theorem Shows.wait {t : TimedScreen} {s : Screen} (agree : Shows t s) (seconds : ℚ) :
    Shows { t with
      huds := fun hud => { t.huds hud with now := (t.huds hud).now + seconds }
      now := t.now + seconds } s := by
  refine ⟨agree.next, fun hud known => ?_, agree.fading⟩
  obtain ⟨shadows, instant⟩ := agree.huds hud known
  exact ⟨⟨shadows.finished, shadows.shown, shadows.removes, shadows.fading, shadows.attached⟩,
    ⟨instant.graceTime, instant.minShowTime, instant.graceTimers, instant.minShowTimers,
      instant.hideTimers⟩⟩

theorem fading_lt {s s' : Screen} {hud bound : ℕ} (same : ∀ other, other ≠ hud → SameHud s s' other)
    (before : ∀ g ∈ s.fading, g < bound) (known : hud < bound) {g : ℕ} (fades : g ∈ s'.fading) :
    g < bound := by
  by_cases eq : g = hud
  · rw [eq]
    exact known
  · apply before
    apply List.count_pos_iff.mp
    rw [← (same g eq).fading]
    exact List.count_pos_iff.mpr fades

/-- The HUD that an event changes agrees with its shadow, the others keep theirs. -/
theorem Shows.update {t : TimedScreen} {s s' : Screen} {u : TimedHUD} {hud : ℕ} (agree : Shows t s)
    (known : hud < t.next) (changed : Shadows u (t.view hud) s' hud ∧ Instant u)
    (next : s'.next = s.next) (same : ∀ other, other ≠ hud → SameHud s s' other) :
    Shows { t with huds := Function.update t.huds hud u } s' := by
  refine ⟨next.trans agree.next, ?_, ?_⟩
  · intro other known'
    by_cases eq : other = hud
    · subst eq
      simp only [Function.update_self]
      exact changed
    · simp only [Function.update_of_ne eq]
      obtain ⟨shadows, instant⟩ := agree.huds other known'
      exact ⟨shadows.of_same (same other eq), instant⟩
  · rw [next]
    exact fun other fades => fading_lt same agree.fading (agree.next ▸ known) fades

/-- An event on a HUD, for an event that is not the passing of time. -/
theorem TimedScreen.step_tell {t t' : TimedScreen} {hud : ℕ} {event : HUDEvent}
    (taken : t.step (.tell hud event) = some t') : hud < t.next ∧ ∃ u,
      (t.huds hud).step event = some u ∧ t' = { t with huds := Function.update t.huds hud u } := by
  have known : ∀ seconds, event ≠ .wait seconds := by
    intro seconds same
    rw [same] at taken
    cases taken
  cases event with
  | wait seconds => exact absurd rfl (known seconds)
  | _ =>
    obtain ⟨⟨bound, -⟩, rest⟩ := Option.ite_none_right_eq_some.mp taken
    obtain ⟨u, step, rfl⟩ := Option.map_eq_some_iff.mp rest
    exact ⟨bound, u, step, rfl⟩

theorem Shows.step {t t' : TimedScreen} {s : Screen} {event : TimedScreenEvent} (agree : Shows t s)
    (animated : event.Animated) (taken : t.step event = some t') :
    ∃ s', run Screen.step s event.command.toList = some s' ∧ Shows t' s' := by
  cases event with
  | showHUDAddedTo view animated' =>
    cases taken
    exact ⟨_, run_singleton.trans rfl, agree.showHUDAddedTo view animated'⟩
  | wait seconds =>
    obtain ⟨-, rfl⟩ := guarded taken
    exact ⟨s, rfl, agree.wait seconds⟩
  | tell hud event =>
    obtain ⟨known, u, step, rfl⟩ := TimedScreen.step_tell taken
    obtain ⟨shadows, instant⟩ := agree.huds hud known
    obtain ⟨s', answer, changed, next, same⟩ :=
      shadows.step instant (agree.next ▸ known) animated step
    exact ⟨s', answer, agree.update known changed next same⟩

/-- The event with a clock behind a command. -/
def ScreenCommand.event : ScreenCommand → TimedScreenEvent
  | .showHUDAddedTo view => .showHUDAddedTo view true
  | .showAnimated hud => .tell hud (.showAnimated true)
  | .hideAnimated hud => .tell hud (.hideAnimated true)
  | .faded hud => .tell hud .fadeEnds

theorem Shows.answer {t : TimedScreen} {s s' : Screen} {command : ScreenCommand} (agree : Shows t s)
    (taken : s.step command = some s') : ∃ t', t.step command.event = some t' ∧ Shows t' s' := by
  have in_turn {hud : ℕ} {event : HUDEvent} (no_timer : (t.huds hud).fireDate? event = none) :
      t.InTurn hud event := by
    intro date dated
    rw [no_timer] at dated
    cases dated
  have enabled : command.event.Animated ∧ command.event.command = some command ∧
      ∃ t', t.step command.event = some t' := by
    cases command with
    | showHUDAddedTo view => exact ⟨rfl, rfl, _, rfl⟩
    | showAnimated hud =>
      obtain ⟨known, -⟩ := guarded taken
      exact ⟨rfl, rfl, _, if_pos ⟨agree.next ▸ known, in_turn rfl⟩⟩
    | hideAnimated hud =>
      obtain ⟨known, -⟩ := guarded taken
      exact ⟨rfl, rfl, _, if_pos ⟨agree.next ▸ known, in_turn rfl⟩⟩
    | faded hud =>
      obtain ⟨fades, -⟩ := guarded taken
      have known : hud < t.next := agree.next ▸ agree.fading hud fades
      have left : 0 < (t.huds hud).fadingOut := by
        rw [← (agree.huds hud known).1.fading]
        exact List.count_pos_iff.mpr fades
      have step : (t.huds hud).step .fadeEnds =
          some { t.huds hud with fadingOut := (t.huds hud).fadingOut - 1 }.done := if_pos left
      exact ⟨trivial, rfl, _, (if_pos ⟨known, in_turn rfl⟩).trans (congrArg (Option.map _) step)⟩
  obtain ⟨animated, back, t', step⟩ := enabled
  obtain ⟨s'', same, agree'⟩ := agree.step animated step
  rw [back] at same
  cases (run_singleton.symm.trans same).symm.trans taken
  exact ⟨t', step, agree'⟩

/-- Without grace and minimum times every run of the HUDs with their clocks and timers is a run of
the screen without them that shows the same, and every run of that screen comes from one with
clocks. -/
theorem timed_screen_shows_screen :
    (∀ events t, (∀ event ∈ events, event.Animated) → run TimedScreen.step .blank events = some t →
      ∃ s, run Screen.step .blank (events.filterMap TimedScreenEvent.command) = some s ∧ Shows t s) ∧
    ∀ commands s, run Screen.step .blank commands = some s →
      ∃ t, run TimedScreen.step .blank (commands.map ScreenCommand.event) = some t ∧ Shows t s := by
  refine ⟨fun events t animated reached => ?_, fun commands s reached => ?_⟩
  · have simulate (t : TimedScreen) (s : Screen) (event : TimedScreenEvent) (t' : TimedScreen)
        (listed : event ∈ events) (agree : Shows t s) (taken : t.step event = some t') :
        ∃ s', run Screen.step s event.command.toList = some s' ∧ Shows t' s' :=
      agree.step (animated event listed) taken
    exact run_refines simulate shows_blank reached
  · have simulate (s : Screen) (t : TimedScreen) (command : ScreenCommand) (s' : Screen)
        (_ : command ∈ commands) (agree : Shows t s) (taken : s.step command = some s') :
        ∃ t', run TimedScreen.step t (some command.event).toList = some t' ∧ Shows t' s' := by
      obtain ⟨t', step, agree'⟩ := agree.answer taken
      exact ⟨t', run_singleton.trans step, agree'⟩
    have runs := run_refines (R := fun s t => Shows t s) simulate shows_blank reached
    rw [List.filterMap_eq_map'] at runs
    exact runs

end SwiftApp
