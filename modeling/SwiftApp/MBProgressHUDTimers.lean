import Mathlib.Algebra.Order.Field.Rat
import Mathlib.Tactic.Linarith
import SwiftApp.MBProgressHUD
import SwiftApp.StepRun

namespace SwiftApp

open StepRun

/-- A timer on the run loop. It fires at its date or later. -/
structure NSTimer (α : Type) where
  id : ℕ
  fireDate : ℚ
  userInfo : α

/-- `invalidate` through a weak property, which may be empty or name a timer that is gone. -/
def invalidate {α : Type} (timer : Option ℕ) (timers : List (NSTimer α)) : List (NSTimer α) :=
  timers.filter fun t => some t.id ≠ timer

/-- The interval of a timer that is asked for with none is 0.1 ms. -/
def NSTimer.interval (seconds : ℚ) : ℚ := if seconds ≤ 0 then 1 / 10000 else seconds

/-- A HUD with its clock and its timers, which are listed by the method they call. Of the two
alphas it is kept whether they are zero. `fadingOut` counts the hiding animations whose
completion is still to come, `hudWasHidden` the calls of the completion block. -/
structure TimedHUD where
  graceTime : ℚ
  minShowTime : ℚ
  removeFromSuperViewOnHide : Bool
  now : ℚ
  useAnimation : Bool
  finished : Bool
  showStarted : Option ℚ
  alpha : Bool
  bezelAlpha : Bool
  inSuperview : Bool
  graceTimers : List (NSTimer Unit)
  minShowTimers : List (NSTimer Unit)
  hideTimers : List (NSTimer Bool)
  graceTimer : Option ℕ
  minShowTimer : Option ℕ
  hideDelayTimer : Option ℕ
  nextTimer : ℕ
  fadingOut : ℕ
  hudWasHidden : ℕ

inductive HUDEvent
  | showAnimated (animated : Bool)
  | hideAnimated (animated : Bool)
  | hideAnimatedAfterDelay (animated : Bool) (delay : ℚ)
  | wait (seconds : ℚ)
  | graceTimerFires (timer : ℕ)
  | minShowTimerFires (timer : ℕ)
  | hideTimerFires (timer : ℕ)
  | fadeEnds

namespace TimedHUD

/-- A HUD that was just added to a view. -/
def added (graceTime minShowTime now : ℚ) : TimedHUD where
  graceTime := graceTime
  minShowTime := minShowTime
  removeFromSuperViewOnHide := true
  now := now
  useAnimation := false
  finished := false
  showStarted := none
  alpha := false
  bezelAlpha := false
  inSuperview := true
  graceTimers := []
  minShowTimers := []
  hideTimers := []
  graceTimer := none
  minShowTimer := none
  hideDelayTimer := none
  nextTimer := 0
  fadingOut := 0
  hudWasHidden := 0

/-- With an animation or without one the alphas get the same values. -/
def showUsingAnimation (s : TimedHUD) : TimedHUD :=
  { s with
    hideTimers := invalidate s.hideDelayTimer s.hideTimers
    showStarted := some s.now
    alpha := true
    bezelAlpha := true }

def done (s : TimedHUD) : TimedHUD :=
  { s with
    hideTimers := invalidate s.hideDelayTimer s.hideTimers
    alpha := s.alpha && !s.finished
    inSuperview := s.inSuperview && !(s.finished && s.removeFromSuperViewOnHide)
    hudWasHidden := s.hudWasHidden + 1 }

def hideUsingAnimation (s : TimedHUD) (animated : Bool) : TimedHUD :=
  if animated && s.showStarted.isSome then
    { s with showStarted := none, bezelAlpha := false, fadingOut := s.fadingOut + 1 }
  else done { s with showStarted := none, bezelAlpha := false }

def showAnimated (s : TimedHUD) (animated : Bool) : TimedHUD :=
  let s := { s with
    minShowTimers := invalidate s.minShowTimer s.minShowTimers
    useAnimation := animated
    finished := false }
  if 0 < s.graceTime then
    { s with
      graceTimers := s.graceTimers ++ [⟨s.nextTimer, s.now + s.graceTime, ()⟩]
      graceTimer := some s.nextTimer
      nextTimer := s.nextTimer + 1 }
  else s.showUsingAnimation

def scheduleMinShow (s : TimedHUD) (interval : ℚ) : TimedHUD :=
  { s with
    minShowTimers := s.minShowTimers ++ [⟨s.nextTimer, s.now + interval, ()⟩]
    minShowTimer := some s.nextTimer
    nextTimer := s.nextTimer + 1 }

def hideAnimated (s : TimedHUD) (animated : Bool) : TimedHUD :=
  let s := { s with
    graceTimers := invalidate s.graceTimer s.graceTimers
    useAnimation := animated
    finished := true }
  match s.showStarted with
  | some started =>
    let interv := s.now - started
    if 0 < s.minShowTime ∧ interv < s.minShowTime then s.scheduleMinShow (s.minShowTime - interv)
    else s.hideUsingAnimation s.useAnimation
  | none => s.hideUsingAnimation s.useAnimation

def hideAnimatedAfterDelay (s : TimedHUD) (animated : Bool) (delay : ℚ) : TimedHUD :=
  { s with
    hideTimers := invalidate s.hideDelayTimer s.hideTimers ++
      [⟨s.nextTimer, s.now + NSTimer.interval delay, animated⟩]
    hideDelayTimer := some s.nextTimer
    nextTimer := s.nextTimer + 1 }

def handleGraceTimer (s : TimedHUD) : TimedHUD := if s.finished then s else s.showUsingAnimation

def handleMinShowTimer (s : TimedHUD) : TimedHUD := s.hideUsingAnimation s.useAnimation

def handleHideTimer (s : TimedHUD) (userInfo : Bool) : TimedHUD := s.hideAnimated userInfo

/-- The dates of the timers on the run loop. -/
def fireDates (s : TimedHUD) : List ℚ :=
  s.graceTimers.map NSTimer.fireDate ++ s.minShowTimers.map NSTimer.fireDate ++
    s.hideTimers.map NSTimer.fireDate

/-- The timer of that name, if it is due. The run loop fires timers in the order of their dates. -/
def due {α : Type} (s : TimedHUD) (timer : ℕ) (timers : List (NSTimer α)) : Option (NSTimer α) :=
  timers.find? fun t => t.id = timer ∧ t.fireDate ≤ s.now ∧ ∀ date ∈ s.fireDates, t.fireDate ≤ date

def step (s : TimedHUD) : HUDEvent → Option TimedHUD
  | .showAnimated animated => some (s.showAnimated animated)
  | .hideAnimated animated => some (s.hideAnimated animated)
  | .hideAnimatedAfterDelay animated delay => some (s.hideAnimatedAfterDelay animated delay)
  | .wait seconds => if 0 ≤ seconds then some { s with now := s.now + seconds } else none
  | .graceTimerFires timer => (s.due timer s.graceTimers).map fun _ =>
      { s with graceTimers := invalidate (some timer) s.graceTimers }.handleGraceTimer
  | .minShowTimerFires timer => (s.due timer s.minShowTimers).map fun _ =>
      { s with minShowTimers := invalidate (some timer) s.minShowTimers }.handleMinShowTimer
  | .hideTimerFires timer => (s.due timer s.hideTimers).map fun fired =>
      { s with hideTimers := invalidate (some timer) s.hideTimers }.handleHideTimer fired.userInfo
  | .fadeEnds => if 0 < s.fadingOut then some { s with fadingOut := s.fadingOut - 1 }.done else none

theorem invalidate_eq_nil {α : Type} {timer : Option ℕ} {timers : List (NSTimer α)}
    (all : ∀ t ∈ timers, timer = some t.id) : invalidate timer timers = [] := by
  apply List.filter_eq_nil_iff.mpr
  intro t listed
  simp [all t listed]

theorem mem_of_mem_invalidate {α : Type} {timer : Option ℕ} {timers : List (NSTimer α)}
    {t : NSTimer α} (listed : t ∈ invalidate timer timers) : t ∈ timers :=
  (List.mem_filter.mp listed).1

theorem due_spec {α : Type} {s : TimedHUD} {timer : ℕ} {timers : List (NSTimer α)} {t : NSTimer α}
    (fires : s.due timer timers = some t) : t ∈ timers ∧ t.id = timer ∧ t.fireDate ≤ s.now ∧
      ∀ date ∈ s.fireDates, t.fireDate ≤ date := by
  have right := List.find?_some fires
  simp only [decide_eq_true_eq] at right
  exact ⟨List.mem_of_find?_eq_some fires, right⟩

theorem hideUsingAnimation_cases (s : TimedHUD) (animated : Bool) :
    s.hideUsingAnimation animated =
        { s with showStarted := none, bezelAlpha := false, fadingOut := s.fadingOut + 1 } ∨
      s.hideUsingAnimation animated = done { s with showStarted := none, bezelAlpha := false } := by
  unfold hideUsingAnimation
  split
  next => exact Or.inl rfl
  next => exact Or.inr rfl

/-- The state in which `hideAnimated:` decides whether to wait. -/
def toldToHide (s : TimedHUD) (animated : Bool) : TimedHUD :=
  { s with
    graceTimers := invalidate s.graceTimer s.graceTimers
    useAnimation := animated
    finished := true }

theorem hideAnimated_cases (s : TimedHUD) (animated : Bool) :
    (∃ started, s.showStarted = some started ∧ s.now < started + s.minShowTime ∧
        s.hideAnimated animated =
          (s.toldToHide animated).scheduleMinShow (s.minShowTime - (s.now - started))) ∨
      (∀ started, s.showStarted = some started → started ≤ s.now →
          started + s.minShowTime ≤ s.now) ∧
        s.hideAnimated animated = (s.toldToHide animated).hideUsingAnimation animated := by
  unfold hideAnimated toldToHide
  cases shown : s.showStarted with
  | none => exact Or.inr ⟨fun _ h => (by cases h), rfl⟩
  | some started =>
    dsimp only
    split
    next wait =>
      apply Or.inl
      refine ⟨started, rfl, ?_, rfl⟩
      linarith [wait.2]
    next go =>
      apply Or.inr
      refine ⟨?_, rfl⟩
      intro started' same before
      cases same
      by_contra late
      apply go
      refine ⟨?_, ?_⟩ <;> linarith

/-- Each timer on the run loop is the one its property names, it is not due before its time, and a
HUD that waits to be hidden was told to hide. -/
structure Timely (commanded : ℚ) (s : TimedHUD) : Prop where
  grace : ∀ t ∈ s.graceTimers, s.graceTimer = some t.id ∧ commanded + s.graceTime ≤ t.fireDate
  minShow : ∀ t ∈ s.minShowTimers, s.minShowTimer = some t.id ∧ s.finished = true ∧
    ∃ started, s.showStarted = some started ∧ started + s.minShowTime ≤ t.fireDate
  started : ∀ started, s.showStarted = some started → started ≤ s.now

/-- A show command waits for the display of the one before or for a hide command, and a hide
command does not come twice while the HUD waits to be hidden. -/
def Orderly (s : TimedHUD) : HUDEvent → Prop
  | .showAnimated _ => s.graceTimers = []
  | .hideAnimated _ | .hideTimerFires _ => s.minShowTimers = []
  | _ => True

instance : ∀ (s : TimedHUD) (event : HUDEvent), Decidable (Orderly s event)
  | s, .showAnimated _ => inferInstanceAs (Decidable (s.graceTimers = []))
  | s, .hideAnimated _ | s, .hideTimerFires _ => inferInstanceAs (Decidable (s.minShowTimers = []))
  | _, .hideAnimatedAfterDelay _ _ | _, .wait _ | _, .graceTimerFires _ | _, .minShowTimerFires _
  | _, .fadeEnds => .isTrue trivial

/-- If `t` has a new display, the HUD is not finished and the grace time has passed. -/
def DisplaysInTime (commanded : ℚ) (s t : TimedHUD) : Prop :=
  ∀ started, t.showStarted = some started → s.showStarted ≠ some started →
    t.finished = false ∧ commanded + t.graceTime ≤ started

/-- If the display of `s` ends in `t`, it has lasted for the minimum time. -/
def HidesInTime (s t : TimedHUD) : Prop :=
  ∀ started, s.showStarted = some started → t.showStarted = none → started + s.minShowTime ≤ s.now

theorem Timely.minShowTimers_of_unfinished {commanded : ℚ} {s : TimedHUD}
    (timely : Timely commanded s) (running : s.finished = false) : s.minShowTimers = [] := by
  apply List.eq_nil_iff_forall_not_mem.mpr
  intro t listed
  have finished := (timely.minShow t listed).2.1
  rw [running] at finished
  cases finished

theorem Timely.showUsingAnimation {commanded : ℚ} {s : TimedHUD} (timely : Timely commanded s)
    (running : s.finished = false) (passed : commanded + s.graceTime ≤ s.now) :
    Timely commanded s.showUsingAnimation ∧ DisplaysInTime commanded s s.showUsingAnimation ∧
      HidesInTime s s.showUsingAnimation := by
  refine ⟨⟨timely.grace, ?_, ?_⟩, ?_, ?_⟩
  · intro t listed
    have none_left := timely.minShowTimers_of_unfinished running
    have listed' : t ∈ s.minShowTimers := listed
    rw [none_left] at listed'
    cases listed'
  · intro started same
    cases same
    exact le_refl _
  · intro started same _
    cases same
    exact ⟨running, passed⟩
  · intro started _ gone
    cases gone

/-- Hiding at a time when nothing else waits to hide the HUD. -/
theorem Timely.hideUsingAnimation {commanded : ℚ} {s : TimedHUD} (timely : Timely commanded s)
    (alone : s.minShowTimers = []) (animated : Bool) :
    Timely commanded (s.hideUsingAnimation animated) := by
  rcases hideUsingAnimation_cases s animated with fades | at_once
  · rw [fades]
    refine ⟨timely.grace, ?_, fun _ gone => by cases gone⟩
    intro t listed
    have listed' : t ∈ s.minShowTimers := listed
    rw [alone] at listed'
    cases listed'
  · rw [at_once]
    refine ⟨timely.grace, ?_, fun _ gone => by cases gone⟩
    intro t listed
    have listed' : t ∈ s.minShowTimers := listed
    rw [alone] at listed'
    cases listed'

theorem hideUsingAnimation_showStarted (s : TimedHUD) (animated : Bool) :
    (s.hideUsingAnimation animated).showStarted = none := by
  rcases hideUsingAnimation_cases s animated with fades | at_once
  · rw [fades]
  · rw [at_once]
    rfl

theorem displaysInTime_of_none {commanded : ℚ} {s t : TimedHUD} (gone : t.showStarted = none) :
    DisplaysInTime commanded s t := by
  intro started same _
  rw [gone] at same
  cases same

theorem inTime_of_same {commanded : ℚ} {s t : TimedHUD} (same : t.showStarted = s.showStarted) :
    DisplaysInTime commanded s t ∧ HidesInTime s t := by
  refine ⟨?_, ?_⟩
  · intro started shown other
    exact absurd (same ▸ shown) other
  · intro started shown gone
    rw [same, shown] at gone
    cases gone

theorem Timely.hideAnimated {commanded : ℚ} {s : TimedHUD} (timely : Timely commanded s)
    (alone : s.minShowTimers = []) (animated : Bool) :
    Timely commanded (s.hideAnimated animated) ∧
      DisplaysInTime commanded s (s.hideAnimated animated) ∧
      HidesInTime s (s.hideAnimated animated) := by
  have cancelled : invalidate s.graceTimer s.graceTimers = [] :=
    invalidate_eq_nil fun t listed => (timely.grace t listed).1
  have told : Timely commanded (s.toldToHide animated) := by
    refine ⟨?_, ?_, timely.started⟩
    · intro t listed
      have listed' : t ∈ invalidate s.graceTimer s.graceTimers := listed
      rw [cancelled] at listed'
      cases listed'
    · intro t listed
      have listed' : t ∈ s.minShowTimers := listed
      rw [alone] at listed'
      cases listed'
  rcases hideAnimated_cases s animated with ⟨started, shown, early, waits⟩ | ⟨late, hides⟩
  · rw [waits]
    refine ⟨⟨told.grace, ?_, timely.started⟩, inTime_of_same rfl⟩
    intro t listed
    rcases List.mem_append.mp listed with old | new
    · have old' : t ∈ s.minShowTimers := old
      rw [alone] at old'
      cases old'
    · cases List.mem_singleton.mp new
      refine ⟨rfl, rfl, started, shown, ?_⟩
      show started + s.minShowTime ≤ s.now + (s.minShowTime - (s.now - started))
      linarith
  · rw [hides]
    refine ⟨told.hideUsingAnimation alone animated,
      displaysInTime_of_none (hideUsingAnimation_showStarted _ _), ?_⟩
    exact fun started shown _ => late started shown (timely.started started shown)

/-- When the last show command was given, after the event. -/
def commandedAt (s : TimedHUD) (commanded : ℚ) : HUDEvent → ℚ
  | .showAnimated _ => s.now
  | _ => commanded

theorem Timely.showAnimated {commanded : ℚ} {s : TimedHUD} (timely : Timely commanded s)
    (idle : s.graceTimers = []) (animated : Bool) :
    Timely s.now (s.showAnimated animated) ∧ DisplaysInTime s.now s (s.showAnimated animated) ∧
      HidesInTime s (s.showAnimated animated) := by
  have cancelled : invalidate s.minShowTimer s.minShowTimers = [] :=
    invalidate_eq_nil fun t listed => (timely.minShow t listed).1
  unfold TimedHUD.showAnimated
  simp only [cancelled]
  split
  next waits =>
    refine ⟨⟨?_, fun _ listed => (List.not_mem_nil listed).elim, timely.started⟩, inTime_of_same rfl⟩
    intro t listed
    simp only [idle, List.nil_append, List.mem_singleton] at listed
    subst listed
    exact ⟨rfl, le_refl _⟩
  next at_once =>
    have told : Timely s.now { s with
        minShowTimers := []
        useAnimation := animated
        finished := false } := by
      refine ⟨?_, fun _ listed => (List.not_mem_nil listed).elim, timely.started⟩
      intro t listed
      have listed' : t ∈ s.graceTimers := listed
      rw [idle] at listed'
      cases listed'
    refine told.showUsingAnimation rfl ?_
    show s.now + s.graceTime ≤ s.now
    linarith

/-- One orderly event keeps the timers timely, displays the HUD no earlier than the grace time
after the command and hides it no earlier than the minimum time after its display. -/
theorem Timely.step {commanded : ℚ} {s t : TimedHUD} {event : HUDEvent}
    (timely : Timely commanded s) (taken : s.step event = some t) (orderly : Orderly s event) :
    Timely (commandedAt s commanded event) t ∧
      DisplaysInTime (commandedAt s commanded event) s t ∧ HidesInTime s t := by
  cases event with
  | showAnimated animated =>
    cases taken
    exact timely.showAnimated orderly animated
  | hideAnimated animated =>
    cases taken
    exact timely.hideAnimated orderly animated
  | hideAnimatedAfterDelay animated delay =>
    cases taken
    exact ⟨⟨timely.grace, timely.minShow, timely.started⟩, inTime_of_same rfl⟩
  | wait seconds =>
    obtain ⟨forward, rfl⟩ := guarded taken
    refine ⟨⟨timely.grace, timely.minShow, ?_⟩, inTime_of_same rfl⟩
    intro started shown
    have before := timely.started started shown
    show started ≤ s.now + seconds
    linarith
  | graceTimerFires timer =>
    obtain ⟨fired, fires, rfl⟩ := Option.map_eq_some_iff.mp taken
    obtain ⟨listed, -, passed, -⟩ := due_spec fires
    have kept : Timely commanded { s with graceTimers := invalidate (some timer) s.graceTimers } :=
      ⟨fun t h => timely.grace t (mem_of_mem_invalidate h), timely.minShow, timely.started⟩
    unfold handleGraceTimer
    split
    next => exact ⟨kept, inTime_of_same rfl⟩
    next running =>
      refine kept.showUsingAnimation (by simpa using running) ?_
      exact (timely.grace fired listed).2.trans passed
  | minShowTimerFires timer =>
    obtain ⟨fired, fires, rfl⟩ := Option.map_eq_some_iff.mp taken
    obtain ⟨listed, name, passed, -⟩ := due_spec fires
    obtain ⟨named, finished, started, shown, least⟩ := timely.minShow fired listed
    have last : invalidate (some timer) s.minShowTimers = [] := by
      apply invalidate_eq_nil
      intro t h
      rw [← name, ← named, (timely.minShow t h).1]
    unfold handleMinShowTimer
    rw [last]
    have kept : Timely commanded { s with minShowTimers := [] } :=
      ⟨timely.grace, fun _ h => (List.not_mem_nil h).elim, timely.started⟩
    refine ⟨kept.hideUsingAnimation rfl _,
      displaysInTime_of_none (hideUsingAnimation_showStarted _ _), ?_⟩
    intro started' shown' _
    cases shown.symm.trans shown'
    exact least.trans passed
  | hideTimerFires timer =>
    obtain ⟨fired, fires, rfl⟩ := Option.map_eq_some_iff.mp taken
    have kept : Timely commanded { s with hideTimers := invalidate (some timer) s.hideTimers } :=
      ⟨timely.grace, timely.minShow, timely.started⟩
    exact kept.hideAnimated orderly fired.userInfo
  | fadeEnds =>
    obtain ⟨-, rfl⟩ := guarded taken
    exact ⟨⟨timely.grace, timely.minShow, timely.started⟩, inTime_of_same rfl⟩

/-- Events on a HUD and the time of its last show command. -/
def watch (s : TimedHUD × ℚ) (event : HUDEvent) : Option (TimedHUD × ℚ) :=
  (s.1.step event).map fun t => (t, commandedAt s.1 s.2 event)

theorem timely_added {graceTime minShowTime now : ℚ} :
    Timely now (added graceTime minShowTime now) :=
  ⟨fun _ listed => (List.not_mem_nil listed).elim, fun _ listed => (List.not_mem_nil listed).elim,
    fun _ shown => by cases shown⟩

/-- Along every orderly run of a HUD, every display comes with the HUD still wanted and no sooner
than the grace time after the last show command, and every hiding no sooner than the minimum time
after the display. -/
theorem grace_and_min_show_times {graceTime minShowTime now commanded : ℚ}
    {events : List HUDEvent} {event : HUDEvent} {s t : TimedHUD}
    (orderly : StepsMeet watch (fun s => Orderly s.1) (added graceTime minShowTime now, now)
      (events ++ [event]))
    (reached : run watch (added graceTime minShowTime now, now) events = some (s, commanded))
    (taken : s.step event = some t) :
    DisplaysInTime (commandedAt s commanded event) s t ∧ HidesInTime s t := by
  obtain ⟨before, last⟩ := stepsMeet_append orderly reached
  have timely : Timely commanded s := by
    refine always_end (P := fun w => Timely w.2 w.1) (always_of_stepsMeet ?_ timely_added before)
      reached
    intro w event w' watched orderly timely
    obtain ⟨t, taken, rfl⟩ := Option.map_eq_some_iff.mp watched
    exact (timely.step taken orderly).1
  have watched : watch (s, commanded) event = some (t, commandedAt s commanded event) := by
    simp [watch, taken]
  exact (timely.step taken (last _ watched).1).2

/-- Shown after a grace time of half a second, told to hide at once. -/
def hiddenAtOnce : List HUDEvent :=
  [.showAnimated true, .wait (1 / 2), .graceTimerFires 0, .hideAnimated true, .wait 1]

theorem grace_and_min_show_times_hiddenAtOnce :
    ∃ s commanded t, run watch (added (1 / 2) 1 0, 0) hiddenAtOnce = some (s, commanded) ∧
      s.step (.minShowTimerFires 1) = some t ∧ t.showStarted = none ∧
      DisplaysInTime commanded s t ∧ HidesInTime s t := by
  have orderly : StepsMeet watch (fun s => Orderly s.1) (added (1 / 2) 1 0, 0)
      (hiddenAtOnce ++ [.minShowTimerFires 1]) := by decide +kernel
  have hides : ((run watch (added (1 / 2) 1 0, 0) hiddenAtOnce).bind fun s =>
      (s.1.step (.minShowTimerFires 1)).map TimedHUD.showStarted) = some none := by decide +kernel
  obtain ⟨⟨s, commanded⟩, reached, fires⟩ := Option.bind_eq_some_iff.mp hides
  obtain ⟨t, taken, gone⟩ := Option.map_eq_some_iff.mp fires
  exact ⟨s, commanded, t, reached, taken, gone, grace_and_min_show_times orderly reached taken⟩

/-- The command an event gives; a hide timer that fires gives the hide command. -/
def command : HUDEvent → Option Bool
  | .showAnimated _ => some false
  | .hideAnimated _ | .hideTimerFires _ => some true
  | _ => none

def lastIsHide (events : List HUDEvent) : Bool := (events.filterMap command).getLast?.getD false

/-- No timer is on the run loop and no hiding animation runs. -/
structure Quiet (s : TimedHUD) : Prop where
  graceTimers : s.graceTimers = []
  minShowTimers : s.minShowTimers = []
  hideTimers : s.hideTimers = []
  fadingOut : s.fadingOut = 0

theorem hideUsingAnimation_kept (s : TimedHUD) (animated : Bool) :
    (s.hideUsingAnimation animated).finished = s.finished ∧
      (s.hideUsingAnimation animated).removeFromSuperViewOnHide = s.removeFromSuperViewOnHide ∧
      (s.hideUsingAnimation animated).graceTimers = s.graceTimers ∧
      (s.hideUsingAnimation animated).minShowTimers = s.minShowTimers := by
  rcases hideUsingAnimation_cases s animated with fades | at_once
  · rw [fades]
    exact ⟨rfl, rfl, rfl, rfl⟩
  · rw [at_once]
    exact ⟨rfl, rfl, rfl, rfl⟩

theorem hideAnimated_kept (s : TimedHUD) (animated : Bool) :
    (s.hideAnimated animated).finished = true ∧
      (s.hideAnimated animated).removeFromSuperViewOnHide = s.removeFromSuperViewOnHide := by
  rcases hideAnimated_cases s animated with ⟨_, _, _, waits⟩ | ⟨_, hides⟩
  · rw [waits]
    exact ⟨rfl, rfl⟩
  · rw [hides]
    obtain ⟨finished, remove, -⟩ := hideUsingAnimation_kept (s.toldToHide animated) animated
    exact ⟨finished, remove⟩

theorem showAnimated_kept (s : TimedHUD) (animated : Bool) :
    (s.showAnimated animated).finished = false ∧
      (s.showAnimated animated).removeFromSuperViewOnHide = s.removeFromSuperViewOnHide := by
  unfold showAnimated
  dsimp only
  split <;> exact ⟨rfl, rfl⟩

theorem step_finished {s t : TimedHUD} {event : HUDEvent} (taken : s.step event = some t) :
    t.finished = (command event).getD s.finished ∧
      t.removeFromSuperViewOnHide = s.removeFromSuperViewOnHide := by
  cases event with
  | showAnimated animated =>
    cases taken
    exact showAnimated_kept s animated
  | hideAnimated animated =>
    cases taken
    exact hideAnimated_kept s animated
  | hideAnimatedAfterDelay animated delay =>
    cases taken
    exact ⟨rfl, rfl⟩
  | wait seconds =>
    obtain ⟨-, rfl⟩ := guarded taken
    exact ⟨rfl, rfl⟩
  | graceTimerFires timer =>
    obtain ⟨fired, -, rfl⟩ := Option.map_eq_some_iff.mp taken
    unfold handleGraceTimer
    split <;> exact ⟨rfl, rfl⟩
  | minShowTimerFires timer =>
    obtain ⟨fired, -, rfl⟩ := Option.map_eq_some_iff.mp taken
    obtain ⟨finished, remove, -⟩ := hideUsingAnimation_kept
      { s with minShowTimers := invalidate (some timer) s.minShowTimers } s.useAnimation
    exact ⟨finished, remove⟩
  | hideTimerFires timer =>
    obtain ⟨fired, -, rfl⟩ := Option.map_eq_some_iff.mp taken
    exact hideAnimated_kept _ fired.userInfo
  | fadeEnds =>
    obtain ⟨-, rfl⟩ := guarded taken
    exact ⟨rfl, rfl⟩

theorem run_finished {s t : TimedHUD} {events : List HUDEvent} (done : run step s events = some t) :
    t.finished = (events.filterMap command).getLast?.getD s.finished ∧
      t.removeFromSuperViewOnHide = s.removeFromSuperViewOnHide := by
  induction events generalizing s with
  | nil =>
    cases Option.some.inj done
    exact ⟨rfl, rfl⟩
  | cons event events ih =>
    obtain ⟨u, taken, rest⟩ := Option.bind_eq_some_iff.mp done
    obtain ⟨finished, remove⟩ := ih rest
    obtain ⟨finished', remove'⟩ := step_finished taken
    refine ⟨?_, remove.trans remove'⟩
    rw [finished, finished']
    cases given : command event with
    | none => rw [List.filterMap_cons_none given, Option.getD_none]
    | some hide =>
      rw [List.filterMap_cons_some given, List.getLast?_cons, Option.getD_some]
      rfl

/-- A finished HUD is hidden unless it still waits or fades, an unfinished one is there unless it
still waits for the grace time. -/
structure Settles (s : TimedHUD) : Prop where
  hidden : s.finished = true → s.minShowTimers = [] → s.fadingOut = 0 →
    s.alpha = false ∧ (s.removeFromSuperViewOnHide = true → s.inSuperview = false)
  shown : s.finished = false → s.graceTimers = [] → s.alpha = true ∧ s.bezelAlpha = true

theorem done_finished {s : TimedHUD} (finished : s.finished = true) :
    s.done.alpha = false ∧ (s.done.removeFromSuperViewOnHide = true → s.done.inSuperview = false) := by
  refine ⟨?_, ?_⟩
  · show (s.alpha && !s.finished) = false
    simp [finished]
  · intro remove
    have remove' : s.removeFromSuperViewOnHide = true := remove
    show (s.inSuperview && !(s.finished && s.removeFromSuperViewOnHide)) = false
    simp [finished, remove']

theorem settles_hideUsingAnimation {s : TimedHUD} (finished : s.finished = true) (animated : Bool) :
    Settles (s.hideUsingAnimation animated) := by
  obtain ⟨finished', -⟩ := hideUsingAnimation_kept s animated
  have stays : (s.hideUsingAnimation animated).finished = true := finished'.trans finished
  refine ⟨?_, fun running => absurd running (by simp [stays])⟩
  intro _ _ still
  rcases hideUsingAnimation_cases s animated with fades | at_once
  · rw [fades] at still
    exact absurd still (Nat.succ_ne_zero _)
  · rw [at_once]
    exact done_finished finished

theorem settles_hideAnimated (s : TimedHUD) (animated : Bool) : Settles (s.hideAnimated animated) := by
  rcases hideAnimated_cases s animated with ⟨_, _, _, waits⟩ | ⟨_, hides⟩
  · rw [waits]
    refine ⟨?_, fun running => (by cases running)⟩
    intro _ none_left
    exact absurd none_left (by simp [scheduleMinShow])
  · rw [hides]
    exact settles_hideUsingAnimation rfl animated

theorem settles_showAnimated (s : TimedHUD) (animated : Bool) : Settles (s.showAnimated animated) := by
  obtain ⟨running, -⟩ := showAnimated_kept s animated
  refine ⟨fun finished => absurd finished (by simp [running]), ?_⟩
  unfold showAnimated
  dsimp only
  split
  next =>
    intro _ none_left
    exact absurd none_left (by simp)
  next => exact fun _ _ => ⟨rfl, rfl⟩

theorem settles_handleGraceTimer {s : TimedHUD}
    (hidden : s.finished = true → s.minShowTimers = [] → s.fadingOut = 0 →
      s.alpha = false ∧ (s.removeFromSuperViewOnHide = true → s.inSuperview = false)) :
    Settles s.handleGraceTimer := by
  unfold handleGraceTimer
  split
  next finished => exact ⟨hidden, fun running => absurd finished (by simp [running])⟩
  next running => exact ⟨fun finished => absurd finished running, fun _ _ => ⟨rfl, rfl⟩⟩

theorem Settles.step {commanded : ℚ} {s t : TimedHUD} {event : HUDEvent} (settles : Settles s)
    (timely : Timely commanded s) (taken : s.step event = some t) : Settles t := by
  cases event with
  | showAnimated animated =>
    cases taken
    exact settles_showAnimated s animated
  | hideAnimated animated =>
    cases taken
    exact settles_hideAnimated s animated
  | hideAnimatedAfterDelay animated delay =>
    cases taken
    exact ⟨settles.hidden, settles.shown⟩
  | wait seconds =>
    obtain ⟨-, rfl⟩ := guarded taken
    exact ⟨settles.hidden, settles.shown⟩
  | graceTimerFires timer =>
    obtain ⟨fired, -, rfl⟩ := Option.map_eq_some_iff.mp taken
    exact settles_handleGraceTimer settles.hidden
  | minShowTimerFires timer =>
    obtain ⟨fired, fires, rfl⟩ := Option.map_eq_some_iff.mp taken
    have finished := (timely.minShow fired (due_spec fires).1).2.1
    unfold handleMinShowTimer
    apply settles_hideUsingAnimation
    exact finished
  | hideTimerFires timer =>
    obtain ⟨fired, -, rfl⟩ := Option.map_eq_some_iff.mp taken
    exact settles_hideAnimated _ fired.userInfo
  | fadeEnds =>
    obtain ⟨-, rfl⟩ := guarded taken
    refine ⟨?_, ?_⟩
    · intro finished _ _
      have told : s.finished = true := finished
      exact done_finished told
    · intro running none_left
      have wanted : s.finished = false := running
      obtain ⟨alpha, bezel⟩ := settles.shown running none_left
      refine ⟨?_, bezel⟩
      show (s.alpha && !s.finished) = true
      rw [alpha, wanted]
      rfl

/-- Along every orderly run, a HUD with no timer and no animation left is opaque, or transparent and
removed, as its last command says. -/
theorem quiet_as_commanded {graceTime minShowTime now : ℚ} {animated : Bool}
    {events : List HUDEvent} {t : TimedHUD}
    (orderly : StepsMeet step Orderly ((added graceTime minShowTime now).showAnimated animated) events)
    (reached : run step ((added graceTime minShowTime now).showAnimated animated) events = some t)
    (quiet : t.Quiet) :
    if lastIsHide events then t.alpha = false ∧ t.inSuperview = false
    else t.alpha = true ∧ t.bezelAlpha = true := by
  have both : (∃ commanded, Timely commanded t) ∧ Settles t := by
    refine always_end (P := fun s => (∃ commanded, Timely commanded s) ∧ Settles s)
      (always_of_stepsMeet ?_ ?_ orderly) reached
    · intro s event u taken orderly inv
      obtain ⟨⟨commanded, timely⟩, settles⟩ := inv
      exact ⟨⟨_, (timely.step taken orderly).1⟩, settles.step timely taken⟩
    · exact ⟨⟨_, (timely_added.showAnimated rfl animated).1⟩, settles_showAnimated _ animated⟩
  obtain ⟨finished, remove⟩ := run_finished reached
  obtain ⟨start, start_removes⟩ := showAnimated_kept (added graceTime minShowTime now) animated
  rw [start] at finished
  rw [start_removes] at remove
  have last : t.finished = lastIsHide events := finished
  rw [← last]
  cases told : t.finished with
  | true =>
    obtain ⟨alpha, gone⟩ := both.2.hidden told quiet.minShowTimers quiet.fadingOut
    exact ⟨alpha, gone remove⟩
  | false => exact both.2.shown told quiet.graceTimers

theorem quiet_as_commanded_hiddenAtOnce :
    ∃ t, run step ((added (1 / 2) 1 0).showAnimated true)
        (hiddenAtOnce.tail ++ [.minShowTimerFires 1, .fadeEnds]) = some t ∧ t.Quiet ∧
      t.alpha = false ∧ t.inSuperview = false := by
  have orderly : StepsMeet step Orderly ((added (1 / 2) 1 0).showAnimated true)
      (hiddenAtOnce.tail ++ [.minShowTimerFires 1, .fadeEnds]) := by decide +kernel
  have ends : (run step ((added (1 / 2) 1 0).showAnimated true)
      (hiddenAtOnce.tail ++ [.minShowTimerFires 1, .fadeEnds])).any (fun t =>
        t.graceTimers = [] ∧ t.minShowTimers = [] ∧ t.hideTimers = [] ∧ t.fadingOut = 0) = true := by
    decide +kernel
  obtain ⟨t, reached, still⟩ := (Option.any_eq_true _ _).mp ends
  obtain ⟨grace, minShow, hide, fading⟩ := of_decide_eq_true still
  have quiet : t.Quiet := ⟨grace, minShow, hide, fading⟩
  exact ⟨t, reached, quiet, quiet_as_commanded orderly reached quiet⟩

/-- What the message functions leave: a new HUD, shown and told to hide after a delay. -/
def toast (graceTime minShowTime now delay : ℚ) : TimedHUD :=
  ((added graceTime minShowTime now).showAnimated true).hideAnimatedAfterDelay true delay

def isShow : HUDEvent → Bool
  | .showAnimated _ => true
  | _ => false

def isDelayedHide : HUDEvent → Bool
  | .hideAnimatedAfterDelay _ _ => true
  | _ => false

/-- A toast has its hide timer until it is told to hide, also before any grace timer, and nothing
that fades or waits before. -/
structure Dismisses (s : TimedHUD) : Prop where
  graceTimers : ∀ t ∈ s.graceTimers, s.finished = false ∧ s.graceTimer = some t.id ∧
    ∃ hide ∈ s.hideTimers, hide.fireDate < t.fireDate
  hideTimers : s.finished = false → s.hideTimers ≠ []
  minShowTimers : s.finished = false → s.minShowTimers = []
  fadingOut : s.finished = false → s.fadingOut = 0
  removes : s.removeFromSuperViewOnHide = true

theorem hideUsingAnimation_graceTimers (s : TimedHUD) (animated : Bool) :
    (s.hideUsingAnimation animated).graceTimers = s.graceTimers :=
  (hideUsingAnimation_kept s animated).2.2.1

theorem Dismisses.graceTimers_of_finished {s : TimedHUD} (dismisses : Dismisses s)
    (finished : s.finished = true) : s.graceTimers = [] := by
  apply List.eq_nil_iff_forall_not_mem.mpr
  intro t listed
  have running := (dismisses.graceTimers t listed).1
  rw [finished] at running
  cases running

theorem dismisses_of_finished {s : TimedHUD} (finished : s.finished = true)
    (graceTimers : s.graceTimers = []) (removes : s.removeFromSuperViewOnHide = true) :
    Dismisses s := by
  refine ⟨?_, ?_, ?_, ?_, removes⟩
  · intro t listed
    rw [graceTimers] at listed
    cases listed
  all_goals
    intro running
    rw [finished] at running
    cases running

theorem hideAnimated_graceTimers {s : TimedHUD} (animated : Bool) :
    (s.hideAnimated animated).graceTimers = invalidate s.graceTimer s.graceTimers := by
  rcases hideAnimated_cases s animated with ⟨_, _, _, waits⟩ | ⟨_, hides⟩
  · rw [waits]
    rfl
  · rw [hides, hideUsingAnimation_graceTimers]
    rfl

theorem dismisses_hideAnimated {s : TimedHUD} (named : ∀ t ∈ s.graceTimers, s.graceTimer = some t.id)
    (removes : s.removeFromSuperViewOnHide = true) (animated : Bool) :
    Dismisses (s.hideAnimated animated) := by
  obtain ⟨finished, kept⟩ := hideAnimated_kept s animated
  refine dismisses_of_finished finished ?_ (kept.trans removes)
  rw [hideAnimated_graceTimers]
  exact invalidate_eq_nil named

/-- A grace timer does not fire while the hide timer is due before it. -/
theorem Dismisses.not_graceTimerFires {s : TimedHUD} (dismisses : Dismisses s) {timer : ℕ}
    {fired : NSTimer Unit} (fires : s.due timer s.graceTimers = some fired) : False := by
  obtain ⟨listed, -, -, first⟩ := due_spec fires
  obtain ⟨-, -, hide, waits, before⟩ := dismisses.graceTimers fired listed
  have dated : hide.fireDate ∈ s.fireDates :=
    List.mem_append_right _ (List.mem_map_of_mem waits)
  exact absurd (first _ dated) (not_le.mpr before)

theorem Dismisses.step {s t : TimedHUD} {event : HUDEvent} (dismisses : Dismisses s)
    (settles : Settles s) (taken : s.step event = some t) (other : isShow event = false)
    (alone : isDelayedHide event = true → s.graceTimers = []) : Dismisses t ∧ Settles t := by
  cases event with
  | showAnimated animated => cases other
  | hideAnimated animated =>
    cases taken
    exact ⟨dismisses_hideAnimated (fun t listed => (dismisses.graceTimers t listed).2.1)
      dismisses.removes animated, settles_hideAnimated s animated⟩
  | hideAnimatedAfterDelay animated delay =>
    cases taken
    refine ⟨⟨fun t listed => ?_, fun _ => ?_, dismisses.minShowTimers, dismisses.fadingOut,
      dismisses.removes⟩, settles.hidden, settles.shown⟩
    · have listed' : t ∈ s.graceTimers := listed
      rw [alone rfl] at listed'
      cases listed'
    · simp [TimedHUD.hideAnimatedAfterDelay]
  | wait seconds =>
    obtain ⟨-, rfl⟩ := guarded taken
    exact ⟨⟨dismisses.graceTimers, dismisses.hideTimers, dismisses.minShowTimers,
      dismisses.fadingOut, dismisses.removes⟩, settles.hidden, settles.shown⟩
  | graceTimerFires timer =>
    obtain ⟨fired, fires, rfl⟩ := Option.map_eq_some_iff.mp taken
    exact (dismisses.not_graceTimerFires fires).elim
  | minShowTimerFires timer =>
    obtain ⟨fired, fires, rfl⟩ := Option.map_eq_some_iff.mp taken
    have finished : s.finished = true := by
      rw [← Bool.not_eq_false]
      intro running
      rw [dismisses.minShowTimers running] at fires
      cases fires
    unfold handleMinShowTimer
    obtain ⟨finished', removes', graceTimers', -⟩ := hideUsingAnimation_kept
      { s with minShowTimers := invalidate (some timer) s.minShowTimers } s.useAnimation
    refine ⟨dismisses_of_finished (finished'.trans finished)
      (graceTimers'.trans (dismisses.graceTimers_of_finished finished))
      (removes'.trans dismisses.removes), ?_⟩
    apply settles_hideUsingAnimation
    exact finished
  | hideTimerFires timer =>
    obtain ⟨fired, -, rfl⟩ := Option.map_eq_some_iff.mp taken
    unfold handleHideTimer
    refine ⟨?_, settles_hideAnimated _ fired.userInfo⟩
    apply dismisses_hideAnimated
    · exact fun t listed => (dismisses.graceTimers t listed).2.1
    · exact dismisses.removes
  | fadeEnds =>
    obtain ⟨fading, rfl⟩ := guarded taken
    have finished : s.finished = true := by
      rw [← Bool.not_eq_false]
      intro running
      rw [dismisses.fadingOut running] at fading
      exact absurd fading (lt_irrefl 0)
    have faded : Settles { s with fadingOut := s.fadingOut - 1 }.done :=
      ⟨fun _ _ _ => done_finished finished, fun running => absurd (finished.symm.trans running) (by simp)⟩
    exact ⟨dismisses_of_finished finished (dismisses.graceTimers_of_finished finished)
      dismisses.removes, faded⟩

theorem step_graceTimers {s t : TimedHUD} {event : HUDEvent} (taken : s.step event = some t)
    (other : isShow event = false) (idle : s.graceTimers = []) : t.graceTimers = [] := by
  cases event with
  | showAnimated animated => cases other
  | hideAnimated animated =>
    cases taken
    rw [hideAnimated_graceTimers, idle]
    rfl
  | hideAnimatedAfterDelay animated delay =>
    cases taken
    exact idle
  | wait seconds =>
    obtain ⟨-, rfl⟩ := guarded taken
    exact idle
  | graceTimerFires timer =>
    obtain ⟨fired, fires, -⟩ := Option.map_eq_some_iff.mp taken
    rw [idle] at fires
    cases fires
  | minShowTimerFires timer =>
    obtain ⟨fired, -, rfl⟩ := Option.map_eq_some_iff.mp taken
    unfold handleMinShowTimer
    rw [hideUsingAnimation_graceTimers]
    exact idle
  | hideTimerFires timer =>
    obtain ⟨fired, -, rfl⟩ := Option.map_eq_some_iff.mp taken
    unfold handleHideTimer
    rw [hideAnimated_graceTimers, idle]
    rfl
  | fadeEnds =>
    obtain ⟨-, rfl⟩ := guarded taken
    exact idle

theorem toast_ungraced {graceTime minShowTime now delay : ℚ} (none_set : graceTime ≤ 0) :
    (toast graceTime minShowTime now delay).graceTimers = [] ∧
      Dismisses (toast graceTime minShowTime now delay) ∧
      Settles (toast graceTime minShowTime now delay) := by
  have unset : ¬ 0 < graceTime := not_lt.mpr none_set
  unfold toast TimedHUD.showAnimated added
  simp only [if_neg unset]
  refine ⟨rfl, ⟨fun _ listed => (List.not_mem_nil listed).elim, fun _ => ?_, fun _ => rfl,
    fun _ => rfl, rfl⟩, fun finished => ?_, fun _ _ => ⟨rfl, rfl⟩⟩
  · simp [TimedHUD.hideAnimatedAfterDelay]
  · cases finished

theorem toast_graced {graceTime minShowTime now delay : ℚ} (set : 0 < graceTime) :
    toast graceTime minShowTime now delay = { added graceTime minShowTime now with
      useAnimation := true
      graceTimers := [⟨0, now + graceTime, ()⟩]
      hideTimers := [⟨1, now + NSTimer.interval delay, true⟩]
      graceTimer := some 0
      hideDelayTimer := some 1
      nextTimer := 2 } := by
  unfold toast TimedHUD.showAnimated added
  simp only [if_pos set]
  rfl

theorem dismisses_toast {graceTime minShowTime now delay : ℚ}
    (sooner : graceTime ≤ 0 ∨ NSTimer.interval delay < graceTime) :
    Dismisses (toast graceTime minShowTime now delay) ∧
      Settles (toast graceTime minShowTime now delay) := by
  by_cases set : 0 < graceTime
  · have before : NSTimer.interval delay < graceTime :=
      sooner.resolve_left (not_le.mpr set)
    rw [toast_graced set]
    refine ⟨⟨?_, fun _ => List.cons_ne_nil _ _, fun _ => rfl, fun _ => rfl, rfl⟩, ?_, ?_⟩
    · intro t listed
      cases List.mem_singleton.mp listed
      exact ⟨rfl, rfl, _, List.mem_singleton_self _, by simpa using before⟩
    · intro finished
      cases finished
    · intro _ none_left
      cases none_left
  · exact (toast_ungraced (not_lt.mp set)).2

/-- A display after the grace time takes the hide timer off the run loop, if that is not due
before. -/
theorem late_display {s : TimedHUD} {graceTime : ℚ} {hide : NSTimer Bool} (set : 0 < graceTime)
    (running : s.finished = false) (grace : s.graceTimers = [⟨0, s.now + graceTime, ()⟩])
    (minShow : s.minShowTimers = []) (waits : s.hideTimers = [hide])
    (named : s.hideDelayTimer = some hide.id) (later : s.now + graceTime ≤ hide.fireDate)
    (still : s.fadingOut = 0) :
    ∃ t, run step s [.wait graceTime, .graceTimerFires 0] = some t ∧ t.Quiet ∧ t.alpha = true := by
  have waited : s.step (.wait graceTime) = some { s with now := s.now + graceTime } := if_pos set.le
  have fires : TimedHUD.due { s with now := s.now + graceTime } 0 s.graceTimers =
      some ⟨0, s.now + graceTime, ()⟩ := by
    simp [due, fireDates, grace, minShow, waits, later]
  have displayed : TimedHUD.step { s with now := s.now + graceTime } (.graceTimerFires 0) =
      some (TimedHUD.showUsingAnimation { s with
        now := s.now + graceTime
        graceTimers := invalidate (some 0) s.graceTimers }) := by
    refine (congrArg (Option.map _) fires).trans (congrArg some ?_)
    unfold handleGraceTimer
    exact if_neg (by simp [running])
  have ran := run_cons.trans (congrArg (·.bind fun t => run step t [.graceTimerFires 0]) waited)
  refine ⟨_, ran.trans (run_singleton.trans displayed), ⟨?_, minShow, ?_, still⟩, rfl⟩
  · apply invalidate_eq_nil
    intro t listed
    rw [grace] at listed
    cases List.mem_singleton.mp listed
    rfl
  · apply invalidate_eq_nil
    intro t listed
    have listed' : t ∈ s.hideTimers := listed
    rw [waits] at listed'
    cases List.mem_singleton.mp listed'
    exact named

theorem toast_stays {graceTime minShowTime now delay : ℚ} (set : 0 < graceTime)
    (later : graceTime ≤ NSTimer.interval delay) :
    ∃ t, run step (toast graceTime minShowTime now delay) [.wait graceTime, .graceTimerFires 0] =
      some t ∧ t.Quiet ∧ t.alpha = true := by
  rw [toast_graced set]
  exact late_display set rfl rfl rfl rfl rfl (add_le_add_right later now) rfl

/-- A second delayed hide command puts the hiding off until after the display. -/
theorem toast_put_off {graceTime minShowTime now : ℚ} (delay : ℚ) (set : 0 < graceTime) :
    ∃ t, run step (toast graceTime minShowTime now delay)
        [.hideAnimatedAfterDelay true graceTime, .wait graceTime, .graceTimerFires 0] = some t ∧
      t.Quiet ∧ t.alpha = true := by
  have interval : NSTimer.interval graceTime = graceTime := if_neg (not_le.mpr set)
  rw [toast_graced set]
  have later : now + graceTime ≤ now + NSTimer.interval graceTime := by rw [interval]
  exact late_display set rfl rfl rfl rfl rfl later rfl

theorem gone_of_quiet {s : TimedHUD} (dismisses : Dismisses s) (settles : Settles s) (quiet : s.Quiet) :
    s.alpha = false ∧ s.inSuperview = false := by
  have finished : s.finished = true := by
    rw [← Bool.not_eq_false]
    exact fun running => dismisses.hideTimers running quiet.hideTimers
  obtain ⟨alpha, gone⟩ := settles.hidden finished quiet.minShowTimers quiet.fadingOut
  exact ⟨alpha, gone dismisses.removes⟩

/-- However its timers, its animation and further hide commands come, a toast that has nothing
left to wait for is gone: exactly if no grace time is set or, without a further delayed hide
command, if its delay is over before. Otherwise the late display cancels the timer that was to
hide the toast. -/
theorem toast_always_dismissed_iff {graceTime minShowTime now delay : ℚ} :
    ((∀ events t, (∀ event ∈ events, isShow event = false) →
      run step (toast graceTime minShowTime now delay) events = some t → t.Quiet →
        t.alpha = false ∧ t.inSuperview = false) ↔ graceTime ≤ 0) ∧
    ((∀ events t, (∀ event ∈ events, isShow event = false ∧ isDelayedHide event = false) →
      run step (toast graceTime minShowTime now delay) events = some t → t.Quiet →
        t.alpha = false ∧ t.inSuperview = false) ↔
      graceTime ≤ 0 ∨ NSTimer.interval delay < graceTime) := by
  refine ⟨⟨?_, ?_⟩, ?_, ?_⟩
  · intro always
    by_contra set
    obtain ⟨t, reached, quiet, alpha⟩ := toast_put_off delay (lt_of_not_ge set)
    have gone := (always _ t (by simp [isShow]) reached quiet).1
    rw [alpha] at gone
    cases gone
  · intro none_set events t others reached quiet
    have kept (s : TimedHUD) (event : HUDEvent) (listed : event ∈ events) (u : TimedHUD)
        (taken : s.step event = some u)
        (inv : s.graceTimers = [] ∧ Dismisses s ∧ Settles s) :
        u.graceTimers = [] ∧ Dismisses u ∧ Settles u := by
      obtain ⟨idle, dismisses, settles⟩ := inv
      exact ⟨step_graceTimers taken (others event listed) idle,
        dismisses.step settles taken (others event listed) fun _ => idle⟩
    obtain ⟨-, dismisses, settles⟩ := run_invariant_of_mem kept reached (toast_ungraced none_set)
    exact gone_of_quiet dismisses settles quiet
  · intro always
    by_contra late
    obtain ⟨set, later⟩ := not_or.mp late
    obtain ⟨t, reached, quiet, alpha⟩ := toast_stays (lt_of_not_ge set) (not_lt.mp later)
    have gone := (always _ t (by simp [isShow, isDelayedHide]) reached quiet).1
    rw [alpha] at gone
    cases gone
  · intro sooner events t others reached quiet
    have kept (s : TimedHUD) (event : HUDEvent) (listed : event ∈ events) (u : TimedHUD)
        (taken : s.step event = some u) (both : Dismisses s ∧ Settles s) :
        Dismisses u ∧ Settles u := by
      obtain ⟨other, single⟩ := others event listed
      exact both.1.step both.2 taken other fun delayed => absurd delayed (by simp [single])
    obtain ⟨dismisses, settles⟩ := run_invariant_of_mem kept reached (dismisses_toast sooner)
    exact gone_of_quiet dismisses settles quiet

end TimedHUD

end SwiftApp
