import SwiftApp.MBProgressHUD
import SwiftApp.StepRun
import Mathlib.Algebra.Order.Field.Rat
import Mathlib.Tactic.Linarith

namespace SwiftApp

open StepRun

/-- The classes that `updateIndicators` tells apart. Of other views it matters whether they have
`setProgress:`. -/
inductive IndicatorClass
  | activityIndicator
  | round (annular : Bool)
  | bar
  | other (hasSetProgress : Bool)
deriving DecidableEq

def IndicatorClass.isRound : IndicatorClass → Bool
  | .round _ => true
  | _ => false

def IndicatorClass.respondsToSetProgress : IndicatorClass → Bool
  | .activityIndicator => false
  | .round _ | .bar => true
  | .other hasSetProgress => hasSetProgress

structure IndicatorView where
  isa : IndicatorClass
  progress : ℚ
deriving DecidableEq

/-- The views by address, addresses from `next` on being free, and what the HUD has in its bezel
besides the labels, the button and the spacers. -/
structure HUDContents where
  mode : MBProgressHUDMode
  progress : ℚ
  customView : Option ℕ
  indicator : Option ℕ
  bezel : List ℕ
  views : ℕ → IndicatorView
  next : ℕ

inductive HUDChange
  | setMode (mode : MBProgressHUDMode)
  | setCustomView (view : Option ℕ)
  | setProgress (progress : ℚ)
  | makeView (view : IndicatorView)

namespace HUDContents

def isA (s : HUDContents) (view : Option ℕ) (p : IndicatorClass → Bool) : Bool :=
  view.any fun v => p (s.views v).isa

/-- `[indicator removeFromSuperview]`, then the new indicator goes into the bezel. -/
def replaceIndicator (s : HUDContents) (view : Option ℕ) : HUDContents :=
  let left := s.bezel.filter fun v => some v ≠ s.indicator
  { s with
    indicator := view
    bezel := (left.filter fun v => some v ≠ view) ++ view.toList }

def makeView (s : HUDContents) (view : IndicatorView) : HUDContents :=
  { s with views := Function.update s.views s.next view, next := s.next + 1 }

def replaceByNew (s : HUDContents) (isa : IndicatorClass) : HUDContents :=
  (s.makeView ⟨isa, 0⟩).replaceIndicator (some s.next)

def setView (s : HUDContents) (view : Option ℕ) (f : IndicatorView → IndicatorView) : HUDContents :=
  match view with
  | some v => { s with views := Function.update s.views v (f (s.views v)) }
  | none => s

def setAnnular (s : HUDContents) : HUDContents :=
  s.setView s.indicator fun view => { view with isa := .round true }

/-- `[indicator setValue:@(self.progress) forKey:@"progress"]` -/
def passProgress (s : HUDContents) : HUDContents :=
  if s.isA s.indicator IndicatorClass.respondsToSetProgress then
    s.setView s.indicator fun view => { view with progress := s.progress }
  else s

def changeIndicator (s : HUDContents) : HUDContents :=
  match s.mode with
  | .indeterminate =>
    if s.isA s.indicator (· = .activityIndicator) then s else s.replaceByNew .activityIndicator
  | .determinateHorizontalBar => s.replaceByNew .bar
  | .determinate => if s.isA s.indicator IndicatorClass.isRound then s else s.replaceByNew (.round false)
  | .annularDeterminate =>
    (if s.isA s.indicator IndicatorClass.isRound then s else s.replaceByNew (.round false)).setAnnular
  | .customView => if s.customView ≠ s.indicator then s.replaceIndicator s.customView else s
  | .text => s.replaceIndicator none

def updateIndicators (s : HUDContents) : HUDContents := s.changeIndicator.passProgress

def commonInit : HUDContents :=
  updateIndicators {
    mode := .indeterminate
    progress := 0
    customView := none
    indicator := none
    bezel := []
    views := fun _ => ⟨.other false, 0⟩
    next := 0 }

def setMode (s : HUDContents) (mode : MBProgressHUDMode) : HUDContents :=
  if mode ≠ s.mode then { s with mode := mode }.updateIndicators else s

def setCustomView (s : HUDContents) (view : Option ℕ) : HUDContents :=
  if view ≠ s.customView then
    if s.mode = .customView then { s with customView := view }.updateIndicators
    else { s with customView := view }
  else s

def setProgress (s : HUDContents) (progress : ℚ) : HUDContents :=
  if progress ≠ s.progress then { s with progress := progress }.passProgress else s

/-- Only a view that was made can be set. -/
def step (s : HUDContents) : HUDChange → Option HUDContents
  | .setMode mode => some (s.setMode mode)
  | .setCustomView view =>
    if view.all (· < s.next) then some (s.setCustomView view) else none
  | .setProgress progress => some (s.setProgress progress)
  | .makeView view => some (s.makeView view)

/-- What the HUD shows in each mode. -/
def ShowsMode (s : HUDContents) : Prop :=
  match s.mode with
  | .indeterminate => s.isA s.indicator (· = .activityIndicator) = true
  | .determinateHorizontalBar => s.isA s.indicator (· = .bar) = true
  | .determinate => s.isA s.indicator IndicatorClass.isRound = true
  | .annularDeterminate => s.isA s.indicator (· = .round true) = true
  | .customView => s.indicator = s.customView
  | .text => s.indicator = none

/-- One indicator in the bezel, that of the mode, and with the progress of the HUD if it shows
one. -/
structure Coherent (s : HUDContents) : Prop where
  bezel : s.bezel = s.indicator.toList
  mode : s.ShowsMode
  progress : ∀ v, s.indicator = some v → (s.views v).isa.respondsToSetProgress = true →
    (s.views v).progress = s.progress
  made : ∀ v, s.indicator = some v ∨ s.customView = some v → v < s.next

theorem isA_congr {s t : HUDContents} (indicator : t.indicator = s.indicator)
    (isa : ∀ v, s.indicator = some v → (t.views v).isa = (s.views v).isa) (p : IndicatorClass → Bool) :
    t.isA t.indicator p = s.isA s.indicator p := by
  unfold isA
  rw [indicator]
  cases shown : s.indicator with
  | none => rfl
  | some v =>
    show p (t.views v).isa = p (s.views v).isa
    rw [isa v shown]

theorem ShowsMode.of_same {s t : HUDContents} (shows_ : s.ShowsMode) (mode : t.mode = s.mode)
    (indicator : t.indicator = s.indicator) (customView : t.customView = s.customView)
    (isa : ∀ v, s.indicator = some v → (t.views v).isa = (s.views v).isa) : t.ShowsMode := by
  have is := isA_congr indicator isa
  simp only [indicator] at is
  unfold ShowsMode at shows_ ⊢
  simp only [mode, indicator, customView, is]
  exact shows_

theorem bezel_replaceIndicator {s : HUDContents} (bezel : s.bezel = s.indicator.toList)
    (view : Option ℕ) : (s.replaceIndicator view).bezel = view.toList := by
  unfold replaceIndicator
  rw [bezel]
  cases s.indicator <;> simp

/-- The indicator is in its place, its progress aside. -/
structure Placed (s : HUDContents) : Prop where
  bezel : s.bezel = s.indicator.toList
  mode : s.ShowsMode
  made : ∀ v, s.indicator = some v ∨ s.customView = some v → v < s.next

theorem placed_replaceByNew {s : HUDContents} {isa : IndicatorClass} (bezel : s.bezel = s.indicator.toList)
    (made : ∀ v, s.indicator = some v ∨ s.customView = some v → v < s.next)
    (mode : (s.replaceByNew isa).ShowsMode) : Placed (s.replaceByNew isa) := by
  refine ⟨bezel_replaceIndicator (s := s.makeView ⟨isa, 0⟩) bezel _, mode, fun v used => ?_⟩
  show v < s.next + 1
  rcases used with new | custom
  · cases Option.some.inj new
    exact Nat.lt_succ_self _
  · exact Nat.lt_succ_of_lt (made v (Or.inr custom))

theorem isA_replaceByNew (s : HUDContents) (isa : IndicatorClass) (p : IndicatorClass → Bool) :
    (s.replaceByNew isa).isA (s.replaceByNew isa).indicator p = p isa := by
  show p (Function.update s.views s.next ⟨isa, 0⟩ s.next).isa = p isa
  rw [Function.update_self]

theorem placed_setAnnular {s : HUDContents} (bezel : s.bezel = s.indicator.toList)
    (made : ∀ v, s.indicator = some v ∨ s.customView = some v → v < s.next)
    (mode : s.mode = .annularDeterminate) (round : s.isA s.indicator IndicatorClass.isRound = true) :
    Placed s.setAnnular := by
  unfold isA at round
  cases shown : s.indicator with
  | none =>
    rw [shown] at round
    cases round
  | some v =>
    have ring : s.setAnnular =
        { s with views := Function.update s.views v { s.views v with isa := .round true } } := by
      unfold setAnnular setView
      rw [shown]
    rw [ring]
    refine ⟨bezel, ?_, made⟩
    unfold ShowsMode isA
    rw [mode, shown]
    simp

/-- `updateIndicators` puts the indicator of the mode in its place, whatever was there. -/
theorem placed_changeIndicator {s : HUDContents} (bezel : s.bezel = s.indicator.toList)
    (made : ∀ v, s.indicator = some v ∨ s.customView = some v → v < s.next) :
    Placed s.changeIndicator := by
  have kept (shows_ : s.ShowsMode) : Placed s := ⟨bezel, shows_, made⟩
  have new {isa : IndicatorClass} (shows_ : (s.replaceByNew isa).ShowsMode) :
      Placed (s.replaceByNew isa) := placed_replaceByNew bezel made shows_
  unfold changeIndicator
  cases mode : s.mode with
  | indeterminate =>
    dsimp only
    split
    next is => exact kept (by unfold ShowsMode; rw [mode]; exact is)
    next =>
      apply new
      unfold ShowsMode
      rw [show (s.replaceByNew .activityIndicator).mode = .indeterminate from mode]
      exact isA_replaceByNew s _ _
  | determinateHorizontalBar =>
    apply new
    unfold ShowsMode
    rw [show (s.replaceByNew .bar).mode = .determinateHorizontalBar from mode]
    exact isA_replaceByNew s _ _
  | determinate =>
    dsimp only
    split
    next is => exact kept (by unfold ShowsMode; rw [mode]; exact is)
    next =>
      apply new
      unfold ShowsMode
      rw [show (s.replaceByNew (.round false)).mode = .determinate from mode]
      exact isA_replaceByNew s _ _
  | annularDeterminate =>
    dsimp only
    split
    next is => exact placed_setAnnular bezel made mode is
    next =>
      refine placed_setAnnular (bezel_replaceIndicator (s := s.makeView ⟨.round false, 0⟩) bezel _)
        ?_ mode (isA_replaceByNew s _ _)
      intro v used
      show v < s.next + 1
      rcases used with first | custom
      · cases Option.some.inj first
        exact Nat.lt_succ_self _
      · exact Nat.lt_succ_of_lt (made v (Or.inr custom))
  | customView =>
    dsimp only
    split
    next =>
      refine ⟨bezel_replaceIndicator bezel _, ?_, fun v used => made v (Or.inr (or_self_iff.mp used))⟩
      unfold ShowsMode
      rw [show (s.replaceIndicator s.customView).mode = .customView from mode]
      rfl
    next same =>
      apply kept
      unfold ShowsMode
      rw [mode]
      exact (not_not.mp same).symm
  | text =>
    refine ⟨bezel_replaceIndicator bezel none, ?_, fun v used => ?_⟩
    · unfold ShowsMode
      rw [show (s.replaceIndicator none).mode = .text from mode]
      rfl
    · rcases used with gone | custom
      · cases gone
      · exact made v (Or.inr custom)

theorem Placed.passProgress {s : HUDContents} (placed : Placed s) : Coherent s.passProgress := by
  unfold HUDContents.passProgress
  split
  next responds =>
    cases shown : s.indicator with
    | none =>
      refine ⟨placed.bezel, placed.mode, fun v h => ?_, placed.made⟩
      cases shown.symm.trans h
    | some v =>
      have kept (u : ℕ) (_ : s.indicator = some u) :
          (Function.update s.views v { s.views v with progress := s.progress } u).isa =
            (s.views u).isa := by
        by_cases same : u = v
        · rw [same, Function.update_self]
        · rw [Function.update_of_ne same]
      refine ⟨placed.bezel, placed.mode.of_same rfl rfl rfl kept, ?_, placed.made⟩
      intro u h _
      cases shown.symm.trans h
      show (Function.update s.views v { s.views v with progress := s.progress } v).progress = s.progress
      rw [Function.update_self]
  next silent =>
    refine ⟨placed.bezel, placed.mode, fun v h responds => ?_, placed.made⟩
    unfold isA at silent
    rw [h] at silent
    exact absurd responds silent

theorem coherent_commonInit : Coherent commonInit := by
  unfold commonInit updateIndicators
  refine (placed_changeIndicator rfl fun v used => ?_).passProgress
  rcases used with none_yet | none_yet <;> cases none_yet

theorem Coherent.updateIndicators {s t : HUDContents} (coherent : Coherent s)
    (indicator : t.indicator = s.indicator) (bezel : t.bezel = s.bezel) (next : t.next = s.next)
    (customView : ∀ v, t.customView = some v → v < s.next) : Coherent t.updateIndicators := by
  refine (placed_changeIndicator ?_ fun v used => ?_).passProgress
  · rw [bezel, indicator]
    exact coherent.bezel
  · rw [next]
    rcases used with shown | custom
    · exact coherent.made v (Or.inl (indicator ▸ shown))
    · exact customView v custom

/-- Every change keeps the one indicator of the mode, with the progress of the HUD. -/
theorem Coherent.step {s t : HUDContents} {change : HUDChange} (coherent : Coherent s)
    (taken : s.step change = some t) : Coherent t := by
  cases change with
  | setMode mode =>
    cases taken
    unfold HUDContents.setMode
    split
    next =>
      exact coherent.updateIndicators rfl rfl rfl fun v custom => coherent.made v (Or.inr custom)
    next => exact coherent
  | setCustomView view =>
    obtain ⟨known, rfl⟩ := guarded taken
    have bound : ∀ v, view = some v → v < s.next := by
      intro v same
      rw [same] at known
      exact of_decide_eq_true known
    unfold HUDContents.setCustomView
    split
    next =>
      split
      next => exact coherent.updateIndicators rfl rfl rfl bound
      next other =>
        have mode := coherent.mode
        refine ⟨coherent.bezel, ?_, coherent.progress, fun v used => ?_⟩
        · unfold ShowsMode at mode ⊢
          cases is : s.mode with
          | customView => exact absurd is other
          | _ => rw [is] at mode; exact mode
        · rcases used with shown | custom
          · exact coherent.made v (Or.inl shown)
          · exact bound v custom
    next => exact coherent
  | setProgress progress =>
    cases taken
    unfold HUDContents.setProgress
    split
    next => exact Placed.passProgress ⟨coherent.bezel, coherent.mode, coherent.made⟩
    next => exact coherent
  | makeView view =>
    cases taken
    have kept {v : ℕ} (used : s.indicator = some v) :
        (Function.update s.views s.next view v) = s.views v :=
      Function.update_of_ne (coherent.made v (Or.inl used)).ne _ _
    refine ⟨coherent.bezel, coherent.mode.of_same rfl rfl rfl fun v shown => ?_, fun v shown => ?_,
      fun v used => Nat.lt_succ_of_lt (coherent.made v used)⟩
    · exact congrArg IndicatorView.isa (kept shown)
    · show (Function.update s.views s.next view v).isa.respondsToSetProgress = true →
        (Function.update s.views s.next view v).progress = s.progress
      rw [kept shown]
      exact coherent.progress v shown

/-- Along every run of changes the bezel holds one indicator at most, it is the one of the mode,
and it shows the progress of the HUD if it shows one. -/
theorem indicator_follows_mode {changes : List HUDChange} {s : HUDContents}
    (reached : run step commonInit changes = some s) : Coherent s :=
  run_invariant (fun _ _ _ taken coherent => coherent.step taken) reached coherent_commonInit

/-- Half way, as a ring and then as a pie. -/
def ringThenPie : List HUDChange :=
  [.setProgress (1 / 2), .setMode .annularDeterminate, .setMode .determinate]

theorem indicator_follows_mode_ringThenPie :
    ∃ s, run step commonInit ringThenPie = some s ∧ Coherent s := by
  have runs : (run step commonInit ringThenPie).isSome = true := by decide +kernel
  obtain ⟨s, reached⟩ := Option.isSome_iff_exists.mp runs
  exact ⟨s, reached, indicator_follows_mode reached⟩

theorem passProgress_kept (s : HUDContents) :
    s.passProgress.mode = s.mode ∧
      ∀ p, s.passProgress.isA s.passProgress.indicator p = s.isA s.indicator p := by
  unfold passProgress
  split
  next =>
    cases shown : s.indicator with
    | none =>
      refine ⟨rfl, fun p => ?_⟩
      show s.isA s.indicator p = _
      rw [shown]
    | some v =>
      refine ⟨rfl, fun p => ?_⟩
      show (s.indicator.any fun u =>
        p (Function.update s.views v { s.views v with progress := s.progress } u).isa) = _
      rw [shown]
      show p (Function.update s.views v _ v).isa = p (s.views v).isa
      rw [Function.update_self]
  next => exact ⟨rfl, fun _ => rfl⟩

theorem changeIndicator_mode (s : HUDContents) : s.changeIndicator.mode = s.mode := by
  unfold changeIndicator
  cases mode : s.mode with
  | annularDeterminate =>
    dsimp only
    have kept (t : HUDContents) : t.setAnnular.mode = t.mode := by
      unfold setAnnular setView
      cases t.indicator <;> rfl
    rw [kept]
    split <;> exact mode
  | _ =>
    dsimp only
    repeat' split
    all_goals exact mode

theorem setMode_mode (s : HUDContents) (mode : MBProgressHUDMode) : (s.setMode mode).mode = mode := by
  unfold setMode
  split
  next => exact (passProgress_kept _).1.trans (changeIndicator_mode _)
  next same => exact (not_not.mp same).symm

/-- The round progress view draws a ring, not a pie. -/
def drawsRing (s : HUDContents) : Bool := s.isA s.indicator (· = .round true)

theorem Coherent.drawsRing_of_ne {s : HUDContents} (coherent : Coherent s)
    (other : s.mode ≠ .determinate) (view : s.mode ≠ .customView) :
    (s.isA s.indicator IndicatorClass.isRound = true ↔ s.mode = .annularDeterminate) ∧
      (s.drawsRing = true ↔ s.mode = .annularDeterminate) := by
  have shows_ := coherent.mode
  unfold drawsRing
  unfold ShowsMode isA at shows_
  unfold isA
  cases mode : s.mode with
  | determinate => exact absurd mode other
  | customView => exact absurd mode view
  | text =>
    rw [mode] at shows_
    simp [show s.indicator = none from shows_]
  | _ =>
    rw [mode] at shows_
    obtain ⟨v, shown, is⟩ := (Option.any_eq_true _ _).mp shows_
    rw [shown]
    simp_all [IndicatorClass.isRound]

/-- Going to `determinate`, the HUD keeps a round view with all its looks. -/
theorem drawsRing_setMode_determinate {s : HUDContents} (other : s.mode ≠ .determinate) :
    (s.setMode .determinate).drawsRing =
      (s.isA s.indicator IndicatorClass.isRound && s.drawsRing) := by
  unfold setMode
  rw [if_pos (Ne.symm other)]
  unfold drawsRing updateIndicators
  rw [(passProgress_kept _).2]
  unfold changeIndicator
  dsimp only
  split
  next round =>
    have round' : s.isA s.indicator IndicatorClass.isRound = true := round
    rw [round', Bool.true_and]
    rfl
  next flat =>
    have flat' : s.isA s.indicator IndicatorClass.isRound = false :=
      Bool.eq_false_iff.mpr flat
    rw [flat', Bool.false_and]
    exact isA_replaceByNew { s with mode := .determinate } _ _

def modeSet : HUDChange → Option MBProgressHUDMode
  | .setMode mode => some mode
  | _ => none

/-- The last mode that is not `determinate`. -/
def lastOtherMode (changes : List HUDChange) : MBProgressHUDMode :=
  ((changes.filterMap modeSet).filter (· ≠ .determinate)).getLast?.getD .indeterminate

theorem lastOtherMode_setMode {changes : List HUDChange} {mode : MBProgressHUDMode}
    (other : mode ≠ .determinate) : lastOtherMode (changes ++ [.setMode mode]) = mode := by
  simp [lastOtherMode, modeSet, List.filter_append, other]

theorem lastOtherMode_same {changes : List HUDChange} {change : HUDChange}
    (same : modeSet change = none ∨ modeSet change = some .determinate) :
    lastOtherMode (changes ++ [change]) = lastOtherMode changes := by
  unfold lastOtherMode
  rcases same with none | some <;>
    simp [List.filterMap_append, List.filter_append, *]

/-- What the modes of the past say about the mode and the looks of the round view. -/
structure Remembers (last : MBProgressHUDMode) (s : HUDContents) : Prop where
  mode : s.mode ≠ .determinate → s.mode = last
  ring : s.mode = .determinate → last ≠ .customView →
    (s.drawsRing = true ↔ last = .annularDeterminate)

theorem Remembers.of_same {last : MBProgressHUDMode} {s t : HUDContents} (remembers : Remembers last s)
    (mode : t.mode = s.mode) (ring : s.mode = .determinate → t.drawsRing = s.drawsRing) :
    Remembers last t := by
  refine ⟨fun other => ?_, fun is view => ?_⟩
  · rw [mode] at other ⊢
    exact remembers.mode other
  · rw [ring (mode ▸ is)]
    exact remembers.ring (mode ▸ is) view

theorem Remembers.step {s t : HUDContents} {changes : List HUDChange} {change : HUDChange}
    (remembers : Remembers (lastOtherMode changes) s) (coherent : Coherent s)
    (taken : s.step change = some t) : Remembers (lastOtherMode (changes ++ [change])) t := by
  cases change with
  | setMode mode =>
    cases taken
    have reached := setMode_mode s mode
    by_cases other : mode = .determinate
    · subst other
      rw [lastOtherMode_same (Or.inr rfl)]
      refine ⟨fun other => absurd reached other, fun _ view => ?_⟩
      by_cases same : s.mode = .determinate
      · have stays : s.setMode .determinate = s := if_neg (not_not.mpr same.symm)
        rw [stays]
        exact remembers.ring same view
      · rw [drawsRing_setMode_determinate same, Bool.and_eq_true]
        rw [← remembers.mode same] at view ⊢
        obtain ⟨round, ring⟩ := coherent.drawsRing_of_ne same view
        rw [round, ring, and_self_iff]
    · rw [lastOtherMode_setMode other]
      exact ⟨fun _ => reached, fun is => absurd (reached.symm.trans is) other⟩
  | setCustomView view =>
    obtain ⟨known, rfl⟩ := guarded taken
    rw [lastOtherMode_same (Or.inl rfl)]
    unfold HUDContents.setCustomView
    split
    next =>
      split
      next is =>
        refine remembers.of_same ?_ fun same => absurd (is.symm.trans same) (by decide)
        exact (passProgress_kept _).1.trans (changeIndicator_mode _)
      next => exact remembers.of_same rfl fun _ => rfl
    next => exact remembers
  | setProgress progress =>
    cases taken
    rw [lastOtherMode_same (Or.inl rfl)]
    unfold HUDContents.setProgress
    split
    next =>
      obtain ⟨mode, kept⟩ := passProgress_kept { s with progress := progress }
      exact remembers.of_same mode fun _ => kept _
    next => exact remembers
  | makeView view =>
    cases taken
    rw [lastOtherMode_same (Or.inl rfl)]
    refine remembers.of_same rfl fun _ => ?_
    refine isA_congr (s := s) (t := s.makeView view) rfl (fun v shown => ?_) _
    have old : v < s.next := coherent.made v (Or.inl shown)
    exact congrArg IndicatorView.isa (Function.update_of_ne old.ne _ _)

theorem remembers_run {changes : List HUDChange} {s : HUDContents}
    (reached : run step commonInit changes = some s) : Remembers (lastOtherMode changes) s := by
  induction changes using List.reverseRecOn generalizing s with
  | nil =>
    cases Option.some.inj reached
    exact ⟨fun _ => rfl, fun is => by cases is⟩
  | append_singleton changes change ih =>
    obtain ⟨t, before, last⟩ := run_append_some reached
    rw [run_singleton] at last
    exact (ih before).step (indicator_follows_mode before) last

/-- A HUD in the mode of the pie draws a ring exactly if the mode before was that of the ring;
after a custom view it depends on that view. -/
theorem determinate_drawsRing_iff {changes : List HUDChange} {s : HUDContents}
    (reached : run step commonInit changes = some s) (pie : s.mode = .determinate)
    (other : lastOtherMode changes ≠ .customView) :
    s.drawsRing = true ↔ lastOtherMode changes = .annularDeterminate :=
  (remembers_run reached).ring pie other

theorem determinate_drawsRing_iff_ringThenPie :
    ∃ s, run step commonInit ringThenPie = some s ∧ s.mode = .determinate ∧ s.drawsRing = true := by
  have runs : (run step commonInit ringThenPie).any (fun s => s.mode = .determinate) = true := by
    decide +kernel
  obtain ⟨s, reached, pie⟩ := (Option.any_eq_true _ _).mp runs
  have pie : s.mode = .determinate := of_decide_eq_true pie
  exact ⟨s, reached, pie, (determinate_drawsRing_iff reached pie (by decide)).mpr (by decide)⟩

end HUDContents

def MBDefaultPadding : ℚ := 4

structure BezelView where
  hidden : Bool
  intrinsicContentSize : ℚ × ℚ

def BezelView.visible (view : BezelView) : Bool :=
  !view.hidden && view.intrinsicContentSize ≠ (0, 0)

/-- The constraints of `updateConstraints` between each view and the one above it. -/
def paddingConstraints (subviews : List BezelView) : List (BezelView × BezelView) :=
  subviews.tail.zip subviews

/-- The loop of `updatePaddingConstraints`, with what it carries from one constraint to the next. -/
def paddingConstants : Bool → List (BezelView × BezelView) → List ℚ
  | _, [] => []
  | hasVisibleAncestors, (firstView, secondView) :: paddings =>
    (if firstView.visible && (secondView.visible || hasVisibleAncestors) then MBDefaultPadding else 0)
      :: paddingConstants (hasVisibleAncestors || secondView.visible) paddings

def updatePaddingConstraints (subviews : List BezelView) : List ℚ :=
  paddingConstants false (paddingConstraints subviews)

theorem paddingConstants_get (hasVisibleAncestors : Bool) (view : BezelView)
    (below : List BezelView) {i : ℕ} {next : BezelView} (listed : below[i]? = some next) :
    (paddingConstants hasVisibleAncestors (below.zip (view :: below)))[i]? =
      some (if next.visible && (hasVisibleAncestors ||
        ((view :: below).take (i + 1)).any BezelView.visible) then MBDefaultPadding else 0) := by
  induction below generalizing hasVisibleAncestors view i with
  | nil => cases listed
  | cons first below ih =>
    rw [List.zip_cons_cons]
    unfold paddingConstants
    cases i with
    | zero =>
      cases Option.some.inj listed
      simp [Bool.or_comm]
    | succ i =>
      rw [List.getElem?_cons_succ] at listed ⊢
      have above : (hasVisibleAncestors || view.visible ||
          ((first :: below).take (i + 1)).any BezelView.visible) =
          (hasVisibleAncestors || ((view :: first :: below).take (i + 1 + 1)).any BezelView.visible) := by
        simp only [List.take_succ_cons, List.any_cons, Bool.or_assoc]
      rw [ih _ _ listed, above]

theorem paddingConstants_sum (hasVisibleAncestors : Bool) (view : BezelView)
    (below : List BezelView) :
    (paddingConstants hasVisibleAncestors (below.zip (view :: below))).sum =
      MBDefaultPadding * (below.countP BezelView.visible +
        (if hasVisibleAncestors || view.visible then 1 else 0) - 1 : ℕ) := by
  induction below generalizing hasVisibleAncestors view with
  | nil => cases hasVisibleAncestors <;> cases view.visible <;> simp [paddingConstants]
  | cons next below ih =>
    rw [List.zip_cons_cons]
    unfold paddingConstants
    rw [List.sum_cons, ih, List.countP_cons]
    cases next.visible <;> cases hasVisibleAncestors <;> cases view.visible <;>
      simp [mul_add, add_comm]

/-- Whichever views are hidden or empty, the padding stands above each visible view that has a
visible one above it, so that there is one padding less than there are visible views. -/
theorem padding_above_visible (subviews : List BezelView) :
    (∀ i view, subviews[i + 1]? = some view → (updatePaddingConstraints subviews)[i]? =
      some (if view.visible && (subviews.take (i + 1)).any BezelView.visible
        then MBDefaultPadding else 0)) ∧
    (updatePaddingConstraints subviews).sum =
      MBDefaultPadding * (subviews.countP BezelView.visible - 1 : ℕ) := by
  unfold updatePaddingConstraints paddingConstraints
  cases subviews with
  | nil =>
    refine ⟨fun i view listed => ?_, ?_⟩
    · cases listed
    · simp [paddingConstants]
  | cons view below =>
    refine ⟨fun i next listed => ?_, ?_⟩
    · have constant := paddingConstants_get false view below listed
      rw [Bool.false_or] at constant
      exact constant
    · have total := paddingConstants_sum false view below
      rw [Bool.false_or] at total
      rw [List.countP_cons]
      exact total

end SwiftApp
