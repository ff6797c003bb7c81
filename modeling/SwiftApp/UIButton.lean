import SwiftApp.StepRun
import Mathlib.Algebra.Order.Field.Rat
import Mathlib.Algebra.Order.Ring.NNRat
import Mathlib.Tactic.Linarith

namespace SwiftApp

open StepRun
open scoped NNRat

/-- What the application does on the main thread. -/
inductive AppEffect
  | addAction (delay : ℚ) (action : Nat)
  | write (isEnabled : Bool)
  | elapse (seconds : ℚ≥0)
deriving DecidableEq

def AppEffect.isWrite : AppEffect → Bool
  | .write _ => true
  | _ => false

def AppEffect.isAddAction : AppEffect → Bool
  | .addAction _ _ => true
  | _ => false

/-- One run of the action: when it began, what it did, and the delays in force when it began and
when it returned. -/
structure ActionRun where
  actionBlock : Nat
  time : ℚ
  effects : List AppEffect
  actionDelay : ℚ
  delayAfter : ℚ
deriving DecidableEq

/-- The action itself sets the button up anew. -/
def ActionRun.callsAddAction (run : ActionRun) : Bool := run.effects.any AppEffect.isAddAction

/-- A button with the main queue's pending re-enable blocks (by their deadlines), the clock,
the value the application last wrote to `isEnabled`, and the runs of its action so far. -/
structure UIButton where
  isEnabled : Bool
  /-- the pair of target and action `addAction` registers, kept once -/
  touchUpInside : Bool
  actionDelay : ℚ
  actionBlock : Option Nat
  asyncAfter : List ℚ
  now : ℚ
  written : Option Bool
  runs : List ActionRun
deriving DecidableEq

inductive ButtonStep
  | app (effect : AppEffect)
  /-- a tap, with what the action does during this run -/
  | tap (effects : List AppEffect)
  | reenable (index : Nat)
deriving DecidableEq

/-- What the application does on its own account in a step. -/
def ButtonStep.effects : ButtonStep → List AppEffect
  | .app effect => [effect]
  | .tap effects => effects
  | .reenable _ => []

namespace UIButton

def initial (isEnabled : Bool) : UIButton := ⟨isEnabled, false, 0, none, [], 0, none, []⟩

def addAction (s : UIButton) (delay : ℚ) (action : Nat) : UIButton :=
  { s with touchUpInside := true, actionDelay := delay, actionBlock := some action }

def effect (s : UIButton) : AppEffect → UIButton
  | .addAction delay action => s.addAction delay action
  | .write isEnabled => { s with isEnabled := isEnabled, written := some isEnabled }
  | .elapse seconds => { s with now := s.now + seconds }

/-- `actionBlock?(button)` -/
def act (s : UIButton) (effects : List AppEffect) : UIButton :=
  match s.actionBlock with
  | some _ => effects.foldl effect s
  | none => s

def btnDelayClick (s : UIButton) (effects : List AppEffect) : UIButton :=
  let acted := s.act effects
  { acted with
    isEnabled := false
    asyncAfter := acted.asyncAfter ++ [acted.now + acted.actionDelay]
    runs := acted.runs ++
      (s.actionBlock.map fun action =>
        ⟨action, s.now, effects, s.actionDelay, acted.actionDelay⟩).toList }

def step (s : UIButton) : ButtonStep → Option UIButton
  | .app effect => some (s.effect effect)
  | .tap effects =>
    if s.isEnabled then some (if s.touchUpInside then s.btnDelayClick effects else s) else none
  | .reenable index =>
    match s.asyncAfter[index]? with
    | some deadline =>
      if deadline ≤ s.now then
        some { s with isEnabled := true, asyncAfter := s.asyncAfter.eraseIdx index }
      else none
    | none => none

theorem step_reenable {s t : UIButton} {index : Nat} (h : s.step (.reenable index) = some t) :
    ∃ deadline, s.asyncAfter[index]? = some deadline ∧ deadline ≤ s.now ∧
      t = { s with isEnabled := true, asyncAfter := s.asyncAfter.eraseIdx index } := by
  simp only [step] at h
  split at h
  next deadline pending =>
    obtain ⟨due, moved⟩ := guarded h
    exact ⟨deadline, pending, due, moved⟩
  next => cases h

theorem step_tap {s t : UIButton} {effects : List AppEffect} (h : s.step (.tap effects) = some t) :
    s.isEnabled = true ∧ t = if s.touchUpInside then s.btnDelayClick effects else s :=
  guarded h

theorem effect_frame (s : UIButton) (e : AppEffect) :
    (s.effect e).asyncAfter = s.asyncAfter ∧ (s.effect e).runs = s.runs ∧
      s.now ≤ (s.effect e).now := by
  cases e with
  | addAction delay action => exact ⟨rfl, rfl, le_refl s.now⟩
  | write isEnabled => exact ⟨rfl, rfl, le_refl s.now⟩
  | elapse seconds => exact ⟨rfl, rfl, le_add_of_nonneg_right seconds.2⟩

theorem effect_isEnabled {s : UIButton} {e : AppEffect} (quiet : e.isWrite = false) :
    (s.effect e).isEnabled = s.isEnabled := by
  cases e with
  | addAction delay action => rfl
  | write isEnabled => cases quiet
  | elapse seconds => rfl

theorem effect_actionDelay {s : UIButton} {e : AppEffect} (kept : e.isAddAction = false) :
    (s.effect e).actionDelay = s.actionDelay := by
  cases e with
  | addAction delay action => cases kept
  | write isEnabled => rfl
  | elapse seconds => rfl

/-- What each effect keeps, a run of the action keeps. -/
theorem act_keeps {P : UIButton → Prop} {s : UIButton} {effects : List AppEffect}
    (keep : ∀ e ∈ effects, ∀ t, P t → P (t.effect e)) (h : P s) : P (s.act effects) := by
  unfold act
  split
  next => exact List.foldlRecOn effects effect h fun t ht e he => keep e he t ht
  next => exact h

theorem act_frame (s : UIButton) (effects : List AppEffect) :
    (s.act effects).asyncAfter = s.asyncAfter ∧ (s.act effects).runs = s.runs ∧
      s.now ≤ (s.act effects).now := by
  apply act_keeps (P := fun t => t.asyncAfter = s.asyncAfter ∧ t.runs = s.runs ∧ s.now ≤ t.now)
  · intro e _ t ht
    obtain ⟨pending, runs, later⟩ := t.effect_frame e
    exact ⟨pending.trans ht.1, runs.trans ht.2.1, le_trans ht.2.2 later⟩
  · exact ⟨rfl, rfl, le_refl _⟩

theorem btnDelayClick_asyncAfter (s : UIButton) (effects : List AppEffect) :
    (s.btnDelayClick effects).asyncAfter =
      s.asyncAfter ++ [(s.act effects).now + (s.act effects).actionDelay] :=
  congrArg (· ++ _) (s.act_frame effects).1

/-- The run a tap on the enabled button adds. -/
def tapped (s : UIButton) (effects : List AppEffect) (action : Nat) : ActionRun :=
  ⟨action, s.now, effects, s.actionDelay, (s.act effects).actionDelay⟩

theorem btnDelayClick_runs (s : UIButton) (effects : List AppEffect) :
    (s.btnDelayClick effects).runs = s.runs ++ (s.actionBlock.map (s.tapped effects)).toList :=
  congrArg (· ++ _) (s.act_frame effects).2.1

/-- An action that does not set the button up anew keeps the delay it was tapped under. -/
theorem tapped_delayAfter {s : UIButton} {effects : List AppEffect} {action : Nat}
    (kept : (s.tapped effects action).callsAddAction = false) :
    (s.tapped effects action).delayAfter = (s.tapped effects action).actionDelay := by
  apply act_keeps (P := fun t => t.actionDelay = s.actionDelay)
  · intro e he t ht
    exact (effect_actionDelay (by simpa using List.any_eq_false.mp kept e he)).trans ht
  · rfl

/-- While the button is enabled nothing is pending and every delay is over; while it is
disabled one block is pending, and no delay is over before that block may run. -/
structure Debounced (s : UIButton) : Prop where
  kept : ∀ run ∈ s.runs, run.callsAddAction = false → run.delayAfter = run.actionDelay
  apart : s.runs.Pairwise fun run later => run.time + run.delayAfter ≤ later.time
  enabled : s.isEnabled = true →
    s.asyncAfter = [] ∧ ∀ run ∈ s.runs, run.time + run.delayAfter ≤ s.now
  disabled : s.isEnabled = false →
    ∃ deadline, s.asyncAfter = [deadline] ∧
      ∀ run ∈ s.runs, run.time + run.delayAfter ≤ max deadline s.now

theorem initial_debounced : (initial true).Debounced where
  kept := fun _ no => absurd no List.not_mem_nil
  apart := List.Pairwise.nil
  enabled := fun _ => ⟨rfl, fun _ no => absurd no List.not_mem_nil⟩
  disabled := fun no => by cases no

theorem effect_debounced {s : UIButton} {e : AppEffect} (quiet : e.isWrite = false)
    (h : s.Debounced) : (s.effect e).Debounced := by
  obtain ⟨pending, runs, later⟩ := s.effect_frame e
  have same := effect_isEnabled (s := s) quiet
  apply Debounced.mk
  · rw [runs]
    exact h.kept
  · rw [runs]
    exact h.apart
  · intro enabled
    obtain ⟨nothing, past⟩ := h.enabled (same.symm.trans enabled)
    rw [pending, runs]
    exact ⟨nothing, fun run hr => le_trans (past run hr) later⟩
  · intro disabled
    obtain ⟨deadline, one, past⟩ := h.disabled (same.symm.trans disabled)
    rw [pending, runs]
    refine ⟨deadline, one, fun run hr => le_trans (past run hr) ?_⟩
    exact max_le_max (le_refl deadline) later

theorem btnDelayClick_debounced {s : UIButton} {effects : List AppEffect} (enabled : s.isEnabled = true)
    (h : s.Debounced) : (s.btnDelayClick effects).Debounced := by
  obtain ⟨nothing, past⟩ := h.enabled enabled
  obtain ⟨pending, runs, later⟩ := s.act_frame effects
  rw [← pending] at nothing
  have begun : ∀ run ∈ (s.actionBlock.map (s.tapped effects)).toList,
      ∃ action, run = s.tapped effects action := by
    intro run hr
    obtain ⟨action, _, same⟩ := Option.map_eq_some_iff.mp (Option.mem_toList.mp hr)
    exact ⟨action, same.symm⟩
  apply Debounced.mk
  · rw [btnDelayClick_runs]
    intro run hr
    rcases List.mem_append.mp hr with old | new
    · exact h.kept run old
    · obtain ⟨action, rfl⟩ := begun run new
      exact tapped_delayAfter
  · rw [btnDelayClick_runs]
    refine List.pairwise_append.mpr ⟨h.apart, ?_, ?_⟩
    · cases s.actionBlock <;> simp
    · intro run hr next hn
      obtain ⟨action, rfl⟩ := begun next hn
      exact past run hr
  · intro no
    cases no
  · intro _
    rw [btnDelayClick_asyncAfter, btnDelayClick_runs, ← pending, nothing]
    refine ⟨_, rfl, fun run hr => ?_⟩
    rcases List.mem_append.mp hr with old | new
    · exact le_max_of_le_right (le_trans (past run old) later)
    · obtain ⟨action, rfl⟩ := begun run new
      exact le_max_of_le_left (add_le_add_left later _)

theorem step_debounced {s t : UIButton} {a : ButtonStep} (quiet : ∀ e ∈ a.effects, e.isWrite = false)
    (hstep : s.step a = some t) (h : s.Debounced) : t.Debounced := by
  cases a with
  | app e =>
    cases Option.some.inj hstep
    exact effect_debounced (quiet e List.mem_cons_self) h
  | tap effects =>
    obtain ⟨enabled, rfl⟩ := step_tap hstep
    split
    next => exact btnDelayClick_debounced enabled h
    next => exact h
  | reenable index =>
    obtain ⟨deadline, pending, due, rfl⟩ := step_reenable hstep
    cases flag : s.isEnabled with
    | true =>
      rw [(h.enabled flag).1] at pending
      cases pending
    | false =>
      obtain ⟨only, one, past⟩ := h.disabled flag
      rw [one] at pending
      have first : index = 0 := by
        have inside := (List.getElem?_eq_some_iff.mp pending).1
        simp only [List.length_singleton] at inside
        omega
      subst first
      cases Option.some.inj pending
      refine ⟨h.kept, h.apart, ?_, fun no => by cases no⟩
      intro _
      rw [max_eq_right due] at past
      refine ⟨?_, past⟩
      rw [one]
      rfl

end UIButton

/-- A timed run of a button that starts enabled, in which only the handler's own blocks
write the flag. -/
structure DebounceRun where
  steps : List ButtonStep
  button : UIButton
  ends : run UIButton.step (.initial true) steps = some button
  quiet : ∀ a ∈ steps, ∀ e ∈ a.effects, e.isWrite = false

/-- After every run, runs of the action are at least the delay apart that was in force when the
earlier one returned, which is the delay of its tap unless the action itself calls `addAction`; and
the button is disabled exactly while one re-enable block is pending, never more. -/
theorem actions_delay_apart (r : DebounceRun) :
    (r.button.runs.Pairwise fun run later => run.time + run.delayAfter ≤ later.time ∧
      (run.callsAddAction = false → run.time + run.actionDelay ≤ later.time)) ∧
      (r.button.isEnabled = true → r.button.asyncAfter = []) ∧
      (r.button.isEnabled = false → ∃ deadline, r.button.asyncAfter = [deadline]) := by
  have inv : r.button.Debounced := run_invariant_of_mem
    (fun s a ha t hstep hs => UIButton.step_debounced (r.quiet a ha) hstep hs) r.ends
    UIButton.initial_debounced
  refine ⟨?_, fun enabled => (inv.enabled enabled).1, ?_⟩
  · apply inv.apart.imp_of_mem
    intro run later hr _ apart
    refine ⟨apart, fun plain => ?_⟩
    rw [← inv.kept run hr plain]
    exact apart
  · intro disabled
    obtain ⟨deadline, one, _⟩ := inv.disabled disabled
    exact ⟨deadline, one⟩

/-- Tapped under a delay of 10, the action sets the button up anew with a delay of 1. -/
def rearmed : DebounceRun where
  steps := [.app (.addAction 10 0), .tap [.addAction 1 1], .app (.elapse 1), .reenable 0, .tap []]
  button := ⟨false, true, 1, some 1, [2], 1, none, [⟨0, 0, [.addAction 1 1], 10, 1⟩, ⟨1, 1, [], 1, 1⟩]⟩
  ends := by decide +kernel
  quiet := by decide

theorem actions_delay_apart_rearmed : rearmed.button.runs.map ActionRun.time = [0, 1] ∧
    rearmed.button.runs.Pairwise fun run later => run.time + run.delayAfter ≤ later.time :=
  ⟨rfl, (actions_delay_apart rearmed).1.imp And.left⟩

/-- The second run comes one second after the first, whose tap came under the delay of 10. -/
theorem rearmed_runs_too_soon : ¬ rearmed.button.runs.Pairwise fun run later =>
    run.time + run.actionDelay ≤ later.time := by
  decide +kernel

namespace UIButton

/-- With no block pending the flag is what the application wrote last. -/
def FollowsApp (s : UIButton) : Prop :=
  s.asyncAfter = [] → ∀ isEnabled, s.written = some isEnabled → s.isEnabled = isEnabled

/-- No re-enable block runs as the last one pending while the application's last word is to
keep the button disabled. -/
def LeavesDisabled (s : UIButton) : ButtonStep → Prop
  | .reenable _ => s.asyncAfter.length = 1 → s.written ≠ some false
  | _ => True

theorem followsApp_step {s t : UIButton} {a : ButtonStep} (hstep : s.step a = some t)
    (h : s.FollowsApp) : t.FollowsApp ↔ s.LeavesDisabled a := by
  cases a with
  | app e =>
    refine iff_of_true ?_ trivial
    cases Option.some.inj hstep
    cases e with
    | addAction delay action => exact h
    | write isEnabled =>
      intro _ value written
      exact Option.some.inj written
    | elapse seconds => exact h
  | tap effects =>
    refine iff_of_true ?_ trivial
    obtain ⟨_, rfl⟩ := step_tap hstep
    split
    next =>
      intro nothing
      rw [btnDelayClick_asyncAfter] at nothing
      exact absurd nothing (List.concat_ne_nil _ _)
    next => exact h
  | reenable index =>
    obtain ⟨deadline, pending, _, rfl⟩ := step_reenable hstep
    have inside := (List.getElem?_eq_some_iff.mp pending).1
    have last : s.asyncAfter.eraseIdx index = [] ↔ s.asyncAfter.length = 1 := by
      rw [← List.length_eq_zero_iff, List.length_eraseIdx_of_lt inside]
      omega
    apply Iff.intro
    · intro follows one written
      cases follows (last.mpr one) false written
    · intro allowed nothing isEnabled written
      cases isEnabled with
      | true => rfl
      | false => exact absurd written (allowed (last.mp nothing))

end UIButton

/-- Whenever no re-enable block is pending the button's flag is what the application wrote last,
all through a run, if and only if no block runs as the last one pending while that is `false`. -/
theorem button_follows_app_iff (isEnabled : Bool) (steps : List ButtonStep) :
    Always UIButton.step UIButton.FollowsApp (.initial isEnabled) steps ↔
      StepsMeet UIButton.step UIButton.LeavesDisabled (.initial isEnabled) steps := by
  apply always_iff_stepsMeet_of_step
  · exact fun s a t hstep h => UIButton.followsApp_step hstep h
  · intro _ value written
    cases written

/-- A submit button whose action disables it, one second after the tap. -/
def submitRun : List ButtonStep :=
  [.app (.addAction 1 0), .tap [.write false], .app (.elapse 1), .reenable 0]

theorem button_overrides_app : ¬ Always UIButton.step UIButton.FollowsApp (.initial true) submitRun := by
  intro always
  have ends : run UIButton.step (.initial true) submitRun =
      some ⟨true, true, 1, some 0, [], 1, some false, [⟨0, 0, [.write false], 1, 1⟩]⟩ := by
    decide +kernel
  cases always_end always ends rfl false rfl

end SwiftApp
