import SwiftApp.LottieCommands
import SwiftApp.LottieWork
import Mathlib.Data.Rat.Defs
import Mathlib.Tactic.Linarith

namespace SwiftApp

open StepRun

/-- The app with the screen on top: HUD 0 is its `hud`, the others are those `deleteAction` made,
and `timers` holds the times at which `dismissHUD` is due. -/
structure LottieViewController where
  app : LottieApp
  now : ℚ
  timers : List ℚ
  huds : ℕ

inductive LottieEvent
  | buttonTapped (tag : ℤ)
  | wait (seconds : ℚ)
  | timerFires (date : ℚ)
  | lottie (a : LottieStep)

def LottieEvent.isWork : LottieEvent → Bool
  | .timerFires _ => true
  | .lottie a => a.isWork
  | _ => false

def LottieEvent.isTap (tag : ℤ) : LottieEvent → Bool
  | .buttonTapped n => n = tag
  | _ => false

namespace LottieViewController

def initial (window : ℕ) (now : ℚ) : LottieViewController :=
  ⟨LottieApp.initial (some window) fun _ => .loop, now, [], 0⟩

def addAction (s : LottieViewController) : LottieViewController :=
  { s with app := s.app.showHUD 0 true, timers := s.timers ++ [s.now + 8] }

def deleteAction (s : LottieViewController) : LottieViewController :=
  let hud := s.huds + 1
  { s with app := s.app.showHUD hud true, huds := hud }

def updateAction (s : LottieViewController) : LottieViewController :=
  { s with app := s.app.showHUD 0 false }

def queryAction (s : LottieViewController) : LottieViewController := s

def dismissHUD (s : LottieViewController) : LottieViewController :=
  { s with app := s.app.stopHUD 0 }

def buttonTapped (tag : ℤ) (s : LottieViewController) : LottieViewController :=
  match tag with
  | 0 => s.addAction
  | 1 => s.deleteAction
  | 2 => s.updateAction
  | 3 => s.queryAction
  | _ => s

def step (s : LottieViewController) : LottieEvent → Option LottieViewController
  | .buttonTapped tag => some (s.buttonTapped tag)
  | .wait seconds => if 0 ≤ seconds then some { s with now := s.now + seconds } else none
  | .timerFires date =>
    if date ∈ s.timers ∧ date ≤ s.now then
      some ({ s with timers := s.timers.erase date } : LottieViewController).dismissHUD
    else none
  | .lottie a =>
    -- the HUDs are called by the screen only
    if a.isShowHUD ∨ a.isStopHUD then none else (s.app.step a).map fun app => { s with app }

/-- Nothing is under way: whatever time passes, no timer fires and no block, fade-out or animation
goes on. -/
def AtRest (s : LottieViewController) : Prop :=
  ∀ seconds, 0 ≤ seconds → ∀ a : LottieEvent, a.isWork = true →
    ({ s with now := s.now + seconds } : LottieViewController).step a = none

end LottieViewController

/-- What a piece of work does while one window is key. -/
inductive LottieApp.Works (window : ℕ) (s : LottieApp) : LottieApp → Prop
  | created {hud : ℕ} {later : List LottieBlock} (queue : s.mainQueue = .createHUD hud :: later) :
    Works window s { s with
      mainQueue := later
      isUserInteractionEnabled := Function.update s.isUserInteractionEnabled window false
      superview := Function.update s.superview hud (some window)
      isAnimationPlaying := Function.update s.isAnimationPlaying hud true
      completions := s.completions ++ if s.isAnimationPlaying hud then [hud] else [] }
  | cleared {hud : ℕ} {later : List LottieBlock} (queue : s.mainQueue = .clearHUD hud :: later) :
    Works window s { s with mainQueue := later, fades := s.fades ++ [hud] }
  | faded {hud : ℕ} (fading : hud ∈ s.fades) :
    Works window s { s with
      fades := s.fades.erase hud
      isUserInteractionEnabled := Function.update s.isUserInteractionEnabled window true
      superview := Function.update s.superview hud none
      isAnimationPlaying := Function.update s.isAnimationPlaying hud false
      completions := s.completions ++ if s.isAnimationPlaying hud then [hud] else [] }
  | ended {hud : ℕ} (playing : s.isAnimationPlaying hud = true) (once : s.loopMode hud = .playOnce) :
    Works window s { s with
      isAnimationPlaying := Function.update s.isAnimationPlaying hud false
      completions := s.completions ++ [hud] }
  | completed {hud : ℕ} (due : hud ∈ s.completions) :
    Works window s { s with
      completions := s.completions.erase hud
      mainQueue := s.mainQueue ++ [.clearHUD hud] }

theorem LottieApp.works_of_step {window : ℕ} {s t : LottieApp} {a : LottieStep}
    (key : s.keyWindow = some window) (work : a.isWork = true) (taken : s.step a = some t) :
    s.Works window t := by
  cases a with
  | showHUD | stopHUD | becomeKey => cases work
  | runBlock =>
    obtain ⟨block, later, queue, rfl⟩ := LottieApp.step_runBlock taken
    cases block with
    | createHUD hud =>
      rw [LottieBlock.run, LottieApp.createHUD_some (s := { s with mainQueue := later }) key]
      exact .created queue
    | clearHUD hud => exact .cleared queue
  | fadeEnds hud =>
    obtain ⟨fading, rfl⟩ := LottieApp.step_fadeEnds taken
    rw [LottieApp.faded_some (s := { s with fades := s.fades.erase hud }) key]
    exact .faded fading
  | playEnds hud =>
    obtain ⟨playing, once, rfl⟩ := LottieApp.step_playEnds taken
    rw [LottieApp.interrupt_eq, if_pos playing]
    exact .ended playing once
  | playCompletion hud =>
    obtain ⟨due, rfl⟩ := LottieApp.step_playCompletion taken
    exact .completed due

/-- A HUD on the window is on its way off it. -/
def LottieApp.Going (hud : ℕ) (s : LottieApp) : Prop :=
  s.superview hud = none ∨ s.isAnimationPlaying hud = true ∨ .clearHUD hud ∈ s.mainQueue ∨
    hud ∈ s.fades ∨ hud ∈ s.completions

/-- A HUD shown as often as said, and never cleared. -/
structure LottieApp.Kept (window hud shown : ℕ) (s : LottieApp) : Prop where
  looping : s.loopMode hud = .loop
  blocks : .clearHUD hud ∉ s.mainQueue
  fades : hud ∉ s.fades
  completions : hud ∉ s.completions
  playing : s.isAnimationPlaying hud = true → s.superview hud ≠ none
  placed : s.superview hud = none ∨ s.superview hud = some window
  shown : s.mainQueue.count (.createHUD hud) + (s.superview hud).toList.length = shown

theorem LottieApp.Going.works {window hud : ℕ} {s t : LottieApp} (going : s.Going hud)
    (works : s.Works window t) : t.Going hud := by
  cases works with
  | @created g later queue =>
    by_cases same : hud = g
    · subst same
      exact Or.inr (Or.inl (Function.update_self ..))
    · simp only [LottieApp.Going, Function.update_of_ne same, List.mem_append] at going ⊢
      rw [queue] at going
      rcases going with off | plays | cleared | fading | due
      · exact Or.inl off
      · exact Or.inr (Or.inl plays)
      · exact Or.inr (Or.inr (Or.inl (by simpa using cleared)))
      · exact Or.inr (Or.inr (Or.inr (Or.inl fading)))
      · exact Or.inr (Or.inr (Or.inr (Or.inr (Or.inl due))))
  | @cleared g later queue =>
    simp only [LottieApp.Going, List.mem_append, List.mem_singleton] at going ⊢
    rw [queue, List.mem_cons] at going
    rcases going with off | plays | (this | cleared) | fading | due
    · exact Or.inl off
    · exact Or.inr (Or.inl plays)
    · exact Or.inr (Or.inr (Or.inr (Or.inl (Or.inr (LottieBlock.clearHUD.inj this)))))
    · exact Or.inr (Or.inr (Or.inl cleared))
    · exact Or.inr (Or.inr (Or.inr (Or.inl (Or.inl fading))))
    · exact Or.inr (Or.inr (Or.inr (Or.inr due)))
  | @faded g fading =>
    by_cases same : hud = g
    · subst same
      exact Or.inl (Function.update_self ..)
    · simp only [LottieApp.Going, Function.update_of_ne same, List.mem_append,
        List.mem_erase_of_ne same] at going ⊢
      grind
  | @ended g plays once =>
    by_cases same : hud = g
    · subst same
      exact Or.inr (Or.inr (Or.inr (Or.inr (List.mem_append_right _ (List.mem_singleton_self _)))))
    · simp only [LottieApp.Going, Function.update_of_ne same, List.mem_append] at going ⊢
      grind
  | @completed g due =>
    by_cases same : hud = g
    · subst same
      exact Or.inr (Or.inr (Or.inl (List.mem_append_right _ (List.mem_singleton_self _))))
    · simp only [LottieApp.Going, List.mem_append, List.mem_erase_of_ne same] at going ⊢
      grind

theorem not_due {hud g : ℕ} {playing : Bool} {completions : List ℕ} (same : hud ≠ g)
    (none_due : hud ∉ completions) : hud ∉ completions ++ if playing then [g] else [] := by
  cases playing <;> simp [none_due, same]

theorem LottieApp.Kept.works {window hud shown : ℕ} {s t : LottieApp}
    (kept : s.Kept window hud shown) (once : shown ≤ 1) (works : s.Works window t) :
    t.Kept window hud shown := by
  obtain ⟨looping, blocks, fades, completions, playing, placed, count⟩ := kept
  cases works with
  | @created g later queue =>
    rw [queue] at blocks count
    have blocks' : .clearHUD hud ∉ later := fun listed => blocks (List.mem_cons_of_mem _ listed)
    by_cases same : hud = g
    · subst same
      rw [List.count_cons_self] at count
      have off : s.superview hud = none := by
        cases on : s.superview hud with
        | none => rfl
        | some w =>
          rw [on] at count
          simp at count
          omega
      have still : s.isAnimationPlaying hud = false := by
        by_contra plays
        exact playing (by simpa using plays) off
      refine ⟨looping, blocks', fades, by simpa [still] using completions, ?_, ?_, ?_⟩
      · simp
      · simp
      · rw [off] at count
        simpa using count
    · refine ⟨looping, blocks', fades, not_due same completions, ?_, ?_, ?_⟩
      · simpa [Function.update_of_ne same] using playing
      · simpa [Function.update_of_ne same] using placed
      · rw [List.count_cons_of_ne (by simpa using Ne.symm same)] at count
        simpa [Function.update_of_ne same] using count
  | @cleared g later queue =>
    rw [queue] at blocks count
    obtain ⟨other, blocks'⟩ := not_or.mp fun listed => blocks (List.mem_cons.mpr listed)
    have same : hud ≠ g := fun same => other (congrArg _ same)
    rw [List.count_cons_of_ne (by simp)] at count
    refine ⟨looping, blocks', ?_, completions, playing, placed, count⟩
    simp [fades, same]
  | @faded g fading =>
    have same : hud ≠ g := fun same => fades (same ▸ fading)
    refine ⟨looping, blocks, ?_, not_due same completions, ?_, ?_, ?_⟩
    · simpa [List.mem_erase_of_ne same] using fades
    · simpa [Function.update_of_ne same] using playing
    · simpa [Function.update_of_ne same] using placed
    · simpa [Function.update_of_ne same] using count
  | @ended g plays once =>
    have same : hud ≠ g := by
      intro same
      rw [← same, looping] at once
      cases once
    refine ⟨looping, blocks, fades, ?_, ?_, placed, count⟩
    · simp [completions, same]
    · simpa [Function.update_of_ne same] using playing
  | @completed g due =>
    have same : hud ≠ g := fun same => completions (same ▸ due)
    refine ⟨looping, ?_, fades, ?_, playing, placed, ?_⟩
    · simp [blocks, same]
    · simpa [List.mem_erase_of_ne same] using completions
    · simpa using count

/-- Only a new `showHUD` can bring back a mask on its way off. -/
theorem LottieApp.Leaving.works {window hud : ℕ} {s t : LottieApp} (leaving : s.Leaving hud)
    (works : s.Works window t) : t.Leaving hud := by
  cases works with
  | @created g later queue =>
    rcases leaving with ⟨front, back, split, none_behind⟩ | ⟨none_queued, way⟩
    · rw [queue] at split
      cases front with
      | nil => cases split
      | cons block front => exact Or.inl ⟨front, back, (List.cons.inj split).2, none_behind⟩
    · rw [queue] at none_queued
      obtain ⟨other, none_later⟩ := not_or.mp fun listed => none_queued (List.mem_cons.mpr listed)
      have same : hud ≠ g := fun same => other (congrArg _ same)
      refine Or.inr ⟨none_later, way.imp_right (Or.imp (List.mem_append_left _) fun off => ?_)⟩
      exact (Function.update_of_ne same ..).trans off
  | @cleared g later queue =>
    rcases leaving with ⟨front, back, split, none_behind⟩ | ⟨none_queued, way⟩
    · rw [queue] at split
      cases front with
      | nil =>
        cases split
        exact Or.inr ⟨none_behind, Or.inl (List.mem_append_right _ (List.mem_singleton_self hud))⟩
      | cons block front => exact Or.inl ⟨front, back, (List.cons.inj split).2, none_behind⟩
    · rw [queue] at none_queued
      refine Or.inr ⟨fun listed => none_queued (List.mem_cons_of_mem _ listed), ?_⟩
      exact way.imp_left (List.mem_append_left _)
  | @faded g fading =>
    rcases leaving with behind | ⟨none_queued, way⟩
    · exact Or.inl behind
    · refine Or.inr ⟨none_queued, ?_⟩
      by_cases same : hud = g
      · subst same
        exact Or.inr (Or.inr (Function.update_self ..))
      · rcases way with fades | due | off
        · exact Or.inl ((List.mem_erase_of_ne same).mpr fades)
        · exact Or.inr (Or.inl (List.mem_append_left _ due))
        · exact Or.inr (Or.inr ((Function.update_of_ne same ..).trans off))
  | @ended g plays once =>
    rcases leaving with behind | ⟨none_queued, way⟩
    · exact Or.inl behind
    · exact Or.inr ⟨none_queued, way.imp_right (Or.imp_left (List.mem_append_left _))⟩
  | @completed g due =>
    by_cases same : hud = g
    · subst same
      exact Or.inl ⟨s.mainQueue, [], rfl, List.not_mem_nil⟩
    · rcases leaving with ⟨front, back, split, none_behind⟩ | ⟨none_queued, way⟩
      · refine Or.inl ⟨front, back ++ [.clearHUD g], by simp [split], ?_⟩
        simpa using none_behind
      · refine Or.inr ⟨by simpa using none_queued, ?_⟩
        exact way.imp_right (Or.imp_left (List.mem_erase_of_ne same).mpr)

/-- With only HUD 0 about, its mask is there exactly while the window ignores touches. -/
theorem LottieApp.masked_works {window : ℕ} {s t : LottieApp}
    (others : ∀ hud, 0 < hud → s.Kept window hud 0)
    (mask : s.Shown 0 window ∨ s.Hidden 0 window) (works : s.Works window t) :
    t.Shown 0 window ∨ t.Hidden 0 window := by
  cases works with
  | @created g later queue =>
    have own : g = 0 := by
      by_contra other
      have none_queued := (others g (by omega)).shown
      rw [queue, List.count_cons_self] at none_queued
      omega
    subst own
    exact Or.inl (by simp [LottieApp.Shown])
  | @faded g fading =>
    have own : g = 0 := by
      by_contra other
      exact (others g (by omega)).fades fading
    subst own
    exact Or.inr (by simp [LottieApp.Hidden])
  | cleared | ended | completed => exact mask

/-- A block put behind the others. -/
def LottieApp.enqueue (block : LottieBlock) (s : LottieApp) : LottieApp :=
  { s with mainQueue := s.mainQueue ++ [block] }

theorem LottieApp.Going.enqueue {hud : ℕ} {s : LottieApp} {block : LottieBlock}
    (going : s.Going hud) : (s.enqueue block).Going hud :=
  going.imp_right (Or.imp_right (Or.imp_left (List.mem_append_left _)))

theorem LottieApp.Kept.enqueue {window hud shown : ℕ} {s : LottieApp} {block : LottieBlock}
    (kept : s.Kept window hud shown) (other : block.hud ≠ hud) :
    (s.enqueue block).Kept window hud shown := by
  refine ⟨kept.looping, ?_, kept.fades, kept.completions, kept.playing, kept.placed, ?_⟩
  · intro listed
    rcases List.mem_append.mp listed with old | new
    · exact kept.blocks old
    · rw [← List.mem_singleton.mp new] at other
      exact other rfl
  · have none_new : List.count (LottieBlock.createHUD hud) [block] = 0 := by
      refine List.count_eq_zero.mpr fun new => ?_
      rw [← List.mem_singleton.mp new] at other
      exact other rfl
    have count := kept.shown
    simp only [LottieApp.enqueue, List.count_append]
    omega

theorem LottieApp.Kept.showHUD {window hud shown g : ℕ} {loop : Bool} {s : LottieApp}
    (kept : s.Kept window hud shown) (other : g ≠ hud) : (s.showHUD g loop).Kept window hud shown := by
  have queued : (s.enqueue (.createHUD g)).Kept window hud shown := kept.enqueue other
  refine { queued with looping := ?_ }
  exact (Function.update_of_ne other.symm ..).trans kept.looping

/-- The HUD of a `deleteAction`. -/
theorem LottieApp.Kept.made {window hud : ℕ} {s : LottieApp} (kept : s.Kept window hud 0) :
    (s.showHUD hud true).Kept window hud 1 := by
  refine ⟨Function.update_self .., ?_, kept.fades, kept.completions, kept.playing, kept.placed, ?_⟩
  · simpa [LottieApp.showHUD] using kept.blocks
  · have count := kept.shown
    simp only [LottieApp.showHUD, List.count_append, List.count_singleton_self]
    omega

theorem LottieApp.Leaving.showHUD {hud g : ℕ} {loop : Bool} {s : LottieApp} (leaving : s.Leaving hud)
    (other : g ≠ hud) : (s.showHUD g loop).Leaving hud := by
  rcases leaving with ⟨front, back, split, none_behind⟩ | ⟨none_queued, way⟩
  · refine Or.inl ⟨front, back ++ [.createHUD g], by simp [LottieApp.showHUD, split], ?_⟩
    simpa [other.symm] using none_behind
  · exact Or.inr ⟨by simpa [LottieApp.showHUD, other.symm] using none_queued, way⟩

namespace LottieViewController

structure Held (window : ℕ) (s : LottieViewController) : Prop where
  key : s.app.keyWindow = some window
  going : s.app.Going 0
  dismissed : s.app.loopMode 0 = .loop → s.timers ≠ [] ∨ s.app.Leaving 0
  kept : ∀ hud, 0 < hud → s.app.Kept window hud (if hud ≤ s.huds then 1 else 0)
  mask : s.huds = 0 → s.app.Shown 0 window ∨ s.app.Hidden 0 window

theorem held_initial (window : ℕ) (now : ℚ) : (initial window now).Held window where
  key := rfl
  going := Or.inl rfl
  dismissed _ := Or.inr (Or.inr ⟨List.not_mem_nil, Or.inr (Or.inr rfl)⟩)
  kept hud made := by
    show (initial window now).app.Kept window hud (if hud ≤ 0 then 1 else 0)
    rw [if_neg (by omega)]
    exact ⟨rfl, List.not_mem_nil, List.not_mem_nil, List.not_mem_nil,
      fun plays => absurd plays Bool.false_ne_true, Or.inl rfl, rfl⟩
  mask _ := Or.inr ⟨rfl, rfl⟩

theorem Held.addAction {window : ℕ} {s : LottieViewController} (held : s.Held window) :
    s.addAction.Held window where
  key := held.key
  going := held.going.enqueue
  dismissed _ := Or.inl (by simp [LottieViewController.addAction])
  kept hud made := (held.kept hud made).showHUD made.ne
  mask := held.mask

theorem Held.updateAction {window : ℕ} {s : LottieViewController} (held : s.Held window) :
    s.updateAction.Held window where
  key := held.key
  going := held.going.enqueue
  dismissed loops := by simp [LottieViewController.updateAction, LottieApp.showHUD] at loops
  kept hud made := (held.kept hud made).showHUD made.ne
  mask := held.mask

theorem Held.deleteAction {window : ℕ} {s : LottieViewController} (held : s.Held window) :
    s.deleteAction.Held window where
  key := held.key
  going := held.going.enqueue
  dismissed loops := by
    have loops' : s.app.loopMode 0 = .loop := by
      simpa [LottieViewController.deleteAction, LottieApp.showHUD,
        Function.update_of_ne (Nat.succ_pos s.huds).ne] using loops
    exact (held.dismissed loops').imp_right fun leaving => leaving.showHUD (Nat.succ_ne_zero _)
  kept hud made := by
    show (s.app.showHUD (s.huds + 1) true).Kept window hud (if hud ≤ s.huds + 1 then 1 else 0)
    have kept := held.kept hud made
    by_cases same : hud = s.huds + 1
    · subst same
      rw [if_neg (by omega)] at kept
      rw [if_pos (le_refl _)]
      exact kept.made
    · have before : hud ≤ s.huds + 1 ↔ hud ≤ s.huds := by omega
      simp only [before]
      exact kept.showHUD (Ne.symm same)
  mask none_made := by cases none_made

theorem Held.buttonTapped {window : ℕ} {s : LottieViewController} (held : s.Held window) (tag : ℤ) :
    (s.buttonTapped tag).Held window := by
  unfold LottieViewController.buttonTapped
  split
  next => exact held.addAction
  next => exact held.deleteAction
  next => exact held.updateAction
  next => exact held
  next => exact held

theorem Held.dismissHUD {window : ℕ} {s : LottieViewController} (held : s.Held window)
    (timers : List ℚ) :
    ({ s with timers := timers } : LottieViewController).dismissHUD.Held window where
  key := held.key
  going := held.going.enqueue
  dismissed _ := Or.inr (LottieApp.clearHUD_leaving 0 s.app)
  kept hud made := (held.kept hud made).enqueue made.ne
  mask := held.mask

theorem Held.works {window : ℕ} {s : LottieViewController} {app : LottieApp} (held : s.Held window)
    (works : s.app.Works window app) : ({ s with app := app } : LottieViewController).Held window where
  key := by cases works <;> exact held.key
  going := held.going.works works
  dismissed loops := by
    have loops' : s.app.loopMode 0 = .loop := by cases works <;> exact loops
    exact (held.dismissed loops').imp_right fun leaving => leaving.works works
  kept hud made := by
    refine (held.kept hud made).works ?_ works
    split <;> omega
  mask none_made := by
    refine LottieApp.masked_works (fun hud made => ?_) (held.mask none_made) works
    have kept := held.kept hud made
    rwa [if_neg] at kept
    have : s.huds = 0 := none_made
    omega

theorem step_lottie {s t : LottieViewController} {a : LottieStep} (taken : s.step (.lottie a) = some t) :
    a.isShowHUD = false ∧ a.isStopHUD = false ∧
      ∃ app, s.app.step a = some app ∧ t = { s with app := app } := by
  simp only [step] at taken
  split at taken
  next => cases taken
  next system =>
    obtain ⟨app, now, rfl⟩ := Option.map_eq_some_iff.mp taken
    obtain ⟨no_show, no_stop⟩ := not_or.mp system
    exact ⟨by simpa using no_show, by simpa using no_stop, app, now, rfl⟩

theorem step_timerFires {s t : LottieViewController} {date : ℚ}
    (taken : s.step (.timerFires date) = some t) : date ∈ s.timers ∧
      t = ({ s with timers := s.timers.erase date } : LottieViewController).dismissHUD := by
  obtain ⟨can, rfl⟩ := guarded taken
  exact ⟨can.1, rfl⟩

theorem step_wait {s t : LottieViewController} {seconds : ℚ} (taken : s.step (.wait seconds) = some t) :
    t = { s with now := s.now + seconds } :=
  (guarded taken).2

theorem Held.step {window : ℕ} {s t : LottieViewController} {a : LottieEvent} (held : s.Held window)
    (same_key : ∀ w, a ≠ .lottie (.becomeKey w)) (taken : s.step a = some t) : t.Held window := by
  cases a with
  | buttonTapped tag =>
    cases taken
    exact held.buttonTapped tag
  | wait seconds =>
    rw [step_wait taken]
    exact ⟨held.key, held.going, held.dismissed, held.kept, held.mask⟩
  | timerFires date =>
    rw [(step_timerFires taken).2]
    exact held.dismissHUD _
  | lottie a =>
    obtain ⟨no_show, no_stop, app, now, rfl⟩ := step_lottie taken
    cases a with
    | showHUD => cases no_show
    | stopHUD => cases no_stop
    | becomeKey w => exact absurd rfl (same_key w)
    | _ => exact held.works (LottieApp.works_of_step held.key rfl now)

theorem huds_step {s t : LottieViewController} {a : LottieEvent} (taken : s.step a = some t) :
    t.huds = s.huds + (a.isTap 1).toNat := by
  cases a with
  | buttonTapped tag =>
    cases taken
    unfold LottieViewController.buttonTapped
    split
    next => rfl
    next => rfl
    next => rfl
    next => rfl
    next no_add no_delete no_update no_query =>
      have other : ¬ tag = 1 := no_delete
      simp [LottieEvent.isTap, other]
  | wait seconds =>
    rw [step_wait taken]
    rfl
  | timerFires date =>
    rw [(step_timerFires taken).2]
    rfl
  | lottie a =>
    obtain ⟨_, _, app, _, rfl⟩ := step_lottie taken
    rfl

theorem AtRest.lottie {s : LottieViewController} (rest : s.AtRest) {a : LottieStep}
    (work : a.isWork = true) : s.app.step a = none := by
  have none_now := rest 0 (le_refl 0) (.lottie a) work
  have system : ¬ (a.isShowHUD = true ∨ a.isStopHUD = true) := by
    cases a <;> simp [LottieStep.isShowHUD, LottieStep.isStopHUD, LottieStep.isWork] at work ⊢
  rw [step, if_neg system] at none_now
  exact Option.map_eq_none_iff.mp none_now

theorem AtRest.timers {s : LottieViewController} (rest : s.AtRest) : s.timers = [] := by
  by_contra some_left
  obtain ⟨date, listed⟩ := List.exists_mem_of_ne_nil _ some_left
  have none_then := rest (max 0 (date - s.now)) (le_max_left _ _) (.timerFires date) rfl
  have due : date ≤ s.now + max 0 (date - s.now) := by
    have late := le_max_right 0 (date - s.now)
    linarith
  rw [step, if_pos ⟨listed, due⟩] at none_then
  cases none_then

theorem AtRest.mainQueue {s : LottieViewController} (rest : s.AtRest) : s.app.mainQueue = [] := by
  have none_now := rest.lottie (a := .runBlock) rfl
  cases queue : s.app.mainQueue with
  | nil => rfl
  | cons block later => simp [LottieApp.step, queue] at none_now

theorem AtRest.fades {s : LottieViewController} (rest : s.AtRest) : s.app.fades = [] := by
  refine List.eq_nil_iff_forall_not_mem.mpr fun hud fading => ?_
  have none_now := rest.lottie (a := .fadeEnds hud) rfl
  simp [LottieApp.step, fading] at none_now

theorem AtRest.completions {s : LottieViewController} (rest : s.AtRest) : s.app.completions = [] := by
  refine List.eq_nil_iff_forall_not_mem.mpr fun hud due => ?_
  have none_now := rest.lottie (a := .playCompletion hud) rfl
  simp [LottieApp.step, due] at none_now

theorem AtRest.looping {s : LottieViewController} (rest : s.AtRest) {hud : ℕ}
    (playing : s.app.isAnimationPlaying hud = true) : s.app.loopMode hud = .loop := by
  have none_now := rest.lottie (a := .playEnds hud) rfl
  cases mode : s.app.loopMode hud with
  | loop => rfl
  | playOnce => simp [LottieApp.step, playing, mode] at none_now

theorem Held.hidden {window : ℕ} {s : LottieViewController} (held : s.Held window) (rest : s.AtRest) :
    s.app.superview 0 = none := by
  have stays (leaving : s.app.Leaving 0) : s.app.superview 0 = none := by
    rcases leaving with ⟨front, back, split, _⟩ | ⟨_, fading | due | off⟩
    · simp [rest.mainQueue] at split
    · simp [rest.fades] at fading
    · simp [rest.completions] at due
    · exact off
  rcases held.going with off | playing | cleared | fading | due
  · exact off
  · rcases held.dismissed (rest.looping playing) with timed | leaving
    · exact absurd rest.timers timed
    · exact stays leaving
  · simp [rest.mainQueue] at cleared
  · simp [rest.fades] at fading
  · simp [rest.completions] at due

theorem Held.superview {window : ℕ} {s : LottieViewController} (held : s.Held window) (rest : s.AtRest)
    (hud : ℕ) : s.app.superview hud = if 0 < hud ∧ hud ≤ s.huds then some window else none := by
  by_cases made : 0 < hud
  · have kept := held.kept hud made
    have shown := kept.shown
    rw [rest.mainQueue, List.count_nil, Nat.zero_add] at shown
    by_cases before : hud ≤ s.huds
    · rw [if_pos ⟨made, before⟩]
      rw [if_pos before] at shown
      rcases kept.placed with off | on
      · simp [off] at shown
      · exact on
    · rw [if_neg fun both => before both.2]
      rw [if_neg before] at shown
      cases on : s.app.superview hud with
      | none => rfl
      | some w => simp [on] at shown
  · rw [if_neg fun both => made both.1]
    have own : hud = 0 := by omega
    rw [own]
    exact held.hidden rest

/-- What the taps and timers can still lead to. -/
def potential (s : LottieViewController) : ℕ := s.app.weight (s.huds + 1) + 3 * s.timers.length

def cost (a : LottieEvent) : ℕ := if a.isWork then 1 else 0

def credit (a : LottieEvent) : ℕ :=
  (if a.isTap 0 then 8 else 0) + (if a.isTap 1 then 5 else 0) + if a.isTap 2 then 5 else 0

/-- A `showHUD` call, of a HUD known before or of a new one. -/
theorem showHUD_weight {bound hud : ℕ} {app : LottieApp} (loop : Bool) (below : app.Below bound)
    (known : hud < bound) : (app.showHUD hud loop).weight bound ≤ app.weight bound + 5 ∧
      (app.showHUD hud loop).Below bound :=
  LottieApp.step_weight (a := .showHUD hud loop) below known rfl

theorem below_succ {bound : ℕ} {app : LottieApp} (below : app.Below bound) :
    app.weight (bound + 1) = app.weight bound ∧ app.Below (bound + 1) := by
  have still : app.isAnimationPlaying bound = false := by
    by_contra plays
    exact lt_irrefl _ (below.playing bound (by simpa using plays))
  refine ⟨?_, ?_⟩
  · unfold LottieApp.weight
    rw [playsBelow_succ still]
  · exact ⟨fun b listed => (below.blocks b listed).trans (Nat.lt_succ_self _),
      fun g listed => (below.fades g listed).trans (Nat.lt_succ_self _),
      fun g listed => (below.completions g listed).trans (Nat.lt_succ_self _),
      fun g plays => (below.playing g plays).trans (Nat.lt_succ_self _)⟩

theorem buttonTapped_pays {s : LottieViewController} (below : s.app.Below (s.huds + 1)) (tag : ℤ) :
    (s.buttonTapped tag).potential ≤ s.potential + credit (.buttonTapped tag) ∧
      (s.buttonTapped tag).app.Below ((s.buttonTapped tag).huds + 1) := by
  unfold LottieViewController.buttonTapped
  split
  next =>
    obtain ⟨less, below'⟩ := showHUD_weight true below (Nat.succ_pos s.huds)
    refine ⟨?_, below'⟩
    have eight : credit (.buttonTapped 0) = 8 := rfl
    have timed : (s.timers ++ [s.now + 8]).length = s.timers.length + 1 := List.length_append
    simp only [potential, addAction]
    omega
  next =>
    obtain ⟨same, below'⟩ := below_succ below
    obtain ⟨less, below''⟩ := showHUD_weight true below' (Nat.lt_succ_self (s.huds + 1))
    refine ⟨?_, below''⟩
    have five : credit (.buttonTapped 1) = 5 := rfl
    simp only [potential, deleteAction]
    omega
  next =>
    obtain ⟨less, below'⟩ := showHUD_weight false below (Nat.succ_pos s.huds)
    refine ⟨?_, below'⟩
    have five : credit (.buttonTapped 2) = 5 := rfl
    simp only [potential, updateAction]
    omega
  next => exact ⟨Nat.le_add_right _ _, below⟩
  next => exact ⟨Nat.le_add_right _ _, below⟩

theorem step_pays {s t : LottieViewController} {a : LottieEvent} (taken : s.step a = some t)
    (below : s.app.Below (s.huds + 1)) :
    t.potential + cost a ≤ s.potential + credit a ∧ t.app.Below (t.huds + 1) := by
  cases a with
  | buttonTapped tag =>
    cases taken
    exact buttonTapped_pays below tag
  | wait seconds =>
    rw [step_wait taken]
    exact ⟨le_refl _, below⟩
  | timerFires date =>
    obtain ⟨listed, rfl⟩ := step_timerFires taken
    have stop : (s.app.stopHUD 0).weight (s.huds + 1) + 0 ≤ s.app.weight (s.huds + 1) + 2 ∧
        (s.app.stopHUD 0).Below (s.huds + 1) :=
      LottieApp.step_weight (a := .stopHUD 0) below (Nat.succ_pos s.huds) rfl
    refine ⟨?_, stop.2⟩
    have length := List.length_erase_add_one listed
    have one : cost (.timerFires date) = 1 := rfl
    simp only [potential, dismissHUD]
    omega
  | lottie a =>
    obtain ⟨no_show, no_stop, app, now, rfl⟩ := step_lottie taken
    have known : a.called < s.huds + 1 := by
      cases a with
      | showHUD => cases no_show
      | stopHUD => cases no_stop
      | _ => exact Nat.succ_pos _
    obtain ⟨less, below'⟩ := LottieApp.step_weight below known now
    refine ⟨?_, below'⟩
    have free : a.credit = 0 := by simp [LottieStep.credit, no_show, no_stop]
    have same : cost (.lottie a) = a.cost := rfl
    have none_tapped : credit (.lottie a) = 0 := rfl
    simp only [potential]
    omega

theorem sum_credit (events : List LottieEvent) : (events.map credit).sum =
    8 * events.countP (LottieEvent.isTap 0) + 5 * events.countP (LottieEvent.isTap 1) +
      5 * events.countP (LottieEvent.isTap 2) := by
  rw [← sum_map_ite_countP (LottieEvent.isTap 0), ← sum_map_ite_countP (LottieEvent.isTap 1),
    ← sum_map_ite_countP (LottieEvent.isTap 2), ← List.sum_map_add, ← List.sum_map_add]
  rfl

/-- However the taps, the timers and the work of the HUDs interleave, the work the taps lead to is
bounded, and when no more is left the screen shows the HUDs of `deleteAction` and no other. -/
theorem taps_settle {window : ℕ} {now : ℚ} {events : List LottieEvent} {s : LottieViewController}
    (ran : run step (initial window now) events = some s)
    (same_key : ∀ w, LottieEvent.lottie (.becomeKey w) ∉ events) :
    events.countP LottieEvent.isWork ≤ 8 * events.countP (LottieEvent.isTap 0) +
        5 * events.countP (LottieEvent.isTap 1) + 5 * events.countP (LottieEvent.isTap 2) ∧
      (s.AtRest →
        (∀ hud, s.app.superview hud =
          if 0 < hud ∧ hud ≤ events.countP (LottieEvent.isTap 1) then some window else none) ∧
        (events.countP (LottieEvent.isTap 1) = 0 → s.app.isUserInteractionEnabled window = true)) := by
  have below : (initial window now).app.Below ((initial window now).huds + 1) :=
    LottieApp.below_initial _ _ _
  have empty : (initial window now).potential = 0 := by
    rw [potential, initial, LottieApp.weight_initial]
    rfl
  have pays : ∀ s a t, a ∈ events → step s a = some t → s.app.Below (s.huds + 1) →
      t.potential + cost a ≤ s.potential + credit a ∧ t.app.Below (t.huds + 1) :=
    fun s a t _ taken below => step_pays taken below
  have paid := run_amortized pays ran below
  have work : (events.map cost).sum = 1 * events.countP LottieEvent.isWork :=
    sum_map_ite_countP LottieEvent.isWork 1 events
  rw [empty, work, sum_credit] at paid
  refine ⟨by omega, fun rest => ?_⟩
  have made : s.huds = (initial window now).huds + events.countP (LottieEvent.isTap 1) :=
    run_counts (fun s a t taken => huds_step taken) ran
  have huds : s.huds = events.countP (LottieEvent.isTap 1) := made.trans (Nat.zero_add _)
  have held : s.Held window := by
    refine run_invariant_of_mem ?_ ran (held_initial window now)
    intro u a listed t taken held
    exact held.step (fun w same => same_key w (same ▸ listed)) taken
  rw [← huds]
  refine ⟨held.superview rest, fun none_made => ?_⟩
  rcases held.mask none_made with shown | hidden
  · have off := held.hidden rest
    rw [shown.1] at off
    cases off
  · exact hidden.2

theorem atRest_of_quiet {s : LottieViewController} (timers : s.timers = []) (queue : s.app.mainQueue = [])
    (fades : s.app.fades = []) (completions : s.app.completions = [])
    (looping : ∀ hud, s.app.isAnimationPlaying hud = true → s.app.loopMode hud = .loop) : s.AtRest := by
  intro seconds _ a work
  cases a with
  | buttonTapped | wait => cases work
  | timerFires date => simp [step, timers]
  | lottie a =>
    cases a with
    | showHUD | stopHUD | becomeKey => cases work
    | runBlock => simp [step, LottieApp.step, queue]
    | fadeEnds hud => simp [step, LottieApp.step, fades]
    | playCompletion hud => simp [step, LottieApp.step, completions]
    | playEnds hud =>
      have goes_on : ¬ (s.app.isAnimationPlaying hud = true ∧ s.app.loopMode hud = .playOnce) := by
        intro over_soon
        rw [looping hud over_soon.1] at over_soon
        cases over_soon.2
      simp only [step, LottieApp.step, if_neg goes_on]
      rfl

/-- The second and the third button, one after the other. -/
def deleteThenUpdate : List LottieEvent :=
  [.buttonTapped 1, .buttonTapped 2, .lottie .runBlock, .lottie .runBlock, .lottie (.playEnds 0),
    .lottie (.playCompletion 0), .lottie .runBlock, .lottie (.fadeEnds 0)]

theorem taps_settle_deleteThenUpdate : ∃ s, run step (initial 0 0) deleteThenUpdate = some s ∧ s.AtRest ∧
    s.app.superview 0 = none ∧ s.app.superview 1 = some 0 := by
  have ran : (run step (initial 0 0) deleteThenUpdate).isSome = true := rfl
  have same_key : ∀ w, LottieEvent.lottie (.becomeKey w) ∉ deleteThenUpdate := by
    simp [deleteThenUpdate]
  have rest : ((run step (initial 0 0) deleteThenUpdate).get ran).AtRest := by
    refine atRest_of_quiet rfl rfl rfl rfl fun hud playing => ?_
    by_cases own : hud = 0
    · subst own
      cases playing
    · show Function.update (Function.update (fun _ => LottieLoopMode.loop) 1 .loop) 0 .playOnce hud = _
      rw [Function.update_of_ne own, Function.update_apply]
      split <;> rfl
  obtain ⟨superview, _⟩ := (taps_settle (Option.some_get ran).symm same_key).2 rest
  exact ⟨_, (Option.some_get ran).symm, rest, superview 0, superview 1⟩

end LottieViewController

end SwiftApp
