import SwiftApp.StepRun
import Mathlib.Logic.Function.Basic

namespace SwiftApp

inductive LottieLoopMode
  | playOnce | loop
deriving DecidableEq

inductive LottieBlock
  | createHUD (hud : Nat)
  | clearHUD (hud : Nat)
deriving DecidableEq

/-- The windows, each HUD's mask and animation, and what is still to happen: the blocks of
the main queue, the fade-outs, and the completions of plays that are over. -/
structure LottieApp where
  keyWindow : Option Nat
  isUserInteractionEnabled : Nat → Bool
  superview : Nat → Option Nat
  loopMode : Nat → LottieLoopMode
  isAnimationPlaying : Nat → Bool
  mainQueue : List LottieBlock
  fades : List Nat
  completions : List Nat

def LottieApp.initial (keyWindow : Option Nat) (loopMode : Nat → LottieLoopMode) : LottieApp :=
  ⟨keyWindow, fun _ => true, fun _ => none, loopMode, fun _ => false, [], [], []⟩

/-- The play under way, if any, is over: its completion is due. -/
def LottieApp.interrupt (hud : Nat) (s : LottieApp) : LottieApp :=
  if s.isAnimationPlaying hud then
    { s with
      isAnimationPlaying := Function.update s.isAnimationPlaying hud false
      completions := s.completions ++ [hud] }
  else s

def LottieApp.play (hud : Nat) (s : LottieApp) : LottieApp :=
  let t := s.interrupt hud
  { t with isAnimationPlaying := Function.update t.isAnimationPlaying hud true }

def LottieApp.stop (hud : Nat) (s : LottieApp) : LottieApp := s.interrupt hud

def LottieApp.configureConstraints (hud : Nat) (s : LottieApp) : LottieApp :=
  match s.keyWindow with
  | none => s
  | some keyWindow => { s with superview := Function.update s.superview hud (some keyWindow) }

/-- The block `createHUD` dispatches. -/
def LottieApp.createHUD (hud : Nat) (s : LottieApp) : LottieApp :=
  match s.keyWindow with
  | none => s
  | some keyWindow =>
    let t := { s with
      isUserInteractionEnabled := Function.update s.isUserInteractionEnabled keyWindow false }
    (t.configureConstraints hud).play hud

/-- The completion of the fade-out `clearHUD` starts. -/
def LottieApp.faded (hud : Nat) (s : LottieApp) : LottieApp :=
  match s.keyWindow with
  | none => s
  | some keyWindow =>
    let t := { s with
      isUserInteractionEnabled := Function.update s.isUserInteractionEnabled keyWindow true
      superview := Function.update s.superview hud none }
    t.stop hud

def LottieApp.clearHUD (hud : Nat) (s : LottieApp) : LottieApp :=
  { s with mainQueue := s.mainQueue ++ [.clearHUD hud] }

def LottieApp.showHUD (hud : Nat) (loop : Bool) (s : LottieApp) : LottieApp :=
  { s with
    loopMode := Function.update s.loopMode hud (if loop then .loop else .playOnce)
    mainQueue := s.mainQueue ++ [.createHUD hud] }

def LottieApp.stopHUD (hud : Nat) (s : LottieApp) : LottieApp := s.clearHUD hud

def LottieBlock.run (s : LottieApp) : LottieBlock → LottieApp
  | .createHUD hud => s.createHUD hud
  | .clearHUD hud => { s with fades := s.fades ++ [hud] }

inductive LottieStep
  | showHUD (hud : Nat) (loop : Bool)
  | stopHUD (hud : Nat)
  | runBlock
  | fadeEnds (hud : Nat)
  | playEnds (hud : Nat)
  | playCompletion (hud : Nat)
  | becomeKey (window : Option Nat)

def LottieApp.step (s : LottieApp) : LottieStep → Option LottieApp
  | .showHUD hud loop => some (s.showHUD hud loop)
  | .stopHUD hud => some (s.stopHUD hud)
  | .runBlock => match s.mainQueue with
    | [] => none
    | block :: later => some (block.run { s with mainQueue := later })
  | .fadeEnds hud =>
    if hud ∈ s.fades then some (({ s with fades := s.fades.erase hud } : LottieApp).faded hud) else none
  | .playEnds hud =>
    if s.isAnimationPlaying hud ∧ s.loopMode hud = .playOnce then some (s.interrupt hud) else none
  | .playCompletion hud =>
    if hud ∈ s.completions then
      some (({ s with completions := s.completions.erase hud } : LottieApp).clearHUD hud)
    else none
  | .becomeKey window => some { s with keyWindow := window }

theorem LottieApp.interrupt_eq (hud : Nat) (s : LottieApp) :
    s.interrupt hud = { s with
      isAnimationPlaying := Function.update s.isAnimationPlaying hud false
      completions := s.completions ++ if s.isAnimationPlaying hud then [hud] else [] } := by
  unfold LottieApp.interrupt
  split
  next => rfl
  next still =>
    have same : Function.update s.isAnimationPlaying hud false = s.isAnimationPlaying :=
      Function.update_eq_self_iff.mpr (by simpa using still)
    simp [same]

theorem LottieApp.createHUD_some {hud keyWindow : Nat} {s : LottieApp} (key : s.keyWindow = some keyWindow) :
    s.createHUD hud = { s with
      isUserInteractionEnabled := Function.update s.isUserInteractionEnabled keyWindow false
      superview := Function.update s.superview hud (some keyWindow)
      isAnimationPlaying := Function.update s.isAnimationPlaying hud true
      completions := s.completions ++ if s.isAnimationPlaying hud then [hud] else [] } := by
  simp [LottieApp.createHUD, LottieApp.configureConstraints, key, LottieApp.play, LottieApp.interrupt_eq]

theorem LottieApp.faded_some {hud keyWindow : Nat} {s : LottieApp} (key : s.keyWindow = some keyWindow) :
    s.faded hud = { s with
      isUserInteractionEnabled := Function.update s.isUserInteractionEnabled keyWindow true
      superview := Function.update s.superview hud none
      isAnimationPlaying := Function.update s.isAnimationPlaying hud false
      completions := s.completions ++ if s.isAnimationPlaying hud then [hud] else [] } := by
  simp [LottieApp.faded, key, LottieApp.stop, LottieApp.interrupt_eq]

theorem LottieApp.step_runBlock {s t : LottieApp} (h : s.step .runBlock = some t) :
    ∃ block later, s.mainQueue = block :: later ∧ t = block.run { s with mainQueue := later } := by
  simp only [LottieApp.step] at h
  split at h
  next => cases h
  next block later queue => exact ⟨block, later, queue, (Option.some.inj h).symm⟩

theorem LottieApp.step_fadeEnds {s t : LottieApp} {hud : Nat} (h : s.step (.fadeEnds hud) = some t) :
    hud ∈ s.fades ∧ t = ({ s with fades := s.fades.erase hud } : LottieApp).faded hud :=
  StepRun.guarded h

theorem LottieApp.step_playEnds {s t : LottieApp} {hud : Nat} (h : s.step (.playEnds hud) = some t) :
    s.isAnimationPlaying hud = true ∧ s.loopMode hud = .playOnce ∧ t = s.interrupt hud := by
  obtain ⟨can, rfl⟩ := StepRun.guarded h
  exact ⟨can.1, can.2, rfl⟩

theorem LottieApp.step_playCompletion {s t : LottieApp} {hud : Nat}
    (h : s.step (.playCompletion hud) = some t) : hud ∈ s.completions ∧
      t = ({ s with completions := s.completions.erase hud } : LottieApp).clearHUD hud :=
  StepRun.guarded h

end SwiftApp
