import SwiftApp.MBProgressHUD
import SwiftApp.StepRun

namespace SwiftApp

inductive VODCallback
  | started
  | progress (uploadedSize totalSize : Int)
  | expire
  | finish
  | failure
deriving DecidableEq

structure AliyunUploadVideoTool where
  view : Option Nat
  succeedBlock : Option Nat
  uploader : Option Nat
  hud : Option Nat

/-- A block on the main queue; `client` is the one whose listener dispatched it. -/
inductive MainBlock
  | terminal (client : Nat) (isSucceed : Bool)
  | progress (uploadedSize totalSize : Int)
  | hideHUD

inductive VideoEvent
  | started
  | progress
  | terminal (client : Nat)
deriving DecidableEq

/-- One call of a success block, and the client whose end it was called for. -/
structure VideoAnswer where
  succeedBlock : Nat
  isSucceed : Bool
  client : Nat

/-- The shared tool, the screen and what is under way. Client `k` and success block `k`
belong to the `k`-th call; `stars` are the calls whose delayed `-star` is still to run. -/
structure VideoApp where
  tool : AliyunUploadVideoTool
  screen : Screen
  clients : Nat
  stars : List Nat
  starts : List Nat
  mainQueue : List MainBlock
  delivered : List (Nat × VODCallback)
  log : List VideoEvent
  answers : List VideoAnswer

def VideoApp.initial (screen : Screen) : VideoApp :=
  ⟨⟨none, none, none, none⟩, screen, 0, [], [], [], [], [], []⟩

/-- The getter of `hud`: it attaches a new HUD when the field holds none. -/
def VideoApp.getHud (s : VideoApp) : Nat × VideoApp :=
  match s.tool.hud with
  | some hud => (hud, s)
  | none =>
    let (hud, screen) := s.screen.showHUDAddedTo s.tool.view
    (hud, { s with
      tool := { s.tool with hud := some hud }
      screen := screen.setHud hud fun h =>
        { h with mode := .annularDeterminate, removeFromSuperViewOnHide := true } })

def VideoApp.uploadAuth (view : Nat) (hasBlock : Bool) (s : VideoApp) : VideoApp :=
  { s with
    tool := { s.tool with
      view := some view
      succeedBlock := if hasBlock then some s.clients else none
      uploader := some s.clients }
    clients := s.clients + 1
    stars := s.stars ++ [s.clients] }

def VideoApp.dispatch_async (block : MainBlock) (s : VideoApp) : VideoApp :=
  { s with mainQueue := s.mainQueue ++ [block] }

def testFinishCallbackFunc (client : Nat) : VideoApp → VideoApp :=
  VideoApp.dispatch_async (.terminal client true)

def testFailedCallbackFunc (client : Nat) : VideoApp → VideoApp :=
  VideoApp.dispatch_async (.terminal client false)

def TokenExpiredCallbackFunc (client : Nat) : VideoApp → VideoApp :=
  VideoApp.dispatch_async (.terminal client false)

def testProgressCallbackFunc (uploadedSize totalSize : Int) : VideoApp → VideoApp :=
  VideoApp.dispatch_async (.progress uploadedSize totalSize)

def testUploadStartedCallbackFunc (s : VideoApp) : VideoApp :=
  let (hud, t) := s.getHud
  { t with
    screen := t.screen.showAnimated hud
    mainQueue := t.mainQueue ++ [.hideHUD]
    log := t.log ++ [.started] }

def VODCallback.listener (client : Nat) : VODCallback → VideoApp → VideoApp
  | .started => testUploadStartedCallbackFunc
  | .progress uploadedSize totalSize => testProgressCallbackFunc uploadedSize totalSize
  | .expire => TokenExpiredCallbackFunc client
  | .finish => testFinishCallbackFunc client
  | .failure => testFailedCallbackFunc client

/-- What the blocks of the finish, failure and expire listeners do. -/
def VideoApp.terminalBlock (client : Nat) (isSucceed : Bool) (s : VideoApp) : VideoApp :=
  { s with
    screen := s.screen.hideHUDForView s.tool.view
    tool := { s.tool with hud := none }
    log := s.log ++ [.terminal client]
    answers := s.answers ++ (s.tool.succeedBlock.map fun block => ⟨block, isSucceed, client⟩).toList }

def VideoApp.progressBlock (uploadedSize totalSize : Int) (s : VideoApp) : VideoApp :=
  -- The test `self.hud != nil` runs the getter, which never returns nil.
  let (hud, t) := s.getHud
  { t with
    screen := t.screen.setHud hud fun h => { h with progress := (uploadedSize, totalSize) }
    log := t.log ++ [.progress] }

def MainBlock.run (window currentVC : Option Nat) : MainBlock → VideoApp → VideoApp
  | .terminal client isSucceed, s => s.terminalBlock client isSucceed
  | .progress uploadedSize totalSize, s => s.progressBlock uploadedSize totalSize
  | .hideHUD, s => { s with screen := s.screen.hideHUD window currentVC }

inductive VideoStep
  | uploadAuth (view : Nat) (hasBlock : Bool)
  | star
  | deliver (client : Nat) (callback : VODCallback)
  | runBlock (window currentVC : Option Nat)
  | faded (hud : Nat)

def VideoApp.step (s : VideoApp) : VideoStep → Option VideoApp
  | .uploadAuth view hasBlock => some (s.uploadAuth view hasBlock)
  | .star => match s.stars with
    | [] => none
    | _ :: later => some { s with stars := later, starts := s.starts ++ s.tool.uploader.toList }
  | .deliver client callback =>
    if client ∈ s.starts then
      some (callback.listener client { s with delivered := s.delivered ++ [(client, callback)] })
    else none
  | .runBlock window currentVC => match s.mainQueue with
    | [] => none
    | block :: later => some (block.run window currentVC { s with mainQueue := later })
  | .faded hud =>
    if hud ∈ s.screen.fading then
      some { s with screen := { s.screen.done hud with fading := s.screen.fading.erase hud } }
    else none

theorem VideoApp.getHud_eq (s : VideoApp) :
    ∃ screen, s.getHud.2 = { s with tool := { s.tool with hud := some s.getHud.1 }, screen := screen } := by
  unfold VideoApp.getHud
  cases hud : s.tool.hud with
  | some hud => exact ⟨s.screen, by simp [← hud]⟩
  | none => exact ⟨_, rfl⟩

theorem VideoApp.step_star {s t : VideoApp} (h : s.step .star = some t) :
    ∃ k later, s.stars = k :: later ∧
      t = { s with stars := later, starts := s.starts ++ s.tool.uploader.toList } := by
  simp only [VideoApp.step] at h
  split at h
  next => cases h
  next k later stars => exact ⟨k, later, stars, (Option.some.inj h).symm⟩

theorem VideoApp.step_deliver {s t : VideoApp} {client : Nat} {callback : VODCallback}
    (h : s.step (.deliver client callback) = some t) : client ∈ s.starts ∧
      t = callback.listener client { s with delivered := s.delivered ++ [(client, callback)] } :=
  StepRun.guarded h

theorem VideoApp.step_runBlock {s t : VideoApp} {window currentVC : Option Nat}
    (h : s.step (.runBlock window currentVC) = some t) :
    ∃ block later, s.mainQueue = block :: later ∧
      t = block.run window currentVC { s with mainQueue := later } := by
  simp only [VideoApp.step] at h
  split at h
  next => cases h
  next block later queue => exact ⟨block, later, queue, (Option.some.inj h).symm⟩

theorem VideoApp.step_faded {s t : VideoApp} {hud : Nat} (h : s.step (.faded hud) = some t) :
    t = { s with screen := { s.screen.done hud with fading := s.screen.fading.erase hud } } :=
  (StepRun.guarded h).2

end SwiftApp
