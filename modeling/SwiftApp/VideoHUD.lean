import SwiftApp.AliyunUploadVideoTool

namespace SwiftApp

open StepRun

/-- The only HUD from address `base` on that may be up in the view is the one the field
holds, and that one is in front of everything else. -/
structure VideoApp.OneHUD (base view : Nat) (s : VideoApp) : Prop where
  shown : s.tool.view = some view
  only : ∀ hud, base ≤ hud → Subview.hud hud ∈ s.screen.subviews view →
    (s.screen.huds hud).hasFinished = false → s.tool.hud = some hud
  front : ∀ hud, s.tool.hud = some hud → Subview.hud hud ∈ s.screen.subviews view →
    (s.screen.subviews view).getLast? = some (.hud hud)

theorem VideoApp.OneHUD.hides {base view : Nat} {s : VideoApp} {screen : Screen}
    (h : s.OneHUD base view) (hides : s.screen.Hides screen) :
    VideoApp.OneHUD base view { s with screen := screen } where
  shown := h.shown
  only hud new attached up := by
    apply h.only hud new (hides.attached view _ attached)
    by_contra down
    have := hides.finished hud (by simpa using down)
    rw [this] at up
    cases up
  front hud held attached :=
    hides.front view _ (h.front hud held (hides.attached view _ attached)) attached

theorem VideoApp.OneHUD.setHud {base view hud : Nat} {s : VideoApp} (h : s.OneHUD base view)
    (held : s.tool.hud = some hud) (f : MBProgressHUD → MBProgressHUD) :
    VideoApp.OneHUD base view { s with screen := s.screen.setHud hud f } where
  shown := h.shown
  only g new attached up := by
    by_cases same : g = hud
    · subst g
      exact held
    · apply h.only g new attached
      simpa [Screen.setHud, Function.update_of_ne same] using up
  front := h.front

theorem VideoApp.getHud_held (s : VideoApp) : s.getHud.2.tool.hud = some s.getHud.1 := by
  obtain ⟨screen, eq⟩ := s.getHud_eq
  rw [eq]

/-- A HUD the getter creates comes in front of all subviews. -/
theorem VideoApp.OneHUD.getHud {base view : Nat} {s : VideoApp} (h : s.OneHUD base view) :
    s.getHud.2.OneHUD base view := by
  cases held : s.tool.hud with
  | some hud =>
    simp only [VideoApp.getHud, held]
    exact h
  | none =>
    have added : ({ s with
        tool := { s.tool with hud := some s.screen.next }
        screen := s.screen.addSubview s.tool.view } : VideoApp).OneHUD base view := by
      refine ⟨h.shown, ?_, ?_⟩
      · intro hud new attached up
        have attached : Subview.hud hud ∈ s.screen.subviews view ++ [.hud s.screen.next] := by
          simpa [Screen.addSubview, h.shown] using attached
        rcases List.mem_append.mp attached with old | last
        · have known := s.screen.known view hud old
          have up : (s.screen.huds hud).hasFinished = false := by
            simpa [Screen.addSubview, Function.update_of_ne (Nat.ne_of_lt known)] using up
          have held' := h.only hud new old up
          rw [held] at held'
          cases held'
        · cases List.mem_singleton.mp last
          rfl
      · intro hud new _
        cases Option.some.inj new
        simp [Screen.addSubview, h.shown]
    have shown := (added.setHud rfl fun h => { h with hasFinished := false, showStarted := true }).setHud rfl
      fun h => { h with mode := .annularDeterminate, removeFromSuperViewOnHide := true }
    simp only [VideoApp.getHud, held]
    exact shown

theorem VideoApp.OneHUD.terminalBlock {base view : Nat} {s : VideoApp} (h : s.OneHUD base view)
    (client : Nat) (isSucceed : Bool) : (s.terminalBlock client isSucceed).OneHUD base view := by
  have hides := s.screen.hideHUDForView_hides s.tool.view
  have hidden := h.hides hides
  refine ⟨h.shown, ?_, fun hud none => by cases none⟩
  intro hud new attached up
  exfalso
  have held : s.tool.hud = some hud := hidden.only hud new attached up
  have before := hides.attached view _ attached
  cases was : (s.screen.huds hud).hasFinished with
  | true =>
    have := hides.finished hud was
    rw [show ((s.screen.hideHUDForView s.tool.view).huds hud).hasFinished = false from up] at this
    cases this
  | false =>
    have top := Screen.HUDForView_last (h.front hud held before) was
    rw [← h.shown] at top
    have := Screen.hideHUDForView_finished top
    rw [show ((s.screen.hideHUDForView s.tool.view).huds hud).hasFinished = false from up] at this
    cases this

/-- The last event that shows or takes down the HUD was a terminal block, or there was none. -/
def VideoApp.Quiet (s : VideoApp) : Prop :=
  ∀ e, s.log.getLast? = some e → ∃ client, e = .terminal client

structure VideoApp.HUDInv (base view : Nat) (s : VideoApp) : Prop where
  oneHUD : s.OneHUD base view
  quiet : s.tool.hud = none ↔ s.Quiet

/-- After a started callback or a progress block the field holds a HUD. -/
theorem VideoApp.HUDInv.shown {base view : Nat} {s t : VideoApp} {e : VideoEvent}
    (h : s.OneHUD base view) (f : MBProgressHUD → MBProgressHUD) (tool : t.tool = s.getHud.2.tool)
    (screen : t.screen = s.getHud.2.screen.setHud s.getHud.1 f) (last : t.log.getLast? = some e)
    (shows : ∀ client, e ≠ .terminal client) : t.HUDInv base view := by
  have shown := h.getHud.setHud s.getHud_held f
  refine ⟨⟨?_, ?_, ?_⟩, iff_of_false ?_ ?_⟩
  · rw [tool]
    exact shown.shown
  · rw [tool, screen]
    exact shown.only
  · rw [tool, screen]
    exact shown.front
  · rw [tool, s.getHud_held]
    exact Option.some_ne_none _
  · intro quiet
    obtain ⟨client, terminal⟩ := quiet e last
    exact shows client terminal

theorem VideoApp.HUDInv.step {base view : Nat} {s t : VideoApp} {a : VideoStep}
    (h : s.HUDInv base view) (later : ∀ view hasBlock, a ≠ .uploadAuth view hasBlock)
    (hstep : s.step a = some t) : t.HUDInv base view := by
  cases a with
  | uploadAuth view hasBlock => exact absurd rfl (later view hasBlock)
  | star =>
    obtain ⟨_, _, _, rfl⟩ := VideoApp.step_star hstep
    exact ⟨⟨h.oneHUD.shown, h.oneHUD.only, h.oneHUD.front⟩, h.quiet⟩
  | deliver client callback =>
    obtain ⟨_, rfl⟩ := VideoApp.step_deliver hstep
    cases callback with
    | started =>
      have told : ({ s with delivered := s.delivered ++ [(client, .started)] } : VideoApp).OneHUD base view :=
        ⟨h.oneHUD.shown, h.oneHUD.only, h.oneHUD.front⟩
      exact .shown told (fun h => { h with hasFinished := false, showStarted := true }) rfl rfl
        List.getLast?_concat fun client terminal => by cases terminal
    | progress | expire | finish | failure =>
      exact ⟨⟨h.oneHUD.shown, h.oneHUD.only, h.oneHUD.front⟩, h.quiet⟩
  | runBlock window currentVC =>
    obtain ⟨block, later, _, rfl⟩ := VideoApp.step_runBlock hstep
    have shorter : ({ s with mainQueue := later } : VideoApp).OneHUD base view :=
      ⟨h.oneHUD.shown, h.oneHUD.only, h.oneHUD.front⟩
    cases block with
    | terminal client isSucceed =>
      refine ⟨shorter.terminalBlock client isSucceed, iff_of_true rfl ?_⟩
      intro e last
      exact ⟨client, by simpa [MainBlock.run, VideoApp.terminalBlock] using last.symm⟩
    | progress uploadedSize totalSize =>
      exact .shown shorter (fun h => { h with progress := (uploadedSize, totalSize) }) rfl rfl
        List.getLast?_concat fun client terminal => by cases terminal
    | hideHUD => exact ⟨shorter.hides (s.screen.hideHUD_hides window currentVC), h.quiet⟩
  | faded hud =>
    cases VideoApp.step_faded hstep
    have faded := h.oneHUD.hides (s.screen.done_hides hud)
    exact ⟨⟨faded.shown, faded.only, faded.front⟩, h.quiet⟩

/-- One call on the fresh tool and all that follows it, until the main queue is empty and
a terminal block has run. -/
structure OneUpload (screen : Screen) where
  view : Nat
  hasBlock : Bool
  steps : List VideoStep
  final : VideoApp
  single : ∀ view hasBlock, .uploadAuth view hasBlock ∉ steps
  ran : run VideoApp.step (VideoApp.initial screen) (.uploadAuth view hasBlock :: steps) = some final
  drained : final.mainQueue = []
  ended : ∃ client, VideoEvent.terminal client ∈ final.log

/-- No HUD of the tool is up in the view, and the field holds none. The tool's HUDs are
those created during the run. -/
def OneUpload.NoHUDLeft {screen : Screen} (r : OneUpload screen) : Prop :=
  r.final.tool.hud = none ∧ ∀ hud, screen.next ≤ hud →
    Subview.hud hud ∈ r.final.screen.subviews r.view → (r.final.screen.huds hud).hasFinished = true

theorem OneUpload.hudInv {screen : Screen} (r : OneUpload screen) :
    r.final.HUDInv screen.next r.view := by
  have called : ((VideoApp.initial screen).uploadAuth r.view r.hasBlock).HUDInv screen.next r.view := by
    refine ⟨⟨rfl, ?_, fun hud held => by cases held⟩, iff_of_true rfl fun e last => by cases last⟩
    intro hud new attached _
    have := screen.known r.view hud attached
    omega
  refine run_invariant_of_mem ?_ (show run VideoApp.step _ r.steps = _ from r.ran) called
  intro s a ha t hstep h
  refine h.step (fun view hasBlock same => ?_) hstep
  exact r.single view hasBlock (same ▸ ha)

/-- No HUD outlives its upload exactly when the last of the started callbacks, progress
blocks and terminal blocks to run is a terminal block. -/
theorem no_hud_left_iff {screen : Screen} (r : OneUpload screen) :
    r.NoHUDLeft ↔ ∃ client, r.final.log.getLast? = some (.terminal client) := by
  have inv := r.hudInv
  apply Iff.intro
  · intro h
    obtain ⟨client, mem⟩ := r.ended
    have some_event := List.getLast?_eq_some_getLast (List.ne_nil_of_mem mem)
    obtain ⟨last, eq⟩ := inv.quiet.mp h.1 _ some_event
    exact ⟨last, eq ▸ some_event⟩
  · intro h
    obtain ⟨client, last⟩ := h
    have none : r.final.tool.hud = none := by
      refine inv.quiet.mpr fun e he => ⟨client, ?_⟩
      exact Option.some.inj (he.symm.trans last)
    refine ⟨none, ?_⟩
    intro hud new attached
    by_contra up
    have held := inv.oneHUD.only hud new attached (by simpa using up)
    rw [none] at held
    cases held

/-- The finish block runs, then the block of a last progress callback. -/
def progressAfterFinish : OneUpload Screen.blank where
  view := 0
  hasBlock := true
  steps := [.star, .deliver 0 .started, .runBlock none none, .deliver 0 .finish,
    .deliver 0 (.progress 1 1), .runBlock none none, .runBlock none none]
  final := ((run VideoApp.step (VideoApp.initial Screen.blank) [.uploadAuth 0 true, .star, .deliver 0 .started, .runBlock none none,
    .deliver 0 .finish, .deliver 0 (.progress 1 1), .runBlock none none, .runBlock none none]).get rfl)
  single view hasBlock := by simp
  ran := rfl
  drained := rfl
  ended := ⟨0, by decide⟩

theorem progress_after_finish_leaves_hud :
    ¬ progressAfterFinish.NoHUDLeft ∧
      Subview.hud 1 ∈ progressAfterFinish.final.screen.subviews 0 ∧
      (progressAfterFinish.final.screen.huds 1).hasFinished = false := by
  refine ⟨?_, by decide, rfl⟩
  intro h
  exact absurd h.1 (by decide)

end SwiftApp
