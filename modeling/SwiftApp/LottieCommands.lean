import SwiftApp.LottieHUD

namespace SwiftApp

open StepRun

def LottieStep.IsCall : LottieStep → Prop
  | .showHUD _ _ | .stopHUD _ => True
  | _ => False

/-- The steps of a run with one HUD that loops and one key window. -/
def LottieStep.Of (hud : Nat) : LottieStep → Prop
  | .showHUD h loop => h = hud ∧ loop = true
  | .stopHUD h => h = hud
  | .becomeKey _ => False
  | _ => True

def LottieApp.Shown (hud window : Nat) (s : LottieApp) : Prop :=
  s.superview hud = some window ∧ s.isUserInteractionEnabled window = false

def LottieApp.Hidden (hud window : Nat) (s : LottieApp) : Prop :=
  s.superview hud = none ∧ s.isUserInteractionEnabled window = true

structure LottieApp.OneHUD (hud window : Nat) (s : LottieApp) : Prop where
  key : s.keyWindow = some window
  looping : s.loopMode hud = .loop
  playing : ∀ h, s.isAnimationPlaying h = true → h = hud
  blocks : ∀ b ∈ s.mainQueue, b = .createHUD hud ∨ b = .clearHUD hud
  fades : ∀ h ∈ s.fades, h = hud
  completions : ∀ h ∈ s.completions, h = hud
  mask : s.Shown hud window ∨ s.Hidden hud window

/-- The mask is off or will come off, and no `createHUD` block is to come after that. -/
def LottieApp.Leaving (hud : Nat) (s : LottieApp) : Prop :=
  (∃ front back, s.mainQueue = front ++ .clearHUD hud :: back ∧ .createHUD hud ∉ back) ∨
    .createHUD hud ∉ s.mainQueue ∧ (hud ∈ s.fades ∨ hud ∈ s.completions ∨ s.superview hud = none)

def LottieApp.Alone (hud : Nat) (s : LottieApp) : Prop :=
  s.mainQueue = [.createHUD hud] ∧ s.isAnimationPlaying hud = false ∧ s.fades = [] ∧ s.completions = []

/-- The last `createHUD` block of the queue runs when nothing else is under way. -/
def LottieApp.ShowsAlone (hud : Nat) (s : LottieApp) : LottieStep → Prop
  | .runBlock => s.mainQueue.head? = some (.createHUD hud) →
    LottieBlock.createHUD hud ∉ s.mainQueue.tail → s.Alone hud
  | _ => True

/-- The block of the last `showHUD` is still to run, or it has run and all is quiet. -/
def LottieApp.Coming (hud window : Nat) (s : LottieApp) : Prop :=
  .createHUD hud ∈ s.mainQueue ∨
    s.mainQueue = [] ∧ s.fades = [] ∧ s.completions = [] ∧ s.superview hud = some window

theorem LottieApp.initial_oneHUD {hud window : Nat} {loopMode : Nat → LottieLoopMode}
    (looping : loopMode hud = .loop) : (LottieApp.initial (some window) loopMode).OneHUD hud window where
  key := rfl
  looping := looping
  playing _ h := by cases h
  blocks _ h := by cases h
  fades _ h := by cases h
  completions _ h := by cases h
  mask := Or.inr ⟨rfl, rfl⟩

theorem LottieApp.OneHUD.enqueue {hud window : Nat} {s : LottieApp} {block : LottieBlock}
    (h : s.OneHUD hud window) (own : block = .createHUD hud ∨ block = .clearHUD hud) :
    LottieApp.OneHUD hud window { s with mainQueue := s.mainQueue ++ [block] } where
  key := h.key
  looping := h.looping
  playing := h.playing
  blocks b hb := by
    rcases List.mem_append.mp hb with hb | hb
    · exact h.blocks b hb
    · rw [List.mem_singleton.mp hb]
      exact own
  fades := h.fades
  completions := h.completions
  mask := h.mask

theorem LottieApp.OneHUD.dequeue {hud window : Nat} {s : LottieApp} {block : LottieBlock}
    {later : List LottieBlock} (h : s.OneHUD hud window) (queue : s.mainQueue = block :: later) :
    LottieApp.OneHUD hud window { s with mainQueue := later } where
  key := h.key
  looping := h.looping
  playing := h.playing
  blocks b hb := h.blocks b (by rw [queue]; exact List.mem_cons_of_mem _ hb)
  fades := h.fades
  completions := h.completions
  mask := h.mask

theorem LottieApp.OneHUD.endFade {hud window : Nat} {s : LottieApp} (h : s.OneHUD hud window)
    (g : Nat) : LottieApp.OneHUD hud window { s with fades := s.fades.erase g } where
  key := h.key
  looping := h.looping
  playing := h.playing
  blocks := h.blocks
  fades k hk := h.fades k (List.mem_of_mem_erase hk)
  completions := h.completions
  mask := h.mask

theorem LottieApp.OneHUD.endPlay {hud window : Nat} {s : LottieApp} (h : s.OneHUD hud window)
    (g : Nat) : LottieApp.OneHUD hud window { s with completions := s.completions.erase g } where
  key := h.key
  looping := h.looping
  playing := h.playing
  blocks := h.blocks
  fades := h.fades
  completions k hk := h.completions k (List.mem_of_mem_erase hk)
  mask := h.mask

theorem LottieApp.OneHUD.due {hud window : Nat} {s : LottieApp} (h : s.OneHUD hud window) :
    ∀ g ∈ s.completions ++ (if s.isAnimationPlaying hud then [hud] else []), g = hud := by
  intro g hg
  rcases List.mem_append.mp hg with hg | hg
  · exact h.completions g hg
  · split at hg
    next => exact List.mem_singleton.mp hg
    next => cases hg

theorem LottieApp.OneHUD.playing_update {hud window g : Nat} {s : LottieApp} {still : Bool}
    (h : s.OneHUD hud window) (on : Function.update s.isAnimationPlaying hud still g = true) : g = hud := by
  by_contra other
  rw [Function.update_of_ne other] at on
  exact other (h.playing g on)

theorem LottieApp.OneHUD.createHUD {hud window : Nat} {s : LottieApp} (h : s.OneHUD hud window) :
    (s.createHUD hud).OneHUD hud window := by
  rw [LottieApp.createHUD_some h.key]
  refine ⟨h.key, h.looping, fun g => h.playing_update, h.blocks, h.fades, h.due, Or.inl ⟨?_, ?_⟩⟩
  · exact Function.update_self ..
  · exact Function.update_self ..

theorem LottieApp.OneHUD.faded {hud window : Nat} {s : LottieApp} (h : s.OneHUD hud window) :
    (s.faded hud).OneHUD hud window := by
  rw [LottieApp.faded_some h.key]
  refine ⟨h.key, h.looping, fun g => h.playing_update, h.blocks, h.fades, h.due, Or.inr ⟨?_, ?_⟩⟩
  · exact Function.update_self ..
  · exact Function.update_self ..

theorem LottieApp.OneHUD.no_playEnds {hud window g : Nat} {s t : LottieApp} (h : s.OneHUD hud window)
    (hstep : s.step (.playEnds g) = some t) : False := by
  obtain ⟨on, once, _⟩ := LottieApp.step_playEnds hstep
  rw [h.playing g on, h.looping] at once
  cases once

theorem LottieApp.OneHUD.step {hud window : Nat} {s t : LottieApp} {a : LottieStep}
    (h : s.OneHUD hud window) (of : a.Of hud) (hstep : s.step a = some t) : t.OneHUD hud window := by
  cases a with
  | showHUD g loop =>
    obtain ⟨rfl, rfl⟩ := of
    cases Option.some.inj hstep
    have queued := h.enqueue (Or.inl rfl)
    exact { queued with looping := Function.update_self .. }
  | stopHUD g =>
    cases of
    cases Option.some.inj hstep
    exact h.enqueue (Or.inr rfl)
  | runBlock =>
    obtain ⟨block, later, queue, rfl⟩ := LottieApp.step_runBlock hstep
    have shorter := h.dequeue queue
    rcases h.blocks block (by rw [queue]; exact List.mem_cons_self) with rfl | rfl
    · exact shorter.createHUD
    · refine { shorter with fades := ?_ }
      intro g hg
      rcases List.mem_append.mp hg with hg | hg
      · exact h.fades g hg
      · exact List.mem_singleton.mp hg
  | fadeEnds g =>
    obtain ⟨mem, rfl⟩ := LottieApp.step_fadeEnds hstep
    cases h.fades g mem
    exact (h.endFade hud).faded
  | playEnds g => exact (h.no_playEnds hstep).elim
  | playCompletion g =>
    obtain ⟨mem, rfl⟩ := LottieApp.step_playCompletion hstep
    cases h.completions g mem
    exact (h.endPlay hud).enqueue (Or.inr rfl)
  | becomeKey w => exact of.elim

theorem LottieApp.OneHUD.run_mainQueue {hud window : Nat} {s : LottieApp} {block : LottieBlock}
    {later : List LottieBlock} (h : s.OneHUD hud window) (queue : s.mainQueue = block :: later) :
    (block.run { s with mainQueue := later }).mainQueue = later := by
  cases block with
  | createHUD g => rw [LottieBlock.run, LottieApp.createHUD_some (h.dequeue queue).key]
  | clearHUD g => rfl

theorem LottieApp.clearHUD_leaving (hud : Nat) (s : LottieApp) : (s.clearHUD hud).Leaving hud :=
  Or.inl ⟨s.mainQueue, [], rfl, List.not_mem_nil⟩

/-- Once the mask is on its way off, only a new `showHUD` can bring it back. -/
theorem LottieApp.Leaving.step {hud window : Nat} {s t : LottieApp} {a : LottieStep}
    (h : s.Leaving hud) (one : s.OneHUD hud window) (of : a.Of hud) (late : ¬ a.IsCall)
    (hstep : s.step a = some t) : t.Leaving hud := by
  cases a with
  | showHUD | stopHUD => exact absurd trivial late
  | runBlock =>
    obtain ⟨block, later, queue, rfl⟩ := LottieApp.step_runBlock hstep
    have same : (block.run { s with mainQueue := later }).mainQueue = later :=
      one.run_mainQueue queue
    rcases h with ⟨front, back, split, none_behind⟩ | ⟨none_queued, _⟩
    · rw [queue] at split
      cases front with
      | nil =>
        cases split
        exact Or.inr ⟨none_behind, Or.inl (List.mem_append_right _ (List.mem_singleton_self hud))⟩
      | cons b front =>
        have later_eq : later = front ++ .clearHUD hud :: back := (List.cons.inj split).2
        exact Or.inl ⟨front, back, same.trans later_eq, none_behind⟩
    · rw [queue] at none_queued
      rcases one.blocks block (by rw [queue]; exact List.mem_cons_self) with rfl | rfl
      · exact absurd List.mem_cons_self none_queued
      · refine Or.inr ⟨fun mem => none_queued (List.mem_cons_of_mem _ mem), Or.inl ?_⟩
        exact List.mem_append_right _ (List.mem_singleton_self hud)
  | fadeEnds g =>
    obtain ⟨mem, rfl⟩ := LottieApp.step_fadeEnds hstep
    cases one.fades g mem
    rw [LottieApp.faded_some (one.endFade hud).key]
    rcases h with behind | ⟨none_behind, _⟩
    · exact Or.inl behind
    · exact Or.inr ⟨none_behind, Or.inr (Or.inr (Function.update_self ..))⟩
  | playEnds g => exact (one.no_playEnds hstep).elim
  | playCompletion g =>
    obtain ⟨mem, rfl⟩ := LottieApp.step_playCompletion hstep
    cases one.completions g mem
    exact LottieApp.clearHUD_leaving hud _
  | becomeKey w => exact of.elim

theorem LottieApp.Leaving.hidden {hud window : Nat} {s : LottieApp} (h : s.Leaving hud)
    (one : s.OneHUD hud window) (quiet : s.mainQueue = [] ∧ s.fades = [] ∧ s.completions = []) :
    s.Hidden hud window := by
  obtain ⟨queue, fades, completions⟩ := quiet
  have off : s.superview hud = none := by
    rcases h with ⟨front, back, split, _⟩ | ⟨_, fading | due | off⟩
    · simp [queue] at split
    · simp [fades] at fading
    · simp [completions] at due
    · exact off
  rcases one.mask with shown | hidden
  · rw [shown.1] at off
    cases off
  · exact hidden

/-- A `createHUD` block that runs while something else is under way, with no other such
block behind it, is undone. -/
theorem LottieApp.leaving_of_not_showsAlone {hud window : Nat} {s t : LottieApp} {a : LottieStep}
    (one : s.OneHUD hud window) (hstep : s.step a = some t) (busy : ¬ s.ShowsAlone hud a) :
    t.Leaving hud := by
  cases a with
  | runBlock =>
    obtain ⟨block, later, queue, rfl⟩ := LottieApp.step_runBlock hstep
    simp only [LottieApp.ShowsAlone, queue, List.head?_cons, List.tail_cons, Classical.not_imp,
      LottieApp.Alone] at busy
    obtain ⟨head, none_behind, busy⟩ := busy
    cases Option.some.inj head
    rw [LottieBlock.run, LottieApp.createHUD_some (one.dequeue queue).key]
    cases later with
    | cons next later =>
      rcases one.blocks next (by rw [queue]; simp) with rfl | rfl
      · exact absurd List.mem_cons_self none_behind
      · exact Or.inl ⟨[], later, rfl, fun mem => none_behind (List.mem_cons_of_mem _ mem)⟩
    | nil =>
      refine Or.inr ⟨none_behind, ?_⟩
      by_cases fading : s.fades = []
      · right
        left
        by_cases playing : s.isAnimationPlaying hud = true
        · simp [playing]
        · have due : s.completions ≠ [] := fun none => busy ⟨rfl, by simpa using playing, fading, none⟩
          obtain ⟨g, hg⟩ := List.exists_mem_of_ne_nil _ due
          exact List.mem_append_left _ (one.completions g hg ▸ hg)
      · obtain ⟨g, hg⟩ := List.exists_mem_of_ne_nil _ fading
        exact Or.inl (one.fades g hg ▸ hg)
  | _ => exact absurd trivial busy

theorem LottieApp.Coming.step {hud window : Nat} {s t : LottieApp} {a : LottieStep}
    (h : s.Coming hud window) (one : s.OneHUD hud window) (of : a.Of hud) (late : ¬ a.IsCall)
    (hstep : s.step a = some t) (alone : s.ShowsAlone hud a) : t.Coming hud window := by
  cases a with
  | showHUD | stopHUD => exact absurd trivial late
  | runBlock =>
    obtain ⟨block, later, queue, rfl⟩ := LottieApp.step_runBlock hstep
    have same : (block.run { s with mainQueue := later }).mainQueue = later :=
      one.run_mainQueue queue
    rcases h with coming | ⟨idle, _⟩
    · by_cases behind : .createHUD hud ∈ later
      · exact Or.inl (by rw [same]; exact behind)
      · rw [queue] at coming
        rcases List.mem_cons.mp coming with rfl | mem
        · obtain ⟨only, off, fades, completions⟩ := alone (by rw [queue]; rfl) (by rw [queue]; exact behind)
          rw [queue] at only
          rw [LottieBlock.run, LottieApp.createHUD_some (one.dequeue queue).key]
          refine Or.inr ⟨(List.cons.inj only).2, fades, ?_, Function.update_self ..⟩
          simp [completions, off]
        · exact absurd mem behind
    · rw [queue] at idle
      cases idle
  | fadeEnds g =>
    obtain ⟨mem, rfl⟩ := LottieApp.step_fadeEnds hstep
    rcases h with coming | ⟨_, fades, _⟩
    · rw [LottieApp.faded_some (one.endFade g).key]
      exact Or.inl coming
    · rw [fades] at mem
      cases mem
  | playEnds g => exact (one.no_playEnds hstep).elim
  | playCompletion g =>
    obtain ⟨mem, rfl⟩ := LottieApp.step_playCompletion hstep
    rcases h with coming | ⟨_, _, completions, _⟩
    · exact Or.inl (List.mem_append_left _ coming)
    · rw [completions] at mem
      cases mem
  | becomeKey w => exact of.elim

/-- Any calls of `showHUD(loop: true)` and `stopHUD` on one HUD while one window is key, up to
a moment when nothing is pending any more. -/
structure OneHUDRun where
  hud : Nat
  window : Nat
  loopMode : Nat → LottieLoopMode
  looping : loopMode hud = .loop
  steps : List LottieStep
  final : LottieApp
  own : ∀ a ∈ steps, a.Of hud
  ran : run LottieApp.step (LottieApp.initial (some window) loopMode) steps = some final
  quiet : final.mainQueue = [] ∧ final.fades = [] ∧ final.completions = []

def OneHUDRun.LastCommandWins (r : OneHUDRun) : Prop :=
  ∀ past a rest, r.steps = past ++ a :: rest → (∀ b ∈ rest, ¬ b.IsCall) →
    (a = .showHUD r.hud true → r.final.Shown r.hud r.window) ∧
      (a = .stopHUD r.hud → r.final.Hidden r.hud r.window)

/-- If the last call is `showHUD`, then its block finds nothing else under way. -/
def OneHUDRun.LastShowAlone (r : OneHUDRun) : Prop :=
  ∀ past rest s, r.steps = past ++ .showHUD r.hud true :: rest → (∀ b ∈ rest, ¬ b.IsCall) →
    run LottieApp.step (LottieApp.initial (some r.window) r.loopMode) (past ++ [.showHUD r.hud true]) =
      some s → StepsMeet LottieApp.step (LottieApp.ShowsAlone r.hud) s rest

theorem OneHUDRun.oneHUD (r : OneHUDRun) {past rest : List LottieStep} {s : LottieApp}
    (split : r.steps = past ++ rest)
    (h : run LottieApp.step (LottieApp.initial (some r.window) r.loopMode) past = some s) :
    s.OneHUD r.hud r.window := by
  refine run_invariant_of_mem ?_ h (LottieApp.initial_oneHUD r.looping)
  intro u a ha t hstep one
  exact one.step (r.own a (by rw [split]; exact List.mem_append_left _ ha)) hstep

/-- A mask on its way off after the last call is off in the end. -/
theorem OneHUDRun.hidden_of_leaving (r : OneHUDRun) {past rest : List LottieStep} {s : LottieApp}
    (split : r.steps = past ++ rest) (late : ∀ b ∈ rest, ¬ b.IsCall)
    (h : run LottieApp.step (LottieApp.initial (some r.window) r.loopMode) past = some s)
    (leaving : s.Leaving r.hud) : r.final.Hidden r.hud r.window := by
  have whole := r.ran
  rw [split, run_append, h, Option.bind_some] at whole
  have keeps : ∀ u, ∀ a ∈ rest, ∀ t, LottieApp.step u a = some t →
      u.OneHUD r.hud r.window ∧ u.Leaving r.hud → t.OneHUD r.hud r.window ∧ t.Leaving r.hud := by
    intro u a ha t hstep inv
    have of := r.own a (by rw [split]; exact List.mem_append_right _ ha)
    exact ⟨inv.1.step of hstep, inv.2.step inv.1 of (late a ha) hstep⟩
  obtain ⟨one, still⟩ := run_invariant_of_mem keeps whole ⟨r.oneHUD split h, leaving⟩
  exact still.hidden one r.quiet

theorem OneHUDRun.shown_of_alone (r : OneHUDRun) {past rest : List LottieStep} {s : LottieApp}
    (split : r.steps = past ++ rest) (late : ∀ b ∈ rest, ¬ b.IsCall)
    (h : run LottieApp.step (LottieApp.initial (some r.window) r.loopMode) past = some s)
    (coming : .createHUD r.hud ∈ s.mainQueue)
    (alone : StepsMeet LottieApp.step (LottieApp.ShowsAlone r.hud) s rest) :
    r.final.Shown r.hud r.window := by
  have whole := r.ran
  rw [split, run_append, h, Option.bind_some] at whole
  have keeps : ∀ u, ∀ a ∈ rest, ∀ t, LottieApp.step u a = some t → u.ShowsAlone r.hud a →
      u.OneHUD r.hud r.window ∧ u.Coming r.hud r.window →
        t.OneHUD r.hud r.window ∧ t.Coming r.hud r.window := by
    intro u a ha t hstep hc inv
    have of := r.own a (by rw [split]; exact List.mem_append_right _ ha)
    exact ⟨inv.1.step of hstep, inv.2.step inv.1 of (late a ha) hstep hc⟩
  have inv := always_of_stepsMeet_of_mem keeps ⟨r.oneHUD split h, Or.inl coming⟩ alone
  obtain ⟨one, there⟩ := always_end inv whole
  have on : r.final.superview r.hud = some r.window := by
    rcases there with coming | ⟨_, _, _, on⟩
    · rw [r.quiet.1] at coming
      cases coming
    · exact on
  rcases one.mask with shown | hidden
  · exact shown
  · rw [hidden.1] at on
    cases on

/-- The last command wins exactly when, if it is `showHUD`, its block finds no animation
playing and no other block, fade-out or completion pending. -/
theorem last_command_wins_iff (r : OneHUDRun) : r.LastCommandWins ↔ r.LastShowAlone := by
  apply Iff.intro
  · intro wins past rest s split late hs
    have split' : r.steps = (past ++ [.showHUD r.hud true]) ++ rest := by simpa using split
    by_contra busy
    obtain ⟨before, a, after, u, v, eq, hu, hv, bad⟩ := exists_bad_step busy
    subst eq
    have to_u : run LottieApp.step (LottieApp.initial (some r.window) r.loopMode)
        ((past ++ [.showHUD r.hud true]) ++ before) = some u := by
      rw [run_append, hs, Option.bind_some, hu]
    have to_v : run LottieApp.step (LottieApp.initial (some r.window) r.loopMode)
        (((past ++ [.showHUD r.hud true]) ++ before) ++ [a]) = some v := by
      rw [run_append, to_u, Option.bind_some, run_singleton, hv]
    have until_u : r.steps = ((past ++ [.showHUD r.hud true]) ++ before) ++ a :: after := by simp [split]
    have until_v : r.steps = (((past ++ [.showHUD r.hud true]) ++ before) ++ [a]) ++ after := by simp [split]
    have leaving := LottieApp.leaving_of_not_showsAlone (r.oneHUD until_u to_u) hv bad
    have hidden := r.hidden_of_leaving until_v (fun b hb => late b (by simp [hb])) to_v leaving
    have shown := (wins past _ _ split late).1 rfl
    cases shown.1.symm.trans hidden.1
  · intro alone past a rest split late
    have split' : r.steps = (past ++ [a]) ++ rest := by simpa using split
    have whole := r.ran
    rw [split'] at whole
    obtain ⟨s, hs, _⟩ := run_append_some whole
    obtain ⟨u, _, last⟩ := run_append_some hs
    rw [run_singleton] at last
    apply And.intro
    · intro show_last
      subst show_last
      refine r.shown_of_alone split' late hs ?_ (alone past rest s split late hs)
      cases Option.some.inj last
      exact List.mem_append_right _ (List.mem_singleton_self _)
    · intro stop_last
      subst stop_last
      cases Option.some.inj last
      exact r.hidden_of_leaving split' late hs (u.clearHUD_leaving r.hud)

def shownTwice : OneHUDRun where
  hud := 0
  window := 0
  loopMode _ := .loop
  looping := rfl
  steps := [.showHUD 0 true, .runBlock, .showHUD 0 true, .runBlock, .playCompletion 0, .runBlock,
    .fadeEnds 0, .playCompletion 0, .runBlock, .fadeEnds 0]
  final := (run LottieApp.step (LottieApp.initial (some 0) fun _ => .loop) [.showHUD 0 true, .runBlock,
    .showHUD 0 true, .runBlock, .playCompletion 0, .runBlock, .fadeEnds 0, .playCompletion 0, .runBlock,
    .fadeEnds 0]).get rfl
  own := by simp [LottieStep.Of]
  ran := rfl
  quiet := ⟨rfl, rfl, rfl⟩

/-- The second play interrupts the first, whose completion takes the mask off. -/
theorem shown_twice_hidden : ¬ shownTwice.LastCommandWins := by
  intro wins
  have shown := (wins [.showHUD 0 true, .runBlock] (.showHUD 0 true) _ rfl (by simp [LottieStep.IsCall])).1 rfl
  have off : shownTwice.final.superview 0 = none := rfl
  rw [show shownTwice.final.superview 0 = some 0 from shown.1] at off
  cases off

end SwiftApp
