import SwiftApp.LottieHUD
import Mathlib.Algebra.BigOperators.Group.Finset.Basic
import Mathlib.Algebra.Order.BigOperators.Group.List
import Mathlib.Algebra.Order.Group.Nat

namespace SwiftApp

open StepRun

def LottieBlock.hud : LottieBlock → ℕ
  | .createHUD hud | .clearHUD hud => hud

def LottieStep.isWork : LottieStep → Bool
  | .runBlock | .fadeEnds _ | .playEnds _ | .playCompletion _ => true
  | _ => false

def LottieStep.isShowHUD : LottieStep → Bool
  | .showHUD _ _ => true
  | _ => false

def LottieStep.isStopHUD : LottieStep → Bool
  | .stopHUD _ => true
  | _ => false

/-- The HUD a call is made on. -/
def LottieStep.called : LottieStep → ℕ
  | .showHUD hud _ | .stopHUD hud => hud
  | _ => 0

/-- How many steps a block can still lead to: a `createHUD` block to a play, its completion, a
`clearHUD` block and a fade-out. -/
def LottieBlock.weight : LottieBlock → ℕ
  | .createHUD _ => 5
  | .clearHUD _ => 2

def playsBelow (bound : ℕ) (playing : ℕ → Bool) : ℕ := ∑ hud ∈ Finset.range bound, (playing hud).toNat

def LottieApp.weight (bound : ℕ) (s : LottieApp) : ℕ :=
  (s.mainQueue.map LottieBlock.weight).sum + s.fades.length + 3 * s.completions.length +
    4 * playsBelow bound s.isAnimationPlaying

/-- Everything under way is about HUDs below a bound. -/
structure LottieApp.Below (bound : ℕ) (s : LottieApp) : Prop where
  blocks : ∀ block ∈ s.mainQueue, block.hud < bound
  fades : ∀ hud ∈ s.fades, hud < bound
  completions : ∀ hud ∈ s.completions, hud < bound
  playing : ∀ hud, s.isAnimationPlaying hud = true → hud < bound

theorem playsBelow_update {bound hud : ℕ} (playing : ℕ → Bool) (now : Bool) (known : hud < bound) :
    playsBelow bound (Function.update playing hud now) + (playing hud).toNat =
      playsBelow bound playing + now.toNat := by
  have listed : hud ∈ Finset.range bound := Finset.mem_range.mpr known
  have others : ∑ g ∈ (Finset.range bound).erase hud, (Function.update playing hud now g).toNat =
      ∑ g ∈ (Finset.range bound).erase hud, (playing g).toNat := by
    refine Finset.sum_congr rfl fun g other => ?_
    rw [Function.update_of_ne (Finset.mem_erase.mp other).1]
  unfold playsBelow
  rw [← Finset.add_sum_erase _ _ listed, ← Finset.add_sum_erase _ (fun g => (playing g).toNat) listed,
    others, Function.update_self]
  omega

theorem playsBelow_succ {bound : ℕ} {playing : ℕ → Bool} (still : playing bound = false) :
    playsBelow (bound + 1) playing = playsBelow bound playing := by
  simp [playsBelow, Finset.sum_range_succ, still]

theorem LottieApp.below_initial (bound : ℕ) (keyWindow : Option ℕ) (loopMode : ℕ → LottieLoopMode) :
    (LottieApp.initial keyWindow loopMode).Below bound :=
  ⟨fun _ h => (by cases h), fun _ h => (by cases h), fun _ h => (by cases h), fun _ h => (by cases h)⟩

theorem LottieApp.weight_initial (bound : ℕ) (keyWindow : Option ℕ) (loopMode : ℕ → LottieLoopMode) :
    (LottieApp.initial keyWindow loopMode).weight bound = 0 := by
  simp [LottieApp.weight, LottieApp.initial, playsBelow]

theorem LottieApp.interrupt_weight {bound hud : ℕ} {s : LottieApp} (known : hud < bound) :
    (s.interrupt hud).weight bound + (s.isAnimationPlaying hud).toNat = s.weight bound := by
  have plays := playsBelow_update s.isAnimationPlaying false known
  rw [LottieApp.interrupt_eq]
  unfold LottieApp.weight
  cases playing : s.isAnimationPlaying hud <;> simp [playing] at plays ⊢ <;> omega

theorem LottieApp.Below.interrupt {bound hud : ℕ} {s : LottieApp} (below : s.Below bound)
    (known : hud < bound) : (s.interrupt hud).Below bound := by
  rw [LottieApp.interrupt_eq]
  refine ⟨below.blocks, below.fades, fun g listed => ?_, fun g plays => ?_⟩
  · rcases List.mem_append.mp listed with old | new
    · exact below.completions g old
    · split at new
      next =>
        cases List.mem_singleton.mp new
        exact known
      next => cases new
  · by_cases same : g = hud
    · rw [same]
      exact known
    · exact below.playing g (by simpa [Function.update_of_ne same] using plays)

theorem LottieApp.createHUD_weight {bound hud : ℕ} {s : LottieApp} (below : s.Below bound)
    (known : hud < bound) :
    (s.createHUD hud).weight bound ≤ s.weight bound + 4 ∧ (s.createHUD hud).Below bound := by
  cases key : s.keyWindow with
  | none =>
    have same : s.createHUD hud = s := by simp [LottieApp.createHUD, key]
    rw [same]
    exact ⟨Nat.le_add_right _ _, below⟩
  | some window =>
    have plays := playsBelow_update s.isAnimationPlaying true known
    have completions := (below.interrupt known).completions
    rw [LottieApp.interrupt_eq] at completions
    rw [LottieApp.createHUD_some key]
    refine ⟨?_, below.blocks, below.fades, completions, fun g now => ?_⟩
    · unfold LottieApp.weight
      cases playing : s.isAnimationPlaying hud <;> simp [playing] at plays ⊢ <;> omega
    · by_cases same : g = hud
      · rw [same]
        exact known
      · exact below.playing g (by simpa [Function.update_of_ne same] using now)

theorem LottieApp.faded_weight {bound hud : ℕ} {s : LottieApp} (below : s.Below bound)
    (known : hud < bound) :
    (s.faded hud).weight bound ≤ s.weight bound ∧ (s.faded hud).Below bound := by
  cases key : s.keyWindow with
  | none =>
    have same : s.faded hud = s := by simp [LottieApp.faded, key]
    rw [same]
    exact ⟨le_refl _, below⟩
  | some window =>
    have weight := LottieApp.interrupt_weight (s := s) known
    have kept := below.interrupt known
    rw [LottieApp.interrupt_eq] at weight kept
    rw [LottieApp.faded_some key]
    refine ⟨?_, kept.blocks, kept.fades, kept.completions, kept.playing⟩
    exact (Nat.le_add_right _ _).trans weight.le

def LottieStep.cost (a : LottieStep) : ℕ := if a.isWork then 1 else 0

def LottieStep.credit (a : LottieStep) : ℕ :=
  (if a.isShowHUD then 5 else 0) + if a.isStopHUD then 2 else 0

/-- A call brings the work it can lead to, and each piece of work leaves less to do. -/
theorem LottieApp.step_weight {bound : ℕ} {s t : LottieApp} {a : LottieStep} (below : s.Below bound)
    (known : a.called < bound) (taken : s.step a = some t) :
    t.weight bound + a.cost ≤ s.weight bound + a.credit ∧ t.Below bound := by
  have enqueue {block : LottieBlock} (own : block.hud < bound) :
      ∀ b ∈ s.mainQueue ++ [block], b.hud < bound := by
    intro b listed
    rcases List.mem_append.mp listed with old | new
    · exact below.blocks b old
    · cases List.mem_singleton.mp new
      exact own
  cases a with
  | showHUD hud loop =>
    cases taken
    refine ⟨?_, enqueue known, below.fades, below.completions, below.playing⟩
    simp [LottieApp.weight, LottieApp.showHUD, LottieBlock.weight, LottieStep.cost, LottieStep.credit,
      LottieStep.isWork, LottieStep.isShowHUD, LottieStep.isStopHUD]
    omega
  | stopHUD hud =>
    cases taken
    refine ⟨?_, enqueue known, below.fades, below.completions, below.playing⟩
    simp [LottieApp.weight, LottieApp.stopHUD, LottieApp.clearHUD, LottieBlock.weight, LottieStep.cost,
      LottieStep.credit, LottieStep.isWork, LottieStep.isShowHUD, LottieStep.isStopHUD]
    omega
  | runBlock =>
    obtain ⟨block, later, queue, rfl⟩ := LottieApp.step_runBlock taken
    have own : block.hud < bound := below.blocks block (by rw [queue]; exact List.mem_cons_self)
    have rest : ({ s with mainQueue := later } : LottieApp).Below bound :=
      ⟨fun b listed => below.blocks b (by rw [queue]; exact List.mem_cons_of_mem _ listed), below.fades,
        below.completions, below.playing⟩
    have weight : ({ s with mainQueue := later } : LottieApp).weight bound + block.weight =
        s.weight bound := by
      simp [LottieApp.weight, queue]
      omega
    show _ + 1 ≤ _ + 0 ∧ _
    cases block with
    | createHUD hud =>
      have known' : hud < bound := own
      obtain ⟨less, below'⟩ := LottieApp.createHUD_weight rest known'
      refine ⟨?_, below'⟩
      have five : LottieBlock.weight (.createHUD hud) = 5 := rfl
      show (LottieApp.createHUD hud _).weight bound + 1 ≤ _
      omega
    | clearHUD hud =>
      refine ⟨?_, rest.blocks, fun g listed => ?_, rest.completions, rest.playing⟩
      · have two : LottieBlock.weight (.clearHUD hud) = 2 := rfl
        have fade : ({ s with mainQueue := later, fades := s.fades ++ [hud] } : LottieApp).weight bound =
            ({ s with mainQueue := later } : LottieApp).weight bound + 1 := by
          simp [LottieApp.weight]
          omega
        show ({ s with mainQueue := later, fades := s.fades ++ [hud] } : LottieApp).weight bound + 1 ≤ _
        omega
      · rcases List.mem_append.mp listed with old | new
        · exact rest.fades g old
        · cases List.mem_singleton.mp new
          exact own
  | fadeEnds hud =>
    obtain ⟨fades, rfl⟩ := LottieApp.step_fadeEnds taken
    have rest : ({ s with fades := s.fades.erase hud } : LottieApp).Below bound :=
      ⟨below.blocks, fun g listed => below.fades g (List.mem_of_mem_erase listed), below.completions,
        below.playing⟩
    have weight : ({ s with fades := s.fades.erase hud } : LottieApp).weight bound + 1 =
        s.weight bound := by
      have length := List.length_erase_add_one fades
      simp only [LottieApp.weight]
      omega
    obtain ⟨less, below'⟩ := LottieApp.faded_weight rest (below.fades hud fades)
    refine ⟨?_, below'⟩
    show _ + 1 ≤ _ + 0
    omega
  | playEnds hud =>
    obtain ⟨playing, -, rfl⟩ := LottieApp.step_playEnds taken
    have own := below.playing hud playing
    have weight := LottieApp.interrupt_weight (s := s) own
    rw [playing] at weight
    exact ⟨weight.le, below.interrupt own⟩
  | playCompletion hud =>
    obtain ⟨due, rfl⟩ := LottieApp.step_playCompletion taken
    have length := List.length_erase_add_one due
    refine ⟨?_, enqueue (below.completions hud due), below.fades,
      fun g listed => below.completions g (List.mem_of_mem_erase listed), below.playing⟩
    show _ + 1 ≤ _ + 0
    simp [LottieApp.weight, LottieApp.clearHUD, LottieBlock.weight]
    omega
  | becomeKey window =>
    cases taken
    exact ⟨le_refl _, below.blocks, below.fades, below.completions, below.playing⟩

theorem sum_map_ite_countP {α : Type} (p : α → Bool) (k : ℕ) (as : List α) :
    (as.map fun a => if p a then k else 0).sum = k * as.countP p := by
  induction as with
  | nil => rfl
  | cons a as ih =>
    rw [List.map_cons, List.sum_cons, ih, List.countP_cons]
    cases p a <;> simp [Nat.mul_add, Nat.add_comm]

theorem LottieStep.sum_cost (steps : List LottieStep) :
    (steps.map LottieStep.cost).sum = steps.countP LottieStep.isWork := by
  have sum := sum_map_ite_countP LottieStep.isWork 1 steps
  rw [Nat.one_mul] at sum
  exact sum

theorem LottieStep.sum_credit (steps : List LottieStep) :
    (steps.map LottieStep.credit).sum =
      5 * steps.countP LottieStep.isShowHUD + 2 * steps.countP LottieStep.isStopHUD := by
  rw [← sum_map_ite_countP LottieStep.isShowHUD, ← sum_map_ite_countP LottieStep.isStopHUD]
  exact List.sum_map_add

/-- However the windows change and the calls, blocks, animations and completions of any number of
HUDs interleave, a `showHUD` leads to five steps at most and a `stopHUD` to two. -/
theorem lottie_work_bounded {keyWindow : Option ℕ} {loopMode : ℕ → LottieLoopMode}
    {steps : List LottieStep} {s : LottieApp}
    (ran : run LottieApp.step (LottieApp.initial keyWindow loopMode) steps = some s) :
    steps.countP LottieStep.isWork ≤
      5 * steps.countP LottieStep.isShowHUD + 2 * steps.countP LottieStep.isStopHUD := by
  obtain ⟨bound, known⟩ : ∃ bound, ∀ a ∈ steps, a.called < bound := by
    refine ⟨(steps.map LottieStep.called).sum + 1, fun a listed => ?_⟩
    exact Nat.lt_succ_of_le (List.le_sum_of_mem (List.mem_map_of_mem listed))
  have pays : ∀ s a t, a ∈ steps → s.step a = some t → LottieApp.Below bound s →
      t.weight bound + a.cost ≤ s.weight bound + a.credit ∧ LottieApp.Below bound t :=
    fun s a t listed taken below => LottieApp.step_weight below (known a listed) taken
  have paid := run_amortized pays ran (LottieApp.below_initial bound keyWindow loopMode)
  rw [LottieApp.weight_initial, LottieStep.sum_cost, LottieStep.sum_credit, Nat.zero_add] at paid
  exact (Nat.le_add_left _ _).trans paid

theorem lottie_work_bounded_shownTwice : ∃ steps : List LottieStep,
    (run LottieApp.step (LottieApp.initial (some 0) fun _ => .loop) steps).isSome = true ∧
      steps.countP LottieStep.isWork ≤
        5 * steps.countP LottieStep.isShowHUD + 2 * steps.countP LottieStep.isStopHUD := by
  let steps : List LottieStep := [.showHUD 0 true, .runBlock, .showHUD 0 false, .runBlock,
    .playCompletion 0, .playEnds 0, .runBlock, .fadeEnds 0, .playCompletion 0, .runBlock, .fadeEnds 0]
  have ran : (run LottieApp.step (LottieApp.initial (some 0) fun _ => .loop) steps).isSome = true := rfl
  exact ⟨steps, ran, lottie_work_bounded (Option.some_get ran).symm⟩

end SwiftApp
