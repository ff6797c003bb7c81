import SwiftApp.LottieHUD

namespace SwiftApp

open StepRun

/-- A window takes no touches exactly while some mask hangs on it. -/
def LottieApp.Locks (s : LottieApp) : Prop :=
  ∀ window, s.isUserInteractionEnabled window = false ↔ ∃ hud, s.superview hud = some window

def LottieApp.Masked (s : LottieApp) (hud window : Nat) : Prop :=
  ∃ other, other ≠ hud ∧ s.superview other = some window

/-- A mask leaves a window that is not the key window only when another mask stays there,
and a fade-out ends only when no other mask hangs on the key window. -/
def LottieApp.KeepsLock (s : LottieApp) : LottieStep → Prop
  | .runBlock => ∀ hud keyWindow, s.mainQueue.head? = some (.createHUD hud) →
    s.keyWindow = some keyWindow → ∀ window, s.superview hud = some window → window ≠ keyWindow →
      s.Masked hud window
  | .fadeEnds hud => ∀ keyWindow, s.keyWindow = some keyWindow → ¬ s.Masked hud keyWindow ∧
    ∀ window, s.superview hud = some window → window ≠ keyWindow → s.Masked hud window
  | _ => True

theorem masks_after_move {superview : Nat → Option Nat} {hud window : Nat} {place : Option Nat}
    (elsewhere : place ≠ some window) :
    (∃ h, Function.update superview hud place h = some window) ↔
      ∃ other, other ≠ hud ∧ superview other = some window := by
  apply Iff.intro
  · intro found
    obtain ⟨h, hh⟩ := found
    by_cases same : h = hud
    · subst h
      rw [Function.update_self] at hh
      exact absurd hh elsewhere
    · exact ⟨h, same, by rw [Function.update_of_ne same] at hh; exact hh⟩
  · intro found
    obtain ⟨other, ne, ho⟩ := found
    exact ⟨other, by rw [Function.update_of_ne ne]; exact ho⟩

/-- A window keeps its lock when a mask moves elsewhere, unless that mask was its only one. -/
theorem LottieApp.lock_after_move {s : LottieApp} {hud window : Nat} {place : Option Nat}
    (h : s.Locks) (elsewhere : place ≠ some window) :
    (s.isUserInteractionEnabled window = false ↔
        ∃ g, Function.update s.superview hud place g = some window) ↔
      (s.superview hud = some window → s.Masked hud window) := by
  rw [masks_after_move elsewhere, h window]
  apply Iff.intro
  · intro same on
    exact same.mp ⟨hud, on⟩
  · intro stays
    apply Iff.intro
    · intro found
      obtain ⟨g, hg⟩ := found
      by_cases same : g = hud
      · exact stays (same ▸ hg)
      · exact ⟨g, same, hg⟩
    · intro found
      obtain ⟨other, _, ho⟩ := found
      exact ⟨other, ho⟩

theorem LottieApp.locks_createHUD {s : LottieApp} {hud : Nat} (h : s.Locks) :
    (s.createHUD hud).Locks ↔ ∀ keyWindow, s.keyWindow = some keyWindow →
      ∀ window, s.superview hud = some window → window ≠ keyWindow → s.Masked hud window := by
  cases key : s.keyWindow with
  | none =>
    have same : s.createHUD hud = s := by simp [LottieApp.createHUD, key]
    rw [same]
    exact iff_of_true h fun keyWindow no => by cases no
  | some keyWindow =>
    rw [LottieApp.createHUD_some key]
    have others : ∀ window, window ≠ keyWindow → Function.update s.isUserInteractionEnabled keyWindow
        false window = s.isUserInteractionEnabled window := fun window ne => Function.update_of_ne ne _ _
    apply Iff.intro
    · intro after w same window on ne
      cases same
      have moved := after window
      simp only [others window ne] at moved
      exact (LottieApp.lock_after_move h fun e => ne (Option.some.inj e).symm).mp moved on
    · intro stays window
      by_cases ne : window = keyWindow
      · subst window
        exact iff_of_true (Function.update_self ..) ⟨hud, Function.update_self ..⟩
      · simp only [others window ne]
        apply (LottieApp.lock_after_move h fun e => ne (Option.some.inj e).symm).mpr
        exact fun on => stays keyWindow rfl window on ne

theorem LottieApp.locks_faded {s : LottieApp} {hud : Nat} (h : s.Locks) :
    (s.faded hud).Locks ↔ ∀ keyWindow, s.keyWindow = some keyWindow → ¬ s.Masked hud keyWindow ∧
      ∀ window, s.superview hud = some window → window ≠ keyWindow → s.Masked hud window := by
  cases key : s.keyWindow with
  | none =>
    have same : s.faded hud = s := by simp [LottieApp.faded, key]
    rw [same]
    exact iff_of_true h fun keyWindow no => by cases no
  | some keyWindow =>
    rw [LottieApp.faded_some key]
    have others : ∀ window, window ≠ keyWindow → Function.update s.isUserInteractionEnabled keyWindow
        true window = s.isUserInteractionEnabled window := fun window ne => Function.update_of_ne ne _ _
    apply Iff.intro
    · intro after w same
      cases same
      apply And.intro
      · intro masked
        have locked := (after keyWindow).mpr ((masks_after_move (by simp)).mpr masked)
        simp at locked
      · intro window on ne
        have moved := after window
        simp only [others window ne] at moved
        exact (LottieApp.lock_after_move h (by simp)).mp moved on
    · intro stays window
      obtain ⟨bare, kept⟩ := stays keyWindow rfl
      by_cases ne : window = keyWindow
      · subst window
        apply iff_of_false (by simp)
        exact fun found => bare ((masks_after_move (by simp)).mp found)
      · simp only [others window ne]
        exact (LottieApp.lock_after_move h (by simp)).mpr fun on => kept window on ne

theorem LottieApp.locks_step {s t : LottieApp} {a : LottieStep} (hstep : s.step a = some t)
    (h : s.Locks) : t.Locks ↔ s.KeepsLock a := by
  cases a with
  | showHUD hud loop | stopHUD hud | becomeKey window =>
    cases Option.some.inj hstep
    exact iff_of_true h trivial
  | playEnds hud =>
    obtain ⟨_, _, rfl⟩ := LottieApp.step_playEnds hstep
    rw [LottieApp.interrupt_eq]
    exact iff_of_true h trivial
  | playCompletion hud =>
    obtain ⟨_, rfl⟩ := LottieApp.step_playCompletion hstep
    exact iff_of_true h trivial
  | runBlock =>
    obtain ⟨block, later, queue, rfl⟩ := LottieApp.step_runBlock hstep
    simp only [LottieApp.KeepsLock, queue, List.head?_cons, Option.some.injEq]
    cases block with
    | clearHUD hud => exact iff_of_true h fun _ _ no => by cases no
    | createHUD hud =>
      have h' : LottieApp.Locks { s with mainQueue := later } := h
      apply (LottieApp.locks_createHUD h').trans
      apply Iff.intro
      · intro stays g keyWindow same
        cases same
        exact stays keyWindow
      · exact fun stays keyWindow => stays hud keyWindow rfl
  | fadeEnds hud =>
    obtain ⟨_, rfl⟩ := LottieApp.step_fadeEnds hstep
    have h' : LottieApp.Locks { s with fades := s.fades.erase hud } := h
    exact LottieApp.locks_faded h'

theorem LottieApp.initial_locks (keyWindow : Option Nat) (loopMode : Nat → LottieLoopMode) :
    (LottieApp.initial keyWindow loopMode).Locks := by
  intro window
  simp [LottieApp.initial]

/-- No window is ever left locked or open by mistake exactly when no mask is taken off a
window behind the back of the other masks. -/
theorem windows_locked_iff (keyWindow : Option Nat) (loopMode : Nat → LottieLoopMode)
    (steps : List LottieStep) :
    Always LottieApp.step LottieApp.Locks (LottieApp.initial keyWindow loopMode) steps ↔
      StepsMeet LottieApp.step LottieApp.KeepsLock (LottieApp.initial keyWindow loopMode) steps := by
  refine always_iff_stepsMeet_of_step ?_ (LottieApp.initial_locks keyWindow loopMode)
  intro s a t hstep h
  exact LottieApp.locks_step hstep h

/-- A HUD is shown on window 0, window 1 becomes key, and the HUD is stopped. -/
def keyWindowChanges : List LottieStep :=
  [.showHUD 0 true, .runBlock, .becomeKey (some 1), .stopHUD 0, .runBlock, .fadeEnds 0]

/-- Window 0 stays locked although no mask is left. -/
theorem window_left_locked :
    ((run LottieApp.step (LottieApp.initial (some 0) fun _ => .loop) keyWindowChanges).map fun t =>
        (t.isUserInteractionEnabled 0, t.superview 0)) = some (false, none) ∧
      ¬ Always LottieApp.step LottieApp.Locks (LottieApp.initial (some 0) fun _ => .loop)
        keyWindowChanges := by
  refine ⟨rfl, ?_⟩
  intro h
  obtain ⟨t, ht, locked, bare⟩ : ∃ t, run LottieApp.step (LottieApp.initial (some 0) fun _ => .loop)
      keyWindowChanges = some t ∧ t.isUserInteractionEnabled 0 = false ∧
        ∀ hud, t.superview hud ≠ some 0 := by
    refine ⟨_, rfl, rfl, ?_⟩
    intro hud
    show Function.update (Function.update (fun _ => none) 0 (some 0)) 0 none hud ≠ some 0
    by_cases same : hud = 0 <;> simp [same]
  obtain ⟨hud, on⟩ := (always_end h ht 0).mp locked
  exact bare hud on

end SwiftApp
