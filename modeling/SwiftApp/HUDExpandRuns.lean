import SwiftApp.HUDExpand
import Mathlib.Tactic.Positivity

namespace SwiftApp

open scoped NNRat

theorem timeInterval_pos (delaye : Int) : 0 < timeInterval delaye := by
  unfold timeInterval
  split
  next => positivity
  next positive => exact Nat.cast_pos.mpr (by omega)

def waited : List HUDCall → ℚ≥0
  | [] => 0
  | .wait seconds :: calls => seconds + waited calls
  | _ :: calls => waited calls

/-- No `hideMbp` before the next show call. -/
def NotReset (calls : List HUDCall) : Prop :=
  ∀ past delaye rest, calls = past ++ .hideMbp delaye :: rest → ∃ c ∈ past, c.isShow = true

/-- A timer due at `due` runs out in the calls; that of the current HUD is given up
when `hideMbp` is called again. -/
def Elapses (current : Prop) (due now : ℚ≥0) (calls : List HUDCall) : Prop :=
  ∃ quiet rest, calls = quiet ++ rest ∧ (current → NotReset quiet) ∧ due ≤ now + waited quiet

/-- After a show call: before the next one `hideMbp` is called and its delay elapses. -/
def EffectiveHide (calls : List HUDCall) : Prop :=
  ∃ past delaye rest, calls = past ++ .hideMbp delaye :: rest ∧ (∀ c ∈ past, c.isShow = false) ∧
    Elapses True (timeInterval delaye) 0 rest

variable {current : Prop} {due now : ℚ≥0} {calls : List HUDCall}

theorem notReset_nil : NotReset [] := by
  intro past delaye rest h
  simp at h

theorem notReset_cons_wait {seconds : ℚ≥0} :
    NotReset (.wait seconds :: calls) ↔ NotReset calls := by
  apply Iff.intro
  · intro h past delaye rest split
    obtain ⟨c, hc, show_c⟩ := h (.wait seconds :: past) delaye rest (by rw [split]; rfl)
    rcases List.mem_cons.mp hc with rfl | hc
    · cases show_c
    · exact ⟨c, hc, show_c⟩
  · intro h past delaye rest split
    cases past with
    | nil => simp at split
    | cons c past =>
      obtain ⟨d, hd, show_d⟩ := h past delaye rest (List.cons.inj split).2
      exact ⟨d, List.mem_cons_of_mem c hd, show_d⟩

theorem notReset_cons_show {c : HUDCall} (h : c.isShow = true) : NotReset (c :: calls) := by
  intro past delaye rest split
  cases past with
  | nil =>
    cases (List.cons.inj split).1
    cases h
  | cons d past =>
    cases (List.cons.inj split).1
    exact ⟨c, List.mem_cons_self, h⟩

theorem not_notReset_hideMbp {delaye : Int} : ¬ NotReset (.hideMbp delaye :: calls) := by
  intro h
  obtain ⟨c, hc, _⟩ := h [] delaye calls rfl
  cases hc

theorem elapses_nil (early : now < due) : ¬ Elapses current due now [] := by
  intro h
  obtain ⟨quiet, rest, split, _, overdue⟩ := h
  obtain ⟨rfl, _⟩ := List.append_eq_nil_iff.mp split.symm
  rw [waited, add_zero] at overdue
  exact absurd early (not_lt.mpr overdue)

/-- A timer still running when a call is made runs out in a stretch that has the call. -/
theorem elapses_cons (early : now < due) {c : HUDCall} :
    Elapses current due now (c :: calls) ↔ ∃ quiet rest, calls = quiet ++ rest ∧
      (current → NotReset (c :: quiet)) ∧ due ≤ now + waited (c :: quiet) := by
  apply Iff.intro
  · intro h
    obtain ⟨quiet, rest, split, keep, overdue⟩ := h
    cases quiet with
    | nil =>
      rw [waited, add_zero] at overdue
      exact absurd early (not_lt.mpr overdue)
    | cons d quiet =>
      cases (List.cons.inj split).1
      exact ⟨quiet, rest, (List.cons.inj split).2, keep, overdue⟩
  · intro h
    obtain ⟨quiet, rest, split, keep, overdue⟩ := h
    exact ⟨c :: quiet, rest, by rw [split]; rfl, keep, overdue⟩

theorem waited_cons_show {c : HUDCall} (h : c.isShow = true) : waited (c :: calls) = waited calls := by
  cases c <;> first | rfl | cases h

theorem elapses_show (early : now < due) {c : HUDCall} (h : c.isShow = true) :
    Elapses current due now (c :: calls) ↔ Elapses False due now calls := by
  rw [elapses_cons early]
  simp only [waited_cons_show h, notReset_cons_show h, implies_true, true_and]
  unfold Elapses
  simp

theorem elapses_hideMbp_current (early : now < due) {delaye : Int} :
    ¬ Elapses True due now (.hideMbp delaye :: calls) := by
  rw [elapses_cons early]
  intro h
  obtain ⟨quiet, rest, _, keep, _⟩ := h
  exact not_notReset_hideMbp (keep trivial)

theorem elapses_hideMbp_other (early : now < due) {delaye : Int} :
    Elapses False due now (.hideMbp delaye :: calls) ↔ Elapses False due now calls := by
  rw [elapses_cons early]
  unfold Elapses
  simp [waited]

theorem elapses_wait (early : now < due) {seconds : ℚ≥0} :
    Elapses current due now (.wait seconds :: calls) ↔
      Elapses current due (now + seconds) calls := by
  rw [elapses_cons early]
  unfold Elapses
  simp only [waited, notReset_cons_wait, add_assoc]

theorem elapses_shift : Elapses current (now + due) now calls ↔ Elapses current due 0 calls := by
  unfold Elapses
  simp only [zero_add, add_le_add_iff_left]

theorem effectiveHide_nil : ¬ EffectiveHide [] := by
  intro h
  obtain ⟨past, delaye, rest, split, _⟩ := h
  simp at split

theorem effectiveHide_show {c : HUDCall} (h : c.isShow = true) : ¬ EffectiveHide (c :: calls) := by
  intro hide
  obtain ⟨past, delaye, rest, split, before, _⟩ := hide
  cases past with
  | nil =>
    cases (List.cons.inj split).1
    cases h
  | cons d past =>
    cases (List.cons.inj split).1
    rw [before c List.mem_cons_self] at h
    cases h

theorem effectiveHide_tail {c : HUDCall} (h : c.isShow = false) (hide : EffectiveHide calls) :
    EffectiveHide (c :: calls) := by
  obtain ⟨past, delaye, rest, rfl, before, elapses⟩ := hide
  exact ⟨c :: past, delaye, rest, rfl, List.forall_mem_cons.mpr ⟨h, before⟩, elapses⟩

theorem effectiveHide_wait {seconds : ℚ≥0} :
    EffectiveHide (.wait seconds :: calls) ↔ EffectiveHide calls := by
  apply Iff.intro
  · intro hide
    obtain ⟨past, delaye, rest, split, before, elapses⟩ := hide
    cases past with
    | nil => cases (List.cons.inj split).1
    | cons d past =>
      exact ⟨past, delaye, rest, (List.cons.inj split).2,
        fun c hc => before c (List.mem_cons_of_mem d hc), elapses⟩
  · exact effectiveHide_tail rfl

theorem effectiveHide_hideMbp {delaye : Int} :
    EffectiveHide (.hideMbp delaye :: calls) ↔
      Elapses True (timeInterval delaye) 0 calls ∨ EffectiveHide calls := by
  apply Iff.intro
  · intro hide
    obtain ⟨past, later, rest, split, before, elapses⟩ := hide
    cases past with
    | nil =>
      cases split
      exact Or.inl elapses
    | cons d past =>
      exact Or.inr ⟨past, later, rest, (List.cons.inj split).2,
        fun c hc => before c (List.mem_cons_of_mem d hc), elapses⟩
  · intro h
    rcases h with elapses | hide
    · exact ⟨[], delaye, calls, rfl, by simp, elapses⟩
    · exact effectiveHide_tail rfl hide

namespace HUDExpand

/-- The manager's HUDs exist, the current one is one of them, and no running timer is due. -/
structure Sound (s : HUDExpand) : Prop where
  known : ∀ hud ∈ s.added, hud < s.screen.next
  latest : ∀ hud, s.mbp = some hud → hud ∈ s.added
  waiting : ∀ hud ∈ s.added, s.finished hud = false → ¬ s.Due hud

theorem Sound.early {s : HUDExpand} (sound : s.Sound) {hud : Nat} (added : hud ∈ s.added)
    (up : s.finished hud = false) {due : ℚ≥0} (timer : s.hideDelayTimer hud = some due) :
    s.now < due :=
  lt_of_not_ge fun overdue => sound.waiting hud added up ⟨due, timer, overdue⟩

theorem showAdded_added {s : HUDExpand} {mode : Option MBProgressHUDMode} :
    (s.showAdded mode).added = s.added ++ [s.screen.next] := rfl

theorem showAdded_next {s : HUDExpand} {mode : Option MBProgressHUDMode} :
    (s.showAdded mode).screen.next = s.screen.next + 1 := rfl

theorem showAdded_timer {s : HUDExpand} {mode : Option MBProgressHUDMode} {hud : Nat}
    (old : hud < s.screen.next) :
    (s.showAdded mode).hideDelayTimer hud = s.hideDelayTimer hud :=
  Function.update_of_ne (Nat.ne_of_lt old) _ _

theorem wait_same (s : HUDExpand) (seconds : ℚ≥0) : (s.tick seconds).SameHUDs (s.wait seconds) :=
  foldl_fire_same _ _

theorem wait_of_due {s : HUDExpand} {seconds : ℚ≥0} {hud : Nat} (added : hud ∈ s.added)
    (due : (s.tick seconds).Due hud) : (s.wait seconds).finished hud = true :=
  foldl_fire_of_due due added

theorem wait_of_not_due {s : HUDExpand} {seconds : ℚ≥0} {hud : Nat}
    (running : ¬ (s.tick seconds).Due hud) :
    (s.wait seconds).finished hud = s.finished hud ∧
      (s.wait seconds).hideDelayTimer hud = s.hideDelayTimer hud :=
  foldl_fire_of_not_due running s.added

theorem hideMbp_same (s : HUDExpand) (delaye : Int) : s.SameHUDs (s.hideMbp delaye) := by
  unfold hideMbp
  split <;> exact ⟨rfl, rfl, rfl, rfl, rfl⟩

theorem hideMbp_finished {s : HUDExpand} {delaye : Int} {hud : Nat} :
    (s.hideMbp delaye).finished hud = s.finished hud := by
  unfold hideMbp
  split <;> rfl

theorem hideMbp_timer {s : HUDExpand} {delaye : Int} {hud : Nat} (current : s.mbp = some hud) :
    (s.hideMbp delaye).hideDelayTimer hud = some (s.now + timeInterval delaye) := by
  unfold hideMbp
  rw [current]
  exact Function.update_self hud _ _

theorem hideMbp_timer_other {s : HUDExpand} {delaye : Int} {hud : Nat} (other : s.mbp ≠ some hud) :
    (s.hideMbp delaye).hideDelayTimer hud = s.hideDelayTimer hud := by
  unfold hideMbp
  split
  next current same =>
    have apart : hud ≠ current := by
      intro here
      subst here
      exact other same
    exact Function.update_of_ne apart _ _
  next => rfl

theorem Sound.showAdded {s : HUDExpand} (sound : s.Sound) (mode : Option MBProgressHUDMode) :
    (s.showAdded mode).Sound where
  known := by
    intro hud h
    rw [showAdded_added, List.mem_append, List.mem_singleton] at h
    rw [showAdded_next]
    rcases h with old | rfl
    · have := sound.known hud old
      omega
    · omega
  latest := by
    intro hud h
    cases h
    exact List.mem_append_right _ List.mem_cons_self
  waiting := by
    intro hud h up due
    rw [showAdded_added, List.mem_append, List.mem_singleton] at h
    rcases h with old | rfl
    · have known := sound.known hud old
      rw [showAdded_finished known] at up
      exact sound.waiting hud old up ((due_congr (showAdded_timer known) rfl).mp due)
    · obtain ⟨_, timer, _⟩ := due
      simp [HUDExpand.showAdded, Screen.showHUDAddedTo] at timer

theorem Sound.hideMbp {s : HUDExpand} (sound : s.Sound) (delaye : Int) : (s.hideMbp delaye).Sound where
  known := by
    rw [(s.hideMbp_same delaye).added, (s.hideMbp_same delaye).next]
    exact sound.known
  latest := by
    rw [(s.hideMbp_same delaye).added, (s.hideMbp_same delaye).mbp]
    exact sound.latest
  waiting := by
    intro hud added up due
    rw [(s.hideMbp_same delaye).added] at added
    rw [hideMbp_finished] at up
    obtain ⟨time, timer, overdue⟩ := due
    rw [(s.hideMbp_same delaye).now] at overdue
    by_cases current : s.mbp = some hud
    · cases (hideMbp_timer current).symm.trans timer
      exact absurd (lt_add_of_pos_right _ (timeInterval_pos delaye)) (not_lt.mpr overdue)
    · rw [hideMbp_timer_other current] at timer
      exact sound.waiting hud added up ⟨time, timer, overdue⟩

theorem Sound.wait {s : HUDExpand} (sound : s.Sound) (seconds : ℚ≥0) : (s.wait seconds).Sound where
  known := by
    rw [(s.wait_same seconds).added, (s.wait_same seconds).next]
    exact sound.known
  latest := by
    rw [(s.wait_same seconds).added, (s.wait_same seconds).mbp]
    exact sound.latest
  waiting := by
    intro hud added up due
    have mine : hud ∈ s.added := by
      rw [(s.wait_same seconds).added] at added
      exact added
    by_cases passed : (s.tick seconds).Due hud
    · rw [wait_of_due mine passed] at up
      cases up
    · have timer : (s.wait seconds).hideDelayTimer hud = (s.tick seconds).hideDelayTimer hud :=
        (wait_of_not_due passed).2
      exact passed ((due_congr timer (s.wait_same seconds).now).mp due)

theorem Sound.call {s : HUDExpand} (sound : s.Sound) (c : HUDCall) : (s.call c).Sound := by
  cases c with
  | temporaryText => exact sound.showAdded _
  | temporaryTextdetailsLabelText => exact sound.showAdded _
  | temporaryactvText => exact sound.showAdded _
  | temporaryactvTextndeterminate => exact sound.showAdded _
  | hideMbp delaye => exact sound.hideMbp delaye
  | wait seconds => exact sound.wait seconds

theorem Sound.run {s : HUDExpand} (sound : s.Sound) (steps : List HUDCall) :
    (steps.foldl HUDExpand.call s).Sound := by
  induction steps generalizing s with
  | nil => exact sound
  | cons c steps ih => exact ih (sound.call c)

theorem sound_initial (screen : Screen) (window : Nat) : (initial screen window).Sound :=
  ⟨by simp [initial], by simp [initial], by simp [initial]⟩

/-- A call keeps the manager's HUDs, and those that are hidden hidden. -/
theorem call_keeps {s : HUDExpand} (sound : s.Sound) (c : HUDCall) {hud : Nat}
    (added : hud ∈ s.added) :
    hud ∈ (s.call c).added ∧ (s.finished hud = true → (s.call c).finished hud = true) := by
  cases h : c.isShow with
  | true =>
    obtain ⟨mode, same⟩ := call_show (s := s) h
    rw [same, showAdded_finished (sound.known hud added)]
    exact ⟨List.mem_append_left _ added, fun up => up⟩
  | false =>
    cases c with
    | hideMbp delaye =>
      exact ⟨(s.hideMbp_same delaye).added ▸ added, fun up => hideMbp_finished.trans up⟩
    | wait seconds =>
      refine ⟨(s.wait_same seconds).added ▸ added, ?_⟩
      intro up
      have ticked : (s.tick seconds).finished hud = true := up
      exact foldl_fire_keeps ticked s.added
    | _ => cases h

theorem run_keeps {s : HUDExpand} (sound : s.Sound) (steps : List HUDCall) {hud : Nat}
    (added : hud ∈ s.added) : hud ∈ (steps.foldl call s).added ∧
      (s.finished hud = true → (steps.foldl call s).finished hud = true) := by
  induction steps generalizing s with
  | nil => exact ⟨added, fun up => up⟩
  | cons c steps ih =>
    obtain ⟨later, hidden⟩ := call_keeps sound c added
    have rest := ih (sound.call c) later
    exact ⟨rest.1, fun up => rest.2 (hidden up)⟩

/-- The calls hide the HUD: its timer runs out in them, or it is the current HUD and `hideMbp`
takes effect on it. -/
def HidesLater (s : HUDExpand) (hud : Nat) (calls : List HUDCall) : Prop :=
  (∃ due, s.hideDelayTimer hud = some due ∧ Elapses (s.mbp = some hud) due s.now calls) ∨
    s.mbp = some hud ∧ EffectiveHide calls

theorem not_hidesLater_nil {s : HUDExpand} (sound : s.Sound) {hud : Nat} (added : hud ∈ s.added)
    (up : s.finished hud = false) : ¬ s.HidesLater hud [] := by
  intro h
  rcases h with ⟨due, timer, elapses⟩ | ⟨_, hide⟩
  · exact elapses_nil (sound.early added up timer) elapses
  · exact effectiveHide_nil hide

/-- A show call takes the current HUD away from `hideMbp`; its timer runs on. -/
theorem hidesLater_show {s : HUDExpand} (sound : s.Sound) {hud : Nat} (added : hud ∈ s.added)
    (up : s.finished hud = false) {c : HUDCall} (h : c.isShow = true) (steps : List HUDCall) :
    (s.call c).HidesLater hud steps ↔ s.HidesLater hud (c :: steps) := by
  have known := sound.known hud added
  obtain ⟨mode, same⟩ := call_show (s := s) h
  have new : (s.call c).mbp ≠ some hud := by
    rw [same]
    intro current
    exact absurd (Option.some.inj current) (Nat.ne_of_gt known)
  unfold HidesLater
  rw [eq_false new, same, showAdded_timer known]
  apply Iff.intro
  · intro hidden
    obtain ⟨due, timer, elapses⟩ := hidden.resolve_right And.left
    exact Or.inl ⟨due, timer, (elapses_show (sound.early added up timer) h).mpr elapses⟩
  · intro hidden
    rcases hidden with ⟨due, timer, elapses⟩ | ⟨_, hide⟩
    · exact Or.inl ⟨due, timer, (elapses_show (sound.early added up timer) h).mp elapses⟩
    · exact absurd hide (effectiveHide_show h)

/-- `hideMbp` sets the timer of the current HUD anew and leaves those of the others. -/
theorem hidesLater_hideMbp {s : HUDExpand} (sound : s.Sound) {hud : Nat} (added : hud ∈ s.added)
    (up : s.finished hud = false) (delaye : Int) (steps : List HUDCall) :
    (s.hideMbp delaye).HidesLater hud steps ↔ s.HidesLater hud (.hideMbp delaye :: steps) := by
  have same := s.hideMbp_same delaye
  unfold HidesLater
  rw [same.mbp, same.now]
  by_cases current : s.mbp = some hud
  · simp only [hideMbp_timer current, current, effectiveHide_hideMbp, true_and,
      Option.some.injEq, exists_eq_left', elapses_shift]
    refine (or_iff_right ?_).symm
    intro hidden
    obtain ⟨due, timer, elapses⟩ := hidden
    exact elapses_hideMbp_current (sound.early added up timer) elapses
  · rw [hideMbp_timer_other current, eq_false current]
    simp only [false_and, or_false]
    refine exists_congr fun due => and_congr_right fun timer => ?_
    exact (elapses_hideMbp_other (sound.early added up timer)).symm

/-- Waiting that does not reach the timer of the HUD only lets time go by. -/
theorem hidesLater_wait {s : HUDExpand} (sound : s.Sound) {hud : Nat} (added : hud ∈ s.added)
    (up : s.finished hud = false) {seconds : ℚ≥0} (running : ¬ (s.tick seconds).Due hud)
    (steps : List HUDCall) :
    (s.wait seconds).HidesLater hud steps ↔ s.HidesLater hud (.wait seconds :: steps) := by
  have same := s.wait_same seconds
  have timer : (s.wait seconds).hideDelayTimer hud = s.hideDelayTimer hud := (wait_of_not_due running).2
  unfold HidesLater
  rw [same.mbp, same.now, timer, effectiveHide_wait]
  refine or_congr_left (exists_congr fun due => and_congr_right fun set => ?_)
  exact (elapses_wait (sound.early added up set)).symm

theorem hidesLater_of_due {s : HUDExpand} (sound : s.Sound) {hud : Nat} (added : hud ∈ s.added)
    (up : s.finished hud = false) {seconds : ℚ≥0} (passed : (s.tick seconds).Due hud)
    (steps : List HUDCall) : s.HidesLater hud (.wait seconds :: steps) := by
  obtain ⟨due, timer, overdue⟩ := passed
  refine Or.inl ⟨due, timer, ?_⟩
  rw [elapses_wait (sound.early added up timer)]
  refine ⟨[], steps, rfl, fun _ => notReset_nil, ?_⟩
  rw [waited, add_zero]
  exact overdue

/-- A HUD that is still shown gets hidden in the calls that follow if and only if they hide it. -/
theorem run_finished_iff {s : HUDExpand} (sound : s.Sound) (steps : List HUDCall) {hud : Nat}
    (added : hud ∈ s.added) (up : s.finished hud = false) :
    (steps.foldl call s).finished hud = true ↔ s.HidesLater hud steps := by
  induction steps generalizing s with
  | nil =>
    rw [List.foldl_nil, up]
    exact iff_of_false (by simp) (not_hidesLater_nil sound added up)
  | cons c steps ih =>
    rw [List.foldl_cons]
    have later := (call_keeps sound c added).1
    cases h : c.isShow with
    | true =>
      obtain ⟨mode, same⟩ := call_show (s := s) h
      have up' : (s.call c).finished hud = false := by
        rw [same, showAdded_finished (sound.known hud added), up]
      rw [ih (sound.call c) later up', hidesLater_show sound added up h]
    | false =>
      cases c with
      | hideMbp delaye =>
        rw [ih (sound.call _) later (hideMbp_finished.trans up)]
        exact hidesLater_hideMbp sound added up delaye steps
      | wait seconds =>
        by_cases passed : (s.tick seconds).Due hud
        · have hidden := (run_keeps (sound.call (.wait seconds)) steps later).2
            (wait_of_due added passed)
          exact iff_of_true hidden (hidesLater_of_due sound added up passed steps)
        · have up' : (s.wait seconds).finished hud = false := (wait_of_not_due passed).1.trans up
          rw [ih (sound.call _) later up']
          exact hidesLater_wait sound added up passed steps
      | _ => cases h

/-- After a show call its HUD gets hidden if and only if `hideMbp` takes effect on it. -/
theorem shown_finished_iff {s : HUDExpand} (sound : s.Sound) {c : HUDCall} (h : c.isShow = true)
    (steps : List HUDCall) :
    (steps.foldl call (s.call c)).finished s.screen.next = true ↔ EffectiveHide steps := by
  obtain ⟨mode, same⟩ := call_show (s := s) h
  have sound' := sound.call c
  rw [same] at sound' ⊢
  rw [run_finished_iff sound' steps (List.mem_append_right _ List.mem_cons_self) showAdded_new]
  have timer : (s.showAdded mode).hideDelayTimer s.screen.next = none := Function.update_self _ _ _
  have current : (s.showAdded mode).mbp = some s.screen.next := rfl
  unfold HidesLater
  simp [timer, current]

/-- Every HUD of the manager was added by one of the show calls. -/
theorem added_by_show {s : HUDExpand} {steps : List HUDCall} {hud : Nat}
    (h : hud ∈ (steps.foldl call s).added) : hud ∈ s.added ∨ ∃ past c rest,
      steps = past ++ c :: rest ∧ c.isShow = true ∧ hud = (past.foldl call s).screen.next := by
  induction steps generalizing s with
  | nil => exact Or.inl h
  | cons c steps ih =>
    rcases ih h with old | ⟨past, d, rest, rfl, show_d, same⟩
    · cases show_c : c.isShow with
      | true =>
        obtain ⟨mode, same⟩ := call_show (s := s) show_c
        rw [same, showAdded_added, List.mem_append, List.mem_singleton] at old
        exact old.imp_right fun new => ⟨[], c, steps, rfl, show_c, new⟩
      | false =>
        cases c with
        | hideMbp delaye => exact Or.inl ((s.hideMbp_same delaye).added ▸ old)
        | wait seconds => exact Or.inl ((s.wait_same seconds).added ▸ old)
        | _ => cases show_c
    · exact Or.inr ⟨c :: past, d, rest, rfl, show_d, same⟩

end HUDExpand

/-- Calls on the shared manager, at whose end a `hideMbp` made after the last show call has
taken effect. -/
structure HiddenRun where
  screen : Screen
  window : Nat
  calls : List HUDCall
  taken : ∃ past c rest, calls = past ++ c :: rest ∧ c.isShow = true ∧
    (∀ d ∈ rest, d.isShow = false) ∧ EffectiveHide rest

namespace HiddenRun

def final (r : HiddenRun) : HUDExpand := r.calls.foldl HUDExpand.call (.initial r.screen r.window)

/-- No HUD that the calls added to the window is still shown. -/
def AllHidden (r : HiddenRun) : Prop := ∀ hud ∈ r.final.added, r.final.finished hud = true

end HiddenRun

/-- The manager hides what it showed if and only if after every show call, before the next
one, `hideMbp` was called and its delay has elapsed. -/
theorem hud_expand_hides_iff (r : HiddenRun) : r.AllHidden ↔
    ∀ past c rest, r.calls = past ++ c :: rest → c.isShow = true → EffectiveHide rest := by
  have start := HUDExpand.sound_initial r.screen r.window
  have split {past : List HUDCall} {c : HUDCall} {rest : List HUDCall}
      (h : r.calls = past ++ c :: rest) : r.final =
        rest.foldl HUDExpand.call ((past.foldl HUDExpand.call (.initial r.screen r.window)).call c) := by
    unfold HiddenRun.final
    rw [h, List.foldl_append, List.foldl_cons]
  apply Iff.intro
  · intro hidden past c rest h show_c
    have sound := start.run past
    rw [← HUDExpand.shown_finished_iff sound show_c, ← split h]
    apply hidden
    rw [split h]
    apply (HUDExpand.run_keeps (sound.call c) rest _).1
    obtain ⟨mode, same⟩ := HUDExpand.call_show show_c
    rw [same]
    exact List.mem_append_right _ List.mem_cons_self
  · intro order hud added
    rcases HUDExpand.added_by_show added with none_yet | ⟨past, c, rest, h, show_c, same⟩
    · cases none_yet
    · rw [split h, same, HUDExpand.shown_finished_iff (start.run past) show_c]
      exact order past c rest h show_c

/-- Two show calls, and one `hideMbp` that has taken effect. -/
def textShownTwice : HiddenRun where
  screen := .blank
  window := 0
  calls := [.temporaryText, .temporaryactvText, .hideMbp 1, .wait 1]
  taken := ⟨[.temporaryText], .temporaryactvText, [.hideMbp 1, .wait 1], rfl, rfl,
    by simp [HUDCall.isShow], [], 1, [.wait 1], rfl, by simp, [.wait 1], [], rfl,
    fun _ => notReset_cons_wait.mpr notReset_nil, by simp [timeInterval, waited]⟩

theorem first_hud_left_shown : ¬ textShownTwice.AllHidden := by
  intro hidden
  have start := HUDExpand.sound_initial .blank 0
  have added : 0 ∈ textShownTwice.final.added :=
    (HUDExpand.run_keeps (start.call .temporaryText) _ List.mem_cons_self).1
  exact effectiveHide_show rfl ((HUDExpand.shown_finished_iff start rfl _).mp (hidden 0 added))

end SwiftApp
