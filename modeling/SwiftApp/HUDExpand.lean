import SwiftApp.WindowHUD
import Mathlib.Algebra.Order.Field.Rat
import Mathlib.Algebra.Order.Ring.NNRat

namespace SwiftApp

open scoped NNRat

/-- `NSTimer` takes 0.1 ms for an interval that is not positive. -/
def timeInterval (delaye : Int) : ℚ≥0 := if delaye ≤ 0 then 1 / 10000 else delaye.toNat

/-- The shared `HUDExpand` with the screen it works on. -/
structure HUDExpand where
  screen : Screen
  window : Nat
  /-- `none`: the HUD made with the manager, which is on no view -/
  mbp : Option Nat
  hideDelayTimer : Nat → Option ℚ≥0
  now : ℚ≥0
  /-- the HUDs added to the window by the manager's show calls -/
  added : List Nat

inductive HUDCall
  | temporaryText
  | temporaryTextdetailsLabelText
  | temporaryactvText
  | temporaryactvTextndeterminate
  | hideMbp (delaye : Int)
  | wait (seconds : ℚ≥0)

def HUDCall.isShow : HUDCall → Bool
  | .hideMbp _ | .wait _ => false
  | _ => true

namespace HUDExpand

def initial (screen : Screen) (window : Nat) : HUDExpand :=
  ⟨screen, window, none, fun _ => none, 0, []⟩

/-- What the four show functions share: `mbp` becomes a new HUD on the window. -/
def showAdded (s : HUDExpand) (mode : Option MBProgressHUDMode) : HUDExpand :=
  let (hud, screen) := s.screen.showHUDAddedTo (some s.window)
  { s with
    screen := screen.setHud hud fun h => { h with mode := mode.getD h.mode }
    mbp := some hud
    hideDelayTimer := Function.update s.hideDelayTimer hud none
    added := s.added ++ [hud] }

def temporaryText (s : HUDExpand) : HUDExpand := s.showAdded none

def temporaryTextdetailsLabelText (s : HUDExpand) : HUDExpand := s.showAdded (some .text)

def temporaryactvText (s : HUDExpand) : HUDExpand := s.showAdded (some .text)

def temporaryactvTextndeterminate (s : HUDExpand) : HUDExpand := s.showAdded (some .indeterminate)

/-- `mbp.hide(true, afterDelay:)`: an earlier timer of the same HUD is given up. -/
def hideMbp (s : HUDExpand) (delaye : Int) : HUDExpand :=
  match s.mbp with
  | some hud =>
    { s with hideDelayTimer :=
        Function.update s.hideDelayTimer hud (some (s.now + timeInterval delaye)) }
  | none => s

/-- `handleHideTimer:` if the timer of the HUD is due. -/
def fire (s : HUDExpand) (hud : Nat) : HUDExpand :=
  match s.hideDelayTimer hud with
  | some due =>
    if due ≤ s.now then
      { s with
        screen := s.screen.hideAnimated hud
        hideDelayTimer := Function.update s.hideDelayTimer hud none }
    else s
  | none => s

def tick (s : HUDExpand) (seconds : ℚ≥0) : HUDExpand := { s with now := s.now + seconds }

def wait (s : HUDExpand) (seconds : ℚ≥0) : HUDExpand := s.added.foldl fire (s.tick seconds)

def call (s : HUDExpand) : HUDCall → HUDExpand
  | .temporaryText => s.temporaryText
  | .temporaryTextdetailsLabelText => s.temporaryTextdetailsLabelText
  | .temporaryactvText => s.temporaryactvText
  | .temporaryactvTextndeterminate => s.temporaryactvTextndeterminate
  | .hideMbp delaye => s.hideMbp delaye
  | .wait seconds => s.wait seconds

def finished (s : HUDExpand) (hud : Nat) : Bool := (s.screen.huds hud).hasFinished

theorem call_show {s : HUDExpand} {c : HUDCall} (h : c.isShow = true) :
    ∃ mode, s.call c = s.showAdded mode := by
  cases c with
  | temporaryText => exact ⟨_, rfl⟩
  | temporaryTextdetailsLabelText => exact ⟨_, rfl⟩
  | temporaryactvText => exact ⟨_, rfl⟩
  | temporaryactvTextndeterminate => exact ⟨_, rfl⟩
  | hideMbp delaye => cases h
  | wait seconds => cases h

/-- The show calls change nothing about the HUDs that exist already. -/
theorem showAdded_finished {s : HUDExpand} {mode : Option MBProgressHUDMode} {hud : Nat}
    (old : hud < s.screen.next) : (s.showAdded mode).finished hud = s.finished hud := by
  have other : hud ≠ s.screen.next := Nat.ne_of_lt old
  simp [finished, showAdded, Screen.showHUDAddedTo, Screen.showAnimated, Screen.addSubview,
    Screen.setHud, other]

theorem showAdded_new {s : HUDExpand} {mode : Option MBProgressHUDMode} :
    (s.showAdded mode).finished s.screen.next = false := by
  simp [finished, showAdded, Screen.showHUDAddedTo, Screen.showAnimated, Screen.setHud]

def Due (s : HUDExpand) (hud : Nat) : Prop :=
  ∃ due, s.hideDelayTimer hud = some due ∧ due ≤ s.now

theorem fire_due {s : HUDExpand} {hud : Nat} (h : s.Due hud) :
    s.fire hud = { s with
      screen := s.screen.hideAnimated hud
      hideDelayTimer := Function.update s.hideDelayTimer hud none } := by
  obtain ⟨due, timer, overdue⟩ := h
  unfold fire
  rw [timer]
  exact if_pos overdue

theorem fire_waiting {s : HUDExpand} {hud : Nat} (h : ¬ s.Due hud) : s.fire hud = s := by
  unfold fire
  cases timer : s.hideDelayTimer hud with
  | none => rfl
  | some due => exact if_neg fun overdue => h ⟨due, timer, overdue⟩

/-- The two states have the same HUDs, the same current one and the same time. -/
structure SameHUDs (s t : HUDExpand) : Prop where
  next : t.screen.next = s.screen.next
  window : t.window = s.window
  mbp : t.mbp = s.mbp
  now : t.now = s.now
  added : t.added = s.added

theorem fire_same (s : HUDExpand) (hud : Nat) : s.SameHUDs (s.fire hud) := by
  by_cases h : s.Due hud
  · rw [fire_due h]
    exact ⟨(s.screen.hideAnimated_hides hud).next, rfl, rfl, rfl, rfl⟩
  · rw [fire_waiting h]
    exact ⟨rfl, rfl, rfl, rfl, rfl⟩

theorem fire_other {s : HUDExpand} {hud g : Nat} (other : hud ≠ g) :
    (s.fire g).finished hud = s.finished hud ∧
      (s.fire g).hideDelayTimer hud = s.hideDelayTimer hud := by
  by_cases h : s.Due g
  · rw [fire_due h]
    refine ⟨?_, Function.update_of_ne other _ _⟩
    unfold finished
    rw [(s.screen.hideAnimated_one g).frame hud other]
  · rw [fire_waiting h]
    exact ⟨rfl, rfl⟩

theorem due_congr {s t : HUDExpand} {hud : Nat} (timer : t.hideDelayTimer hud = s.hideDelayTimer hud)
    (now : t.now = s.now) : t.Due hud ↔ s.Due hud := by
  unfold Due
  rw [timer, now]

theorem foldl_fire_same (s : HUDExpand) (huds : List Nat) : s.SameHUDs (huds.foldl fire s) := by
  induction huds generalizing s with
  | nil => exact ⟨rfl, rfl, rfl, rfl, rfl⟩
  | cons g huds ih =>
    have head := s.fire_same g
    have tail := ih (s.fire g)
    exact ⟨tail.next.trans head.next, tail.window.trans head.window, tail.mbp.trans head.mbp,
      tail.now.trans head.now, tail.added.trans head.added⟩

theorem foldl_fire_of_not_due {s : HUDExpand} {hud : Nat} (h : ¬ s.Due hud) (huds : List Nat) :
    (huds.foldl fire s).finished hud = s.finished hud ∧
      (huds.foldl fire s).hideDelayTimer hud = s.hideDelayTimer hud := by
  induction huds generalizing s with
  | nil => exact ⟨rfl, rfl⟩
  | cons g huds ih =>
    rw [List.foldl_cons]
    by_cases same : hud = g
    · subst same
      rw [fire_waiting h]
      exact ih h
    · obtain ⟨up, timer⟩ := fire_other (s := s) same
      have later := ih (mt (due_congr timer (s.fire_same g).now).mp h)
      exact ⟨later.1.trans up, later.2.trans timer⟩

theorem foldl_fire_keeps {s : HUDExpand} {hud : Nat} (h : s.finished hud = true)
    (huds : List Nat) : (huds.foldl fire s).finished hud = true := by
  induction huds generalizing s with
  | nil => exact h
  | cons g huds ih =>
    apply ih
    by_cases due : s.Due g
    · rw [fire_due due]
      exact (s.screen.hideAnimated_hides g).finished hud h
    · rw [fire_waiting due]
      exact h

theorem foldl_fire_of_due {s : HUDExpand} {hud : Nat} (h : s.Due hud) {huds : List Nat}
    (asked : hud ∈ huds) : (huds.foldl fire s).finished hud = true := by
  induction huds generalizing s with
  | nil => cases asked
  | cons g huds ih =>
    rw [List.foldl_cons]
    by_cases same : hud = g
    · subst same
      apply foldl_fire_keeps
      rw [fire_due h]
      exact s.screen.hideAnimated_finished hud
    · have timer := (fire_other (s := s) same).2
      exact ih ((due_congr timer (s.fire_same g).now).mpr h) ((List.mem_cons.mp asked).resolve_left same)

end HUDExpand

end SwiftApp
