import Mathlib.Algebra.BigOperators.Group.Finset.Basic
import Mathlib.Algebra.Order.Field.Rat
import Mathlib.Tactic.Linarith

namespace Timetable

open Finset

variable {delay : ℕ → ℚ} {elapsed waited tick : ℚ} {m : ℕ}

/-- When entry `m` begins, if entry `j` takes `delay j`. -/
def due (delay : ℕ → ℚ) (m : ℕ) : ℚ := ∑ j ∈ range m, delay j

theorem due_succ : due delay (m + 1) = due delay m + delay m :=
  sum_range_succ _ _

/-- After `elapsed`, entry `m` has been on for `waited`. -/
structure OnTime (delay : ℕ → ℚ) (elapsed waited : ℚ) (m : ℕ) : Prop where
  elapsed_eq : elapsed = due delay m + waited
  nonneg : 0 ≤ waited
  lt : waited < delay m

theorem OnTime.start (positive : ∀ j, 0 < delay j) : OnTime delay 0 0 0 :=
  ⟨by simp [due], le_refl 0, positive 0⟩

theorem OnTime.stay (on : OnTime delay elapsed waited m) (nonneg : 0 ≤ tick)
    (early : waited + tick < delay m) : OnTime delay (elapsed + tick) (waited + tick) m := by
  have eq := on.elapsed_eq
  have waited_nonneg := on.nonneg
  exact ⟨by linarith, by linarith, early⟩

theorem OnTime.next (on : OnTime delay elapsed waited m) (small : tick ≤ delay (m + 1))
    (past : delay m ≤ waited + tick) :
    OnTime delay (elapsed + tick) (waited + tick - delay m) (m + 1) := by
  have eq := on.elapsed_eq
  have lt := on.lt
  refine ⟨?_, by linarith, by linarith⟩
  rw [due_succ]
  linarith

/-- A tick no longer than any entry passes one entry at most. -/
theorem OnTime.once (on : OnTime delay elapsed waited m) (small : tick ≤ delay m) :
    waited + tick - delay m < delay m := by
  have lt := on.lt
  linarith

theorem OnTime.le_elapsed (on : OnTime delay elapsed waited m) : due delay m ≤ elapsed := by
  have eq := on.elapsed_eq
  have nonneg := on.nonneg
  linarith

theorem OnTime.elapsed_lt (on : OnTime delay elapsed waited m) : elapsed < due delay (m + 1) := by
  have eq := on.elapsed_eq
  have lt := on.lt
  rw [due_succ]
  linarith

end Timetable
