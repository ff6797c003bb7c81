import Mathlib.Data.List.Basic
import Mathlib.Data.Nat.Find

namespace Occurrence

variable {α : Type*} {needle text : List α} {start : Nat}

/-- The needle stands in the text at `start`, and nowhere before. -/
structure FirstAt (needle text : List α) (start : Nat) : Prop where
  here : needle <+: text.drop start
  before : ∀ j < start, ¬ needle <+: text.drop j

theorem FirstAt.unique {other : Nat} (h : FirstAt needle text start)
    (h' : FirstAt needle text other) : start = other := by
  rcases Nat.lt_trichotomy start other with less | same | more
  · exact absurd h.here (h'.before start less)
  · exact same
  · exact absurd h'.here (h.before other more)

theorem FirstAt.start_le (h : FirstAt needle text start) : start ≤ text.length := by
  by_contra outside
  have nothing : text.drop start = [] := List.drop_eq_nil_of_le (by omega)
  have empty := h.here
  rw [nothing] at empty
  rw [List.prefix_nil.mp empty] at h
  exact h.before 0 (by omega) List.nil_prefix

theorem FirstAt.fits (h : FirstAt needle text start) : start + needle.length ≤ text.length := by
  have inside := h.start_le
  have short := h.here.length_le
  rw [List.length_drop] at short
  omega

variable [DecidableEq α]

/-- The start of the first occurrence. -/
def first (needle text : List α) : Option Nat :=
  (List.range (text.length + 1)).find? fun i => decide (needle <+: text.drop i)

theorem first_eq_some_iff : first needle text = some start ↔ FirstAt needle text start := by
  unfold first
  rw [List.find?_range_eq_some, List.mem_range, decide_eq_true_eq]
  apply Iff.intro
  · intro h
    obtain ⟨here, _, before⟩ := h
    refine ⟨here, fun j hj => ?_⟩
    simpa using before j hj
  · intro h
    have inside := h.start_le
    refine ⟨h.here, by omega, fun j hj => ?_⟩
    simpa using h.before j hj

/-- There is a first occurrence exactly when there is one at all. -/
theorem exists_firstAt_iff : (∃ start, FirstAt needle text start) ↔ needle <:+: text := by
  apply Iff.intro
  · intro h
    obtain ⟨start, h⟩ := h
    exact h.here.isInfix.trans (List.drop_suffix start text).isInfix
  · intro occurs
    obtain ⟨behind, isPrefix, isSuffix⟩ := List.infix_iff_prefix_suffix.mp occurs
    have place : text.drop (text.length - behind.length) = behind :=
      (List.suffix_iff_eq_drop.mp isSuffix).symm
    have found : ∃ i, needle <+: text.drop i := ⟨_, place.symm ▸ isPrefix⟩
    exact ⟨Nat.find found, Nat.find_spec found, fun j hj => Nat.find_min found hj⟩

theorem first_eq_none_iff : first needle text = none ↔ ¬ needle <:+: text := by
  rw [← exists_firstAt_iff, Option.eq_none_iff_forall_ne_some, not_exists]
  exact forall_congr' fun start => not_congr first_eq_some_iff

end Occurrence
