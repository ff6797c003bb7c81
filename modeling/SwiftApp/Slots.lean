import Mathlib.Data.Finset.Basic
import Mathlib.Data.Finset.Range
import Mathlib.Data.List.Range

namespace Slots

variable {α : Type*}

/-- The first `n` places of a board: `blank` where an answer is still waited for,
the place's own value where it has arrived. -/
def slots (blank : α) (value : Nat → α) (n : Nat) (waiting : Finset Nat) : List α :=
  (List.range n).map fun i => if i ∈ waiting then blank else value i

@[simp] theorem slots_length {blank : α} {value : Nat → α} {n : Nat} {waiting : Finset Nat} :
    (slots blank value n waiting).length = n := by
  simp [slots]

theorem slots_getElem {blank : α} {value : Nat → α} {n i : Nat} {waiting : Finset Nat}
    (h : i < (slots blank value n waiting).length) :
    (slots blank value n waiting)[i] = if i ∈ waiting then blank else value i := by
  simp [slots]

theorem slots_all_waiting {blank : α} {value : Nat → α} {n : Nat} {waiting : Finset Nat}
    (h : ∀ i < n, i ∈ waiting) : slots blank value n waiting = List.replicate n blank := by
  apply List.ext_getElem (by simp)
  intro i hi _
  have hn : i < n := by simpa using hi
  rw [slots_getElem hi, if_pos (h i hn), List.getElem_replicate]

theorem slots_none_waiting {blank : α} {value : Nat → α} {n : Nat} {waiting : Finset Nat}
    (h : ∀ i < n, i ∉ waiting) : slots blank value n waiting = (List.range n).map value := by
  apply List.map_congr_left
  intro i hi
  exact if_neg (h i (List.mem_range.mp hi))

theorem slots_set {blank : α} {value : Nat → α} {n i : Nat} {waiting : Finset Nat} :
    (slots blank value n waiting).set i (value i) = slots blank value n (waiting.erase i) := by
  apply List.ext_getElem (by simp)
  intro j hj hj'
  rw [List.getElem_set, slots_getElem hj']
  by_cases same : i = j
  · subst j; simp
  · rw [if_neg same, slots_getElem (by simpa using hj)]
    simp [Ne.symm same]

theorem slots_append {blank : α} {value : Nat → α} {n : Nat} {waiting : Finset Nat} :
    slots blank value n waiting ++ [blank] = slots blank value (n + 1) (insert n waiting) := by
  simp only [slots, List.range_succ, List.map_append, List.map_cons, List.map_nil,
    Finset.mem_insert, true_or, if_true]
  congr 1
  apply List.map_congr_left
  intro i hi
  have hn : i ≠ n := Nat.ne_of_lt (List.mem_range.mp hi)
  simp [hn]

/-- The board still shows a blank exactly while somebody is waited for. -/
theorem blank_mem_slots {blank : α} {value : Nat → α} {n : Nat} {waiting : Finset Nat}
    (fresh : ∀ i < n, value i ≠ blank) :
    blank ∈ slots blank value n waiting ↔ ∃ i < n, i ∈ waiting := by
  simp only [slots, List.mem_map, List.mem_range]
  apply Iff.intro
  · intro shown
    obtain ⟨i, hi, he⟩ := shown
    by_cases hw : i ∈ waiting
    · exact ⟨i, hi, hw⟩
    · rw [if_neg hw] at he
      exact absurd he (fresh i hi)
  · intro waited
    obtain ⟨i, hi, hw⟩ := waited
    exact ⟨i, hi, if_pos hw⟩

end Slots
