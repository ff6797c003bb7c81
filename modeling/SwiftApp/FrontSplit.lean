import Mathlib.Data.List.Nodup
import Mathlib.Data.List.Count

namespace FrontSplit

variable {α : Type*} {p : α → Bool} {xs : List α}

/-- Behind a first entry with the property the count starts anew. -/
theorem forall_mem_take_succ {x : α} (new : x ∉ xs) (px : p x = true) {m : Nat} :
    (∀ y ∈ x :: xs, p y = true ↔ y ∈ (x :: xs).take (m + 1)) ↔
      ∀ y ∈ xs, p y = true ↔ y ∈ xs.take m := by
  have drop_head {y : α} (hy : y ∈ xs) : y ∈ (x :: xs).take (m + 1) ↔ y ∈ xs.take m := by
    have other : y ≠ x := fun same => new (same ▸ hy)
    rw [List.take_succ_cons, List.mem_cons, or_iff_right other]
  apply Iff.intro
  · intro h y hy
    rw [h y (List.mem_cons_of_mem x hy), drop_head hy]
  · intro h y hy
    rcases List.mem_cons.mp hy with rfl | hy
    · simp [px]
    · rw [h y hy, drop_head hy]

/-- The first `n` entries are the ones with the property if and only if these come first and
`n` does not reach further, unless there is no other entry. -/
theorem mem_take_iff_split {n : Nat} (nodup : xs.Nodup) (enough : xs.countP p ≤ n) :
    (∀ x ∈ xs, p x = true ↔ x ∈ xs.take n) ↔
      xs.Pairwise (fun x y => p y = true → p x = true) ∧
        (n = xs.countP p ∨ ∀ x ∈ xs, p x = true) := by
  induction xs generalizing n with
  | nil => simp
  | cons x xs ih =>
    obtain ⟨hx, nodup⟩ := List.nodup_cons.mp nodup
    cases n with
    | zero =>
      have none_p : ∀ y ∈ x :: xs, ¬ p y = true := List.countP_eq_zero.mp (Nat.le_zero.mp enough)
      apply iff_of_true
      · intro y hy
        simp [none_p y hy]
      · refine ⟨?_, Or.inl (Nat.le_zero.mp enough).symm⟩
        exact List.pairwise_of_forall_mem_list fun y _ z hz pz => absurd pz (none_p z hz)
    | succ m =>
      cases px : p x with
      | true =>
        rw [List.countP_cons_of_pos px] at enough
        rw [forall_mem_take_succ hx px, ih nodup (by omega), List.pairwise_cons,
          List.countP_cons_of_pos px]
        simp [px]
      | false =>
        have px' : ¬ p x = true := by simp [px]
        apply iff_of_false
        · intro h
          exact px' ((h x List.mem_cons_self).mpr (by simp))
        · intro h
          obtain ⟨order, room⟩ := h
          have later : xs.countP p = 0 := List.countP_eq_zero.mpr fun y hy py =>
            px' ((List.pairwise_cons.mp order).1 y hy py)
          rw [List.countP_cons_of_neg px', later] at room
          rcases room with none_left | all
          · omega
          · exact px' (all x List.mem_cons_self)

theorem countP_filter_eq_iff {q : α → Bool} :
    xs.countP p = (xs.filter q).countP p ↔ ∀ x ∈ xs, p x = true → q x = true := by
  rw [List.countP_filter]
  induction xs with
  | nil => simp
  | cons x xs ih =>
    have fewer : xs.countP (fun a => p a && q a) ≤ xs.countP p :=
      List.countP_mono_left fun a _ h => (Bool.and_eq_true_iff.mp h).1
    rw [List.forall_mem_cons, ← ih, List.countP_cons, List.countP_cons]
    cases p x <;> cases q x <;> simp
    omega

end FrontSplit
