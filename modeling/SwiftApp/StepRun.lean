import Mathlib.Algebra.GroupWithZero.Nat
import Mathlib.Data.List.Infix

namespace StepRun

variable {σ α : Type*}

/-- Runs of a partial step function: `none` is an action the state does not allow. -/
def run (step : σ → α → Option σ) : σ → List α → Option σ
  | s, [] => some s
  | s, a :: as => (step s a).bind fun t => run step t as

@[simp] theorem run_nil {step : σ → α → Option σ} {s : σ} : run step s [] = some s := rfl

theorem run_cons {step : σ → α → Option σ} {s : σ} {a : α} {as : List α} :
    run step s (a :: as) = (step s a).bind fun t => run step t as := rfl

theorem run_append {step : σ → α → Option σ} {s : σ} (as bs : List α) :
    run step s (as ++ bs) = (run step s as).bind fun t => run step t bs := by
  induction as generalizing s with
  | nil => rfl
  | cons a as ih =>
    simp only [List.cons_append, run_cons, Option.bind_assoc]
    exact congrArg _ (funext fun t => ih)

theorem run_append_some {step : σ → α → Option σ} {s t : σ} {as bs : List α}
    (h : run step s (as ++ bs) = some t) :
    ∃ u, run step s as = some u ∧ run step u bs = some t := by
  rw [run_append] at h
  exact Option.bind_eq_some_iff.mp h

theorem run_singleton {step : σ → α → Option σ} {s : σ} {a : α} : run step s [a] = step s a := by
  cases h : step s a <;> simp [run, h]

/-- A guarded action that is taken: the guard held and the state is the one it leads to. -/
theorem guarded {p : Prop} [Decidable p] {s t : σ} (h : (if p then some s else none) = some t) :
    p ∧ t = s := by
  obtain ⟨holds, same⟩ := Option.ite_none_right_eq_some.mp h
  exact ⟨holds, (Option.some.inj same).symm⟩

/-- The same for an action whose state comes of something that may be missing. -/
theorem guarded_map {β : Type*} {p : Prop} [Decidable p] {x : Option β} {f : β → σ} {t : σ}
    (h : (if p then x.map f else none) = some t) : p ∧ ∃ y, x = some y ∧ t = f y := by
  obtain ⟨holds, mapped⟩ := Option.ite_none_right_eq_some.mp h
  obtain ⟨y, found, same⟩ := Option.map_eq_some_iff.mp mapped
  exact ⟨holds, y, found, same.symm⟩

theorem run_invariant_of_mem {step : σ → α → Option σ} {Inv : σ → Prop} {as : List α}
    (preserve : ∀ s, ∀ a ∈ as, ∀ t, step s a = some t → Inv s → Inv t)
    {s t : σ} (h : run step s as = some t) (hs : Inv s) : Inv t := by
  induction as generalizing s with
  | nil => cases Option.some.inj h; exact hs
  | cons a as ih =>
    obtain ⟨u, hu, hrest⟩ := Option.bind_eq_some_iff.mp h
    refine ih ?_ hrest (preserve s a List.mem_cons_self u hu hs)
    exact fun s b hb => preserve s b (List.mem_cons_of_mem a hb)

/-- What every allowed step preserves holds at the end of every run. -/
theorem run_invariant {step : σ → α → Option σ} {Inv : σ → Prop}
    (preserve : ∀ s a t, step s a = some t → Inv s → Inv t)
    {as : List α} {s t : σ} (h : run step s as = some t) (hs : Inv s) : Inv t :=
  run_invariant_of_mem (fun s a _ => preserve s a) h hs

/-- Every step of the run is taken in a state that meets the condition. -/
def StepsMeet (step : σ → α → Option σ) (cond : σ → α → Prop) : σ → List α → Prop
  | _, [] => True
  | s, a :: as => ∀ t, step s a = some t → cond s a ∧ StepsMeet step cond t as

theorem stepsMeet_cons {step : σ → α → Option σ} {cond : σ → α → Prop} {s t : σ} {a : α}
    {as : List α} (ht : step s a = some t) :
    StepsMeet step cond s (a :: as) ↔ cond s a ∧ StepsMeet step cond t as := by
  apply Iff.intro
  · exact fun h => h t ht
  · intro h u hu
    cases ht.symm.trans hu
    exact h

instance StepsMeet.decidable {step : σ → α → Option σ} {cond : σ → α → Prop}
    [∀ s a, Decidable (cond s a)] : ∀ s as, Decidable (StepsMeet step cond s as)
  | _, [] => isTrue trivial
  | s, a :: as => match taken : step s a with
    | none => isTrue fun t other => by rw [taken] at other; cases other
    | some t =>
      have : Decidable (StepsMeet step cond t as) := StepsMeet.decidable t as
      decidable_of_iff (cond s a ∧ StepsMeet step cond t as) (stepsMeet_cons taken).symm

theorem stepsMeet_of_mem {step : σ → α → Option σ} {cond : σ → α → Prop} {as : List α} {s : σ}
    (meets : ∀ a ∈ as, ∀ s, cond s a) : StepsMeet step cond s as := by
  induction as generalizing s with
  | nil => trivial
  | cons a as ih =>
    intro t _
    exact ⟨meets a List.mem_cons_self s, ih fun b hb => meets b (List.mem_cons_of_mem a hb)⟩

theorem stepsMeet_append {step : σ → α → Option σ} {cond : σ → α → Prop} {as bs : List α} {s t : σ}
    (h : StepsMeet step cond s (as ++ bs)) (reached : run step s as = some t) :
    StepsMeet step cond s as ∧ StepsMeet step cond t bs := by
  induction as generalizing s with
  | nil =>
    cases Option.some.inj reached
    exact ⟨trivial, h⟩
  | cons a as ih =>
    obtain ⟨u, hu, hrest⟩ := Option.bind_eq_some_iff.mp reached
    obtain ⟨hc, later⟩ := h u hu
    obtain ⟨before, after⟩ := ih later hrest
    exact ⟨(stepsMeet_cons hu).mpr ⟨hc, before⟩, after⟩

/-- Conditions that agree on the steps taken in states with an invariant agree on whole runs. -/
theorem stepsMeet_iff {step : σ → α → Option σ} {cond cond' : σ → α → Prop} {Inv : σ → Prop}
    (preserve : ∀ s a t, step s a = some t → Inv s → Inv t)
    (same : ∀ s a t, step s a = some t → Inv s → (cond s a ↔ cond' s a))
    {as : List α} {s : σ} (hs : Inv s) : StepsMeet step cond s as ↔ StepsMeet step cond' s as := by
  induction as generalizing s with
  | nil => exact Iff.rfl
  | cons a as ih =>
    apply forall_congr'
    intro t
    apply forall_congr'
    intro ht
    exact and_congr (same s a t ht hs) (ih (preserve s a t ht hs))

/-- The property holds in every state the run passes through, its ends included. -/
def Always (step : σ → α → Option σ) (P : σ → Prop) (s : σ) (as : List α) : Prop :=
  ∀ past, past <+: as → ∀ t, run step s past = some t → P t

theorem always_nil {step : σ → α → Option σ} {P : σ → Prop} {s : σ} :
    Always step P s [] ↔ P s := by
  apply Iff.intro
  · exact fun h => h [] (List.prefix_refl _) s rfl
  · intro h past hp t ht
    cases List.prefix_nil.mp hp
    cases Option.some.inj ht
    exact h

theorem always_cons {step : σ → α → Option σ} {P : σ → Prop} {s : σ} {a : α} {as : List α} :
    Always step P s (a :: as) ↔ P s ∧ ∀ t, step s a = some t → Always step P t as := by
  apply Iff.intro
  · intro h
    refine ⟨h [] (List.nil_prefix) s rfl, ?_⟩
    intro t ht past hp u hu
    exact h (a :: past) (List.cons_prefix_cons.mpr ⟨rfl, hp⟩) u (by simpa [run_cons, ht] using hu)
  · intro h past hp u hu
    obtain ⟨hs, hrest⟩ := h
    cases past with
    | nil => cases Option.some.inj hu; exact hs
    | cons b past =>
      obtain ⟨rfl, shorter⟩ := List.cons_prefix_cons.mp hp
      obtain ⟨t, ht, hu⟩ := Option.bind_eq_some_iff.mp hu
      exact hrest t ht past shorter u hu

theorem exists_bad_step {step : σ → α → Option σ} {cond : σ → α → Prop} {as : List α} {s : σ}
    (h : ¬ StepsMeet step cond s as) :
    ∃ past a rest u t, as = past ++ a :: rest ∧ run step s past = some u ∧ step u a = some t ∧
      ¬ cond u a := by
  induction as generalizing s with
  | nil => exact absurd trivial h
  | cons a as ih =>
    simp only [StepsMeet, not_forall] at h
    obtain ⟨t, ht, h⟩ := h
    by_cases hc : cond s a
    · obtain ⟨past, b, rest, u, v, rfl, hu, hv, bad⟩ := ih fun later => h ⟨hc, later⟩
      exact ⟨a :: past, b, rest, u, v, rfl, by rw [run_cons, ht]; exact hu, hv, bad⟩
    · exact ⟨[], a, as, s, t, rfl, rfl, ht, hc⟩

theorem always_of_stepsMeet_of_mem {step : σ → α → Option σ} {cond : σ → α → Prop} {Inv : σ → Prop}
    {as : List α} (preserve : ∀ s, ∀ a ∈ as, ∀ t, step s a = some t → cond s a → Inv s → Inv t)
    {s : σ} (hs : Inv s) (h : StepsMeet step cond s as) : Always step Inv s as := by
  induction as generalizing s with
  | nil => exact always_nil.mpr hs
  | cons a as ih =>
    refine always_cons.mpr ⟨hs, ?_⟩
    intro t ht
    obtain ⟨hc, hrest⟩ := h t ht
    refine ih ?_ (preserve s a List.mem_cons_self t ht hc hs) hrest
    exact fun s b hb => preserve s b (List.mem_cons_of_mem a hb)

/-- A guarded invariant: steps that meet the condition keep it along the whole run. -/
theorem always_of_stepsMeet {step : σ → α → Option σ} {cond : σ → α → Prop} {Inv : σ → Prop}
    (preserve : ∀ s a t, step s a = some t → cond s a → Inv s → Inv t)
    {as : List α} {s : σ} (hs : Inv s) (h : StepsMeet step cond s as) : Always step Inv s as :=
  always_of_stepsMeet_of_mem (fun s a _ => preserve s a) hs h

/-- Where the condition is exactly what one step needs to keep the property, in states
with an invariant of their own, it is exactly what a whole run needs to keep it throughout. -/
theorem always_iff_stepsMeet {step : σ → α → Option σ} {cond : σ → α → Prop} {Inv P : σ → Prop}
    (preserve : ∀ s a t, step s a = some t → Inv s → Inv t)
    (exact_step : ∀ s a t, step s a = some t → Inv s → P s → (P t ↔ cond s a))
    {as : List α} {s : σ} (hi : Inv s) (hs : P s) : Always step P s as ↔ StepsMeet step cond s as := by
  apply Iff.intro
  · intro h
    induction as generalizing s with
    | nil => trivial
    | cons a as ih =>
      intro t ht
      have later := (always_cons.mp h).2 t ht
      have next : P t := later [] List.nil_prefix t rfl
      exact ⟨(exact_step s a t ht hi hs).mp next, ih (preserve s a t ht hi) next later⟩
  · intro h
    have both : Always step (fun u => Inv u ∧ P u) s as := by
      refine always_of_stepsMeet ?_ ⟨hi, hs⟩ h
      intro u a t ht hc inv
      exact ⟨preserve u a t ht inv.1, (exact_step u a t ht inv.1 inv.2).mpr hc⟩
    exact fun past hp t ht => (both past hp t ht).2

/-- The same with no invariant besides the property. -/
theorem always_iff_stepsMeet_of_step {step : σ → α → Option σ} {cond : σ → α → Prop} {P : σ → Prop}
    (exact_step : ∀ s a t, step s a = some t → P s → (P t ↔ cond s a))
    {as : List α} {s : σ} (hs : P s) : Always step P s as ↔ StepsMeet step cond s as := by
  have none : ∀ s a t, step s a = some t → (fun _ => True) s → (fun _ : σ => True) t :=
    fun _ _ _ _ _ => trivial
  exact always_iff_stepsMeet none (fun s a t h _ => exact_step s a t h) trivial hs

theorem always_end {step : σ → α → Option σ} {P : σ → Prop} {as : List α} {s t : σ}
    (h : Always step P s as) (ht : run step s as = some t) : P t :=
  h as (List.prefix_refl _) t ht

theorem map_eq_of_rel {τ β : Type*} {R : σ → τ → Prop} {f : σ → β} {g : τ → β} {x : Option σ}
    {y : Option τ} (h : Option.Rel R x y) (same : ∀ s t, R s t → f s = g t) :
    x.map f = y.map g := by
  cases h with
  | none => rfl
  | some related => exact congrArg some (same _ _ related)

/-- Runs of two machines stay related where each step of the first that meets the condition is
answered by a related step of the second, a refused one by a refusal. -/
theorem run_rel {τ : Type*} {step : σ → α → Option σ} {step' : τ → α → Option τ}
    {cond : σ → α → Prop} {R : σ → τ → Prop}
    (simulate : ∀ s s' a, R s s' → (∀ t, step s a = some t → cond s a) →
      Option.Rel R (step s a) (step' s' a))
    {as : List α} {s : σ} {s' : τ} (hs : R s s') (h : StepsMeet step cond s as) :
    Option.Rel R (run step s as) (run step' s' as) := by
  induction as generalizing s s' with
  | nil => exact Option.Rel.some hs
  | cons a as ih =>
    have first := simulate s s' a hs fun t ht => (h t ht).1
    simp only [run_cons]
    cases ht : step s a with
    | none =>
      rw [ht] at first
      cases ht' : step' s' a with
      | none => exact Option.Rel.none
      | some t' =>
        rw [ht'] at first
        cases first
    | some t =>
      rw [ht] at first
      cases ht' : step' s' a with
      | none =>
        rw [ht'] at first
        cases first
      | some t' =>
        rw [ht'] at first
        cases first with
        | some related => exact ih related (h t ht).2

theorem filterMap_cons_toList {β : Type*} {f : α → Option β} (a : α) (as : List α) :
    (a :: as).filterMap f = (f a).toList ++ as.filterMap f := by
  cases ha : f a with
  | none => rw [List.filterMap_cons_none ha]; rfl
  | some b => rw [List.filterMap_cons_some ha]; rfl

/-- What each step adds to a list of what happened so far, the whole run adds. -/
theorem run_collects {β : Type*} {step : σ → α → Option σ} {label : α → Option β}
    {Inv : List β → σ → Prop} {as : List α}
    (preserve : ∀ bs s a t, a ∈ as → step s a = some t → Inv bs s → Inv (bs ++ (label a).toList) t)
    {bs : List β} {s t : σ} (h : run step s as = some t) (hs : Inv bs s) :
    Inv (bs ++ as.filterMap label) t := by
  induction as generalizing s bs with
  | nil =>
    cases Option.some.inj h
    rw [List.filterMap_nil, List.append_nil]
    exact hs
  | cons a as ih =>
    obtain ⟨u, hu, hrest⟩ := Option.bind_eq_some_iff.mp h
    have later := ih (fun bs s b t hb => preserve bs s b t (List.mem_cons_of_mem a hb)) hrest
      (preserve bs s a u List.mem_cons_self hu hs)
    rw [List.append_assoc] at later
    rw [filterMap_cons_toList]
    exact later

/-- A machine whose every step is answered by at most one step of another answers whole runs. -/
theorem run_refines {τ β : Type*} {step : σ → α → Option σ} {step' : τ → β → Option τ}
    {answer : α → Option β} {R : σ → τ → Prop} {as : List α}
    (simulate : ∀ s s' a t, a ∈ as → R s s' → step s a = some t →
      ∃ t', run step' s' (answer a).toList = some t' ∧ R t t')
    {s t : σ} {s' : τ} (hs : R s s') (h : run step s as = some t) :
    ∃ t', run step' s' (as.filterMap answer) = some t' ∧ R t t' := by
  induction as generalizing s s' with
  | nil =>
    cases Option.some.inj h
    exact ⟨s', rfl, hs⟩
  | cons a as ih =>
    obtain ⟨u, hu, hrest⟩ := Option.bind_eq_some_iff.mp h
    obtain ⟨u', hu', related⟩ := simulate s s' a u List.mem_cons_self hs hu
    obtain ⟨t', ht', related'⟩ :=
      ih (fun s s' b t hb => simulate s s' b t (List.mem_cons_of_mem a hb)) related hrest
    refine ⟨t', ?_, related'⟩
    rw [filterMap_cons_toList, run_append, hu', Option.bind_some]
    exact ht'

theorem run_counts {step : σ → α → Option σ} {count : σ → ℕ} {p : α → Bool} {as : List α}
    (each : ∀ s a t, step s a = some t → count t = count s + (p a).toNat) {s t : σ}
    (h : run step s as = some t) : count t = count s + as.countP p := by
  induction as generalizing s with
  | nil =>
    cases Option.some.inj h
    rfl
  | cons a as ih =>
    obtain ⟨u, hu, hrest⟩ := Option.bind_eq_some_iff.mp h
    have first := each s a u hu
    have later := ih hrest
    rw [List.countP_cons]
    cases counted : p a <;> simp [counted] at first ⊢ <;> omega

/-- Where a potential pays for the cost of each step out of its credit, the credits of a run pay for
its costs. -/
theorem run_amortized {step : σ → α → Option σ} {potential : σ → ℕ} {cost credit : α → ℕ}
    {Inv : σ → Prop} {as : List α}
    (pays : ∀ s a t, a ∈ as → step s a = some t → Inv s →
      potential t + cost a ≤ potential s + credit a ∧ Inv t)
    {s t : σ} (h : run step s as = some t) (hs : Inv s) :
    potential t + (as.map cost).sum ≤ potential s + (as.map credit).sum := by
  induction as generalizing s with
  | nil =>
    cases Option.some.inj h
    exact le_refl _
  | cons a as ih =>
    obtain ⟨u, hu, hrest⟩ := Option.bind_eq_some_iff.mp h
    obtain ⟨first, hu'⟩ := pays s a u List.mem_cons_self hu hs
    have later := ih (fun s b t hb => pays s b t (List.mem_cons_of_mem a hb)) hrest hu'
    simp only [List.map_cons, List.sum_cons]
    omega

/-- What the steps of a run add up to. -/
def tally {β : Type*} [AddMonoid β] (step : σ → α → Option σ) (amount : σ → α → β) : σ → List α → β
  | _, [] => 0
  | s, a :: as => amount s a + match step s a with
    | some t => tally step amount t as
    | none => 0

theorem run_tally {β : Type*} [AddMonoid β] {step : σ → α → Option σ} {amount : σ → α → β}
    {Inv : β → σ → Prop} {as : List α}
    (preserve : ∀ b s a t, a ∈ as → step s a = some t → Inv b s → Inv (b + amount s a) t)
    {b : β} {s t : σ} (h : run step s as = some t) (hs : Inv b s) :
    Inv (b + tally step amount s as) t := by
  induction as generalizing s b with
  | nil =>
    cases Option.some.inj h
    rw [tally, add_zero]
    exact hs
  | cons a as ih =>
    obtain ⟨u, hu, hrest⟩ := Option.bind_eq_some_iff.mp h
    have later := ih (fun b s c t hc => preserve b s c t (List.mem_cons_of_mem a hc)) hrest
      (preserve b s a u List.mem_cons_self hu hs)
    rw [tally, hu, ← add_assoc]
    exact later

end StepRun
