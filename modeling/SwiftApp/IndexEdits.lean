import Mathlib.Algebra.BigOperators.Group.Finset.Piecewise
import Mathlib.Data.List.GetD
import Mathlib.Data.Nat.Nth

namespace IndexEdits

variable {ι κ β γ : Type*}

/-- An edit of an indexed family: the old place each new place takes its value from,
or `none` where the edit puts a new value. -/
abbrev Origin (ι : Type*) := ι → Option ι

/-- The family after an edit, with `blank` at the places that get a new value. -/
def read (o : Origin ι) (blank : β) (f : ι → β) : ι → β := fun i => (o i).elim blank f

/-- The edit `o` and then the edit `o'`. -/
def andThen (o o' : Origin ι) : Origin ι := fun i => (o' i).bind o

theorem read_andThen {o o' : Origin ι} {blank : β} {f : ι → β} :
    read (andThen o o') blank f = read o' blank (read o blank f) := by
  funext i
  cases h : o' i <;> simp [read, andThen, h]

theorem read_some {blank : β} {f : ι → β} : read some blank f = f := rfl

/-- One edit for each entry of a list, in the order of the list. -/
def inTurn (one : κ → Origin ι) (l : List κ) : Origin ι :=
  l.foldl (fun o p => andThen o (one p)) some

theorem andThen_assoc {o o' o'' : Origin ι} :
    andThen (andThen o o') o'' = andThen o (andThen o' o'') := by
  funext i
  cases h : o'' i <;> simp [andThen, h]

theorem foldl_andThen {one : κ → Origin ι} {l : List κ} {o : Origin ι} :
    l.foldl (fun o p => andThen o (one p)) o = andThen o (inTurn one l) := by
  unfold inTurn
  induction l generalizing o with
  | nil => rfl
  | cons p l ih =>
    have single : andThen some (one p) = one p := by
      funext i
      simp [andThen]
    rw [List.foldl_cons, List.foldl_cons, ih, single, ih (o := one p), andThen_assoc]

theorem inTurn_cons {one : κ → Origin ι} {p : κ} {l : List κ} :
    inTurn one (p :: l) = andThen (one p) (inTurn one l) := by
  have single : andThen some (one p) = one p := by
    funext i
    simp [andThen]
  rw [inTurn, List.foldl_cons, foldl_andThen, single]

theorem inTurn_concat {one : κ → Origin ι} {p : κ} {l : List κ} :
    inTurn one (l ++ [p]) = andThen (inTurn one l) (one p) := by
  rw [inTurn, List.foldl_append]
  rfl

/-- The old place of what stands at `k` once the value at `p` is gone. -/
def skip (p k : ℕ) : ℕ := if k < p then k else k + 1

def insertAt (p : ℕ) : Origin ℕ := fun k =>
  if k < p then some k else if k = p then none else some (k - 1)

def eraseAt (p : ℕ) : Origin ℕ := fun k => some (skip p k)

def clearAt [DecidableEq ι] (i : ι) : Origin ι := fun k => if k = i then none else some k

def exchange [DecidableEq ι] (i j : ι) : Origin ι := fun k => some (Equiv.swap i j k)

/-- The value at `i` is taken out and put in again, to stand at `j` in the end. -/
def relocate (i j : ℕ) : Origin ℕ := fun k =>
  some (if k = j then i else skip i (if j < k then k - 1 else k))

/-- New values that stand at the places of `S` in the end. -/
def insertAll (S : Finset ℕ) : Origin ℕ := fun k =>
  if k ∈ S then none else some (Nat.count (· ∉ S) k)

/-- The values at the places of `S` are all taken out at once. -/
noncomputable def eraseAll (S : Finset ℕ) : Origin ℕ := fun k => some (Nat.nth (· ∉ S) k)

def clearAll [DecidableEq ι] (S : Finset ι) : Origin ι := fun k => if k ∈ S then none else some k

theorem inTurn_clearAt [DecidableEq ι] {l : List ι} : inTurn clearAt l = clearAll l.toFinset := by
  induction l with
  | nil =>
    funext k
    simp [inTurn, clearAll]
  | cons p l ih =>
    funext k
    rw [inTurn_cons, ih]
    by_cases later : k ∈ l
    · simp [andThen, clearAll, later]
    · simp [andThen, clearAll, clearAt, later]

theorem skip_injective {p : ℕ} : Function.Injective (skip p) := by
  intro a b h
  unfold skip at h
  split at h <;> split at h <;> omega

theorem skip_ne {p k : ℕ} : skip p k ≠ p := by
  unfold skip
  split <;> omega

/-- The places that are new once a place is made at `p` and the new places of `N` have moved. -/
def opening (p : ℕ) (N : Finset ℕ) : Finset ℕ := insert p (N.image (skip p))

/-- The places a list of insertions has made in the end, the last insertion first. -/
def opened (l : List ℕ) : Finset ℕ := l.foldr opening ∅

theorem skip_mem_opening {p k : ℕ} {N : Finset ℕ} : skip p k ∈ opening p N ↔ k ∈ N := by
  simp [opening, skip_ne, skip_injective.eq_iff]

theorem mem_opening_of_lt {p k : ℕ} {N : Finset ℕ} (before : k < p) :
    k ∈ opening p N ↔ k ∈ N := by
  have place : skip p k = k := if_pos before
  have moved : skip p k ∈ opening p N ↔ k ∈ N := skip_mem_opening
  rwa [place] at moved

theorem mem_opening_of_gt {p k : ℕ} {N : Finset ℕ} (after : p < k) :
    k ∈ opening p N ↔ k - 1 ∈ N := by
  have place : skip p (k - 1) = k := by
    unfold skip
    rw [if_neg (by omega)]
    omega
  have moved : skip p (k - 1) ∈ opening p N ↔ k - 1 ∈ N := skip_mem_opening
  rwa [place] at moved

theorem self_mem_opening {p : ℕ} {N : Finset ℕ} : p ∈ opening p N :=
  Finset.mem_insert_self p _

theorem self_not_mem_image {p : ℕ} {N : Finset ℕ} : p ∉ N.image (skip p) := by
  simp [skip_ne]

theorem card_opening {p : ℕ} {N : Finset ℕ} : (opening p N).card = N.card + 1 := by
  rw [opening, Finset.card_insert_of_notMem self_not_mem_image,
    Finset.card_image_of_injective N skip_injective]

theorem card_opened {l : List ℕ} : (opened l).card = l.length := by
  induction l with
  | nil => rfl
  | cons p l ih =>
    rw [opened, List.foldr_cons, card_opening]
    exact congrArg (· + 1) ih

/-- Places outside the new ones, counted before and after one more is made. -/
theorem count_opening {p k : ℕ} {N : Finset ℕ} :
    Nat.count (· ∉ opening p N) k = Nat.count (· ∉ N) (if k ≤ p then k else k - 1) := by
  induction k with
  | zero => simp
  | succ k ih =>
    rw [Nat.count_succ, ih]
    rcases Nat.lt_trichotomy k p with before | at_p | after
    · have here : k ≤ p := by omega
      have next : k + 1 ≤ p := by omega
      rw [if_pos here, if_pos next, Nat.count_succ]
      simp only [mem_opening_of_lt before]
    · subst at_p
      simp [self_mem_opening]
    · obtain ⟨j, rfl⟩ : ∃ j, k = j + 1 := ⟨k - 1, by omega⟩
      have here : ¬ j + 1 ≤ p := by omega
      have next : ¬ j + 1 + 1 ≤ p := by omega
      rw [if_neg here, if_neg next, Nat.add_sub_cancel, Nat.add_sub_cancel, Nat.count_succ]
      simp only [mem_opening_of_gt after, Nat.add_sub_cancel]

theorem infinite_outside {N : Finset ℕ} : (Set.ofPred (· ∉ N)).Infinite :=
  N.finite_toSet.infinite_compl

theorem andThen_insertAll {p : ℕ} {N : Finset ℕ} :
    andThen (insertAll N) (insertAt p) = insertAll (opening p N) := by
  funext k
  unfold andThen insertAt insertAll
  rcases Nat.lt_trichotomy k p with before | at_p | after
  · have low : k ≤ p := by omega
    rw [if_pos before, Option.bind_some, count_opening, if_pos low]
    simp only [mem_opening_of_lt before]
  · subst at_p
    simp [self_mem_opening]
  · have later : ¬ k < p := by omega
    have other : k ≠ p := by omega
    have high : ¬ k ≤ p := by omega
    rw [if_neg later, if_neg other, Option.bind_some, count_opening, if_neg high]
    simp only [mem_opening_of_gt after]

theorem andThen_eraseAll {p : ℕ} {N : Finset ℕ} :
    andThen (eraseAt p) (eraseAll N) = eraseAll (opening p N) := by
  funext k
  unfold andThen eraseAll eraseAt
  rw [Option.bind_some]
  have outside : Nat.nth (· ∉ N) k ∉ N := Nat.nth_mem_of_infinite infinite_outside k
  have outside' : skip p (Nat.nth (· ∉ N) k) ∉ opening p N := mt skip_mem_opening.mp outside
  have counted : Nat.count (· ∉ opening p N) (skip p (Nat.nth (· ∉ N) k)) = k := by
    rw [count_opening]
    have back : (if skip p (Nat.nth (· ∉ N) k) ≤ p then skip p (Nat.nth (· ∉ N) k)
        else skip p (Nat.nth (· ∉ N) k) - 1) = Nat.nth (· ∉ N) k := by
      unfold skip
      split <;> split <;> omega
    rw [back, Nat.count_nth_of_infinite infinite_outside]
  have found : Nat.nth (· ∉ opening p N) (Nat.count (· ∉ opening p N)
      (skip p (Nat.nth (· ∉ N) k))) = skip p (Nat.nth (· ∉ N) k) := Nat.nth_count outside'
  rw [counted] at found
  rw [found]

/-- Insertions in the order of a list make the places that the reversed list opens. -/
theorem inTurn_insertAt {l : List ℕ} : inTurn insertAt l = insertAll (opened l.reverse) := by
  induction l using List.reverseRecOn with
  | nil =>
    funext k
    simp [inTurn, insertAll, opened, Nat.count_true]
  | append_singleton l p ih =>
    rw [inTurn_concat, ih, andThen_insertAll, List.reverse_append]
    rfl

/-- Removals in the order of a list take out what stood at the places that the list opens. -/
theorem inTurn_eraseAt {l : List ℕ} : inTurn eraseAt l = eraseAll (opened l) := by
  induction l with
  | nil =>
    funext k
    simp [inTurn, eraseAll, opened]
  | cons p l ih =>
    rw [inTurn_cons, ih, andThen_eraseAll]
    rfl

theorem insertAll_injective : Function.Injective insertAll := by
  intro S T h
  ext k
  have same := congrFun h k
  unfold insertAll at same
  split at same <;> split at same <;> simp_all

theorem eraseAll_injective : Function.Injective eraseAll := by
  intro S T h
  have range (U : Finset ℕ) {k : ℕ} : (∃ n, eraseAll U n = some k) ↔ k ∉ U := by
    have whole := Nat.range_nth_of_infinite (infinite_outside (N := U))
    have inside : k ∈ Set.range (Nat.nth (· ∉ U)) ↔ k ∉ U := by rw [whole]; rfl
    rw [← inside]
    simp [eraseAll]
  ext k
  rw [← not_iff_not, ← range S, ← range T, h]

theorem sum_image_skip {p : ℕ} {N : Finset ℕ} :
    ∑ k ∈ N.image (skip p), k = ∑ k ∈ N, k + (N.filter (p ≤ ·)).card := by
  rw [Finset.sum_image fun _ _ _ _ h => skip_injective h, Finset.card_filter,
    ← Finset.sum_add_distrib]
  apply Finset.sum_congr rfl
  intro k _
  unfold skip
  split <;> split <;> omega

theorem sum_opened_cons {p : ℕ} {l : List ℕ} :
    ∑ k ∈ opened (p :: l), k = p + ∑ k ∈ opened l, k + ((opened l).filter (p ≤ ·)).card := by
  have split : ∑ k ∈ opened (p :: l), k = p + ∑ k ∈ (opened l).image (skip p), k :=
    Finset.sum_insert self_not_mem_image
  rw [split, sum_image_skip, Nat.add_assoc]

theorem sum_le_sum_opened {l : List ℕ} : l.sum ≤ ∑ k ∈ opened l, k := by
  induction l with
  | nil => simp
  | cons p l ih =>
    rw [sum_opened_cons, List.sum_cons]
    omega

theorem opened_of_descending {l : List ℕ} (descending : l.Pairwise (· > ·)) :
    opened l = l.toFinset := by
  induction l with
  | nil => rfl
  | cons p l ih =>
    obtain ⟨above, rest⟩ := List.pairwise_cons.mp descending
    have still : (opened l).image (skip p) = l.toFinset := by
      rw [ih rest]
      refine (Finset.image_congr ?_).trans Finset.image_id
      intro k hk
      exact if_pos (above k (by simpa using hk))
    show opening p (opened l) = _
    rw [opening, still, List.toFinset_cons]

/-- No new place is pushed on by a later one only if each later one is below it. -/
theorem descending_of_sum {l : List ℕ} (total : ∑ k ∈ opened l, k = l.sum) :
    l.Pairwise (· > ·) := by
  induction l with
  | nil => exact List.Pairwise.nil
  | cons p l ih =>
    rw [sum_opened_cons, List.sum_cons] at total
    have least : l.sum ≤ ∑ k ∈ opened l, k := sum_le_sum_opened
    have rest := ih (by omega)
    have unpushed : (opened l).filter (p ≤ ·) = ∅ := Finset.card_eq_zero.mp (by omega)
    refine List.pairwise_cons.mpr ⟨?_, rest⟩
    intro k hk
    have made : k ∈ opened l := by
      rw [opened_of_descending rest]
      simpa using hk
    have low := Finset.filter_eq_empty_iff.mp unpushed made
    omega

/-- The new places are the listed ones exactly when the list goes down. -/
theorem opened_eq_toFinset_iff {l : List ℕ} : opened l = l.toFinset ↔ l.Pairwise (· > ·) := by
  apply Iff.intro
  · intro same
    have size : l.toFinset.card = l.length := by rw [← same, card_opened]
    have whole : l.dedup = l := by
      refine (List.dedup_sublist l).eq_of_length ?_
      rw [← List.card_toFinset, size]
    have distinct : l.Nodup := whole ▸ List.nodup_dedup l
    apply descending_of_sum
    rw [same, List.sum_toFinset _ distinct, List.map_id']
  · exact opened_of_descending

theorem insert_inTurn_iff {l : List ℕ} :
    inTurn insertAt l = insertAll l.toFinset ↔ l.Pairwise (· < ·) := by
  rw [inTurn_insertAt, insertAll_injective.eq_iff, ← List.toFinset_reverse, opened_eq_toFinset_iff,
    List.pairwise_reverse]

theorem erase_inTurn_iff {l : List ℕ} :
    inTurn eraseAt l = eraseAll l.toFinset ↔ l.Pairwise (· > ·) := by
  rw [inTurn_eraseAt, eraseAll_injective.eq_iff, opened_eq_toFinset_iff]

theorem relocate_eq_exchange_iff {i j : ℕ} : exchange i j = relocate i j ↔ i ≤ j + 1 ∧ j ≤ i + 1 := by
  apply Iff.intro
  · intro same
    have at_i := Option.some.inj (congrFun same i)
    rw [Equiv.swap_apply_left] at at_i
    by_contra far
    unfold skip at at_i
    split at at_i
    · omega
    · split at at_i <;> split at at_i <;> omega
  · intro near
    funext k
    unfold exchange relocate skip
    rw [Equiv.swap_apply_def]
    congr 1
    by_cases first : k = i
    · subst first
      rw [if_pos rfl]
      split
      · omega
      · split <;> split <;> omega
    · rw [if_neg first]
      by_cases last : k = j
      · rw [if_pos last, if_pos last]
      · rw [if_neg last, if_neg last]
        split <;> split <;> omega

section Families

/-- An edit of whole sequences in a family of sequences. -/
def whole (o : Origin κ) : Origin (κ × ι) := fun p => (o p.1).map (·, p.2)

/-- An edit inside each sequence of a family. -/
def within (o : κ → Origin ι) : Origin (κ × ι) := fun p => (o p.1 p.2).map (p.1, ·)

/-- An edit inside the sequence `s` of a family. -/
def inside [DecidableEq κ] (s : κ) (o : Origin ι) : Origin (κ × ι) :=
  within fun t => if t = s then o else some

theorem whole_injective [Nonempty ι] : Function.Injective (whole : Origin κ → Origin (κ × ι)) := by
  intro o o' h
  funext s
  have same := congrFun h (s, Classical.arbitrary ι)
  unfold whole at same
  cases hs : o s with
  | none => cases hs' : o' s <;> simp_all
  | some t => cases hs' : o' s <;> simp_all

theorem within_injective : Function.Injective (within : (κ → Origin ι) → Origin (κ × ι)) := by
  intro o o' h
  funext s r
  have same := congrFun h (s, r)
  unfold within at same
  cases hr : o s r with
  | none => cases hr' : o' s r <;> simp_all
  | some t => cases hr' : o' s r <;> simp_all

theorem inTurn_whole {one : β → Origin κ} {l : List β} :
    inTurn (fun p => (whole (one p) : Origin (κ × ι))) l = whole (inTurn one l) := by
  induction l with
  | nil => rfl
  | cons p l ih =>
    rw [inTurn_cons, inTurn_cons, ih]
    funext q
    cases h : inTurn one l q.1 <;> simp [andThen, whole, h]

/-- The entries of a list that edit the sequence `s`, in the order of the list. -/
def indicesIn [DecidableEq κ] (s : κ) (l : List (κ × γ)) : List γ :=
  (l.filter (·.1 = s)).map Prod.snd

theorem mem_indicesIn [DecidableEq κ] {s : κ} {r : γ} {l : List (κ × γ)} :
    r ∈ indicesIn s l ↔ (s, r) ∈ l := by
  simp [indicesIn]

theorem inTurn_inside [DecidableEq κ] {one : γ → Origin ι} {l : List (κ × γ)} :
    inTurn (fun p => inside p.1 (one p.2)) l = within fun s => inTurn one (indicesIn s l) := by
  induction l with
  | nil =>
    funext q
    rfl
  | cons p l ih =>
    rw [inTurn_cons, ih]
    funext q
    by_cases here : p.1 = q.1
    · have first : indicesIn q.1 (p :: l) = p.2 :: indicesIn q.1 l := by simp [indicesIn, here]
      have split : inTurn one (indicesIn q.1 (p :: l)) q.2 =
          (inTurn one (indicesIn q.1 l) q.2).bind (one p.2) := by
        rw [first, inTurn_cons]
        rfl
      cases h : inTurn one (indicesIn q.1 l) q.2 <;> simp [andThen, within, inside, split, h, here]
    · have skipped : indicesIn q.1 (p :: l) = indicesIn q.1 l := by simp [indicesIn, here]
      cases h : inTurn one (indicesIn q.1 l) q.2 <;>
        simp [andThen, within, inside, skipped, h, Ne.symm here]

theorem pairwise_indicesIn [DecidableEq κ] {R : ι → ι → Prop} {l : List (κ × ι)} :
    (∀ s, (indicesIn s l).Pairwise R) ↔ l.Pairwise fun p q => p.1 = q.1 → R p.2 q.2 := by
  induction l with
  | nil => simp [indicesIn]
  | cons p l ih =>
    rw [List.pairwise_cons, ← ih]
    apply Iff.intro
    · intro h
      refine ⟨?_, ?_⟩
      · intro q hq same
        have first := h p.1
        have head : indicesIn p.1 (p :: l) = p.2 :: indicesIn p.1 l := by simp [indicesIn]
        rw [head, List.pairwise_cons] at first
        exact first.1 q.2 (mem_indicesIn.mpr (same ▸ hq))
      · intro s
        exact (h s).sublist ((List.sublist_cons_self p l).filter _ |>.map _)
    · intro h s
      by_cases here : p.1 = s
      · have head : indicesIn s (p :: l) = p.2 :: indicesIn s l := by simp [indicesIn, here]
        rw [head, List.pairwise_cons]
        exact ⟨fun r hr => h.1 (s, r) (mem_indicesIn.mp hr) here, h.2 s⟩
      · have skipped : indicesIn s (p :: l) = indicesIn s l := by simp [indicesIn, here]
        rw [skipped]
        exact h.2 s

/-- The value at `a` is taken out of its sequence and put in again, to stand at `b` in the end. -/
def relocateWithin [DecidableEq κ] (a b : κ × ℕ) : Origin (κ × ℕ) := fun p =>
  some (if p = b then a else
    let k := if p.1 = b.1 ∧ b.2 < p.2 then p.2 - 1 else p.2
    (p.1, if p.1 = a.1 then skip a.2 k else k))

theorem relocateWithin_same [DecidableEq κ] {s : κ} {i j : ℕ} :
    relocateWithin (s, i) (s, j) = inside s (relocate i j) := by
  funext p
  obtain ⟨t, k⟩ := p
  unfold relocateWithin inside within relocate
  by_cases here : t = s
  · subst here
    by_cases last : k = j
    · simp [last]
    · simp [last]
  · simp [here]

theorem update_update_exchange [DecidableEq ι] {i j : ι} {blank : β} {f : ι → β} :
    Function.update (Function.update f i (f j)) j (f i) = read (exchange i j) blank f := by
  funext k
  unfold read exchange
  rw [Option.elim_some, Equiv.swap_apply_def]
  by_cases second : k = j
  · subst second
    rw [Function.update_self, if_pos rfl]
    split
    next same => rw [same]
    next => rfl
  · rw [Function.update_of_ne second, if_neg second]
    by_cases first : k = i
    · rw [first, Function.update_self, if_pos rfl]
    · rw [Function.update_of_ne first, if_neg first]

theorem update_clearAt [DecidableEq ι] {i : ι} {blank : β} {f : ι → β} :
    Function.update f i blank = read (clearAt i) blank f := by
  funext k
  unfold read clearAt
  by_cases here : k = i
  · simp [here]
  · simp [here]

theorem exchange_inside [DecidableEq κ] {s : κ} {i j : ℕ} :
    exchange (s, i) (s, j) = inside s (exchange i j) := by
  funext p
  obtain ⟨t, k⟩ := p
  unfold exchange inside within
  rw [Equiv.swap_apply_def]
  by_cases here : t = s
  · subst here
    simp only [Prod.mk.injEq, true_and, if_true, Option.map_some, Equiv.swap_apply_def]
    split
    · rfl
    · split <;> rfl
  · simp [here]

theorem inside_injective [DecidableEq κ] {s : κ} :
    Function.Injective (inside s : Origin ι → Origin (κ × ι)) := by
  intro o o' h
  simpa using congrFun (within_injective h) s

theorem relocateWithin_eq_exchange_iff [DecidableEq κ] {a b : κ × ℕ} :
    exchange a b = relocateWithin a b ↔ a.1 = b.1 ∧ a.2 ≤ b.2 + 1 ∧ b.2 ≤ a.2 + 1 := by
  obtain ⟨s, i⟩ := a
  obtain ⟨t, j⟩ := b
  by_cases here : s = t
  · subst here
    rw [exchange_inside, relocateWithin_same, inside_injective.eq_iff, relocate_eq_exchange_iff]
    simp
  · apply Iff.intro
    · intro same
      -- the value after the target has to move on, and an exchange leaves it
      have after := Option.some.inj (congrFun same (t, j + 1))
      rw [Equiv.swap_apply_of_ne_of_ne (by simp [Ne.symm here]) (by simp)] at after
      simp [Ne.symm here] at after
    · intro near
      exact absurd near.1 here

end Families

section Lists

/-- The entries of a list, with `blank` past its end. -/
def entries (blank : β) (l : List β) : ℕ → β := fun k => l.getD k blank

variable {blank : β} {l : List β}

theorem entries_insertIdx {p : ℕ} (room : p ≤ l.length) :
    entries blank (l.insertIdx p blank) = read (insertAt p) blank (entries blank l) := by
  funext k
  unfold entries read insertAt
  rcases Nat.lt_trichotomy k p with before | at_p | after
  · simp [List.getElem?_insertIdx_of_lt before, before]
  · subst at_p
    simp [List.getElem?_insertIdx_self, room]
  · have later : ¬ k < p := by omega
    have other : k ≠ p := by omega
    simp [List.getElem?_insertIdx_of_gt after, later, other]

theorem entries_eraseIdx {p : ℕ} :
    entries blank (l.eraseIdx p) = read (eraseAt p) blank (entries blank l) := by
  funext k
  unfold entries read eraseAt skip
  by_cases before : k < p
  · simp [List.getElem?_eraseIdx_of_lt before, before]
  · simp [List.getElem?_eraseIdx_of_ge (Nat.le_of_not_lt before), before]

theorem entries_set_blank {p : ℕ} :
    entries blank (l.set p blank) = read (clearAt p) blank (entries blank l) := by
  funext k
  unfold entries read clearAt
  by_cases here : k = p
  · subst here
    by_cases inside : k < l.length
    · simp [inside]
    · rw [List.set_eq_of_length_le (Nat.le_of_not_lt inside)]
      simp [List.getElem?_eq_none (Nat.le_of_not_lt inside)]
  · simp [List.getElem?_set_ne (Ne.symm here), here]

theorem entries_exchange {i j : ℕ} (hi : i < l.length) (hj : j < l.length) :
    entries blank ((l.set i (l.getD j blank)).set j (l.getD i blank)) =
      read (exchange i j) blank (entries blank l) := by
  funext k
  unfold entries read exchange
  rw [Option.elim_some, Equiv.swap_apply_def, List.getD_eq_getElem?_getD]
  by_cases second : k = j
  · subst second
    rw [List.getElem?_set_self (by simpa using hj), Option.getD_some, if_pos rfl]
    split
    next same => rw [same]
    next => rfl
  · rw [List.getElem?_set_ne (Ne.symm second), if_neg second]
    by_cases first : k = i
    · subst first
      rw [List.getElem?_set_self hi, Option.getD_some, if_pos rfl]
    · rw [List.getElem?_set_ne (Ne.symm first), if_neg first, ← List.getD_eq_getElem?_getD]

/-- The list without the entries at the places of `S`. -/
def eraseIndices (S : Finset ℕ) (l : List β) : List β :=
  (l.zipIdx.filter fun entry => decide (entry.2 ∉ S)).map Prod.fst

theorem eraseIndices_concat {S : Finset ℕ} {a : β} :
    eraseIndices S (l ++ [a]) = eraseIndices S l ++ if l.length ∈ S then [] else [a] := by
  unfold eraseIndices
  rw [List.zipIdx_append, List.filter_append, List.map_append]
  by_cases gone : l.length ∈ S <;> simp [gone]

theorem length_eraseIndices {S : Finset ℕ} :
    (eraseIndices S l).length = Nat.count (· ∉ S) l.length := by
  induction l using List.reverseRecOn with
  | nil => rfl
  | append_singleton l a ih =>
    rw [eraseIndices_concat, List.length_append, ih, List.length_append, List.length_singleton,
      Nat.count_succ]
    by_cases gone : l.length ∈ S <;> simp [gone]

theorem getElem?_eraseIndices {S : Finset ℕ} {k : ℕ} :
    (eraseIndices S l)[k]? = l[Nat.nth (· ∉ S) k]? := by
  induction l using List.reverseRecOn with
  | nil => rfl
  | append_singleton l a ih =>
    have stays : Nat.nth (· ∉ S) k ∉ S := Nat.nth_mem_of_infinite infinite_outside k
    rw [eraseIndices_concat]
    by_cases old : k < (eraseIndices S l).length
    · have low : Nat.nth (· ∉ S) k < l.length := Nat.nth_lt_of_lt_count (length_eraseIndices ▸ old)
      rw [List.getElem?_append_left old, ih, List.getElem?_append_left low]
    · have past : (eraseIndices S l).length ≤ k := Nat.le_of_not_lt old
      have high : l.length ≤ Nat.nth (· ∉ S) k := by
        refine (Nat.count_le_iff_le_nth infinite_outside).mp ?_
        rw [← length_eraseIndices]
        exact past
      rw [List.getElem?_append_right past, List.getElem?_append_right high]
      by_cases gone : l.length ∈ S
      · have other : Nat.nth (· ∉ S) k ≠ l.length := fun same => stays (same ▸ gone)
        rw [if_pos gone, List.getElem?_nil, List.getElem?_eq_none]
        rw [List.length_singleton]
        omega
      · rw [if_neg gone]
        have first : k = (eraseIndices S l).length ↔ Nat.nth (· ∉ S) k = l.length := by
          apply Iff.intro
          · intro same
            rw [same, length_eraseIndices, Nat.nth_count gone]
          · intro same
            rw [length_eraseIndices, ← same, Nat.count_nth_of_infinite infinite_outside]
        by_cases here : k = (eraseIndices S l).length
        · rw [← here, first.mp here]
          simp
        · have other := mt first.mpr here
          rw [List.getElem?_eq_none, List.getElem?_eq_none] <;> rw [List.length_singleton] <;> omega

theorem entries_eraseIndices {S : Finset ℕ} :
    entries blank (eraseIndices S l) = read (eraseAll S) blank (entries blank l) := by
  funext k
  unfold entries read eraseAll
  rw [Option.elim_some, List.getD_eq_getElem?_getD, getElem?_eraseIndices,
    List.getD_eq_getElem?_getD]

/-- The entries of a list of lists, with `blank` past every end. -/
def entriesOf (blank : β) (rows : List (List β)) : ℕ × ℕ → β := fun p =>
  entries blank (entries [] rows p.1) p.2

theorem entriesOf_whole {o : Origin ℕ} {rows rows' : List (List β)}
    (edited : entries [] rows' = read o [] (entries [] rows)) :
    entriesOf blank rows' = read (whole o) blank (entriesOf blank rows) := by
  funext p
  unfold entriesOf
  rw [edited]
  cases h : o p.1 <;> simp [read, whole, h, entries]

theorem entriesOf_inside {o : Origin ℕ} {s : ℕ} {rows : List (List β)} {row' : List β}
    (here : s < rows.length)
    (edited : entries blank row' = read o blank (entries blank (rows.getD s []))) :
    entriesOf blank (rows.set s row') = read (inside s o) blank (entriesOf blank rows) := by
  funext p
  obtain ⟨t, k⟩ := p
  by_cases same : t = s
  · subst same
    have found : entries [] (rows.set t row') t = row' := by simp [entries, here]
    unfold entriesOf
    rw [found, edited]
    cases h : o k <;> simp [read, inside, within, h, entries]
  · have kept : entries [] (rows.set s row') t = entries [] rows t := by
      simp [entries, List.getElem?_set_ne (Ne.symm same)]
    unfold entriesOf
    rw [kept]
    simp [read, inside, within, same]

theorem entriesOf_set {s k : ℕ} {rows : List (List β)} {value : β}
    (room : k < (rows.getD s []).length) (here : s < rows.length) :
    entriesOf blank (rows.set s ((rows.getD s []).set k value)) =
      Function.update (entriesOf blank rows) (s, k) value := by
  funext p
  obtain ⟨t, j⟩ := p
  unfold entriesOf entries
  by_cases same : t = s
  · subst same
    have found : (rows.set t ((rows.getD t []).set k value)).getD t [] =
        (rows.getD t []).set k value := by
      rw [List.getD_eq_getElem?_getD, List.getElem?_set_self here, Option.getD_some]
    rw [found, List.getD_eq_getElem?_getD]
    by_cases at_k : j = k
    · subst at_k
      rw [List.getElem?_set_self room, Function.update_self, Option.getD_some]
    · rw [List.getElem?_set_ne (Ne.symm at_k), Function.update_of_ne (by simpa using at_k),
        ← List.getD_eq_getElem?_getD]
  · have kept : (rows.set s ((rows.getD s []).set k value)).getD t [] = rows.getD t [] := by
      rw [List.getD_eq_getElem?_getD, List.getElem?_set_ne (Ne.symm same),
        ← List.getD_eq_getElem?_getD]
    rw [kept, Function.update_of_ne (by simp [same])]

end Lists

end IndexEdits
