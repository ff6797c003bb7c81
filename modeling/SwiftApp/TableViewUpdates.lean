import Mathlib.Tactic.Linarith
import SwiftApp.FDIndexPathHeightCacheInvalidation

namespace SwiftApp

open IndexEdits

/-- A call of one of the methods of the table view that the height cache is told of. -/
inductive TableViewUpdate
  | insertSections (sections : Finset ℕ)
  | deleteSections (sections : Finset ℕ)
  | reloadSections (sections : Finset ℕ)
  | moveSection (fromSection newSection : ℕ)
  | insertRows (indexPaths : List NSIndexPath)
  | deleteRows (indexPaths : List NSIndexPath)
  | reloadRows (indexPaths : List NSIndexPath)
  | moveRow (source destination : NSIndexPath)

namespace TableViewUpdate

/-- What the update means to the table view: the index path each row had before it. Deleted
and reloaded places are named as they were, inserted places as they are in the end. -/
noncomputable def origin : TableViewUpdate → Origin NSIndexPath
  | insertSections sections => whole (insertAll sections)
  | deleteSections sections => whole (eraseAll sections)
  | reloadSections sections => whole (clearAll sections)
  | moveSection fromSection newSection => whole (relocate fromSection newSection)
  | insertRows indexPaths => within fun s => insertAll (indicesIn s indexPaths).toFinset
  | deleteRows indexPaths => within fun s => eraseAll (indicesIn s indexPaths).toFinset
  | reloadRows indexPaths => clearAll indexPaths.toFinset
  | moveRow source destination => relocateWithin source destination

/-- What the swizzled method does to the places of the cache. -/
noncomputable def cacheOrigin : TableViewUpdate → Origin NSIndexPath
  | insertSections sections => whole (inTurn insertAt (sections.sort (· ≤ ·)))
  | deleteSections sections => whole (inTurn eraseAt (sections.sort (· ≤ ·)))
  | reloadSections sections => whole (inTurn clearAt (sections.sort (· ≤ ·)))
  | moveSection fromSection newSection => whole (exchange fromSection newSection)
  | insertRows indexPaths => inTurn (fun p => inside p.1 (insertAt p.2)) indexPaths
  | deleteRows indexPaths => within fun s => eraseAll (indicesIn s indexPaths).toFinset
  | reloadRows indexPaths => inTurn clearAt indexPaths
  | moveRow source destination => exchange source destination

/-- At most one section goes, sections and rows move at most one place, rows only inside
their section, and new rows are listed upwards in each section. -/
def Orderly : TableViewUpdate → Prop
  | deleteSections sections => sections.card ≤ 1
  | moveSection fromSection newSection => fromSection ≤ newSection + 1 ∧ newSection ≤ fromSection + 1
  | insertRows indexPaths => indexPaths.Pairwise fun p q => p.1 = q.1 → p.2 < q.2
  | moveRow source destination => source.1 = destination.1 ∧
      source.2 ≤ destination.2 + 1 ∧ destination.2 ≤ source.2 + 1
  | insertSections _ | reloadSections _ | deleteRows _ | reloadRows _ => True

instance : DecidablePred Orderly := by
  intro update
  cases update <;> unfold Orderly <;> infer_instance

theorem ascending_sort (sections : Finset ℕ) :
    (sections.sort (· ≤ ·)).Pairwise (· < ·) :=
  sections.sortedLT_sort.pairwise

theorem deleteSections_iff {sections : Finset ℕ} :
    inTurn eraseAt (sections.sort (· ≤ ·)) = eraseAll sections ↔ sections.card ≤ 1 := by
  have listed : (sections.sort (· ≤ ·)).toFinset = sections := Finset.sort_toFinset sections _
  have size : (sections.sort (· ≤ ·)).length = sections.card := Finset.length_sort _
  have exact_order : inTurn eraseAt (sections.sort (· ≤ ·)) = eraseAll sections ↔
      (sections.sort (· ≤ ·)).Pairwise (· > ·) := by
    rw [← erase_inTurn_iff, listed]
  rw [exact_order, ← size]
  have ascending := ascending_sort sections
  cases h : sections.sort (· ≤ ·) with
  | nil => simp
  | cons s rest =>
    cases rest with
    | nil => simp
    | cons t rest =>
      rw [h] at ascending
      have up : s < t := (List.pairwise_cons.mp ascending).1 t List.mem_cons_self
      apply Iff.intro
      · intro descending
        have down : s > t := (List.pairwise_cons.mp descending).1 t List.mem_cons_self
        omega
      · intro short
        simp at short

/-- The places of the cache follow the rows exactly for the orderly updates. -/
theorem cacheOrigin_eq_origin_iff {update : TableViewUpdate} :
    update.cacheOrigin = update.origin ↔ update.Orderly := by
  cases update with
  | insertSections sections =>
    have listed : (sections.sort (· ≤ ·)).toFinset = sections := Finset.sort_toFinset sections _
    have same := insert_inTurn_iff.mpr (ascending_sort sections)
    rw [listed] at same
    simp only [cacheOrigin, origin, Orderly, same]
  | deleteSections sections =>
    simp only [cacheOrigin, origin, Orderly, whole_injective.eq_iff]
    exact deleteSections_iff
  | reloadSections sections =>
    have listed : (sections.sort (· ≤ ·)).toFinset = sections := Finset.sort_toFinset sections _
    simp only [cacheOrigin, origin, Orderly, inTurn_clearAt, listed]
  | moveSection fromSection newSection =>
    simp only [cacheOrigin, origin, Orderly, whole_injective.eq_iff]
    exact relocate_eq_exchange_iff
  | insertRows indexPaths =>
    simp only [cacheOrigin, origin, Orderly, inTurn_inside, within_injective.eq_iff]
    rw [← pairwise_indicesIn, funext_iff]
    exact forall_congr' fun s => insert_inTurn_iff
  | deleteRows indexPaths => simp only [cacheOrigin, origin, Orderly]
  | reloadRows indexPaths => simp only [cacheOrigin, origin, Orderly, inTurn_clearAt]
  | moveRow source destination =>
    simp only [cacheOrigin, origin, Orderly]
    exact relocateWithin_eq_exchange_iff

end TableViewUpdate

namespace FDIndexPathHeightCache

/-- The swizzled method for an update, before it forwards the call. -/
def fd_update (order : NSDictionaryOrder) (cache : FDIndexPathHeightCache) :
    TableViewUpdate → Option FDIndexPathHeightCache
  | .insertSections sections => cache.fd_insertSections sections
  | .deleteSections sections => cache.fd_deleteSections sections
  | .reloadSections sections => cache.fd_reloadSections sections
  | .moveSection fromSection newSection => cache.fd_moveSection fromSection newSection
  | .insertRows indexPaths => cache.fd_insertRowsAtIndexPaths indexPaths
  | .deleteRows indexPaths => cache.fd_deleteRowsAtIndexPaths order indexPaths
  | .reloadRows indexPaths => cache.fd_reloadRowsAtIndexPaths indexPaths
  | .moveRow source destination => cache.fd_moveRowAtIndexPath source destination

theorem fd_update_follows (order : NSDictionaryOrder) {cache : FDIndexPathHeightCache}
    (enabled : cache.automaticallyInvalidateEnabled = true) (update : TableViewUpdate) :
    ∃ cache', cache.fd_update order update = some cache' ∧
      Follows update.cacheOrigin cache cache' := by
  cases update with
  | insertSections sections => exact fd_insertSections_follows enabled
  | deleteSections sections => exact fd_deleteSections_follows enabled
  | reloadSections sections => exact fd_reloadSections_follows enabled
  | moveSection fromSection newSection => exact fd_moveSection_follows enabled
  | insertRows indexPaths => exact fd_insertRows_follows enabled
  | deleteRows indexPaths => exact fd_deleteRows_follows enabled
  | reloadRows indexPaths => exact fd_reloadRows_follows enabled
  | moveRow source destination => exact fd_moveRow_follows enabled

theorem fd_update_disabled {order : NSDictionaryOrder} {cache : FDIndexPathHeightCache}
    (disabled : cache.automaticallyInvalidateEnabled = false) (update : TableViewUpdate) :
    cache.fd_update order update = some cache := by
  have off : ¬ cache.automaticallyInvalidateEnabled = true := by rw [disabled]; simp
  cases update <;> exact if_neg off

/-- No update raises a range exception in the cache, whatever it holds and whatever the paths. -/
theorem fd_update_isSome {order : NSDictionaryOrder} {cache : FDIndexPathHeightCache}
    {update : TableViewUpdate} : (cache.fd_update order update).isSome = true := by
  cases enabled : cache.automaticallyInvalidateEnabled with
  | false =>
    rw [fd_update_disabled enabled]
    rfl
  | true =>
    obtain ⟨cache', done, -⟩ := fd_update_follows order enabled update
    rw [done]
    rfl

/-- A cache with `count` sections of `count` rows that all have heights of their own. -/
def numbered (count : ℕ) : FDIndexPathHeightCache :=
  let rows := (List.range count).map fun s => (List.range count).map fun r => ((s * count + r : ℕ) : ℚ)
  ⟨true, rows, rows⟩

theorem heights_numbered {count : ℕ} (isPortrait : Bool) {p : NSIndexPath} (hs : p.1 < count)
    (hr : p.2 < count) : (numbered count).heights isPortrait p = ((p.1 * count + p.2 : ℕ) : ℚ) := by
  have found : (numbered count).heightsBySection isPortrait = (List.range count).map fun s =>
      (List.range count).map fun r => ((s * count + r : ℕ) : ℚ) := by
    cases isPortrait <;> rfl
  unfold heights entriesOf entries
  rw [found]
  simp [hs, hr]

/-- Edits that every cache reads alike are the same edit. -/
theorem origin_unique {o o' : Origin NSIndexPath}
    (alike : ∀ cache : FDIndexPathHeightCache, cache.automaticallyInvalidateEnabled = true →
      ∀ isPortrait, read o (-1) (cache.heights isPortrait) = read o' (-1) (cache.heights isPortrait)) :
    o = o' := by
  have number {count : ℕ} {p : NSIndexPath} (hs : p.1 < count) (hr : p.2 < count) :=
    heights_numbered true hs hr
  funext p
  have same (count : ℕ) := congrFun (alike (numbered count) rfl true) p
  unfold IndexEdits.read at same
  cases h : o p with
  | none =>
    cases h' : o' p with
    | none => rfl
    | some q =>
      have clash := same (q.1 + q.2 + 1)
      rw [h, h', Option.elim_none, Option.elim_some, number (by omega) (by omega)] at clash
      have positive : (0 : ℚ) ≤ ((q.1 * (q.1 + q.2 + 1) + q.2 : ℕ) : ℚ) := Nat.cast_nonneg _
      linarith
  | some q =>
    cases h' : o' p with
    | none =>
      have clash := same (q.1 + q.2 + 1)
      rw [h, h', Option.elim_none, Option.elim_some, number (by omega) (by omega)] at clash
      have positive : (0 : ℚ) ≤ ((q.1 * (q.1 + q.2 + 1) + q.2 : ℕ) : ℚ) := Nat.cast_nonneg _
      linarith
    | some q' =>
      have equal := same (q.1 + q.2 + q'.1 + q'.2 + 1)
      rw [h, h', Option.elim_some, Option.elim_some, number (by omega) (by omega),
        number (by omega) (by omega), Nat.cast_inj] at equal
      have row : q.2 = q'.2 := by
        have left := congrArg (· % (q.1 + q.2 + q'.1 + q'.2 + 1)) equal
        simp only [Nat.mul_add_mod_self_right] at left
        rwa [Nat.mod_eq_of_lt (by omega), Nat.mod_eq_of_lt (by omega)] at left
      have times : q.1 * (q.1 + q.2 + q'.1 + q'.2 + 1) = q'.1 * (q.1 + q.2 + q'.1 + q'.2 + 1) := by
        omega
      have same_section : q.1 = q'.1 := Nat.eq_of_mul_eq_mul_right (by omega) times
      rw [Prod.ext same_section row]

/-- The heights of an enabled cache move with the rows exactly for the orderly updates. -/
theorem fd_update_moves_with_rows_iff {order : NSDictionaryOrder} {update : TableViewUpdate} :
    (∀ cache : FDIndexPathHeightCache, cache.automaticallyInvalidateEnabled = true →
      ∃ cache', cache.fd_update order update = some cache' ∧
        ∀ isPortrait p, cache'.height isPortrait p.1 p.2 =
          match update.origin p with
          | none => -1
          | some q => cache.height isPortrait q.1 q.2) ↔ update.Orderly := by
  rw [← TableViewUpdate.cacheOrigin_eq_origin_iff]
  have reads (cache : FDIndexPathHeightCache) (isPortrait : Bool) (p : NSIndexPath) :
      (match update.origin p with
        | none => -1
        | some q => cache.height isPortrait q.1 q.2) =
      read update.origin (-1) (cache.heights isPortrait) p := by
    unfold IndexEdits.read
    cases update.origin p <;> rfl
  apply Iff.intro
  · intro moves
    apply origin_unique
    intro cache enabled isPortrait
    obtain ⟨cache', done, moved⟩ := moves cache enabled
    obtain ⟨cache'', done', follows⟩ := fd_update_follows order enabled update
    obtain rfl := Option.some.inj (done.symm.trans done')
    rw [← follows.heights isPortrait]
    funext p
    rw [heights_apply, moved isPortrait p, reads]
  · intro same cache enabled
    obtain ⟨cache', done, follows⟩ := fd_update_follows order enabled update
    refine ⟨cache', done, ?_⟩
    intro isPortrait p
    rw [reads, ← heights_apply, follows.heights, same]

end FDIndexPathHeightCache

end SwiftApp
