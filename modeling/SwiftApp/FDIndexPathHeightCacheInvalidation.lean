import Mathlib.Data.Finset.Sort
import SwiftApp.FDTemplateLayoutCell
import SwiftApp.IndexEdits

namespace SwiftApp

open IndexEdits

/-- A section and a row. -/
abbrev NSIndexPath := ℕ × ℕ

namespace NSMutableArray

variable {α : Type}

/-- `none` is a range exception, here and below. -/
def insertObject (anObject : α) (index : ℕ) (array : List α) : Option (List α) :=
  if index ≤ array.length then some (array.insertIdx index anObject) else none

def removeObjectAtIndex (index : ℕ) (array : List α) : Option (List α) :=
  if index < array.length then some (array.eraseIdx index) else none

def exchangeObjectAtIndex (idx1 idx2 : ℕ) (array : List α) : Option (List α) := do
  let object1 ← array[idx1]?
  let object2 ← array[idx2]?
  return (array.set idx1 object2).set idx2 object1

def removeObjectsAtIndexes (indexes : Finset ℕ) (array : List α) : Option (List α) :=
  if ∀ index ∈ indexes, index < array.length then some (eraseIndices indexes array) else none

/-- A store through a subscript, which appends at the end of the array. -/
def setObject (obj : α) (idx : ℕ) (array : List α) : Option (List α) :=
  if idx < array.length then some (array.set idx obj)
  else if idx = array.length then some (array ++ [obj]) else none

end NSMutableArray

/-- A message to the row array of a section. -/
def messageRows (inSection : ℕ) (message : List ℚ → Option (List ℚ))
    (heightsBySection : FDIndexPathHeightsBySection) : Option FDIndexPathHeightsBySection := do
  let rows ← heightsBySection[inSection]?
  let rows ← message rows
  return heightsBySection.set inSection rows

/-- `mutableIndexSetsToRemove[@(section)]` is made if it is missing and `row` is added to it. -/
def addIndex (inSection row : ℕ) : List (ℕ × Finset ℕ) → List (ℕ × Finset ℕ)
  | [] => [(inSection, {row})]
  | (key, indexSet) :: rest =>
    if key = inSection then (key, insert row indexSet) :: rest
    else (key, indexSet) :: addIndex inSection row rest

/-- The order in which a dictionary hands out its entries: nobody says which it is. -/
structure NSDictionaryOrder where
  enumerate : List (ℕ × Finset ℕ) → List (ℕ × Finset ℕ)
  perm : ∀ entries, (enumerate entries).Perm entries

namespace FDIndexPathHeightCache

/-- `none` is an exception in the block. -/
def enumerateAllOrientationsUsingBlock (cache : FDIndexPathHeightCache)
    (block : FDIndexPathHeightsBySection → Option FDIndexPathHeightsBySection) :
    Option FDIndexPathHeightCache := do
  let heightsBySectionForPortrait ← block cache.heightsBySectionForPortrait
  let heightsBySectionForLandscape ← block cache.heightsBySectionForLandscape
  return { cache with heightsBySectionForPortrait, heightsBySectionForLandscape }

def buildSectionsIfNeeded (cache : FDIndexPathHeightCache) (targetSection : ℕ) :
    FDIndexPathHeightCache :=
  cache.enumerateAllOrientations (SwiftApp.buildSectionsIfNeeded targetSection)

def buildCachesAtIndexPathsIfNeeded (cache : FDIndexPathHeightCache)
    (indexPaths : List NSIndexPath) : FDIndexPathHeightCache :=
  indexPaths.foldl
    (fun cache indexPath => cache.buildCachesAtIndexPathIfNeeded indexPath.1 indexPath.2) cache

def invalidateHeightAtIndexPath (cache : FDIndexPathHeightCache) (indexPath : NSIndexPath) :
    Option FDIndexPathHeightCache :=
  (cache.buildCachesAtIndexPathsIfNeeded [indexPath]).enumerateAllOrientationsUsingBlock
    (messageRows indexPath.1 (NSMutableArray.setObject (-1) indexPath.2))

def invalidateAllHeightCache (cache : FDIndexPathHeightCache) : FDIndexPathHeightCache :=
  cache.enumerateAllOrientations fun _ => []

def fd_insertSections (cache : FDIndexPathHeightCache) (sections : Finset ℕ) :
    Option FDIndexPathHeightCache :=
  if cache.automaticallyInvalidateEnabled then
    (sections.sort (· ≤ ·)).foldlM
      (fun cache index => (cache.buildSectionsIfNeeded index).enumerateAllOrientationsUsingBlock
        (NSMutableArray.insertObject [] index)) cache
  else some cache

def fd_deleteSections (cache : FDIndexPathHeightCache) (sections : Finset ℕ) :
    Option FDIndexPathHeightCache :=
  if cache.automaticallyInvalidateEnabled then
    (sections.sort (· ≤ ·)).foldlM
      (fun cache index => (cache.buildSectionsIfNeeded index).enumerateAllOrientationsUsingBlock
        (NSMutableArray.removeObjectAtIndex index)) cache
  else some cache

def fd_reloadSections (cache : FDIndexPathHeightCache) (sections : Finset ℕ) :
    Option FDIndexPathHeightCache :=
  if cache.automaticallyInvalidateEnabled then
    (sections.sort (· ≤ ·)).foldlM
      (fun cache index => (cache.buildSectionsIfNeeded index).enumerateAllOrientationsUsingBlock
        (messageRows index fun _ => some [])) cache
  else some cache

def fd_moveSection (cache : FDIndexPathHeightCache) (fromSection newSection : ℕ) :
    Option FDIndexPathHeightCache :=
  if cache.automaticallyInvalidateEnabled then
    ((cache.buildSectionsIfNeeded fromSection).buildSectionsIfNeeded
      newSection).enumerateAllOrientationsUsingBlock
        (NSMutableArray.exchangeObjectAtIndex fromSection newSection)
  else some cache

def fd_insertRowsAtIndexPaths (cache : FDIndexPathHeightCache) (indexPaths : List NSIndexPath) :
    Option FDIndexPathHeightCache :=
  if cache.automaticallyInvalidateEnabled then
    indexPaths.foldlM
      (fun cache indexPath => cache.enumerateAllOrientationsUsingBlock
        (messageRows indexPath.1 (NSMutableArray.insertObject (-1) indexPath.2)))
      (cache.buildCachesAtIndexPathsIfNeeded indexPaths)
  else some cache

def mutableIndexSetsToRemove (indexPaths : List NSIndexPath) : List (ℕ × Finset ℕ) :=
  indexPaths.foldl (fun sets indexPath => addIndex indexPath.1 indexPath.2 sets) []

def fd_deleteRowsAtIndexPaths (order : NSDictionaryOrder) (cache : FDIndexPathHeightCache)
    (indexPaths : List NSIndexPath) : Option FDIndexPathHeightCache :=
  if cache.automaticallyInvalidateEnabled then
    (order.enumerate (mutableIndexSetsToRemove indexPaths)).foldlM
      (fun cache entry => cache.enumerateAllOrientationsUsingBlock
        (messageRows entry.1 (NSMutableArray.removeObjectsAtIndexes entry.2)))
      (cache.buildCachesAtIndexPathsIfNeeded indexPaths)
  else some cache

def fd_reloadRowsAtIndexPaths (cache : FDIndexPathHeightCache) (indexPaths : List NSIndexPath) :
    Option FDIndexPathHeightCache :=
  if cache.automaticallyInvalidateEnabled then
    indexPaths.foldlM
      (fun cache indexPath => cache.enumerateAllOrientationsUsingBlock
        (messageRows indexPath.1 (NSMutableArray.setObject (-1) indexPath.2)))
      (cache.buildCachesAtIndexPathsIfNeeded indexPaths)
  else some cache

/-- The two row arrays are one array when the sections are the same. -/
def exchangeRows (sourceIndexPath destinationIndexPath : NSIndexPath)
    (heightsBySection : FDIndexPathHeightsBySection) : Option FDIndexPathHeightsBySection := do
  let sourceRows ← heightsBySection[sourceIndexPath.1]?
  let destinationRows ← heightsBySection[destinationIndexPath.1]?
  let sourceValue ← sourceRows[sourceIndexPath.2]?
  let destinationValue ← destinationRows[destinationIndexPath.2]?
  let heightsBySection ← messageRows sourceIndexPath.1
    (NSMutableArray.setObject destinationValue sourceIndexPath.2) heightsBySection
  messageRows destinationIndexPath.1
    (NSMutableArray.setObject sourceValue destinationIndexPath.2) heightsBySection

def fd_moveRowAtIndexPath (cache : FDIndexPathHeightCache)
    (sourceIndexPath destinationIndexPath : NSIndexPath) : Option FDIndexPathHeightCache :=
  if cache.automaticallyInvalidateEnabled then
    (cache.buildCachesAtIndexPathsIfNeeded
      [sourceIndexPath, destinationIndexPath]).enumerateAllOrientationsUsingBlock
        (exchangeRows sourceIndexPath destinationIndexPath)
  else some cache

/-- What the cache holds for every index path in an orientation. -/
def heights (cache : FDIndexPathHeightCache) (isPortrait : Bool) : NSIndexPath → ℚ :=
  entriesOf (-1) (cache.heightsBySection isPortrait)

theorem heights_apply {cache : FDIndexPathHeightCache} {isPortrait : Bool}
    {indexPath : NSIndexPath} :
    cache.heights isPortrait indexPath = cache.height isPortrait indexPath.1 indexPath.2 := rfl

/-- The heights of `cache'` are those of `cache` after the edit. -/
structure Follows (o : Origin NSIndexPath) (cache cache' : FDIndexPathHeightCache) : Prop where
  enabled : cache'.automaticallyInvalidateEnabled = cache.automaticallyInvalidateEnabled
  heights : ∀ isPortrait, cache'.heights isPortrait = read o (-1) (cache.heights isPortrait)

theorem Follows.trans {o o' : Origin NSIndexPath} {cache cache' cache'' : FDIndexPathHeightCache}
    (first : Follows o cache cache') (second : Follows o' cache' cache'') :
    Follows (andThen o o') cache cache'' := by
  refine ⟨second.enabled.trans first.enabled, ?_⟩
  intro isPortrait
  rw [second.heights, first.heights, read_andThen]

theorem Follows.of_same {o : Origin NSIndexPath} {cache cache' cache'' : FDIndexPathHeightCache}
    (first : Follows some cache cache') (second : Follows o cache' cache'') :
    Follows o cache cache'' := by
  have both := first.trans second
  have single : andThen some o = o := by
    funext p
    simp [andThen]
  rwa [single] at both

/-- The row array of an index path has a number for it. -/
def Room (heights : FDIndexPathHeightsBySection) (indexPath : NSIndexPath) : Prop :=
  indexPath.2 < (heights.getD indexPath.1 []).length

theorem Room.lt_length {heights : FDIndexPathHeightsBySection} {indexPath : NSIndexPath}
    (room : Room heights indexPath) : indexPath.1 < heights.length := by
  by_contra past
  unfold Room at room
  rw [List.getD_eq_default _ _ (Nat.le_of_not_lt past)] at room
  exact Nat.not_lt_zero _ room

theorem room_set {heights : FDIndexPathHeightsBySection} {inSection : ℕ} {rows : List ℚ}
    {indexPath : NSIndexPath} (here : inSection < heights.length) :
    Room (heights.set inSection rows) indexPath ↔
      if indexPath.1 = inSection then indexPath.2 < rows.length else Room heights indexPath := by
  unfold Room
  by_cases same : indexPath.1 = inSection
  · simp [same, here]
  · simp [same, List.getElem?_set_ne (Ne.symm same)]

theorem messageRows_eq {heights : FDIndexPathHeightsBySection} {inSection : ℕ} {rows : List ℚ}
    {message : List ℚ → Option (List ℚ)} (here : inSection < heights.length)
    (answer : message (heights.getD inSection []) = some rows) :
    messageRows inSection message heights = some (heights.set inSection rows) := by
  have found : heights[inSection]? = some (heights.getD inSection []) := by simp [here]
  simp only [messageRows, found, Option.bind_eq_bind, Option.bind_some, answer]
  rfl

theorem setObject_eq {α : Type} {obj : α} {idx : ℕ} {array : List α} (inside : idx < array.length) :
    NSMutableArray.setObject obj idx array = some (array.set idx obj) := if_pos inside

/-- A block that goes through in both orientations. -/
theorem enumerate_follows {cache : FDIndexPathHeightCache} {o : Origin NSIndexPath}
    {block : FDIndexPathHeightsBySection → Option FDIndexPathHeightsBySection}
    (keeps : FDIndexPathHeightsBySection → Prop)
    (performs : ∀ isPortrait, ∃ heights', block (cache.heightsBySection isPortrait) = some heights' ∧
      entriesOf (-1) heights' = read o (-1) (cache.heights isPortrait) ∧ keeps heights') :
    ∃ cache', cache.enumerateAllOrientationsUsingBlock block = some cache' ∧
      Follows o cache cache' ∧ ∀ isPortrait, keeps (cache'.heightsBySection isPortrait) := by
  obtain ⟨portrait, hp, edited_p, kept_p⟩ := performs true
  obtain ⟨landscape, hl, edited_l, kept_l⟩ := performs false
  have block_p : block cache.heightsBySectionForPortrait = some portrait := hp
  have block_l : block cache.heightsBySectionForLandscape = some landscape := hl
  refine ⟨⟨cache.automaticallyInvalidateEnabled, portrait, landscape⟩, ?_, ⟨rfl, ?_⟩, ?_⟩
  · simp [enumerateAllOrientationsUsingBlock, block_p, block_l]
  · intro isPortrait
    cases isPortrait with
    | true => exact edited_p
    | false => exact edited_l
  · intro isPortrait
    cases isPortrait with
    | true => exact kept_p
    | false => exact kept_l

/-- A loop whose every pass edits the heights, as long as `ready` holds of what is left of it. -/
theorem foldlM_follows {κ : Type} {pass : FDIndexPathHeightCache → κ → Option FDIndexPathHeightCache}
    {one : κ → Origin NSIndexPath} (ready : List κ → FDIndexPathHeightCache → Prop)
    (performs : ∀ k rest cache, ready (k :: rest) cache →
      ∃ cache', pass cache k = some cache' ∧ Follows (one k) cache cache' ∧ ready rest cache')
    {l : List κ} {cache : FDIndexPathHeightCache} (start : ready l cache) :
    ∃ cache', l.foldlM pass cache = some cache' ∧ Follows (inTurn one l) cache cache' := by
  induction l generalizing cache with
  | nil => exact ⟨cache, rfl, rfl, fun _ => rfl⟩
  | cons k l ih =>
    obtain ⟨next, passed, follows, still⟩ := performs k l cache start
    obtain ⟨last, done, rest⟩ := ih still
    refine ⟨last, ?_, ?_⟩
    · rw [List.foldlM_cons, passed]
      exact done
    · rw [inTurn_cons]
      exact follows.trans rest

theorem follows_build {cache : FDIndexPathHeightCache} {targetSection : ℕ} :
    Follows some cache (cache.buildSectionsIfNeeded targetSection) := by
  refine ⟨rfl, ?_⟩
  intro isPortrait
  funext indexPath
  unfold heights buildSectionsIfNeeded
  rw [heightsBySection_enumerate]
  exact heightAt_buildSections

theorem lt_length_buildSections (cache : FDIndexPathHeightCache) (targetSection : ℕ)
    (isPortrait : Bool) :
    targetSection < ((cache.buildSectionsIfNeeded targetSection).heightsBySection isPortrait).length := by
  unfold buildSectionsIfNeeded
  rw [heightsBySection_enumerate]
  exact lt_length_buildIfNeeded

theorem length_le_buildIfNeeded {α : Type} {filler : α} {count : ℕ} {entries : List α} :
    entries.length ≤ (buildIfNeeded filler count entries).length := by
  rw [buildIfNeeded_eq, List.length_append]
  omega

theorem length_le_buildSections (cache : FDIndexPathHeightCache) (targetSection : ℕ)
    (isPortrait : Bool) :
    (cache.heightsBySection isPortrait).length ≤
      ((cache.buildSectionsIfNeeded targetSection).heightsBySection isPortrait).length := by
  unfold buildSectionsIfNeeded
  rw [heightsBySection_enumerate]
  exact length_le_buildIfNeeded

theorem room_build {cache : FDIndexPathHeightCache} {isPortrait : Bool} {target q : NSIndexPath} :
    (q = target ∨ Room (cache.heightsBySection isPortrait) q) →
      Room ((cache.buildCachesAtIndexPathIfNeeded target.1 target.2).heightsBySection isPortrait) q := by
  intro known
  have here : target.1 < (SwiftApp.buildSectionsIfNeeded target.1
      (cache.heightsBySection isPortrait)).length := lt_length_buildIfNeeded
  have same_rows (s : ℕ) : (SwiftApp.buildSectionsIfNeeded target.1
      (cache.heightsBySection isPortrait)).getD s [] =
        (cache.heightsBySection isPortrait).getD s [] := getD_buildIfNeeded
  rw [heightsBySection_build]
  unfold buildRowsIfNeeded Room
  rw [List.getD_eq_getElem?_getD, List.getElem?_modify]
  by_cases same : target.1 = q.1
  · have reached : q.1 < (SwiftApp.buildSectionsIfNeeded target.1
        (cache.heightsBySection isPortrait)).length := by
      rw [← same]
      exact here
    have found := List.getElem?_eq_getElem reached
    have rows := same_rows q.1
    rw [List.getD_eq_getElem?_getD, found, Option.getD_some] at rows
    rw [found]
    simp only [if_pos same, Option.map_eq_map, Option.map_some, Option.getD_some, rows]
    rcases known with rfl | room
    · exact lt_length_buildIfNeeded
    · exact Nat.lt_of_lt_of_le room length_le_buildIfNeeded
  · have room : Room (cache.heightsBySection isPortrait) q := by
      rcases known with rfl | room
      · exact absurd rfl same
      · exact room
    simp only [same, if_false, id_map', ← List.getD_eq_getElem?_getD, same_rows]
    exact room

theorem build_paths (indexPaths : List NSIndexPath) (cache : FDIndexPathHeightCache) :
    Follows some cache (cache.buildCachesAtIndexPathsIfNeeded indexPaths) ∧
      ∀ isPortrait q, q ∈ indexPaths ∨ Room (cache.heightsBySection isPortrait) q →
        Room ((cache.buildCachesAtIndexPathsIfNeeded indexPaths).heightsBySection isPortrait) q := by
  unfold buildCachesAtIndexPathsIfNeeded
  induction indexPaths generalizing cache with
  | nil => exact ⟨⟨rfl, fun _ => rfl⟩, fun _ _ known => known.resolve_left List.not_mem_nil⟩
  | cons target rest ih =>
    obtain ⟨follows, room⟩ := ih (cache.buildCachesAtIndexPathIfNeeded target.1 target.2)
    have first : Follows some cache
        (cache.buildCachesAtIndexPathIfNeeded target.1 target.2) := by
      refine ⟨build_enabled, ?_⟩
      intro isPortrait
      funext q
      exact height_build
    refine ⟨first.of_same follows, ?_⟩
    intro isPortrait q known
    apply room isPortrait q
    rcases known with listed | old
    · rcases List.mem_cons.mp listed with same | later
      · exact Or.inr (room_build (Or.inl same))
      · exact Or.inl later
    · exact Or.inr (room_build (Or.inr old))

/-- A loop over sections that builds each of them and then sends the block. -/
theorem foldlM_sections {one : ℕ → Origin ℕ}
    {block : ℕ → FDIndexPathHeightsBySection → Option FDIndexPathHeightsBySection}
    (performs : ∀ index heights, index < heights.length →
      ∃ heights', block index heights = some heights' ∧
        entries [] heights' = read (one index) [] (entries [] heights))
    {l : List ℕ} {cache : FDIndexPathHeightCache} :
    ∃ cache', l.foldlM (fun cache index =>
        (cache.buildSectionsIfNeeded index).enumerateAllOrientationsUsingBlock (block index)) cache =
          some cache' ∧ Follows (whole (inTurn one l)) cache cache' := by
  rw [← inTurn_whole]
  refine foldlM_follows (fun _ _ => True) ?_ trivial
  intro index _ cache _
  have sent (isPortrait : Bool) : ∃ heights',
      block index ((cache.buildSectionsIfNeeded index).heightsBySection isPortrait) = some heights' ∧
        entriesOf (-1) heights' = read (whole (one index)) (-1)
          ((cache.buildSectionsIfNeeded index).heights isPortrait) ∧ True := by
    obtain ⟨heights', done, edited⟩ :=
      performs index _ (lt_length_buildSections cache index isPortrait)
    exact ⟨heights', done, entriesOf_whole edited, trivial⟩
  obtain ⟨cache', passed, follows, -⟩ := enumerate_follows (fun _ => True) sent
  exact ⟨cache', passed, follows_build.of_same follows, trivial⟩

/-- A loop over index paths whose caches have been built. -/
theorem foldlM_paths {one : NSIndexPath → Origin NSIndexPath}
    {block : NSIndexPath → FDIndexPathHeightsBySection → Option FDIndexPathHeightsBySection}
    (performs : ∀ p heights, Room heights p → ∃ heights', block p heights = some heights' ∧
      entriesOf (-1) heights' = read (one p) (-1) (entriesOf (-1) heights) ∧
        ∀ q, Room heights q → Room heights' q)
    {indexPaths : List NSIndexPath} {cache : FDIndexPathHeightCache} :
    ∃ cache', indexPaths.foldlM (fun cache p =>
        cache.enumerateAllOrientationsUsingBlock (block p))
          (cache.buildCachesAtIndexPathsIfNeeded indexPaths) = some cache' ∧
      Follows (inTurn one indexPaths) cache cache' := by
  obtain ⟨built, room⟩ := build_paths indexPaths cache
  have pass (p : NSIndexPath) (rest : List NSIndexPath) (cache : FDIndexPathHeightCache)
      (ready : ∀ q ∈ p :: rest, ∀ isPortrait, Room (cache.heightsBySection isPortrait) q) :
      ∃ cache', cache.enumerateAllOrientationsUsingBlock (block p) = some cache' ∧
        Follows (one p) cache cache' ∧
          ∀ q ∈ rest, ∀ isPortrait, Room (cache'.heightsBySection isPortrait) q := by
    have sent (isPortrait : Bool) : ∃ heights',
        block p (cache.heightsBySection isPortrait) = some heights' ∧
          entriesOf (-1) heights' = read (one p) (-1) (cache.heights isPortrait) ∧
            ∀ q ∈ rest, Room heights' q := by
      obtain ⟨heights', done, edited, still⟩ := performs p _ (ready p List.mem_cons_self isPortrait)
      refine ⟨heights', done, edited, ?_⟩
      exact fun q hq => still q (ready q (List.mem_cons_of_mem p hq) isPortrait)
    obtain ⟨cache', passed, follows, kept⟩ := enumerate_follows (∀ q ∈ rest, Room · q) sent
    exact ⟨cache', passed, follows, fun q hq isPortrait => kept isPortrait q hq⟩
  obtain ⟨cache', done, follows⟩ := foldlM_follows
    (fun rest cache => ∀ q ∈ rest, ∀ isPortrait, Room (cache.heightsBySection isPortrait) q)
    pass (fun q hq isPortrait => room isPortrait q (Or.inl hq))
  exact ⟨cache', done, built.of_same follows⟩

theorem messageRows_setObject {heights : FDIndexPathHeightsBySection} {p : NSIndexPath} (value : ℚ)
    (room : Room heights p) :
    ∃ heights', messageRows p.1 (NSMutableArray.setObject value p.2) heights = some heights' ∧
      entriesOf (-1) heights' = Function.update (entriesOf (-1) heights) p value ∧
        ∀ q, Room heights q → Room heights' q := by
  have here := room.lt_length
  refine ⟨_, messageRows_eq here (setObject_eq room), entriesOf_set room here, ?_⟩
  intro q known
  rw [room_set here, List.length_set]
  split
  next same =>
    unfold Room at known
    rwa [same] at known
  next => exact known

theorem messageRows_insertObject {heights : FDIndexPathHeightsBySection} {p : NSIndexPath}
    (room : Room heights p) :
    ∃ heights', messageRows p.1 (NSMutableArray.insertObject (-1) p.2) heights = some heights' ∧
      entriesOf (-1) heights' = read (inside p.1 (insertAt p.2)) (-1) (entriesOf (-1) heights) ∧
        ∀ q, Room heights q → Room heights' q := by
  have here := room.lt_length
  have fits : p.2 ≤ (heights.getD p.1 []).length := Nat.le_of_lt room
  refine ⟨_, messageRows_eq here (if_pos fits), entriesOf_inside here (entries_insertIdx fits), ?_⟩
  intro q known
  rw [room_set here, List.length_insertIdx, if_pos fits]
  split
  next same =>
    unfold Room at known
    rw [same] at known
    omega
  next => exact known

theorem exchangeObject_eq {α : Type} {blank : α} {array : List α} {i j : ℕ} (hi : i < array.length)
    (hj : j < array.length) :
    NSMutableArray.exchangeObjectAtIndex i j array =
      some ((array.set i (array.getD j blank)).set j (array.getD i blank)) := by
  unfold NSMutableArray.exchangeObjectAtIndex
  simp [hi, hj]

theorem indicesIn_addIndex {inSection row s : ℕ} {sets : List (ℕ × Finset ℕ)} :
    indicesIn s (addIndex inSection row sets) =
      if s = inSection then
        match indicesIn inSection sets with
        | [] => [{row}]
        | indexSet :: more => insert row indexSet :: more
      else indicesIn s sets := by
  induction sets with
  | nil =>
    by_cases same : s = inSection
    · simp [addIndex, indicesIn, same]
    · simp [addIndex, indicesIn, same, Ne.symm same]
  | cons entry rest ih =>
    obtain ⟨key, indexSet⟩ := entry
    unfold addIndex
    by_cases found : key = inSection
    · subst found
      by_cases same : s = key
      · simp [indicesIn, same]
      · simp [indicesIn, same, Ne.symm same]
    · rw [if_neg found]
      have step : indicesIn s ((key, indexSet) :: addIndex inSection row rest) =
          (if key = s then [indexSet] else []) ++ indicesIn s (addIndex inSection row rest) := by
        by_cases here : key = s <;> simp [indicesIn, here]
      rw [step, ih]
      by_cases same : s = inSection
      · subst same
        simp [indicesIn, found]
      · by_cases here : key = s <;> simp [indicesIn, same, here]

/-- The dictionary has the index set `collected s` for each section `s` that has a row in it. -/
def Collects (collected : ℕ → Finset ℕ) (sets : List (ℕ × Finset ℕ)) : Prop :=
  ∀ s, indicesIn s sets = if collected s = ∅ then [] else [collected s]

theorem Collects.addIndex {collected : ℕ → Finset ℕ} {sets : List (ℕ × Finset ℕ)}
    {inSection row : ℕ} (collects : Collects collected sets) :
    Collects (fun s => if s = inSection then insert row (collected s) else collected s)
      (SwiftApp.addIndex inSection row sets) := by
  intro s
  rw [indicesIn_addIndex]
  by_cases same : s = inSection
  · simp only [collects inSection, same]
    by_cases fresh : collected inSection = ∅ <;> simp [fresh]
  · simp only [if_neg same]
    exact collects s

theorem collects_mutableIndexSets {indexPaths : List NSIndexPath} :
    Collects (fun s => (indicesIn s indexPaths).toFinset) (mutableIndexSetsToRemove indexPaths) := by
  have all (sets : List (ℕ × Finset ℕ)) (collected : ℕ → Finset ℕ)
      (collects : Collects collected sets) :
      Collects (fun s => collected s ∪ (indicesIn s indexPaths).toFinset)
        (indexPaths.foldl (fun sets p => SwiftApp.addIndex p.1 p.2 sets) sets) := by
    induction indexPaths generalizing sets collected with
    | nil => simpa [indicesIn] using collects
    | cons p rest ih =>
      have added : Collects (fun s => if s = p.1 then insert p.2 (collected s) else collected s)
          (SwiftApp.addIndex p.1 p.2 sets) := collects.addIndex
      have later := ih _ _ added
      intro s
      have known := later s
      have union : (if s = p.1 then insert p.2 (collected s) else collected s) ∪
          (indicesIn s rest).toFinset = collected s ∪ (indicesIn s (p :: rest)).toFinset := by
        by_cases same : s = p.1
        · simp [indicesIn, same]
        · simp [indicesIn, same, Ne.symm same]
      simp only [union] at known
      exact known
  have none_yet : Collects (fun _ => ∅) [] := fun _ => rfl
  have both := all [] _ none_yet
  simp only [Finset.empty_union] at both
  exact both

theorem Collects.perm {collected : ℕ → Finset ℕ} {sets sets' : List (ℕ × Finset ℕ)}
    (collects : Collects collected sets) (perm : sets'.Perm sets) : Collects collected sets' := by
  intro s
  have same : (indicesIn s sets').Perm (indicesIn s sets) := (perm.filter _).map _
  rw [collects s] at same
  split at same
  next empty => rw [if_pos empty, List.perm_nil.mp same]
  next filled => rw [if_neg filled, List.perm_singleton.mp same]

theorem Collects.nonempty {collected : ℕ → Finset ℕ} {sets : List (ℕ × Finset ℕ)}
    {entry : ℕ × Finset ℕ} (collects : Collects collected sets) (listed : entry ∈ sets) :
    entry.2 = collected entry.1 ∧ entry.2 ≠ ∅ := by
  have found : entry.2 ∈ indicesIn entry.1 sets := mem_indicesIn.mpr listed
  rw [collects entry.1] at found
  split at found
  next => exact absurd found List.not_mem_nil
  next filled =>
    have same := List.mem_singleton.mp found
    exact ⟨same, same ▸ filled⟩

theorem Collects.pairwise {collected : ℕ → Finset ℕ} {sets : List (ℕ × Finset ℕ)}
    (collects : Collects collected sets) : sets.Pairwise fun e e' => e.1 ≠ e'.1 := by
  refine (pairwise_indicesIn (R := fun _ _ => False)).mp ?_
  intro s
  rw [collects s]
  split <;> simp

theorem Collects.inTurn_eraseAll {collected : ℕ → Finset ℕ} {sets : List (ℕ × Finset ℕ)}
    (collects : Collects collected sets) :
    inTurn (fun e => inside e.1 (eraseAll e.2)) sets = within fun s => eraseAll (collected s) := by
  rw [inTurn_inside]
  congr 1
  funext s
  rw [collects s]
  split
  next empty =>
    rw [empty]
    funext k
    simp [inTurn, eraseAll]
  next =>
    funext k
    simp [inTurn, andThen, eraseAll]

theorem messageRows_removeObjects {heights : FDIndexPathHeightsBySection} {entry : ℕ × Finset ℕ}
    (filled : entry.2 ≠ ∅) (room : ∀ row ∈ entry.2, Room heights (entry.1, row)) :
    ∃ heights', messageRows entry.1 (NSMutableArray.removeObjectsAtIndexes entry.2) heights =
        some heights' ∧
      entriesOf (-1) heights' =
        read (inside entry.1 (eraseAll entry.2)) (-1) (entriesOf (-1) heights) ∧
      ∀ q : NSIndexPath, q.1 ≠ entry.1 → Room heights q → Room heights' q := by
  obtain ⟨row, hrow⟩ := Finset.nonempty_iff_ne_empty.mpr filled
  have here : entry.1 < heights.length := (room row hrow).lt_length
  refine ⟨_, messageRows_eq here (if_pos room), entriesOf_inside here entries_eraseIndices, ?_⟩
  intro q other known
  rw [room_set here, if_neg other]
  exact known

/-- Every index set of the dictionary has rows, all of them built, and no section comes twice. -/
structure Erasable (sets : List (ℕ × Finset ℕ)) (cache : FDIndexPathHeightCache) : Prop where
  apart : sets.Pairwise fun e e' => e.1 ≠ e'.1
  filled : ∀ e ∈ sets, e.2 ≠ ∅
  room : ∀ e ∈ sets, ∀ row ∈ e.2, ∀ isPortrait, Room (cache.heightsBySection isPortrait) (e.1, row)

theorem Erasable.erase {entry : ℕ × Finset ℕ} {rest : List (ℕ × Finset ℕ)}
    {cache : FDIndexPathHeightCache} (erasable : Erasable (entry :: rest) cache) :
    ∃ cache', cache.enumerateAllOrientationsUsingBlock
        (messageRows entry.1 (NSMutableArray.removeObjectsAtIndexes entry.2)) = some cache' ∧
      Follows (inside entry.1 (eraseAll entry.2)) cache cache' ∧ Erasable rest cache' := by
  obtain ⟨first, apart⟩ := List.pairwise_cons.mp erasable.apart
  have filled := erasable.filled entry List.mem_cons_self
  have sent (isPortrait : Bool) : ∃ heights',
      messageRows entry.1 (NSMutableArray.removeObjectsAtIndexes entry.2)
          (cache.heightsBySection isPortrait) = some heights' ∧
        entriesOf (-1) heights' =
            read (inside entry.1 (eraseAll entry.2)) (-1) (cache.heights isPortrait) ∧
          ∀ e ∈ rest, ∀ row ∈ e.2, Room heights' (e.1, row) := by
    obtain ⟨heights', done, edited, still⟩ := messageRows_removeObjects filled
      fun row hrow => erasable.room entry List.mem_cons_self row hrow isPortrait
    refine ⟨heights', done, edited, ?_⟩
    intro e he row hrow
    exact still (e.1, row) (first e he).symm
      (erasable.room e (List.mem_cons_of_mem entry he) row hrow isPortrait)
  obtain ⟨cache', passed, follows, kept⟩ :=
    enumerate_follows (fun heights' => ∀ e ∈ rest, ∀ row ∈ e.2, Room heights' (e.1, row)) sent
  refine ⟨cache', passed, follows, apart, ?_, ?_⟩
  · exact fun e he => erasable.filled e (List.mem_cons_of_mem entry he)
  · exact fun e he row hrow isPortrait => kept isPortrait e he row hrow

theorem exchangeRows_exchanges {heights : FDIndexPathHeightsBySection} {p q : NSIndexPath}
    (source : Room heights p) (destination : Room heights q) :
    ∃ heights', exchangeRows p q heights = some heights' ∧
      entriesOf (-1) heights' = read (exchange p q) (-1) (entriesOf (-1) heights) := by
  have row {r : NSIndexPath} (room : Room heights r) :
      heights[r.1]? = some (heights.getD r.1 []) ∧
        (heights.getD r.1 [])[r.2]? = some (entriesOf (-1) heights r) := by
    have inside : r.2 < (heights.getD r.1 []).length := room
    refine ⟨?_, ?_⟩
    · rw [List.getD_eq_getElem _ _ room.lt_length, List.getElem?_eq_getElem]
    · unfold entriesOf entries
      rw [List.getD_eq_getElem _ _ inside, List.getElem?_eq_getElem inside]
  obtain ⟨first, sent, edited, still⟩ :=
    messageRows_setObject (entriesOf (-1) heights q) source
  obtain ⟨last, sent', edited', -⟩ :=
    messageRows_setObject (entriesOf (-1) heights p) (still q destination)
  refine ⟨last, ?_, ?_⟩
  · simp only [exchangeRows, (row source).1, (row destination).1, Option.bind_eq_bind,
      Option.bind_some, (row source).2, (row destination).2, sent]
    exact sent'
  · rw [edited', edited, update_update_exchange]

section Updates

variable {cache : FDIndexPathHeightCache}

theorem fd_insertSections_follows {sections : Finset ℕ}
    (enabled : cache.automaticallyInvalidateEnabled = true) :
    ∃ cache', cache.fd_insertSections sections = some cache' ∧
      Follows (whole (inTurn insertAt (sections.sort (· ≤ ·)))) cache cache' := by
  unfold fd_insertSections
  rw [if_pos enabled]
  apply foldlM_sections
  intro index heights here
  have fits : index ≤ heights.length := Nat.le_of_lt here
  exact ⟨_, if_pos fits, entries_insertIdx fits⟩

theorem fd_deleteSections_follows {sections : Finset ℕ}
    (enabled : cache.automaticallyInvalidateEnabled = true) :
    ∃ cache', cache.fd_deleteSections sections = some cache' ∧
      Follows (whole (inTurn eraseAt (sections.sort (· ≤ ·)))) cache cache' := by
  unfold fd_deleteSections
  rw [if_pos enabled]
  apply foldlM_sections
  intro index heights here
  exact ⟨_, if_pos here, entries_eraseIdx⟩

theorem fd_reloadSections_follows {sections : Finset ℕ}
    (enabled : cache.automaticallyInvalidateEnabled = true) :
    ∃ cache', cache.fd_reloadSections sections = some cache' ∧
      Follows (whole (inTurn clearAt (sections.sort (· ≤ ·)))) cache cache' := by
  unfold fd_reloadSections
  rw [if_pos enabled]
  apply foldlM_sections
  intro index heights here
  exact ⟨_, messageRows_eq here rfl, entries_set_blank⟩

theorem fd_moveSection_follows {fromSection newSection : ℕ}
    (enabled : cache.automaticallyInvalidateEnabled = true) :
    ∃ cache', cache.fd_moveSection fromSection newSection = some cache' ∧
      Follows (whole (exchange fromSection newSection)) cache cache' := by
  unfold fd_moveSection
  rw [if_pos enabled]
  have built : Follows some cache
      ((cache.buildSectionsIfNeeded fromSection).buildSectionsIfNeeded newSection) :=
    follows_build.of_same follows_build
  have sent (isPortrait : Bool) : ∃ heights',
      NSMutableArray.exchangeObjectAtIndex fromSection newSection (((cache.buildSectionsIfNeeded
        fromSection).buildSectionsIfNeeded newSection).heightsBySection isPortrait) = some heights' ∧
          entriesOf (-1) heights' = read (whole (exchange fromSection newSection)) (-1)
            (((cache.buildSectionsIfNeeded fromSection).buildSectionsIfNeeded newSection).heights
              isPortrait) ∧ True := by
    have first := Nat.lt_of_lt_of_le (lt_length_buildSections cache fromSection isPortrait)
      (length_le_buildSections (cache.buildSectionsIfNeeded fromSection) newSection isPortrait)
    have second :=
      lt_length_buildSections (cache.buildSectionsIfNeeded fromSection) newSection isPortrait
    exact ⟨_, exchangeObject_eq first second, entriesOf_whole (entries_exchange first second),
      trivial⟩
  obtain ⟨cache', done, follows, -⟩ := enumerate_follows (fun _ => True) sent
  exact ⟨cache', done, built.of_same follows⟩

theorem fd_insertRows_follows {indexPaths : List NSIndexPath}
    (enabled : cache.automaticallyInvalidateEnabled = true) :
    ∃ cache', cache.fd_insertRowsAtIndexPaths indexPaths = some cache' ∧
      Follows (inTurn (fun p => inside p.1 (insertAt p.2)) indexPaths) cache cache' := by
  unfold fd_insertRowsAtIndexPaths
  rw [if_pos enabled]
  have sent (p : NSIndexPath) (heights : FDIndexPathHeightsBySection) (room : Room heights p) :=
    messageRows_insertObject room
  exact foldlM_paths sent

theorem fd_reloadRows_follows {indexPaths : List NSIndexPath}
    (enabled : cache.automaticallyInvalidateEnabled = true) :
    ∃ cache', cache.fd_reloadRowsAtIndexPaths indexPaths = some cache' ∧
      Follows (inTurn clearAt indexPaths) cache cache' := by
  unfold fd_reloadRowsAtIndexPaths
  rw [if_pos enabled]
  apply foldlM_paths
  intro p heights room
  rw [← update_clearAt]
  exact messageRows_setObject (-1) room

theorem fd_deleteRows_follows {order : NSDictionaryOrder} {indexPaths : List NSIndexPath}
    (enabled : cache.automaticallyInvalidateEnabled = true) :
    ∃ cache', cache.fd_deleteRowsAtIndexPaths order indexPaths = some cache' ∧
      Follows (within fun s => eraseAll (indicesIn s indexPaths).toFinset) cache cache' := by
  unfold fd_deleteRowsAtIndexPaths
  rw [if_pos enabled]
  obtain ⟨built, room⟩ := build_paths indexPaths cache
  have collects := collects_mutableIndexSets.perm
    (order.perm (mutableIndexSetsToRemove indexPaths))
  have start : Erasable (order.enumerate (mutableIndexSetsToRemove indexPaths))
      (cache.buildCachesAtIndexPathsIfNeeded indexPaths) := by
    refine ⟨collects.pairwise, fun e he => (collects.nonempty he).2, ?_⟩
    intro e he row hrow isPortrait
    rw [(collects.nonempty he).1, List.mem_toFinset, mem_indicesIn] at hrow
    exact room isPortrait _ (Or.inl hrow)
  obtain ⟨cache', done, follows⟩ := foldlM_follows Erasable (fun _ _ _ => Erasable.erase) start
  rw [collects.inTurn_eraseAll] at follows
  exact ⟨cache', done, built.of_same follows⟩

theorem fd_moveRow_follows {sourceIndexPath destinationIndexPath : NSIndexPath}
    (enabled : cache.automaticallyInvalidateEnabled = true) :
    ∃ cache', cache.fd_moveRowAtIndexPath sourceIndexPath destinationIndexPath = some cache' ∧
      Follows (exchange sourceIndexPath destinationIndexPath) cache cache' := by
  unfold fd_moveRowAtIndexPath
  rw [if_pos enabled]
  obtain ⟨built, room⟩ := build_paths [sourceIndexPath, destinationIndexPath] cache
  have sent (isPortrait : Bool) : ∃ heights',
      exchangeRows sourceIndexPath destinationIndexPath ((cache.buildCachesAtIndexPathsIfNeeded
        [sourceIndexPath, destinationIndexPath]).heightsBySection isPortrait) = some heights' ∧
          entriesOf (-1) heights' = read (exchange sourceIndexPath destinationIndexPath) (-1)
            ((cache.buildCachesAtIndexPathsIfNeeded
              [sourceIndexPath, destinationIndexPath]).heights isPortrait) ∧ True := by
    have source := room isPortrait sourceIndexPath (Or.inl (by simp))
    have destination := room isPortrait destinationIndexPath (Or.inl (by simp))
    obtain ⟨heights', done, edited⟩ := exchangeRows_exchanges source destination
    exact ⟨heights', done, edited, trivial⟩
  obtain ⟨cache', done, follows, -⟩ := enumerate_follows (fun _ => True) sent
  exact ⟨cache', done, built.of_same follows⟩

theorem invalidateHeight_follows (cache : FDIndexPathHeightCache) (indexPath : NSIndexPath) :
    ∃ cache', cache.invalidateHeightAtIndexPath indexPath = some cache' ∧
      Follows (clearAt indexPath) cache cache' := by
  unfold invalidateHeightAtIndexPath
  obtain ⟨built, room⟩ := build_paths [indexPath] cache
  have sent (isPortrait : Bool) : ∃ heights',
      messageRows indexPath.1 (NSMutableArray.setObject (-1) indexPath.2)
          ((cache.buildCachesAtIndexPathsIfNeeded [indexPath]).heightsBySection isPortrait) =
        some heights' ∧
      entriesOf (-1) heights' = read (clearAt indexPath) (-1)
        ((cache.buildCachesAtIndexPathsIfNeeded [indexPath]).heights isPortrait) ∧ True := by
    have here := room isPortrait indexPath (Or.inl (by simp))
    obtain ⟨heights', done, edited, -⟩ := messageRows_setObject (-1) here
    exact ⟨heights', done, edited.trans update_clearAt, trivial⟩
  obtain ⟨cache', done, follows, -⟩ := enumerate_follows (fun _ => True) sent
  exact ⟨cache', done, built.of_same follows⟩

end Updates

end FDIndexPathHeightCache

end SwiftApp
