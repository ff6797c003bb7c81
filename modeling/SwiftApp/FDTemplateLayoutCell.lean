import Mathlib.Data.List.Basic
import Mathlib.Data.Rat.Defs

namespace SwiftApp

inductive UIDeviceOrientation
  | unknown | portrait | portraitUpsideDown | landscapeLeft | landscapeRight | faceUp | faceDown
deriving DecidableEq

def UIDeviceOrientation.isPortrait : UIDeviceOrientation → Bool
  | .portrait | .portraitUpsideDown => true
  | _ => false

/-- The loop that appends `filler` at every index below `count` that is past the end. -/
def buildIfNeeded {α : Type} (filler : α) (count : Nat) (entries : List α) : List α :=
  (List.range count).foldl
    (fun entries index => if entries.length ≤ index then entries ++ [filler] else entries) entries

theorem buildIfNeeded_eq {α : Type} {filler : α} {count : Nat} {entries : List α} :
    buildIfNeeded filler count entries =
      entries ++ List.replicate (count - entries.length) filler := by
  unfold buildIfNeeded
  induction count with
  | zero => simp
  | succ count ih =>
    rw [List.range_succ, List.foldl_append, ih]
    by_cases short : entries.length ≤ count
    · have more : count + 1 - entries.length = count - entries.length + 1 := by omega
      have full : entries.length + (count - entries.length) = count := by omega
      simp [more, full, List.replicate_succ']
    · have none_left : count - entries.length = 0 := by omega
      have none_more : count + 1 - entries.length = 0 := by omega
      simp only [none_left, none_more, List.replicate_zero, List.append_nil, List.foldl_cons,
        List.foldl_nil, if_neg short]

theorem lt_length_buildIfNeeded {α : Type} {filler : α} {target : Nat} {entries : List α} :
    target < (buildIfNeeded filler (target + 1) entries).length := by
  rw [buildIfNeeded_eq, List.length_append, List.length_replicate]
  omega

theorem getD_buildIfNeeded {α : Type} {filler : α} {count index : Nat} {entries : List α} :
    (buildIfNeeded filler count entries).getD index filler = entries.getD index filler := by
  rw [buildIfNeeded_eq]
  by_cases old : index < entries.length
  · simp [List.getElem?_append_left old]
  · have past : entries.length ≤ index := by omega
    simp only [List.getD_eq_getElem?_getD, List.getElem?_append_right past,
      List.getElem?_eq_none past, Option.getD_none]
    cases h : (List.replicate (count - entries.length) filler)[index - entries.length]? with
    | none => rfl
    | some value => exact (List.mem_replicate.mp (List.mem_of_getElem? h)).2

abbrev FDIndexPathHeightsBySection := List (List ℚ)

/-- The number at an index path; `-1` stands for a height that is not cached. -/
def heightAt (heightsBySection : FDIndexPathHeightsBySection) (inSection row : Nat) : ℚ :=
  (heightsBySection.getD inSection []).getD row (-1)

def buildSectionsIfNeeded (targetSection : Nat) (heightsBySection : FDIndexPathHeightsBySection) :
    FDIndexPathHeightsBySection :=
  buildIfNeeded [] (targetSection + 1) heightsBySection

def buildRowsIfNeeded (targetRow inExistSection : Nat)
    (heightsBySection : FDIndexPathHeightsBySection) : FDIndexPathHeightsBySection :=
  heightsBySection.modify inExistSection (buildIfNeeded (-1) (targetRow + 1))

theorem heightAt_nil {inSection row : Nat} : heightAt [] inSection row = -1 := rfl

theorem heightAt_buildSections {target inSection row : Nat} {heights : FDIndexPathHeightsBySection} :
    heightAt (buildSectionsIfNeeded target heights) inSection row = heightAt heights inSection row := by
  unfold heightAt buildSectionsIfNeeded
  rw [getD_buildIfNeeded]

theorem heightAt_modify {target inSection row : Nat} {heights : FDIndexPathHeightsBySection}
    {change : List ℚ → List ℚ} (inside : target < heights.length) :
    heightAt (heights.modify target change) inSection row =
      if inSection = target then (change (heights.getD target [])).getD row (-1)
      else heightAt heights inSection row := by
  unfold heightAt
  by_cases same : inSection = target
  · subst same
    simp [List.getElem?_modify_eq, List.getElem?_eq_getElem inside]
  · simp [Ne.symm same, same]

structure FDIndexPathHeightCache where
  automaticallyInvalidateEnabled : Bool
  heightsBySectionForPortrait : FDIndexPathHeightsBySection
  heightsBySectionForLandscape : FDIndexPathHeightsBySection

namespace FDIndexPathHeightCache

def new : FDIndexPathHeightCache := ⟨false, [], []⟩

def heightsBySection (cache : FDIndexPathHeightCache) (isPortrait : Bool) :
    FDIndexPathHeightsBySection :=
  if isPortrait then cache.heightsBySectionForPortrait else cache.heightsBySectionForLandscape

def heightsBySectionForCurrentOrientation (cache : FDIndexPathHeightCache)
    (orientation : UIDeviceOrientation) : FDIndexPathHeightsBySection :=
  cache.heightsBySection orientation.isPortrait

/-- A store into the mutable array that `heightsBySectionForCurrentOrientation` returns. -/
def setHeightsBySectionForCurrentOrientation (cache : FDIndexPathHeightCache)
    (orientation : UIDeviceOrientation) (heights : FDIndexPathHeightsBySection) :
    FDIndexPathHeightCache :=
  if orientation.isPortrait then { cache with heightsBySectionForPortrait := heights }
  else { cache with heightsBySectionForLandscape := heights }

def enumerateAllOrientations (cache : FDIndexPathHeightCache)
    (block : FDIndexPathHeightsBySection → FDIndexPathHeightsBySection) : FDIndexPathHeightCache :=
  { cache with
    heightsBySectionForPortrait := block cache.heightsBySectionForPortrait
    heightsBySectionForLandscape := block cache.heightsBySectionForLandscape }

def buildCachesAtIndexPathIfNeeded (cache : FDIndexPathHeightCache) (inSection row : Nat) :
    FDIndexPathHeightCache :=
  (cache.enumerateAllOrientations (buildSectionsIfNeeded inSection)).enumerateAllOrientations
    (buildRowsIfNeeded row inSection)

def existsHeightAtIndexPath (cache : FDIndexPathHeightCache) (orientation : UIDeviceOrientation)
    (inSection row : Nat) : Bool × FDIndexPathHeightCache :=
  let cache := cache.buildCachesAtIndexPathIfNeeded inSection row
  (heightAt (cache.heightsBySectionForCurrentOrientation orientation) inSection row != -1, cache)

def cacheHeight (cache : FDIndexPathHeightCache) (orientation : UIDeviceOrientation) (height : ℚ)
    (inSection row : Nat) : FDIndexPathHeightCache :=
  let cache := { cache with automaticallyInvalidateEnabled := true }
  let cache := cache.buildCachesAtIndexPathIfNeeded inSection row
  cache.setHeightsBySectionForCurrentOrientation orientation
    ((cache.heightsBySectionForCurrentOrientation orientation).modify inSection
      fun rows => rows.set row height)

def heightForIndexPath (cache : FDIndexPathHeightCache) (orientation : UIDeviceOrientation)
    (inSection row : Nat) : ℚ × FDIndexPathHeightCache :=
  let cache := cache.buildCachesAtIndexPathIfNeeded inSection row
  (heightAt (cache.heightsBySectionForCurrentOrientation orientation) inSection row, cache)

/-- The swizzled `reloadData` before it forwards the call. -/
def fd_reloadData (cache : FDIndexPathHeightCache) : FDIndexPathHeightCache :=
  if cache.automaticallyInvalidateEnabled then cache.enumerateAllOrientations fun _ => [] else cache

/-- What the cache holds for an index path in an orientation. -/
def height (cache : FDIndexPathHeightCache) (isPortrait : Bool) (inSection row : Nat) : ℚ :=
  heightAt (cache.heightsBySection isPortrait) inSection row

/-- No height is cached before automatic invalidation is on. -/
def Guarded (cache : FDIndexPathHeightCache) : Prop :=
  cache.automaticallyInvalidateEnabled = false →
    ∀ isPortrait inSection row, cache.height isPortrait inSection row = -1

theorem heightsBySection_enumerate {cache : FDIndexPathHeightCache} {isPortrait : Bool}
    {block : FDIndexPathHeightsBySection → FDIndexPathHeightsBySection} :
    (cache.enumerateAllOrientations block).heightsBySection isPortrait =
      block (cache.heightsBySection isPortrait) := by
  cases isPortrait <;> rfl

theorem heightsBySection_build {cache : FDIndexPathHeightCache} {isPortrait : Bool}
    {inSection row : Nat} :
    (cache.buildCachesAtIndexPathIfNeeded inSection row).heightsBySection isPortrait =
      buildRowsIfNeeded row inSection
        (buildSectionsIfNeeded inSection (cache.heightsBySection isPortrait)) := by
  unfold buildCachesAtIndexPathIfNeeded
  rw [heightsBySection_enumerate, heightsBySection_enumerate]

theorem build_enabled {cache : FDIndexPathHeightCache} {inSection row : Nat} :
    (cache.buildCachesAtIndexPathIfNeeded inSection row).automaticallyInvalidateEnabled =
      cache.automaticallyInvalidateEnabled := rfl

theorem height_build {cache : FDIndexPathHeightCache} {isPortrait : Bool}
    {targetSection targetRow inSection row : Nat} :
    (cache.buildCachesAtIndexPathIfNeeded targetSection targetRow).height isPortrait inSection row =
      cache.height isPortrait inSection row := by
  unfold height
  have inside : targetSection < (buildSectionsIfNeeded targetSection
      (cache.heightsBySection isPortrait)).length := lt_length_buildIfNeeded
  rw [heightsBySection_build]
  unfold buildRowsIfNeeded
  rw [heightAt_modify inside, getD_buildIfNeeded, heightAt_buildSections]
  by_cases same : inSection = targetSection
  · rw [if_pos same, same]
    unfold buildSectionsIfNeeded heightAt
    rw [getD_buildIfNeeded]
  · rw [if_neg same]

theorem height_set {heights : FDIndexPathHeightsBySection} {height : ℚ}
    {targetSection targetRow inSection row : Nat} :
    heightAt ((buildRowsIfNeeded targetRow targetSection
      (buildSectionsIfNeeded targetSection heights)).modify targetSection
        fun rows => rows.set targetRow height) inSection row =
      if inSection = targetSection ∧ row = targetRow then height
      else heightAt heights inSection row := by
  have inside : targetSection < (buildSectionsIfNeeded targetSection heights).length :=
    lt_length_buildIfNeeded
  have inside' : targetSection < (buildRowsIfNeeded targetRow targetSection
      (buildSectionsIfNeeded targetSection heights)).length := by
    unfold buildRowsIfNeeded
    rw [List.length_modify]
    exact inside
  rw [heightAt_modify inside']
  unfold buildRowsIfNeeded
  by_cases same : inSection = targetSection
  · subst same
    have room : targetRow < (buildIfNeeded (-1 : ℚ) (targetRow + 1)
        ((buildSectionsIfNeeded inSection heights).getD inSection [])).length :=
      lt_length_buildIfNeeded
    have rows : ((buildSectionsIfNeeded inSection heights).modify inSection
        (buildIfNeeded (-1) (targetRow + 1))).getD inSection [] =
          buildIfNeeded (-1) (targetRow + 1)
            ((buildSectionsIfNeeded inSection heights).getD inSection []) := by
      simp [List.getElem?_modify_eq, List.getElem?_eq_getElem inside]
    rw [if_pos rfl, rows]
    by_cases here : row = targetRow
    · subst here
      rw [List.getD_eq_getElem?_getD, List.getElem?_set_self room, if_pos ⟨rfl, rfl⟩]
      rfl
    · rw [if_neg fun h => here h.2, List.getD_eq_getElem?_getD,
        List.getElem?_set_ne (Ne.symm here), ← List.getD_eq_getElem?_getD, getD_buildIfNeeded]
      exact heightAt_buildSections
  · rw [if_neg same, if_neg fun h => same h.1, heightAt_modify inside, if_neg same,
      heightAt_buildSections]

theorem set_enabled {cache : FDIndexPathHeightCache} {orientation : UIDeviceOrientation}
    {heights : FDIndexPathHeightsBySection} :
    (cache.setHeightsBySectionForCurrentOrientation orientation heights).automaticallyInvalidateEnabled =
      cache.automaticallyInvalidateEnabled := by
  unfold setHeightsBySectionForCurrentOrientation
  split <;> rfl

theorem heightsBySection_set {cache : FDIndexPathHeightCache} {orientation : UIDeviceOrientation}
    {heights : FDIndexPathHeightsBySection} {isPortrait : Bool} :
    (cache.setHeightsBySectionForCurrentOrientation orientation heights).heightsBySection isPortrait =
      if isPortrait = orientation.isPortrait then heights else cache.heightsBySection isPortrait := by
  unfold setHeightsBySectionForCurrentOrientation heightsBySection
  cases isPortrait <;> cases orientation.isPortrait <;> rfl

theorem cacheHeight_enabled {cache : FDIndexPathHeightCache} {orientation : UIDeviceOrientation}
    {height : ℚ} {inSection row : Nat} :
    (cache.cacheHeight orientation height inSection row).automaticallyInvalidateEnabled = true := by
  unfold cacheHeight
  rw [set_enabled, build_enabled]

/-- Storing a height changes one index path in the current orientation. -/
theorem height_cacheHeight {cache : FDIndexPathHeightCache} {orientation : UIDeviceOrientation}
    {height : ℚ} {isPortrait : Bool} {targetSection targetRow inSection row : Nat} :
    (cache.cacheHeight orientation height targetSection targetRow).height isPortrait inSection row =
      if isPortrait = orientation.isPortrait ∧ inSection = targetSection ∧ row = targetRow
      then height else cache.height isPortrait inSection row := by
  have enabling : ({ cache with automaticallyInvalidateEnabled := true } :
      FDIndexPathHeightCache).height isPortrait inSection row =
        cache.height isPortrait inSection row := rfl
  unfold cacheHeight
  by_cases facing : isPortrait = orientation.isPortrait
  · subst facing
    unfold FDIndexPathHeightCache.height
    rw [heightsBySection_set, if_pos rfl]
    unfold heightsBySectionForCurrentOrientation
    rw [heightsBySection_build, height_set]
    simp only [true_and]
    rfl
  · have built : FDIndexPathHeightCache.height
        (({ cache with automaticallyInvalidateEnabled := true } :
          FDIndexPathHeightCache).buildCachesAtIndexPathIfNeeded targetSection targetRow)
        isPortrait inSection row = cache.height isPortrait inSection row :=
      height_build.trans enabling
    rw [if_neg fun h => facing h.1, ← built]
    unfold FDIndexPathHeightCache.height
    rw [heightsBySection_set, if_neg facing]

theorem height_heightForIndexPath {cache : FDIndexPathHeightCache}
    {orientation : UIDeviceOrientation} {inSection row : Nat} :
    (cache.heightForIndexPath orientation inSection row).1 =
      cache.height orientation.isPortrait inSection row :=
  height_build

theorem existsHeightAtIndexPath_iff {cache : FDIndexPathHeightCache}
    {orientation : UIDeviceOrientation} {inSection row : Nat} :
    (cache.existsHeightAtIndexPath orientation inSection row).1 = true ↔
      cache.height orientation.isPortrait inSection row ≠ -1 := by
  rw [← height_heightForIndexPath]
  unfold existsHeightAtIndexPath heightForIndexPath
  simp

/-- After a reload of a guarded cache nothing is cached for any orientation. -/
theorem height_fd_reloadData {cache : FDIndexPathHeightCache} (guarded : cache.Guarded)
    {isPortrait : Bool} {inSection row : Nat} :
    cache.fd_reloadData.height isPortrait inSection row = -1 := by
  unfold fd_reloadData
  cases enabled : cache.automaticallyInvalidateEnabled with
  | false => simpa using guarded enabled isPortrait inSection row
  | true =>
    unfold height
    simp [heightsBySection_enumerate, heightAt_nil]

theorem Guarded.fd_reloadData {cache : FDIndexPathHeightCache} (guarded : cache.Guarded) :
    cache.fd_reloadData.Guarded :=
  fun _ _ _ _ => height_fd_reloadData guarded

theorem height_existsHeight {cache : FDIndexPathHeightCache} {orientation : UIDeviceOrientation}
    {isPortrait : Bool} {targetSection targetRow inSection row : Nat} :
    (cache.existsHeightAtIndexPath orientation targetSection targetRow).2.height isPortrait
      inSection row = cache.height isPortrait inSection row :=
  height_build

theorem height_lookup {cache : FDIndexPathHeightCache} {orientation : UIDeviceOrientation}
    {isPortrait : Bool} {targetSection targetRow inSection row : Nat} :
    (cache.heightForIndexPath orientation targetSection targetRow).2.height isPortrait
      inSection row = cache.height isPortrait inSection row :=
  height_build

end FDIndexPathHeightCache

/-- A table view with the data the template layout category attaches to it. -/
structure UITableView (Cell : Type) where
  numberOfRows : Nat
  fd_indexPathHeightCache : FDIndexPathHeightCache
  templateCellsByIdentifiers : List (String × Cell)

namespace UITableView

variable {Cell : Type}

def new : UITableView Cell := ⟨0, .new, []⟩

/-- The exchanged `reloadData`: the cache is emptied, then the row count is asked for again. -/
def reloadData (table : UITableView Cell) (numberOfRows : Nat) : UITableView Cell :=
  { table with
    numberOfRows
    fd_indexPathHeightCache := table.fd_indexPathHeightCache.fd_reloadData }

/-- `dequeued` is the cell the reuse pool hands out if there is no template cell yet. -/
def fd_templateCell (table : UITableView Cell) (identifier : String) (dequeued : Cell) : Cell :=
  (table.templateCellsByIdentifiers.lookup identifier).getD dequeued

variable (prepareForReuse : Cell → Cell) (fd_systemFittingHeight : Cell → ℚ)

/-- `none` is a trap in the configuration block. -/
def fd_heightForCell (table : UITableView Cell) (identifier : String) (dequeued : Cell)
    (configuration : Cell → Option Cell) : Option (ℚ × UITableView Cell) :=
  let templateLayoutCell := prepareForReuse (table.fd_templateCell identifier dequeued)
  (configuration templateLayoutCell).map fun cell => (fd_systemFittingHeight cell,
    { table with
      templateCellsByIdentifiers := (identifier, cell) :: table.templateCellsByIdentifiers })

def fd_heightForCellCacheBy (table : UITableView Cell) (orientation : UIDeviceOrientation)
    (identifier : String) (inSection row : Nat) (dequeued : Cell)
    (configuration : Cell → Option Cell) : Option (ℚ × UITableView Cell) :=
  let (hit, cache) := table.fd_indexPathHeightCache.existsHeightAtIndexPath orientation inSection row
  let table := { table with fd_indexPathHeightCache := cache }
  if hit then
    let (height, cache) := cache.heightForIndexPath orientation inSection row
    some (height, { table with fd_indexPathHeightCache := cache })
  else
    (table.fd_heightForCell prepareForReuse fd_systemFittingHeight identifier dequeued
      configuration).map fun answer => (answer.1,
        { answer.2 with fd_indexPathHeightCache :=
            answer.2.fd_indexPathHeightCache.cacheHeight orientation answer.1 inSection row })

/-- What answering a height query leaves in the table: the cache is the old one, or it
has the answer stored at the queried index path with invalidation switched on. -/
structure HeightAnswered (table : UITableView Cell) (orientation : UIDeviceOrientation)
    (inSection row : Nat) (height : ℚ) (table' : UITableView Cell) : Prop where
  rows : table'.numberOfRows = table.numberOfRows
  guarded : table.fd_indexPathHeightCache.Guarded → table'.fd_indexPathHeightCache.Guarded
  cached : ∀ isPortrait inSection' row',
    table'.fd_indexPathHeightCache.height isPortrait inSection' row' =
        table.fd_indexPathHeightCache.height isPortrait inSection' row' ∨
      inSection' = inSection ∧ row' = row ∧
        table'.fd_indexPathHeightCache.height isPortrait inSection' row' = height

theorem fd_heightForCellCacheBy_hit {table : UITableView Cell} {orientation : UIDeviceOrientation}
    {inSection row : Nat} {height : ℚ} (identifier : String) (dequeued : Cell)
    (configuration : Cell → Option Cell)
    (cached : table.fd_indexPathHeightCache.height orientation.isPortrait inSection row = height)
    (real : height ≠ -1) :
    ∃ table', table.fd_heightForCellCacheBy prepareForReuse fd_systemFittingHeight orientation
        identifier inSection row dequeued configuration = some (height, table') ∧
      table.HeightAnswered orientation inSection row height table' := by
  have hit := FDIndexPathHeightCache.existsHeightAtIndexPath_iff.mpr (cached ▸ real)
  have answer : ((table.fd_indexPathHeightCache.existsHeightAtIndexPath orientation inSection
      row).2.heightForIndexPath orientation inSection row).1 = height := by
    rw [FDIndexPathHeightCache.height_heightForIndexPath,
      FDIndexPathHeightCache.height_existsHeight, cached]
  unfold fd_heightForCellCacheBy
  simp only [hit, if_true, answer]
  refine ⟨_, rfl, rfl, ?_, ?_⟩
  · intro guarded off isPortrait inSection' row'
    rw [FDIndexPathHeightCache.height_lookup, FDIndexPathHeightCache.height_existsHeight]
    exact guarded off isPortrait inSection' row'
  · intro isPortrait inSection' row'
    apply Or.inl
    rw [FDIndexPathHeightCache.height_lookup, FDIndexPathHeightCache.height_existsHeight]

theorem fd_heightForCellCacheBy_miss {table : UITableView Cell} {orientation : UIDeviceOrientation}
    {identifier : String} {inSection row : Nat} {dequeued cell : Cell}
    (configuration : Cell → Option Cell)
    (missing : table.fd_indexPathHeightCache.height orientation.isPortrait inSection row = -1)
    (configured : configuration (prepareForReuse (table.fd_templateCell identifier dequeued)) =
      some cell) :
    ∃ table', table.fd_heightForCellCacheBy prepareForReuse fd_systemFittingHeight orientation
        identifier inSection row dequeued configuration =
          some (fd_systemFittingHeight cell, table') ∧
      table.HeightAnswered orientation inSection row (fd_systemFittingHeight cell) table' := by
  have no_hit : (table.fd_indexPathHeightCache.existsHeightAtIndexPath orientation inSection
      row).1 = false := by
    rw [← Bool.not_eq_true, FDIndexPathHeightCache.existsHeightAtIndexPath_iff]
    exact not_not.mpr missing
  unfold fd_templateCell at configured
  unfold fd_heightForCellCacheBy fd_heightForCell fd_templateCell
  simp only [no_hit, Bool.false_eq_true, if_false, configured, Option.map_some]
  refine ⟨_, rfl, rfl, ?_, ?_⟩
  · intro _ off
    rw [FDIndexPathHeightCache.cacheHeight_enabled] at off
    exact absurd off (by simp)
  · intro isPortrait inSection' row'
    rw [FDIndexPathHeightCache.height_cacheHeight, FDIndexPathHeightCache.height_existsHeight]
    split
    next here => exact Or.inr ⟨here.2.1, here.2.2, rfl⟩
    next => exact Or.inl rfl

end UITableView

end SwiftApp
