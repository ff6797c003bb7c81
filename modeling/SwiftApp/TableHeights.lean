import SwiftApp.StepRun
import SwiftApp.TableViewUpdates

namespace SwiftApp

open StepRun

/-- Template cells of an app: a configured cell is as high as its row asks for in the given
width, whatever was in the template before. -/
structure CellLayout (Row Cell : Type) where
  prepareForReuse : Cell → Cell
  configuration : Row → Cell → Cell
  fd_systemFittingHeight : ℚ → Cell → ℚ
  rowHeight : ℚ → Row → ℚ
  fits : ∀ width row cell, fd_systemFittingHeight width (configuration row cell) = rowHeight width row

/-- A table view with the rows its data source has and the answers its delegate gave. -/
structure TableHeights (Row Cell : Type) where
  rows : NSIndexPath → Option Row
  orientation : UIDeviceOrientation
  width : ℚ
  table : UITableView Cell
  answers : List ℚ

/-- What happens to the table view. New rows of an update are read from `fresh`. -/
inductive TableEvent (Row Cell : Type)
  | heightForRow (indexPath : NSIndexPath) (identifier : String) (dequeued : Cell)
  | update (update : TableViewUpdate) (fresh : NSIndexPath → Option Row)
  | reloadData (rows : NSIndexPath → Option Row)
  | reloadDataWithoutInvalidateIndexPathHeightCache (rows : NSIndexPath → Option Row)
  | invalidateHeight (indexPath : NSIndexPath)
  | invalidateAllHeightCache
  | rotate (orientation : UIDeviceOrientation) (width : ℚ)

namespace TableHeights

variable {Row Cell : Type}

def withCache (s : TableHeights Row Cell) (cache : FDIndexPathHeightCache) :
    TableHeights Row Cell :=
  { s with table := { s.table with fd_indexPathHeightCache := cache } }

/-- The rows after an update: each where the update leaves it, the new ones from `fresh`. -/
noncomputable def rowsAfter (rows : NSIndexPath → Option Row) (update : TableViewUpdate)
    (fresh : NSIndexPath → Option Row) : NSIndexPath → Option Row := fun p =>
  match update.origin p with
  | none => fresh p
  | some q => rows q

/-- The delegate asks for the height of a row, with or without the cache. -/
def heightForRow (layout : CellLayout Row Cell) (cached : Bool) (s : TableHeights Row Cell)
    (indexPath : NSIndexPath) (identifier : String) (dequeued : Cell) (row : Row) :
    Option (ℚ × UITableView Cell) :=
  let configuration := fun cell => some (layout.configuration row cell)
  if cached then
    s.table.fd_heightForCellCacheBy layout.prepareForReuse (layout.fd_systemFittingHeight s.width)
      s.orientation identifier indexPath.1 indexPath.2 dequeued configuration
  else
    s.table.fd_heightForCell layout.prepareForReuse (layout.fd_systemFittingHeight s.width)
      identifier dequeued configuration

/-- One event. `cached` tells whether the delegate answers through the cache. The table view
asks only for rows that are there. -/
noncomputable def step (layout : CellLayout Row Cell) (order : NSDictionaryOrder) (cached : Bool)
    (s : TableHeights Row Cell) : TableEvent Row Cell → Option (TableHeights Row Cell)
  | .heightForRow indexPath identifier dequeued =>
    (s.rows indexPath).bind fun row =>
      (s.heightForRow layout cached indexPath identifier dequeued row).map fun answer =>
        { s with table := answer.2, answers := s.answers ++ [answer.1] }
  | .update update fresh =>
    (s.table.fd_indexPathHeightCache.fd_update order update).map fun cache =>
      { s.withCache cache with rows := rowsAfter s.rows update fresh }
  | .reloadData rows =>
    some { s.withCache s.table.fd_indexPathHeightCache.fd_reloadData with rows }
  | .reloadDataWithoutInvalidateIndexPathHeightCache rows => some { s with rows }
  | .invalidateHeight indexPath =>
    (s.table.fd_indexPathHeightCache.invalidateHeightAtIndexPath indexPath).map s.withCache
  | .invalidateAllHeightCache =>
    some (s.withCache s.table.fd_indexPathHeightCache.invalidateAllHeightCache)
  | .rotate orientation width => some { s with orientation, width }

/-- What the cache asks of the app: updates are orderly once heights are cached, a reload without
invalidation keeps the rows there are, and the width goes with the orientation. -/
def Orderly (widthIn : Bool → ℚ) (s : TableHeights Row Cell) : TableEvent Row Cell → Prop
  | .update update _ =>
    s.table.fd_indexPathHeightCache.automaticallyInvalidateEnabled = true → update.Orderly
  | .reloadDataWithoutInvalidateIndexPathHeightCache rows =>
    ∀ p row, s.rows p = some row → rows p = some row
  | .rotate orientation width => width = widthIn orientation.isPortrait
  | _ => True

/-- Every cached height is the height of the row that is there now. -/
structure Coherent (layout : CellLayout Row Cell) (widthIn : Bool → ℚ) (s : TableHeights Row Cell) :
    Prop where
  width : s.width = widthIn s.orientation.isPortrait
  guarded : s.table.fd_indexPathHeightCache.Guarded
  cached : ∀ isPortrait (p : NSIndexPath), s.table.fd_indexPathHeightCache.height isPortrait p.1 p.2 = -1 ∨
    ∃ row, s.rows p = some row ∧
      s.table.fd_indexPathHeightCache.height isPortrait p.1 p.2 =
        layout.rowHeight (widthIn isPortrait) row

variable {layout : CellLayout Row Cell} {order : NSDictionaryOrder} {widthIn : Bool → ℚ}
variable {s : TableHeights Row Cell}

theorem heightForRow_plain (layout : CellLayout Row Cell) (s : TableHeights Row Cell)
    (indexPath : NSIndexPath) (identifier : String) (dequeued : Cell) (row : Row) :
    ∃ table', s.heightForRow layout false indexPath identifier dequeued row =
      some (layout.rowHeight s.width row, table') := by
  unfold heightForRow UITableView.fd_heightForCell
  simp only [Bool.false_eq_true, if_false, Option.map_some, layout.fits]
  exact ⟨_, rfl⟩

/-- A cached answer is the stored height or a fresh one, and it is what the cache holds then. -/
theorem heightForRow_cached (layout : CellLayout Row Cell) (s : TableHeights Row Cell)
    (indexPath : NSIndexPath) (identifier : String) (dequeued : Cell) (row : Row) :
    ∃ height table', s.heightForRow layout true indexPath identifier dequeued row =
        some (height, table') ∧
      (height ≠ -1 ∧ height = s.table.fd_indexPathHeightCache.height s.orientation.isPortrait
          indexPath.1 indexPath.2 ∨ height = layout.rowHeight s.width row) ∧
      (∀ isPortrait (p : NSIndexPath), table'.fd_indexPathHeightCache.height isPortrait p.1 p.2 =
        if isPortrait = s.orientation.isPortrait ∧ p.1 = indexPath.1 ∧ p.2 = indexPath.2 then height
        else s.table.fd_indexPathHeightCache.height isPortrait p.1 p.2) ∧
      (s.table.fd_indexPathHeightCache.Guarded → table'.fd_indexPathHeightCache.Guarded) := by
  unfold heightForRow UITableView.fd_heightForCellCacheBy
  simp only [if_true]
  cases hit : (s.table.fd_indexPathHeightCache.existsHeightAtIndexPath s.orientation indexPath.1
      indexPath.2).1 with
  | true =>
    have stored := FDIndexPathHeightCache.existsHeightAtIndexPath_iff.mp hit
    simp only [if_true]
    refine ⟨_, _, rfl, ?_, ?_, ?_⟩
    · rw [FDIndexPathHeightCache.height_heightForIndexPath,
        FDIndexPathHeightCache.height_existsHeight]
      exact Or.inl ⟨stored, rfl⟩
    · intro isPortrait p
      rw [FDIndexPathHeightCache.height_lookup, FDIndexPathHeightCache.height_existsHeight,
        FDIndexPathHeightCache.height_heightForIndexPath,
        FDIndexPathHeightCache.height_existsHeight]
      split
      next here => rw [here.1, here.2.1, here.2.2]
      next => rfl
    · intro guarded off isPortrait inSection row
      rw [FDIndexPathHeightCache.height_lookup, FDIndexPathHeightCache.height_existsHeight]
      exact guarded off isPortrait inSection row
  | false =>
    simp only [Bool.false_eq_true, if_false, UITableView.fd_heightForCell, Option.map_some,
      layout.fits]
    refine ⟨_, _, rfl, Or.inr rfl, ?_, ?_⟩
    · intro isPortrait p
      rw [FDIndexPathHeightCache.height_cacheHeight, FDIndexPathHeightCache.height_existsHeight]
    · intro _ off
      rw [FDIndexPathHeightCache.cacheHeight_enabled] at off
      exact absurd off (by simp)

/-- In a coherent table view a cached answer is the plain one, and the cache stays coherent. -/
theorem Coherent.heightForRow (coherent : s.Coherent layout widthIn) {indexPath : NSIndexPath}
    {row : Row} (here : s.rows indexPath = some row) (identifier : String) (dequeued : Cell)
    (answers : List ℚ) :
    ∃ table', s.heightForRow layout true indexPath identifier dequeued row =
        some (layout.rowHeight s.width row, table') ∧
      Coherent layout widthIn { s with table := table', answers } := by
  obtain ⟨height, table', answered, source, kept, guarded⟩ :=
    heightForRow_cached layout s indexPath identifier dequeued row
  have right : height = layout.rowHeight s.width row := by
    rcases source with ⟨real, stored⟩ | fresh
    · rcases coherent.cached s.orientation.isPortrait indexPath with missing | ⟨row', here', same⟩
      · exact absurd (stored.trans missing) real
      · cases here.symm.trans here'
        rw [stored, same, coherent.width]
    · exact fresh
  refine ⟨table', right ▸ answered, coherent.width, guarded coherent.guarded, ?_⟩
  intro isPortrait p
  show table'.fd_indexPathHeightCache.height isPortrait p.1 p.2 = -1 ∨ _
  rw [kept isPortrait p]
  split
  next at_path =>
    obtain ⟨facing, hs, hr⟩ := at_path
    apply Or.inr
    refine ⟨row, ?_, ?_⟩
    · show s.rows p = some row
      rw [← here, ← Prod.ext hs hr]
    · rw [right, coherent.width, facing]
  next => exact coherent.cached isPortrait p

theorem guarded_of_follows {o : IndexEdits.Origin NSIndexPath} {cache cache' : FDIndexPathHeightCache}
    (follows : FDIndexPathHeightCache.Follows o cache cache') (guarded : cache.Guarded) :
    cache'.Guarded := by
  intro off isPortrait inSection row
  have empty := guarded (follows.enabled.symm.trans off)
  have read := congrFun (follows.heights isPortrait) (inSection, row)
  rw [FDIndexPathHeightCache.heights_apply] at read
  unfold IndexEdits.read at read
  rw [read]
  cases o (inSection, row) with
  | none => rfl
  | some q => exact empty isPortrait q.1 q.2

/-- New heights come from old ones along `o`, and so do the rows. -/
theorem Coherent.moved (coherent : s.Coherent layout widthIn) {cache : FDIndexPathHeightCache}
    {rows : NSIndexPath → Option Row} (guarded : cache.Guarded)
    (source : ∀ isPortrait (p : NSIndexPath), cache.height isPortrait p.1 p.2 = -1 ∨
      ∃ q, cache.height isPortrait p.1 p.2 =
          s.table.fd_indexPathHeightCache.height isPortrait q.1 q.2 ∧
        ∀ row, s.rows q = some row → rows p = some row) :
    Coherent layout widthIn { s.withCache cache with rows } := by
  refine ⟨coherent.width, guarded, ?_⟩
  intro isPortrait p
  rcases source isPortrait p with missing | ⟨q, same, kept⟩
  · exact Or.inl missing
  · rcases coherent.cached isPortrait q with missing | ⟨row, there, height⟩
    · exact Or.inl (same.trans missing)
    · exact Or.inr ⟨row, kept row there, same.trans height⟩

/-- An update leaves the cache guarded and coherent with the rows it leaves. -/
theorem Coherent.update (coherent : s.Coherent layout widthIn) {update : TableViewUpdate}
    {cache : FDIndexPathHeightCache} (fresh : NSIndexPath → Option Row)
    (done : s.table.fd_indexPathHeightCache.fd_update order update = some cache)
    (orderly : s.table.fd_indexPathHeightCache.automaticallyInvalidateEnabled = true →
      update.Orderly) :
    Coherent layout widthIn { s.withCache cache with rows := rowsAfter s.rows update fresh } := by
  cases enabled : s.table.fd_indexPathHeightCache.automaticallyInvalidateEnabled with
  | false =>
    rw [FDIndexPathHeightCache.fd_update_disabled enabled] at done
    cases Option.some.inj done
    refine coherent.moved coherent.guarded ?_
    exact fun isPortrait p => Or.inl (coherent.guarded enabled isPortrait p.1 p.2)
  | true =>
    obtain ⟨cache', done', follows⟩ := FDIndexPathHeightCache.fd_update_follows order enabled update
    cases Option.some.inj (done.symm.trans done')
    have same := TableViewUpdate.cacheOrigin_eq_origin_iff.mpr (orderly enabled)
    refine coherent.moved (guarded_of_follows follows coherent.guarded) ?_
    intro isPortrait p
    have read := congrFun (follows.heights isPortrait) p
    rw [FDIndexPathHeightCache.heights_apply, same] at read
    unfold IndexEdits.read at read
    cases place : update.origin p with
    | none =>
      rw [place] at read
      exact Or.inl read
    | some q =>
      rw [place] at read
      refine Or.inr ⟨q, read, ?_⟩
      intro row there
      simp only [rowsAfter, place, there]

theorem Coherent.invalidateHeight (coherent : s.Coherent layout widthIn) {indexPath : NSIndexPath}
    {cache : FDIndexPathHeightCache}
    (follows : FDIndexPathHeightCache.Follows (IndexEdits.clearAt indexPath)
      s.table.fd_indexPathHeightCache cache) :
    Coherent layout widthIn (s.withCache cache) := by
  refine coherent.moved (guarded_of_follows follows coherent.guarded) ?_
  intro isPortrait p
  have read := congrFun (follows.heights isPortrait) p
  rw [FDIndexPathHeightCache.heights_apply] at read
  unfold IndexEdits.read IndexEdits.clearAt at read
  split at read
  next => exact Or.inl read
  next => exact Or.inr ⟨p, read, fun _ there => there⟩

theorem Coherent.emptied (coherent : s.Coherent layout widthIn) {cache : FDIndexPathHeightCache}
    {rows : NSIndexPath → Option Row}
    (empty : ∀ isPortrait inSection row, cache.height isPortrait inSection row = -1) :
    Coherent layout widthIn { s.withCache cache with rows } :=
  coherent.moved (fun _ => empty) fun isPortrait p => Or.inl (empty isPortrait p.1 p.2)

/-- The table view that answers through the cache beside the one that answers without it. -/
structure Agrees (layout : CellLayout Row Cell) (widthIn : Bool → ℚ)
    (s s' : TableHeights Row Cell) : Prop where
  rows : s'.rows = s.rows
  orientation : s'.orientation = s.orientation
  width : s'.width = s.width
  answers : s'.answers = s.answers
  coherent : s.Coherent layout widthIn

theorem step_rel {s' : TableHeights Row Cell} {event : TableEvent Row Cell}
    (agrees : Agrees layout widthIn s s')
    (orderly : ∀ t, step layout order true s event = some t → Orderly widthIn s event) :
    Option.Rel (Agrees layout widthIn) (step layout order true s event)
      (step layout order false s' event) := by
  obtain ⟨rows, orientation, width, answers, coherent⟩ := agrees
  cases event with
  | heightForRow indexPath identifier dequeued =>
    simp only [step, rows]
    cases here : s.rows indexPath with
    | none => exact Option.Rel.none
    | some row =>
      obtain ⟨table', answered, still⟩ := coherent.heightForRow here identifier dequeued
        (s.answers ++ [layout.rowHeight s.width row])
      obtain ⟨plain, answered'⟩ := heightForRow_plain layout s' indexPath identifier dequeued row
      simp only [Option.bind_some, answered, answered', Option.map_some, width, answers]
      exact Option.Rel.some ⟨rfl, orientation, rfl, rfl, still⟩
  | update update fresh =>
    have goes_through (cache : FDIndexPathHeightCache) :
        ∃ cache', cache.fd_update order update = some cache' :=
      Option.isSome_iff_exists.mp FDIndexPathHeightCache.fd_update_isSome
    obtain ⟨cache, done⟩ := goes_through s.table.fd_indexPathHeightCache
    obtain ⟨cache', done'⟩ := goes_through s'.table.fd_indexPathHeightCache
    simp only [step, done, done', Option.map_some, rows] at orderly ⊢
    have still := coherent.update fresh done (orderly _ rfl)
    exact Option.Rel.some ⟨rfl, orientation, width, answers, still⟩
  | reloadData newRows =>
    have empty (isPortrait : Bool) (inSection row : ℕ) :
        s.table.fd_indexPathHeightCache.fd_reloadData.height isPortrait inSection row = -1 :=
      FDIndexPathHeightCache.height_fd_reloadData coherent.guarded
    exact Option.Rel.some ⟨rfl, orientation, width, answers, coherent.emptied empty⟩
  | reloadDataWithoutInvalidateIndexPathHeightCache newRows =>
    have kept := orderly _ rfl
    have still : Coherent layout widthIn { s with rows := newRows } :=
      coherent.moved coherent.guarded fun isPortrait p => Or.inr ⟨p, rfl, kept p⟩
    exact Option.Rel.some ⟨rfl, orientation, width, answers, still⟩
  | invalidateHeight indexPath =>
    obtain ⟨cache, done, follows⟩ := FDIndexPathHeightCache.invalidateHeight_follows
      s.table.fd_indexPathHeightCache indexPath
    obtain ⟨cache', done', -⟩ := FDIndexPathHeightCache.invalidateHeight_follows
      s'.table.fd_indexPathHeightCache indexPath
    simp only [step, done, done', Option.map_some]
    exact Option.Rel.some ⟨rows, orientation, width, answers, coherent.invalidateHeight follows⟩
  | invalidateAllHeightCache =>
    have empty (isPortrait : Bool) (inSection row : ℕ) :
        s.table.fd_indexPathHeightCache.invalidateAllHeightCache.height isPortrait inSection row =
          -1 := by
      cases isPortrait <;> rfl
    exact Option.Rel.some ⟨rows, orientation, width, answers, coherent.emptied empty⟩
  | rotate newOrientation newWidth =>
    have still : Coherent layout widthIn { s with
        orientation := newOrientation
        width := newWidth } := ⟨orderly _ rfl, coherent.guarded, coherent.cached⟩
    exact Option.Rel.some ⟨rows, rfl, rfl, answers, still⟩

/-- A table view with nothing cached and nothing answered. -/
def start (rows : NSIndexPath → Option Row) (orientation : UIDeviceOrientation) (width : ℚ) :
    TableHeights Row Cell := ⟨rows, orientation, width, .new, []⟩

theorem agrees_start {rows : NSIndexPath → Option Row} {orientation : UIDeviceOrientation} :
    Agrees layout widthIn (start rows orientation (widthIn orientation.isPortrait))
      (start rows orientation (widthIn orientation.isPortrait)) := by
  have empty (isPortrait : Bool) (inSection row : ℕ) :
      FDIndexPathHeightCache.new.height isPortrait inSection row = -1 := by
    cases isPortrait <;> rfl
  refine ⟨rfl, rfl, rfl, rfl, rfl, fun _ => empty, ?_⟩
  exact fun isPortrait p => Or.inl (empty isPortrait p.1 p.2)

/-- Along every orderly run the delegate gives the answers it would give without a cache. -/
theorem cached_answers_eq_plain {rows : NSIndexPath → Option Row} {orientation : UIDeviceOrientation}
    {events : List (TableEvent Row Cell)}
    (orderly : StepsMeet (step layout order true) (Orderly widthIn)
      (start rows orientation (widthIn orientation.isPortrait)) events) :
    (run (step layout order true) (start rows orientation (widthIn orientation.isPortrait))
        events).map TableHeights.answers =
      (run (step layout order false) (start rows orientation (widthIn orientation.isPortrait))
        events).map TableHeights.answers := by
  have related := run_rel (fun _ _ _ => step_rel) agrees_start orderly
  exact map_eq_of_rel related fun _ _ agrees => agrees.answers.symm

/-- Cells that hold their height. -/
def plainLayout : CellLayout ℚ ℚ := ⟨id, fun row _ => row, fun _ cell => cell, fun _ row => row,
  fun _ _ _ => rfl⟩

def oneRow : TableHeights ℚ ℚ := start (fun p => if p = (0, 0) then some 20 else none) .portrait 375

def insertAbove : List (TableEvent ℚ ℚ) :=
  [.heightForRow (0, 0) "TouTiaoCell" 0, .update (.insertRows [(0, 0)]) fun _ => some 50,
    .heightForRow (0, 0) "TouTiaoCell" 0, .heightForRow (0, 1) "TouTiaoCell" 0]

theorem cached_answers_eq_plain_insertAbove :
    (run (step plainLayout ⟨id, fun _ => .refl _⟩ true) oneRow insertAbove).map
        TableHeights.answers =
      (run (step plainLayout ⟨id, fun _ => .refl _⟩ false) oneRow insertAbove).map
        TableHeights.answers := by
  have orderly : StepsMeet (step plainLayout ⟨id, fun _ => .refl _⟩ true) (Orderly fun _ => 375)
      (start (fun p => if p = (0, 0) then some 20 else none) .portrait 375) insertAbove := by
    apply stepsMeet_of_mem
    intro event listed s
    simp only [insertAbove, List.mem_cons, List.not_mem_nil, or_false] at listed
    rcases listed with rfl | rfl | rfl | rfl
    · trivial
    · exact fun _ => by decide
    · trivial
    · trivial
  exact cached_answers_eq_plain orderly

end TableHeights

end SwiftApp
