import Mathlib.Algebra.Order.Field.Rat
import Mathlib.Algebra.Order.Ring.NNRat
import Mathlib.Tactic.Positivity
import SwiftApp.TableHeights

namespace SwiftApp

open StepRun

/-- Two mutable dictionaries from keys to heights. -/
structure FDKeyedHeightCache (Key : Type) where
  mutableHeightsByKeyForPortrait : Key → Option ℚ
  mutableHeightsByKeyForLandscape : Key → Option ℚ

namespace FDKeyedHeightCache

variable {Key : Type}

def new : FDKeyedHeightCache Key := ⟨fun _ => none, fun _ => none⟩

def mutableHeightsByKey (cache : FDKeyedHeightCache Key) (isPortrait : Bool) : Key → Option ℚ :=
  if isPortrait then cache.mutableHeightsByKeyForPortrait
  else cache.mutableHeightsByKeyForLandscape

def mutableHeightsByKeyForCurrentOrientation (cache : FDKeyedHeightCache Key)
    (orientation : UIDeviceOrientation) : Key → Option ℚ :=
  cache.mutableHeightsByKey orientation.isPortrait

def existsHeightForKey (cache : FDKeyedHeightCache Key) (orientation : UIDeviceOrientation)
    (key : Key) : Bool :=
  match cache.mutableHeightsByKeyForCurrentOrientation orientation key with
  | none => false
  | some number => number != -1

/-- The number of a missing entry is zero. -/
def heightForKey (cache : FDKeyedHeightCache Key) (orientation : UIDeviceOrientation) (key : Key) : ℚ :=
  (cache.mutableHeightsByKeyForCurrentOrientation orientation key).getD 0

def invalidateAllHeightCache (_ : FDKeyedHeightCache Key) : FDKeyedHeightCache Key := new

variable [DecidableEq Key]

def cacheHeight (cache : FDKeyedHeightCache Key) (orientation : UIDeviceOrientation) (height : ℚ)
    (key : Key) : FDKeyedHeightCache Key :=
  if orientation.isPortrait then
    ⟨Function.update cache.mutableHeightsByKeyForPortrait key (some height),
      cache.mutableHeightsByKeyForLandscape⟩
  else
    ⟨cache.mutableHeightsByKeyForPortrait,
      Function.update cache.mutableHeightsByKeyForLandscape key (some height)⟩

def invalidateHeightForKey (cache : FDKeyedHeightCache Key) (key : Key) : FDKeyedHeightCache Key :=
  ⟨Function.update cache.mutableHeightsByKeyForPortrait key none,
    Function.update cache.mutableHeightsByKeyForLandscape key none⟩

variable {cache : FDKeyedHeightCache Key} {orientation : UIDeviceOrientation} {isPortrait : Bool}
variable {height : ℚ} {key key' : Key}

theorem mutableHeightsByKey_cacheHeight :
    (cache.cacheHeight orientation height key).mutableHeightsByKey isPortrait key' =
      if isPortrait = orientation.isPortrait ∧ key' = key then some height
      else cache.mutableHeightsByKey isPortrait key' := by
  unfold cacheHeight mutableHeightsByKey
  by_cases same : key' = key
  · subst same
    cases isPortrait <;> cases orientation.isPortrait <;> simp
  · cases isPortrait <;> cases orientation.isPortrait <;> simp [same]

theorem mutableHeightsByKey_invalidate :
    (cache.invalidateHeightForKey key).mutableHeightsByKey isPortrait key' =
      if key' = key then none else cache.mutableHeightsByKey isPortrait key' := by
  unfold invalidateHeightForKey mutableHeightsByKey
  by_cases same : key' = key
  · subst same
    cases isPortrait <;> simp
  · cases isPortrait <;> simp [same]

omit [DecidableEq Key] in
theorem mutableHeightsByKey_new :
    (new : FDKeyedHeightCache Key).mutableHeightsByKey isPortrait key = none := by
  cases isPortrait <;> rfl

end FDKeyedHeightCache

inductive UITableViewCellAccessoryType
  | none | disclosureIndicator | detailDisclosureButton | checkmark | detailButton
deriving DecidableEq

/-- The table of widths in the source. -/
def UITableViewCellAccessoryType.systemAccessoryWidth : UITableViewCellAccessoryType → ℚ
  | .none => 0
  | .disclosureIndicator => 34
  | .detailDisclosureButton => 68
  | .checkmark => 40
  | .detailButton => 48

structure UIScreen where
  scale : ℚ
  width : ℚ
  scale_pos : 0 < scale

/-- A configured cell. The layout engine is asked with the width of the cell and of its content
view; neither it nor `sizeThatFits:` finds a negative height. -/
structure UITableViewCell where
  accessoryView : Option ℚ
  accessoryType : UITableViewCellAccessoryType
  fd_enforceFrameLayout : Bool
  systemLayoutSizeFitting : ℚ → ℚ → NNRat
  sizeThatFits : ℚ → NNRat

/-- What the height of a cell takes from the table view: its subviews, each with whether it is the
section index and its width, and whether it has separators. -/
structure TableChrome where
  subviews : List (Bool × ℚ)
  separatorStyleNone : Bool
  screen : UIScreen

namespace TableChrome

def rightSystemViewsWidth (chrome : TableChrome) (cell : UITableViewCell) : ℚ :=
  let indexWidth := ((chrome.subviews.find? Prod.fst).map Prod.snd).getD 0
  let rightSystemViewsWidth := match cell.accessoryView with
    | some width => indexWidth + (16 + width)
    | none => indexWidth + cell.accessoryType.systemAccessoryWidth
  if 3 ≤ chrome.screen.scale ∧ 414 ≤ chrome.screen.width then rightSystemViewsWidth + 4
  else rightSystemViewsWidth

def fd_systemFittingHeightForConfiguratedCell (chrome : TableChrome) (width : ℚ)
    (cell : UITableViewCell) : ℚ :=
  let contentViewWidth := width - chrome.rightSystemViewsWidth cell
  let fittingHeight : ℚ :=
    if cell.fd_enforceFrameLayout = false ∧ 0 < contentViewWidth then
      cell.systemLayoutSizeFitting width contentViewWidth
    else 0
  let fittingHeight : ℚ :=
    if fittingHeight = 0 then cell.sizeThatFits contentViewWidth else fittingHeight
  let fittingHeight : ℚ := if fittingHeight = 0 then 44 else fittingHeight
  if chrome.separatorStyleNone then fittingHeight else fittingHeight + 1 / chrome.screen.scale

/-- Every height that is found is positive, so none is taken for the mark of a missing one. -/
theorem fd_systemFittingHeight_pos {chrome : TableChrome} {width : ℚ} {cell : UITableViewCell} :
    0 < chrome.fd_systemFittingHeightForConfiguratedCell width cell := by
  have line : 0 < 1 / chrome.screen.scale := one_div_pos.mpr chrome.screen.scale_pos
  have default_pos (height : ℚ) (least : 0 ≤ height) : 0 < if height = 0 then 44 else height := by
    split
    next => norm_num
    next real => exact lt_of_le_of_ne least (Ne.symm real)
  unfold fd_systemFittingHeightForConfiguratedCell
  generalize width - chrome.rightSystemViewsWidth cell = contentViewWidth
  have laid_out : (0 : ℚ) ≤ if cell.fd_enforceFrameLayout = false ∧ 0 < contentViewWidth then
      (cell.systemLayoutSizeFitting width contentViewWidth : ℚ) else 0 := by
    split
    next => exact NNRat.coe_nonneg _
    next => exact le_rfl
  have tried (height : ℚ) (least : 0 ≤ height) :
      0 ≤ if height = 0 then (cell.sizeThatFits contentViewWidth : ℚ) else height := by
    split
    next => exact NNRat.coe_nonneg _
    next => exact least
  have found := default_pos _ (tried _ laid_out)
  dsimp only
  split
  next => exact found
  next => exact add_pos found line

end TableChrome

/-- A table view with the keyed height cache attached to it. -/
structure KeyedTableView (Key Cell : Type) extends UITableView Cell where
  fd_keyedHeightCache : FDKeyedHeightCache Key

namespace KeyedTableView

variable {Key Cell : Type} [DecidableEq Key]

/-- The outer `none` is a trap in the configuration block. -/
def fd_heightForCellCacheByKey (prepareForReuse : Cell → Cell) (fd_systemFittingHeight : Cell → ℚ)
    (table : KeyedTableView Key Cell) (orientation : UIDeviceOrientation)
    (identifier : Option String) (key : Option Key) (dequeued : Cell)
    (configuration : Cell → Option Cell) : Option (ℚ × KeyedTableView Key Cell) :=
  match identifier, key with
  | some identifier, some key =>
    if table.fd_keyedHeightCache.existsHeightForKey orientation key then
      some (table.fd_keyedHeightCache.heightForKey orientation key, table)
    else
      (table.toUITableView.fd_heightForCell prepareForReuse fd_systemFittingHeight identifier dequeued
        configuration).map fun answer => (answer.1,
          ⟨answer.2, table.fd_keyedHeightCache.cacheHeight orientation answer.1 key⟩)
  | _, _ => some (0, table)

end KeyedTableView

/-- A table view whose delegate names rows by keys. `content` is the row a key stands for now,
`changed` lists the keys whose row changed since they were last invalidated. -/
structure KeyedHeights (Key Row Cell : Type) where
  content : Key → Row
  changed : List Key
  orientation : UIDeviceOrientation
  width : ℚ
  table : KeyedTableView Key Cell
  answers : List (Bool × Key × ℚ)

inductive KeyedEvent (Key Row Cell : Type)
  | heightForRow (key : Key) (identifier : String) (dequeued : Cell)
  | change (key : Key) (row : Row)
  | invalidateHeightForKey (key : Key)
  | invalidateAllHeightCache
  | reloadData (numberOfRows : ℕ)
  | rotate (orientation : UIDeviceOrientation) (width : ℚ)

namespace KeyedHeights

variable {Key Row Cell : Type} [DecidableEq Key]

/-- The delegate asks for the height of the row of a key, with or without the cache. -/
def heightForRow (layout : CellLayout Row Cell) (cached : Bool) (s : KeyedHeights Key Row Cell)
    (key : Key) (identifier : String) (dequeued : Cell) :
    Option (ℚ × KeyedTableView Key Cell) :=
  let configuration := fun cell => some (layout.configuration (s.content key) cell)
  if cached then
    s.table.fd_heightForCellCacheByKey layout.prepareForReuse
      (layout.fd_systemFittingHeight s.width) s.orientation (some identifier) (some key) dequeued
      configuration
  else
    (s.table.toUITableView.fd_heightForCell layout.prepareForReuse
      (layout.fd_systemFittingHeight s.width) identifier dequeued configuration).map fun answer =>
        (answer.1, ⟨answer.2, s.table.fd_keyedHeightCache⟩)

def step (layout : CellLayout Row Cell) (cached : Bool) (s : KeyedHeights Key Row Cell) :
    KeyedEvent Key Row Cell → Option (KeyedHeights Key Row Cell)
  | .heightForRow key identifier dequeued =>
    (s.heightForRow layout cached key identifier dequeued).map fun answer =>
      { s with
        table := answer.2
        answers := s.answers ++ [(s.orientation.isPortrait, key, answer.1)] }
  | .change key row =>
    some { s with content := Function.update s.content key row, changed := key :: s.changed }
  | .invalidateHeightForKey key =>
    some { s with
      table := { s.table with
        fd_keyedHeightCache := s.table.fd_keyedHeightCache.invalidateHeightForKey key }
      changed := s.changed.filter (· ≠ key) }
  | .invalidateAllHeightCache =>
    some { s with
      table := { s.table with
        fd_keyedHeightCache := s.table.fd_keyedHeightCache.invalidateAllHeightCache }
      changed := [] }
  | .reloadData numberOfRows =>
    some { s with table := { s.table with toUITableView := s.table.toUITableView.reloadData numberOfRows } }
  | .rotate orientation width => some { s with orientation, width }

/-- A key whose row changed is asked for only after it was invalidated, and the width goes with
the orientation. -/
def Orderly (widthIn : Bool → ℚ) (s : KeyedHeights Key Row Cell) : KeyedEvent Key Row Cell → Prop
  | .heightForRow key _ _ => key ∉ s.changed
  | .rotate orientation width => width = widthIn orientation.isPortrait
  | _ => True

def cachedHeight (s : KeyedHeights Key Row Cell) (isPortrait : Bool) (key : Key) : Option ℚ :=
  s.table.fd_keyedHeightCache.mutableHeightsByKey isPortrait key

/-- Every height cached for an unchanged key is the height of its row. -/
structure Coherent (layout : CellLayout Row Cell) (widthIn : Bool → ℚ)
    (s : KeyedHeights Key Row Cell) : Prop where
  width : s.width = widthIn s.orientation.isPortrait
  cached : ∀ isPortrait key height, key ∉ s.changed → s.cachedHeight isPortrait key = some height →
    height = layout.rowHeight (widthIn isPortrait) (s.content key)

variable {layout : CellLayout Row Cell} {widthIn : Bool → ℚ} {s : KeyedHeights Key Row Cell}

theorem heightForRow_plain (layout : CellLayout Row Cell) (s : KeyedHeights Key Row Cell)
    (key : Key) (identifier : String) (dequeued : Cell) :
    ∃ table', s.heightForRow layout false key identifier dequeued =
      some (layout.rowHeight s.width (s.content key), table') := by
  unfold heightForRow UITableView.fd_heightForCell
  simp only [Bool.false_eq_true, if_false, Option.map_some, layout.fits]
  exact ⟨_, rfl⟩

/-- What the cached path answers: a stored height, with nothing touched, or the fitting height,
which is stored then. -/
theorem heightForRow_cached (layout : CellLayout Row Cell) (s : KeyedHeights Key Row Cell)
    (key : Key) (identifier : String) (dequeued : Cell) :
    (∃ height, height ≠ -1 ∧ s.cachedHeight s.orientation.isPortrait key = some height ∧
        s.heightForRow layout true key identifier dequeued = some (height, s.table)) ∨
      (∀ height, s.cachedHeight s.orientation.isPortrait key = some height → height = -1) ∧
        ∃ table', s.heightForRow layout true key identifier dequeued =
            some (layout.rowHeight s.width (s.content key), ⟨table',
              s.table.fd_keyedHeightCache.cacheHeight s.orientation
                (layout.rowHeight s.width (s.content key)) key⟩) := by
  unfold heightForRow KeyedTableView.fd_heightForCellCacheByKey
  simp only [if_true]
  cases stored : s.cachedHeight s.orientation.isPortrait key with
  | none =>
    have number : s.table.fd_keyedHeightCache.mutableHeightsByKeyForCurrentOrientation s.orientation
        key = none := stored
    apply Or.inr
    simp [FDKeyedHeightCache.existsHeightForKey, number, UITableView.fd_heightForCell, layout.fits]
  | some height =>
    have number : s.table.fd_keyedHeightCache.mutableHeightsByKeyForCurrentOrientation s.orientation
        key = some height := stored
    by_cases mark : height = -1
    · apply Or.inr
      simp [FDKeyedHeightCache.existsHeightForKey, number, mark, UITableView.fd_heightForCell,
        layout.fits]
    · apply Or.inl
      refine ⟨height, mark, rfl, ?_⟩
      simp [FDKeyedHeightCache.existsHeightForKey, FDKeyedHeightCache.heightForKey, number, mark]

theorem cachedHeight_cacheHeight {table : UITableView Cell} {orientation : UIDeviceOrientation}
    {height : ℚ} {key key' : Key} {isPortrait : Bool} {answers : List (Bool × Key × ℚ)} :
    cachedHeight { s with
        table := ⟨table, s.table.fd_keyedHeightCache.cacheHeight orientation height key⟩
        answers } isPortrait key' =
      if isPortrait = orientation.isPortrait ∧ key' = key then some height
      else s.cachedHeight isPortrait key' :=
  FDKeyedHeightCache.mutableHeightsByKey_cacheHeight

/-- In a coherent table view a cached answer for an unchanged key is the plain one. -/
theorem Coherent.heightForRow (coherent : s.Coherent layout widthIn) {key : Key}
    (unchanged : key ∉ s.changed) (identifier : String) (dequeued : Cell)
    (answers : List (Bool × Key × ℚ)) :
    ∃ table', s.heightForRow layout true key identifier dequeued =
        some (layout.rowHeight s.width (s.content key), table') ∧
      Coherent layout widthIn { s with table := table', answers } := by
  rcases heightForRow_cached layout s key identifier dequeued with
    ⟨height, -, stored, answered⟩ | ⟨-, table', answered⟩
  · have right := coherent.cached _ _ _ unchanged stored
    rw [← coherent.width] at right
    exact ⟨s.table, right ▸ answered, coherent.width, coherent.cached⟩
  · refine ⟨_, answered, coherent.width, ?_⟩
    intro isPortrait key' height unchanged' stored
    rw [cachedHeight_cacheHeight] at stored
    split at stored
    next here =>
      rw [← Option.some.inj stored, coherent.width, here.1, here.2]
    next => exact coherent.cached isPortrait key' height unchanged' stored

/-- The table view that answers through the cache beside the one that answers without it. -/
structure Agrees (layout : CellLayout Row Cell) (widthIn : Bool → ℚ)
    (s s' : KeyedHeights Key Row Cell) : Prop where
  content : s'.content = s.content
  changed : s'.changed = s.changed
  orientation : s'.orientation = s.orientation
  width : s'.width = s.width
  answers : s'.answers = s.answers
  coherent : s.Coherent layout widthIn

theorem step_rel {s' : KeyedHeights Key Row Cell} {event : KeyedEvent Key Row Cell}
    (agrees : Agrees layout widthIn s s')
    (orderly : ∀ t, step layout true s event = some t → Orderly widthIn s event) :
    Option.Rel (Agrees layout widthIn) (step layout true s event) (step layout false s' event) := by
  obtain ⟨content, changed, orientation, width, answers, coherent⟩ := agrees
  cases event with
  | heightForRow key identifier dequeued =>
    obtain ⟨plain, answered'⟩ := heightForRow_plain layout s' key identifier dequeued
    rw [content, width] at answered'
    have goes_through : ∃ t, step layout true s (.heightForRow key identifier dequeued) = some t := by
      rcases heightForRow_cached layout s key identifier dequeued with
        ⟨height, -, -, answered⟩ | ⟨-, table', answered⟩
      · simp [step, answered]
      · simp [step, answered]
    obtain ⟨t, taken⟩ := goes_through
    obtain ⟨table', answered, still⟩ := coherent.heightForRow (orderly t taken) identifier dequeued
      (s.answers ++ [(s.orientation.isPortrait, key, layout.rowHeight s.width (s.content key))])
    simp only [step, answered, answered', Option.map_some, answers, orientation]
    exact Option.Rel.some ⟨content, changed, rfl, width, rfl, still⟩
  | change key row =>
    have still : Coherent layout widthIn { s with
        content := Function.update s.content key row
        changed := key :: s.changed } := by
      refine ⟨coherent.width, ?_⟩
      intro isPortrait key' height unchanged stored
      have other : key' ≠ key := fun same => unchanged (same ▸ List.mem_cons_self)
      show height = layout.rowHeight _ (Function.update s.content key row key')
      rw [Function.update_of_ne other]
      exact coherent.cached isPortrait key' height
        (fun listed => unchanged (List.mem_cons_of_mem key listed)) stored
    have content' : Function.update s'.content key row = Function.update s.content key row := by
      rw [content]
    have changed' : key :: s'.changed = key :: s.changed := by rw [changed]
    exact Option.Rel.some ⟨content', changed', orientation, width, answers, still⟩
  | invalidateHeightForKey key =>
    have still : Coherent layout widthIn { s with
        table := { s.table with
          fd_keyedHeightCache := s.table.fd_keyedHeightCache.invalidateHeightForKey key }
        changed := s.changed.filter (· ≠ key) } := by
      refine ⟨coherent.width, ?_⟩
      intro isPortrait key' height unchanged stored
      have read : cachedHeight { s with
          table := { s.table with
            fd_keyedHeightCache := s.table.fd_keyedHeightCache.invalidateHeightForKey key }
          changed := s.changed.filter (· ≠ key) } isPortrait key' =
            if key' = key then none else s.cachedHeight isPortrait key' :=
        FDKeyedHeightCache.mutableHeightsByKey_invalidate
      rw [read] at stored
      split at stored
      next => cases stored
      next other =>
        refine coherent.cached isPortrait key' height ?_ stored
        exact fun listed => unchanged (List.mem_filter.mpr ⟨listed, by simpa using other⟩)
    have changed' : s'.changed.filter (· ≠ key) = s.changed.filter (· ≠ key) := by rw [changed]
    exact Option.Rel.some ⟨content, changed', orientation, width, answers, still⟩
  | invalidateAllHeightCache =>
    have still : Coherent layout widthIn { s with
        table := { s.table with
          fd_keyedHeightCache := s.table.fd_keyedHeightCache.invalidateAllHeightCache }
        changed := [] } := by
      refine ⟨coherent.width, ?_⟩
      intro isPortrait key height _ stored
      have read : (FDKeyedHeightCache.new : FDKeyedHeightCache Key).mutableHeightsByKey isPortrait
          key = some height := stored
      rw [FDKeyedHeightCache.mutableHeightsByKey_new] at read
      cases read
    exact Option.Rel.some ⟨content, rfl, orientation, width, answers, still⟩
  | reloadData numberOfRows =>
    exact Option.Rel.some ⟨content, changed, orientation, width, answers,
      coherent.width, coherent.cached⟩
  | rotate newOrientation newWidth =>
    exact Option.Rel.some ⟨content, changed, rfl, rfl, answers, orderly _ rfl, coherent.cached⟩

/-- A table view with nothing cached and nothing answered. -/
def start (content : Key → Row) (orientation : UIDeviceOrientation) (width : ℚ) :
    KeyedHeights Key Row Cell := ⟨content, [], orientation, width, ⟨.new, .new⟩, []⟩

omit [DecidableEq Key] in
theorem agrees_start {content : Key → Row} {orientation : UIDeviceOrientation} :
    Agrees layout widthIn (start content orientation (widthIn orientation.isPortrait))
      (start content orientation (widthIn orientation.isPortrait)) := by
  refine ⟨rfl, rfl, rfl, rfl, rfl, rfl, ?_⟩
  intro isPortrait key height _ stored
  have read : (FDKeyedHeightCache.new : FDKeyedHeightCache Key).mutableHeightsByKey isPortrait key =
      some height := stored
  rw [FDKeyedHeightCache.mutableHeightsByKey_new] at read
  cases read

/-- If every changed key is invalidated before it is asked for, the delegate gives the answers it
would give without a cache. -/
theorem keyed_answers_eq_plain {content : Key → Row} {orientation : UIDeviceOrientation}
    {events : List (KeyedEvent Key Row Cell)}
    (orderly : StepsMeet (step layout true) (Orderly widthIn)
      (start content orientation (widthIn orientation.isPortrait)) events) :
    (run (step layout true) (start content orientation (widthIn orientation.isPortrait))
        events).map KeyedHeights.answers =
      (run (step layout false) (start content orientation (widthIn orientation.isPortrait))
        events).map KeyedHeights.answers := by
  have related := run_rel (fun _ _ _ => step_rel) agrees_start orderly
  exact map_eq_of_rel related fun _ _ agrees => agrees.answers.symm

def changeThenAsk : List (KeyedEvent ℕ ℚ ℚ) :=
  [.heightForRow 7 "TouTiaoCell" 0, .change 7 90, .invalidateHeightForKey 7,
    .heightForRow 7 "TouTiaoCell" 0]

theorem keyed_answers_eq_plain_changeThenAsk :
    (run (step TableHeights.plainLayout true) (start (fun _ => 60) .portrait 375)
        changeThenAsk).map KeyedHeights.answers =
      (run (step TableHeights.plainLayout false) (start (fun _ => 60) .portrait 375)
        changeThenAsk).map KeyedHeights.answers := by
  have orderly : StepsMeet (step TableHeights.plainLayout true) (Orderly fun _ => 375)
      (start (fun _ => 60) .portrait 375) changeThenAsk := by
    intro s taken
    refine ⟨List.not_mem_nil, ?_⟩
    cases taken
    intro s taken
    refine ⟨trivial, ?_⟩
    cases taken
    intro s taken
    refine ⟨trivial, ?_⟩
    cases taken
    intro s taken
    exact ⟨List.not_mem_nil, trivial⟩
  exact keyed_answers_eq_plain orderly

/-- The event makes the keyed cache forget the key. -/
def Invalidates (key : Key) : KeyedEvent Key Row Cell → Prop
  | .invalidateHeightForKey key' => key' = key
  | .invalidateAllHeightCache => True
  | _ => False

/-- Every answer given for the key is the one that is cached for it. -/
def Kept (key : Key) (s : KeyedHeights Key Row Cell) : Prop :=
  ∀ isPortrait height, (isPortrait, key, height) ∈ s.answers →
    height ≠ -1 ∧ s.cachedHeight isPortrait key = some height

theorem Kept.step (real : ∀ width row, layout.rowHeight width row ≠ -1) {key : Key}
    {event : KeyedEvent Key Row Cell} {t : KeyedHeights Key Row Cell} (kept : Kept key s)
    (other : ¬ Invalidates key event) (taken : KeyedHeights.step layout true s event = some t) :
    Kept key t := by
  cases event with
  | heightForRow key' identifier dequeued =>
    rcases heightForRow_cached layout s key' identifier dequeued with
      ⟨height, mark, stored, answered⟩ | ⟨missing, table', answered⟩
    · simp only [KeyedHeights.step, answered, Option.map_some, Option.some.injEq] at taken
      subst taken
      intro isPortrait height' listed
      rcases List.mem_append.mp listed with old | new
      · exact kept isPortrait height' old
      · cases List.mem_singleton.mp new
        exact ⟨mark, stored⟩
    · simp only [KeyedHeights.step, answered, Option.map_some, Option.some.injEq] at taken
      subst taken
      intro isPortrait height' listed
      rw [cachedHeight_cacheHeight]
      rcases List.mem_append.mp listed with old | new
      · obtain ⟨mark, stored⟩ := kept isPortrait height' old
        refine ⟨mark, ?_⟩
        split
        next here =>
          obtain ⟨facing, same⟩ := here
          subst same
          exact absurd (missing height' (facing ▸ stored)) mark
        next => exact stored
      · cases List.mem_singleton.mp new
        exact ⟨real _ _, if_pos ⟨rfl, rfl⟩⟩
  | change key' row =>
    cases taken
    exact kept
  | invalidateHeightForKey key' =>
    cases taken
    intro isPortrait height listed
    obtain ⟨mark, stored⟩ := kept isPortrait height listed
    refine ⟨mark, ?_⟩
    have distinct : ¬ key = key' := fun same => other same.symm
    have read : (s.table.fd_keyedHeightCache.invalidateHeightForKey key').mutableHeightsByKey
        isPortrait key = s.cachedHeight isPortrait key := by
      rw [FDKeyedHeightCache.mutableHeightsByKey_invalidate, if_neg distinct]
      rfl
    exact read.trans stored
  | invalidateAllHeightCache => exact absurd trivial other
  | reloadData numberOfRows =>
    cases taken
    exact kept
  | rotate orientation width =>
    cases taken
    exact kept

/-- Until a key is invalidated, it gets one height for each orientation, whatever becomes of its
row, of the width and of the table's data. -/
theorem answers_of_key_eq (real : ∀ width row, layout.rowHeight width row ≠ -1)
    {events : List (KeyedEvent Key Row Cell)} {t : KeyedHeights Key Row Cell} {key : Key}
    (none_yet : s.answers = []) (done : run (step layout true) s events = some t)
    (others : ∀ event ∈ events, ¬ Invalidates key event) {isPortrait : Bool} {height height' : ℚ}
    (first : (isPortrait, key, height) ∈ t.answers)
    (second : (isPortrait, key, height') ∈ t.answers) : height = height' := by
  have at_start : Kept key s := by
    intro isPortrait height listed
    rw [none_yet] at listed
    exact absurd listed List.not_mem_nil
  have at_end : Kept key t := run_invariant_of_mem
    (fun _ event listed _ taken kept => kept.step real (others event listed) taken) done at_start
  have one := (at_end isPortrait height first).2
  have two := (at_end isPortrait height' second).2
  exact Option.some.inj (one.symm.trans two)

/-- The layout of an app whose cells are found by the fitting height of the template cells. -/
def fittedLayout (chrome : TableChrome) (cellOf : Row → UITableViewCell) :
    CellLayout Row UITableViewCell :=
  ⟨id, fun row _ => cellOf row, chrome.fd_systemFittingHeightForConfiguratedCell,
    fun width row => chrome.fd_systemFittingHeightForConfiguratedCell width (cellOf row),
    fun _ _ _ => rfl⟩

def linedCell (height : NNRat) : UITableViewCell :=
  ⟨none, .disclosureIndicator, false, fun _ _ => height, fun _ => 0⟩

def phoneScreen : UIScreen := ⟨2, 375, by norm_num⟩

def changeUnseen : List (KeyedEvent ℕ NNRat UITableViewCell) :=
  [.heightForRow 7 "TouTiaoCell" (linedCell 0), .change 7 90,
    .heightForRow 7 "TouTiaoCell" (linedCell 0)]

theorem answers_of_key_eq_changeUnseen :
    ∃ t height, run (step (fittedLayout ⟨[], true, phoneScreen⟩ linedCell) true)
        (start (fun _ => 60) .portrait 375) changeUnseen = some t ∧
      (true, 7, 60) ∈ t.answers ∧ (true, 7, height) ∈ t.answers ∧ 60 = height := by
  have real (width : ℚ) (row : NNRat) :
      (fittedLayout ⟨[], true, phoneScreen⟩ linedCell).rowHeight width row ≠ -1 := by
    have found : 0 < (fittedLayout ⟨[], true, phoneScreen⟩ linedCell).rowHeight width row :=
      TableChrome.fd_systemFittingHeight_pos
    linarith
  have others (event : KeyedEvent ℕ NNRat UITableViewCell) (listed : event ∈ changeUnseen) :
      ¬ Invalidates 7 event := by
    simp only [changeUnseen, List.mem_cons, List.not_mem_nil, or_false] at listed
    rcases listed with rfl | rfl | rfl <;> exact id
  have answers : ((run (step (fittedLayout ⟨[], true, phoneScreen⟩ linedCell) true)
      (start (fun _ => 60) .portrait 375) changeUnseen).map KeyedHeights.answers) =
        some [(true, 7, 60), (true, 7, 60)] := by decide +kernel
  obtain ⟨t, done, listed⟩ := Option.map_eq_some_iff.mp answers
  have first : (true, 7, 60) ∈ t.answers := by simp [listed]
  have second : (true, 7, 60) ∈ t.answers := by simp [listed]
  exact ⟨t, 60, done, first, second, answers_of_key_eq real rfl done others first second⟩

end KeyedHeights

end SwiftApp
