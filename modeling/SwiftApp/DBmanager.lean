import Mathlib.Data.List.Basic
import Mathlib.Data.Rat.Defs

namespace SwiftApp

structure UserModel where
  id : Int
  name : String
  height : ℚ
deriving DecidableEq

/-- `UserModel.CodingKeys` -/
inductive UserProperty
  | id | name | height
deriving DecidableEq

/-- Copies one column from `object`. -/
def UserModel.set (row object : UserModel) : UserProperty → UserModel
  | .id => { row with id := object.id }
  | .name => { row with name := object.name }
  | .height => { row with height := object.height }

abbrev Condition := UserModel → Bool

abbrev OrderBy := UserModel → UserModel → Bool

def Condition.holds (condition : Option Condition) (row : UserModel) : Bool :=
  condition.elim true fun holds => holds row

def updated (propertys : List UserProperty) (object : UserModel) (condition : Option Condition)
    (rows : List UserModel) : List UserModel :=
  rows.map fun row => if Condition.holds condition row then propertys.foldl (·.set object) row else row

def remaining (condition : Option Condition) (rows : List UserModel) : List UserModel :=
  rows.filter fun row => !Condition.holds condition row

def selected (condition : Option Condition) (orderList : Option OrderBy) (rows : List UserModel) :
    List UserModel :=
  let found := rows.filter (Condition.holds condition)
  orderList.elim found fun le => found.mergeSort le

/-- `SQLITE_ERROR`, "no such table" -/
inductive WCDBError
  | noSuchTable
deriving DecidableEq

/-- A database file: the rows of each table it has. -/
structure Database where
  tables : String → Option (List UserModel)

namespace Database

/-- The file that is created on the first use after `removeFiles`. -/
def empty : Database := ⟨fun _ => none⟩

def setTable (d : Database) (name : String) (rows : Option (List UserModel)) : Database :=
  ⟨fun n => if n = name then rows else d.tables n⟩

/-- `CREATE TABLE IF NOT EXISTS` -/
def create (d : Database) (table : String) : Except WCDBError Database :=
  .ok (d.setTable table (some ((d.tables table).getD [])))

/-- A statement on the rows of a table; it throws if there is no such table. -/
def onTable (d : Database) (table : String) (change : List UserModel → List UserModel) :
    Except WCDBError Database :=
  match d.tables table with
  | some rows => .ok (d.setTable table (some (change rows)))
  | none => .error .noSuchTable

def insert (d : Database) (objects : List UserModel) (intoTable : String) :
    Except WCDBError Database :=
  d.onTable intoTable (· ++ objects)

def update (d : Database) (table : String) (propertys : List UserProperty) (object : UserModel)
    (condition : Option Condition) : Except WCDBError Database :=
  d.onTable table (updated propertys object condition)

def delete (d : Database) (fromTable : String) (condition : Option Condition) :
    Except WCDBError Database :=
  d.onTable fromTable (remaining condition)

def getObjects (d : Database) (fromTable : String) (condition : Option Condition)
    (orderList : Option OrderBy) : Except WCDBError (List UserModel) :=
  match d.tables fromTable with
  | some rows => .ok (selected condition orderList rows)
  | none => .error .noSuchTable

/-- `DROP TABLE IF EXISTS` -/
def drop (d : Database) (table : String) : Except WCDBError Database := .ok (d.setTable table none)

/-- `close(onClosed:)` whose block removes the files. -/
def closeAndRemoveFiles (_ : Database) : Except WCDBError Database := .ok .empty

end Database

inductive DBTableName
  | userTable
deriving DecidableEq

def DBTableName.rawValue : DBTableName → String
  | .userTable => "userTable"

structure DBmanager where
  db : Option Database

inductive DBCall
  | inser (objects : List UserModel) (intoTable : DBTableName)
  | update (fromTable : DBTableName) (propertys : List UserProperty) (object : UserModel)
    (condition : Option Condition)
  | deleteFromDb (fromTable : DBTableName) (condition : Option Condition)
  | qurey (fromTable : DBTableName) (condition : Option Condition) (orderList : Option OrderBy)
  | dropTable (table : DBTableName)
  | removeDbFile

namespace DBmanager

/-- `do { try db?.statement } catch { debugPrint }`: an error leaves everything as it was. -/
def attempt (m : DBmanager) (statement : Database → Except WCDBError Database) : DBmanager :=
  match m.db with
  | none => m
  | some d =>
    match statement d with
    | .ok d => ⟨some d⟩
    | .error _ => m

def createTable (m : DBmanager) (table : DBTableName) : DBmanager :=
  m.attempt (·.create table.rawValue)

/-- `init()` on what the file at `basePath` holds already. -/
def init (disk : Database) : DBmanager := createTable ⟨some disk⟩ .userTable

def inser (m : DBmanager) (objects : List UserModel) (table : DBTableName) : DBmanager :=
  m.attempt (·.insert objects table.rawValue)

def update (m : DBmanager) (table : DBTableName) (propertys : List UserProperty)
    (object : UserModel) (condition : Option Condition) : DBmanager :=
  m.attempt (·.update table.rawValue propertys object condition)

def deleteFromDb (m : DBmanager) (table : DBTableName) (condition : Option Condition) : DBmanager :=
  m.attempt (·.delete table.rawValue condition)

def qurey (m : DBmanager) (table : DBTableName) (condition : Option Condition)
    (orderList : Option OrderBy) : Option (List UserModel) :=
  m.db.bind fun d => (d.getObjects table.rawValue condition orderList).toOption

def dropTable (m : DBmanager) (table : DBTableName) : DBmanager :=
  m.attempt (·.drop table.rawValue)

def removeDbFile (m : DBmanager) : DBmanager := m.attempt (·.closeAndRemoveFiles)

def call (m : DBmanager) : DBCall → DBmanager
  | .inser objects table => m.inser objects table
  | .update table propertys object condition => m.update table propertys object condition
  | .deleteFromDb table condition => m.deleteFromDb table condition
  | .qurey _ _ _ => m
  | .dropTable table => m.dropTable table
  | .removeDbFile => m.removeDbFile

/-- The rows of `userTable`, if there is such a table. -/
def rows (m : DBmanager) : Option (List UserModel) :=
  m.db.bind fun d => d.tables DBTableName.userTable.rawValue

end DBmanager

/-- `inser`, `update`, `deleteFromDb` and `qurey` need the table. -/
def DBCall.usesTable : DBCall → Bool
  | .dropTable _ | .removeDbFile => false
  | _ => true

/-- What the objects inserted so far become by a call. -/
def DBCall.keeps : DBCall → List UserModel → List UserModel
  | .inser objects _, rows => rows ++ objects
  | .update _ propertys object condition, rows => updated propertys object condition rows
  | .deleteFromDb _ condition, rows => remaining condition rows
  | .qurey _ _ _, rows => rows
  | .dropTable _, _ | .removeDbFile, _ => []

/-- The objects inserted since the last `dropTable` or `removeDbFile`, as changed since then,
if the file held `old` to start with. -/
def inserted (old : List UserModel) (calls : List DBCall) : List UserModel :=
  calls.foldl (fun rows call => call.keeps rows) old

theorem DBmanager.rows_onTable {m : DBmanager} {change : List UserModel → List UserModel}
    {table : DBTableName} :
    (m.attempt (·.onTable table.rawValue change)).rows = m.rows.map change := by
  cases table
  unfold attempt rows
  cases h : m.db with
  | none => simp [h]
  | some d =>
    unfold Database.onTable
    cases ht : d.tables DBTableName.userTable.rawValue with
    | none => simp [h, ht]
    | some rows => simp [Database.setTable, ht]

/-- A call on the table changes its rows as it should, and does nothing without the table. -/
theorem DBmanager.rows_call {m : DBmanager} {call : DBCall} :
    (m.call call).rows = if call.usesTable then m.rows.map call.keeps else none := by
  cases call with
  | inser objects table => exact rows_onTable
  | update table propertys object condition => exact rows_onTable
  | deleteFromDb table condition => exact rows_onTable
  | qurey table condition orderList => exact Option.map_id'.symm
  | dropTable table =>
    obtain ⟨db⟩ := m
    cases table
    cases db <;> rfl
  | removeDbFile =>
    obtain ⟨db⟩ := m
    cases db <;> rfl

theorem DBmanager.rows_init (disk : Database) :
    (init disk).rows = some ((disk.tables DBTableName.userTable.rawValue).getD []) := by
  simp [init, createTable, attempt, rows, Database.create, Database.setTable]

theorem DBmanager.rows_calls {m : DBmanager} {calls : List DBCall} {old : List UserModel}
    (have_rows : m.rows = some old) (keep : ∀ c ∈ calls, c.usesTable = true) :
    (calls.foldl call m).rows = some (inserted old calls) := by
  induction calls generalizing m old with
  | nil => exact have_rows
  | cons c calls ih =>
    have uses := keep c List.mem_cons_self
    refine ih ?_ fun d hd => keep d (List.mem_cons_of_mem c hd)
    rw [rows_call, if_pos uses, have_rows]
    rfl

theorem DBmanager.rows_lost {m : DBmanager} {calls : List DBCall} (lost : m.rows = none) :
    (calls.foldl call m).rows = none := by
  induction calls generalizing m with
  | nil => exact lost
  | cons c calls ih =>
    apply ih
    rw [rows_call, lost]
    split <;> rfl

/-- Once the table or its file is gone, no call brings it back. -/
theorem DBmanager.rows_destroyed {m : DBmanager} {calls : List DBCall} {c : DBCall}
    (hc : c ∈ calls) (destroys : c.usesTable = false) : (calls.foldl call m).rows = none := by
  obtain ⟨past, rest, rfl⟩ := List.append_of_mem hc
  rw [List.foldl_append, List.foldl_cons]
  apply rows_lost
  rw [rows_call, destroys]
  rfl

theorem DBmanager.qurey_unconditional {m : DBmanager} :
    m.qurey .userTable none none = m.rows := by
  unfold qurey rows Database.getObjects
  cases m.db with
  | none => rfl
  | some d =>
    cases h : d.tables DBTableName.userTable.rawValue with
    | none => simp [h, Except.toOption]
    | some rows =>
      simp [h, Except.toOption, selected, Condition.holds]

/-- Whenever a call needs the table it exists, and an unconditional `qurey` returns the
objects inserted and still kept. -/
def Usable (disk : Database) (calls : List DBCall) : Prop :=
  ∀ past c rest, calls = past ++ c :: rest → c.usesTable = true →
    let m := past.foldl DBmanager.call (DBmanager.init disk)
    m.rows.isSome ∧ (c = .qurey .userTable none none → m.qurey .userTable none none =
      some (inserted ((disk.tables DBTableName.userTable.rawValue).getD []) past))

/-- The manager keeps its table usable and loses no insert if and only if nothing is inserted,
updated, deleted or queried after a `dropTable` or `removeDbFile`. -/
theorem dbmanager_usable_iff (disk : Database) (calls : List DBCall) :
    Usable disk calls ↔ ∀ past c rest, calls = past ++ c :: rest → c.usesTable = true →
      ∀ d ∈ past, d.usesTable = true := by
  apply Iff.intro
  · intro usable past c rest split uses d hd
    by_contra destroys
    have lost : (past.foldl DBmanager.call (DBmanager.init disk)).rows = none :=
      DBmanager.rows_destroyed hd (by simpa using destroys)
    have kept := (usable past c rest split uses).1
    rw [lost] at kept
    cases kept
  · intro order past c rest split uses
    have kept := DBmanager.rows_calls (DBmanager.rows_init disk) (order past c rest split uses)
    refine ⟨by rw [kept]; rfl, ?_⟩
    intro _
    rw [DBmanager.qurey_unconditional]
    exact kept

/-- An insert after `dropTable` is lost. -/
theorem insert_after_drop_lost : ¬ Usable .empty
    [.dropTable .userTable, .inser [⟨1, "n", 0⟩] .userTable, .qurey .userTable none none] := by
  intro usable
  have kept := (usable [.dropTable .userTable] _ _ rfl rfl).1
  rw [DBmanager.rows_destroyed List.mem_cons_self rfl] at kept
  cases kept

end SwiftApp
