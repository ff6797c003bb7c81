import SwiftApp.DBmanager
import Mathlib.Tactic.NormNum

namespace SwiftApp

/-- A line that is printed: its text, and the users whose fields stand in it. -/
structure Line where
  text : String
  users : List UserModel
deriving DecidableEq

structure WCDBViewController where
  dbManager : DBmanager
  printed : List Line

namespace WCDBViewController

def print (s : WCDBViewController) (text : String) (users : List UserModel) : WCDBViewController :=
  { s with printed := s.printed ++ [⟨text, users⟩] }

def printEach (s : WCDBViewController) (text : String) (users : List UserModel) : WCDBViewController :=
  users.foldl (fun s user => s.print text [user]) s

/-- `Column(named: "id") == 1` and `UserModel.Properties.id == 1` -/
def idIsOne : Condition := fun row => row.id = 1

def newUser : UserModel := ⟨1, "张三8", 1256 / 10⟩

/-- A new `UserModel` with its name and its height set. -/
def userToUpdate : UserModel := ⟨0, "NewName", 180⟩

def propertiesToUpdate : List UserProperty := [.name, .height]

def usersWithIdOne (s : WCDBViewController) : Option (List UserModel) :=
  s.dbManager.qurey .userTable (some idIsOne) none

def addAction (s : WCDBViewController) : WCDBViewController :=
  let s := s.print "执行增加操作" []
  let s := { s with dbManager := s.dbManager.inser [newUser] .userTable }
  s.print "添加的数据: " [newUser]

def deleteAction (s : WCDBViewController) : WCDBViewController :=
  match s.usersWithIdOne with
  | none => s
  | some usersToDelete =>
    if usersToDelete.isEmpty then s.print "没有找到符合条件的数据" []
    else
      let s := s.printEach "即将删除的数据: 用户ID: , 姓名: " usersToDelete
      let s := { s with dbManager := s.dbManager.deleteFromDb .userTable (some idIsOne) }
      if s.usersWithIdOne.any List.isEmpty then s.print "删除成功，数据已不存在。" []
      else s.print "删除失败，数据仍然存在。" []

/-- The part of `updateAction` after the check that there is a user. -/
def performUpdate (s : WCDBViewController) : WCDBViewController :=
  let s := { s with
    dbManager := s.dbManager.update .userTable propertiesToUpdate userToUpdate (some idIsOne) }
  match s.usersWithIdOne with
  | none => s
  | some updatedUsers =>
    if updatedUsers.isEmpty then s.print "更新后未找到任何符合条件的记录" []
    else s.printEach "更新后的用户ID: , 姓名: , 身高: " updatedUsers

def updateAction (s : WCDBViewController) : WCDBViewController :=
  let s := s.print "执行更新操作" []
  match s.usersWithIdOne with
  | none => s.performUpdate
  | some existingUsers =>
    if existingUsers.isEmpty then s.print "没有找到符合条件的记录，无法更新" []
    else (s.print "找到要更新的用户: " existingUsers).performUpdate

def queryAction (s : WCDBViewController) : WCDBViewController :=
  let s := s.print "执行查询操作" []
  match s.dbManager.qurey .userTable none none with
  | none => s
  | some users => s.printEach "用户ID: , 姓名: , 身高: " users

def buttonTapped (s : WCDBViewController) (tag : ℤ) : WCDBViewController :=
  if tag = 0 then s.addAction
  else if tag = 1 then s.deleteAction
  else if tag = 2 then s.updateAction
  else if tag = 3 then s.queryAction
  else s

def start (disk : Database) : WCDBViewController := ⟨.init disk, []⟩

/-- The users in the table: those it had, the ones added and changed since, and the ones added
since the last change. -/
structure Users where
  old : List UserModel
  renamed : ℕ
  added : ℕ

def Users.rows (u : Users) : List UserModel :=
  u.old ++ List.replicate u.renamed { userToUpdate with id := 1 } ++ List.replicate u.added newUser

def Users.tap (u : Users) (tag : ℤ) : Users :=
  if tag = 0 then { u with added := u.added + 1 }
  else if tag = 1 then ⟨u.old.filter (·.id ≠ 1), 0, 0⟩
  else if tag = 2 then
    ⟨u.old.map fun row => if row.id = 1 then { userToUpdate with id := 1 } else row,
      u.renamed + u.added, 0⟩
  else u

theorem printEach_dbManager (s : WCDBViewController) (text : String) (users : List UserModel) :
    (s.printEach text users).dbManager = s.dbManager := by
  unfold printEach
  induction users generalizing s with
  | nil => rfl
  | cons user users ih => exact ih (s.print text [user])

theorem printEach_printed (s : WCDBViewController) (text : String) (users : List UserModel) :
    (s.printEach text users).printed = s.printed ++ users.map fun user => ⟨text, [user]⟩ := by
  unfold printEach
  induction users generalizing s with
  | nil => exact (List.append_nil _).symm
  | cons user users ih =>
    rw [List.foldl_cons, ih]
    simp [print]

theorem usersWithIdOne_eq (s : WCDBViewController) :
    s.usersWithIdOne = s.dbManager.rows.map (·.filter idIsOne) := by
  unfold usersWithIdOne DBmanager.qurey DBmanager.rows Database.getObjects
  cases s.dbManager.db with
  | none => rfl
  | some d =>
    cases h : d.tables DBTableName.userTable.rawValue with
    | none => simp [h, Except.toOption]
    | some rows =>
      have holds : Condition.holds (some idIsOne) = idIsOne := rfl
      simp [h, Except.toOption, selected, holds]

theorem rows_deleteFromDb (m : DBmanager) :
    (m.deleteFromDb .userTable (some idIsOne)).rows = m.rows.map (remaining (some idIsOne)) :=
  DBmanager.rows_onTable

theorem rows_update (m : DBmanager) :
    (m.update .userTable propertiesToUpdate userToUpdate (some idIsOne)).rows =
      m.rows.map (updated propertiesToUpdate userToUpdate (some idIsOne)) :=
  DBmanager.rows_onTable

theorem rows_inser (m : DBmanager) :
    (m.inser [newUser] .userTable).rows = m.rows.map (· ++ [newUser]) :=
  DBmanager.rows_onTable

theorem remaining_idIsOne (rows : List UserModel) :
    remaining (some idIsOne) rows = rows.filter (·.id ≠ 1) := by
  refine List.filter_congr fun row _ => ?_
  by_cases one : row.id = 1 <;> simp [Condition.holds, idIsOne, one]

theorem updated_idIsOne (rows : List UserModel) :
    updated propertiesToUpdate userToUpdate (some idIsOne) rows =
      rows.map fun row => if row.id = 1 then { userToUpdate with id := 1 } else row := by
  refine List.map_congr_left fun row _ => ?_
  by_cases one : row.id = 1 <;>
    simp [Condition.holds, idIsOne, one, propertiesToUpdate, UserModel.set, userToUpdate]

theorem filter_remaining (rows : List UserModel) :
    (remaining (some idIsOne) rows).filter idIsOne = [] := by
  rw [remaining_idIsOne, List.filter_filter]
  apply List.filter_eq_nil_iff.mpr
  intro row _
  simp [idIsOne]

/-- After the change the users with the id are as many as before, and all the same. -/
theorem filter_updated (rows : List UserModel) :
    (updated propertiesToUpdate userToUpdate (some idIsOne) rows).filter idIsOne =
      (rows.filter idIsOne).map fun _ => { userToUpdate with id := 1 } := by
  rw [updated_idIsOne]
  induction rows with
  | nil => rfl
  | cons row rows ih =>
    by_cases one : row.id = 1
    · simp [idIsOne, one, ih]
    · simp [idIsOne, one, ih]

theorem none_with_idIsOne {rows : List UserModel} (none_left : rows.filter idIsOne = []) :
    rows.filter (·.id ≠ 1) = rows ∧
      rows.map (fun row => if row.id = 1 then { userToUpdate with id := 1 } else row) = rows := by
  have other : ∀ row ∈ rows, row.id ≠ 1 := by
    intro row listed one
    exact List.filter_eq_nil_iff.mp none_left row listed (by simp [idIsOne, one])
  refine ⟨List.filter_eq_self.mpr fun row listed => by simpa using other row listed, ?_⟩
  calc rows.map (fun row => if row.id = 1 then { userToUpdate with id := 1 } else row)
      = rows.map id := List.map_congr_left fun row listed => if_neg (other row listed)
    _ = rows := List.map_id rows

theorem Users.tap_rows (u : Users) :
    (u.tap 0).rows = u.rows ++ [newUser] ∧ (u.tap 1).rows = u.rows.filter (·.id ≠ 1) ∧
      (u.tap 2).rows =
        u.rows.map fun row => if row.id = 1 then { userToUpdate with id := 1 } else row := by
  refine ⟨?_, ?_, ?_⟩
  · show _ ++ List.replicate (u.added + 1) newUser = _
    rw [List.replicate_succ', ← List.append_assoc]
    rfl
  · simp [Users.tap, Users.rows, newUser, userToUpdate]
  · simp [Users.tap, Users.rows, newUser, List.append_assoc]

theorem performUpdate_dbManager (s : WCDBViewController) : s.performUpdate.dbManager =
    s.dbManager.update .userTable propertiesToUpdate userToUpdate (some idIsOne) := by
  unfold performUpdate
  dsimp only
  split
  next => rfl
  next =>
    split
    next => rfl
    next => exact printEach_dbManager _ _ _

theorem queryAction_dbManager (s : WCDBViewController) : s.queryAction.dbManager = s.dbManager := by
  unfold queryAction
  dsimp only
  split
  next => rfl
  next => exact printEach_dbManager _ _ _

/-- Tap after tap the table holds the users of the counts. -/
theorem rows_buttonTapped {s : WCDBViewController} {u : Users} (tag : ℤ)
    (rows : s.dbManager.rows = some u.rows) :
    (s.buttonTapped tag).dbManager.rows = some (u.tap tag).rows := by
  obtain ⟨add, delete, update⟩ := u.tap_rows
  have found := s.usersWithIdOne_eq
  rw [rows, Option.map_some] at found
  unfold buttonTapped
  split
  next zero =>
    rw [zero, add]
    show (s.dbManager.inser [newUser] .userTable).rows = _
    rw [rows_inser, rows]
    rfl
  next =>
    split
    next one =>
      rw [one, delete]
      unfold deleteAction
      rw [found]
      dsimp only
      split
      next empty =>
        rw [(none_with_idIsOne (List.isEmpty_iff.mp empty)).1]
        exact rows
      next =>
        have deleted : ((s.printEach "即将删除的数据: 用户ID: , 姓名: "
            (u.rows.filter idIsOne)).dbManager.deleteFromDb .userTable (some idIsOne)).rows =
              some (u.rows.filter (·.id ≠ 1)) := by
          rw [rows_deleteFromDb, printEach_dbManager, rows, Option.map_some, remaining_idIsOne]
        split <;> exact deleted
    next =>
      split
      next two =>
        have changed {t : WCDBViewController} (same : t.dbManager = s.dbManager) :
            t.performUpdate.dbManager.rows = some (u.rows.map fun row =>
              if row.id = 1 then { userToUpdate with id := 1 } else row) := by
          rw [performUpdate_dbManager, same, rows_update, rows, Option.map_some, updated_idIsOne]
        rw [two, update]
        unfold updateAction
        have found' : (s.print "执行更新操作" []).usersWithIdOne = some (u.rows.filter idIsOne) := found
        dsimp only
        rw [found']
        dsimp only
        split
        next empty =>
          rw [(none_with_idIsOne (List.isEmpty_iff.mp empty)).2]
          exact rows
        next => exact changed rfl
      next other =>
        have stays : u.tap tag = u := by
          unfold Users.tap
          rw [if_neg ‹_›, if_neg ‹_›, if_neg other]
        rw [stays]
        split
        next => rw [queryAction_dbManager, rows]
        next => exact rows

/-- No line says that a deletion failed or that an updated user is gone, and each line about an
updated user shows the new name and height. -/
def Truthful (line : Line) : Prop :=
  line.text ≠ "删除失败，数据仍然存在。" ∧ line.text ≠ "更新后未找到任何符合条件的记录" ∧
    (line.text = "更新后的用户ID: , 姓名: , 身高: " → line.users = [{ userToUpdate with id := 1 }])

theorem truthful_print {s : WCDBViewController} (text : String) (users : List UserModel)
    (before : ∀ line ∈ s.printed, Truthful line) (new : Truthful ⟨text, users⟩) :
    ∀ line ∈ (s.print text users).printed, Truthful line := by
  intro line printed
  rcases List.mem_append.mp printed with old | last
  · exact before line old
  · cases List.mem_singleton.mp last
    exact new

theorem truthful_printEach {s : WCDBViewController} {text : String} {users : List UserModel}
    (before : ∀ line ∈ s.printed, Truthful line) (new : ∀ user ∈ users, Truthful ⟨text, [user]⟩) :
    ∀ line ∈ (s.printEach text users).printed, Truthful line := by
  intro line printed
  rw [printEach_printed] at printed
  rcases List.mem_append.mp printed with old | last
  · exact before line old
  · obtain ⟨user, listed, rfl⟩ := List.mem_map.mp last
    exact new user listed

theorem truthful_deleteAction {s : WCDBViewController} (before : ∀ line ∈ s.printed, Truthful line) :
    ∀ line ∈ s.deleteAction.printed, Truthful line := by
  unfold deleteAction
  split
  next => exact before
  next users found =>
    split
    next => exact truthful_print _ _ before (by simp [Truthful])
    next =>
      have listed : ∀ line ∈ (s.printEach "即将删除的数据: 用户ID: , 姓名: " users).printed, Truthful line :=
        truthful_printEach before fun user _ => by simp [Truthful]
      dsimp only
      split
      next => exact truthful_print _ _ listed (by simp [Truthful])
      next left =>
        apply (left _).elim
        rw [usersWithIdOne_eq] at found
        obtain ⟨rows, have_rows, -⟩ := Option.map_eq_some_iff.mp found
        rw [usersWithIdOne_eq, rows_deleteFromDb, printEach_dbManager, have_rows, Option.map_some,
          Option.map_some, filter_remaining]
        rfl

theorem truthful_performUpdate {s : WCDBViewController} (before : ∀ line ∈ s.printed, Truthful line)
    (someone : s.usersWithIdOne ≠ some []) : ∀ line ∈ s.performUpdate.printed, Truthful line := by
  unfold performUpdate
  dsimp only
  split
  next => exact before
  next users found =>
    rw [usersWithIdOne_eq, rows_update, Option.map_map] at found
    obtain ⟨rows, have_rows, changed⟩ := Option.map_eq_some_iff.mp found
    rw [Function.comp_apply, filter_updated] at changed
    rw [usersWithIdOne_eq, have_rows, Option.map_some] at someone
    split
    next empty =>
      rw [List.isEmpty_iff, ← changed, List.map_eq_nil_iff] at empty
      exact absurd (congrArg some empty) someone
    next =>
      refine truthful_printEach before fun user listed => ⟨by simp, by simp, fun _ => ?_⟩
      rw [← changed] at listed
      obtain ⟨old, -, rfl⟩ := List.mem_map.mp listed
      rfl

theorem truthful_updateAction {s : WCDBViewController} (before : ∀ line ∈ s.printed, Truthful line) :
    ∀ line ∈ s.updateAction.printed, Truthful line := by
  have started := truthful_print "执行更新操作" [] before (by simp [Truthful])
  unfold updateAction
  dsimp only
  split
  next none_found =>
    refine truthful_performUpdate started fun nobody => ?_
    rw [none_found] at nobody
    cases nobody
  next users found =>
    split
    next => exact truthful_print _ _ started (by simp [Truthful])
    next someone =>
      refine truthful_performUpdate (truthful_print _ _ started (by simp [Truthful])) fun nobody => ?_
      have found' : (s.print "执行更新操作" []).usersWithIdOne = some [] := nobody
      rw [found] at found'
      cases found'
      exact someone rfl

theorem truthful_buttonTapped {s : WCDBViewController} (tag : ℤ)
    (before : ∀ line ∈ s.printed, Truthful line) : ∀ line ∈ (s.buttonTapped tag).printed, Truthful line := by
  unfold buttonTapped
  split
  next =>
    have started := truthful_print "执行增加操作" [] before (by simp [Truthful])
    exact truthful_print (s := { s.print "执行增加操作" [] with
      dbManager := s.dbManager.inser [newUser] .userTable }) _ _ started (by simp [Truthful])
  next =>
    split
    next => exact truthful_deleteAction before
    next =>
      split
      next => exact truthful_updateAction before
      next =>
        split
        next =>
          have started := truthful_print "执行查询操作" [] before (by simp [Truthful])
          unfold queryAction
          dsimp only
          split
          next => exact started
          next => exact truthful_printEach started fun user _ => by simp [Truthful]
        next => exact before

theorem Users.tap_others (u : Users) (tag : ℤ) :
    (u.tap tag).rows.filter (·.id ≠ 1) = u.rows.filter (·.id ≠ 1) := by
  obtain ⟨add, delete, update⟩ := u.tap_rows
  by_cases zero : tag = 0
  · rw [zero, add]
    simp [newUser]
  · by_cases one : tag = 1
    · rw [one, delete, List.filter_filter]
      simp
    · by_cases two : tag = 2
      · rw [two, update, List.filter_map]
        have same : ((fun row : UserModel => decide (row.id ≠ 1)) ∘ fun row =>
            if row.id = 1 then { userToUpdate with id := 1 } else row) =
            fun row => decide (row.id ≠ 1) := by
          funext row
          by_cases one : row.id = 1 <;> simp [one]
        rw [same]
        apply (none_with_idIsOne _).2
        rw [List.filter_filter]
        exact List.filter_eq_nil_iff.mpr fun row _ => by simp [idIsOne]
      · unfold Users.tap
        rw [if_neg zero, if_neg one, if_neg two]

/-- However the buttons are tapped, the table holds the users it had and those that were added and
changed since the last deletion, users with other ids stay as they were, and what is printed about
deletions and updates is true. -/
theorem taps_keep_users (disk : Database) (tags : List ℤ) :
    let old := (disk.tables DBTableName.userTable.rawValue).getD []
    let s := tags.foldl buttonTapped (start disk)
    let u := tags.foldl Users.tap ⟨old, 0, 0⟩
    s.dbManager.rows = some u.rows ∧ u.rows.filter (·.id ≠ 1) = old.filter (·.id ≠ 1) ∧
      ∀ line ∈ s.printed, Truthful line := by
  intro old s u
  have started : (start disk).dbManager.rows = some (Users.rows ⟨old, 0, 0⟩) := by
    rw [show Users.rows ⟨old, 0, 0⟩ = old by simp [Users.rows]]
    exact DBmanager.rows_init disk
  have both (tags : List ℤ) (s : WCDBViewController) (u : Users) (rows : s.dbManager.rows = some u.rows)
      (others : u.rows.filter (·.id ≠ 1) = old.filter (·.id ≠ 1))
      (truthful : ∀ line ∈ s.printed, Truthful line) :
      (tags.foldl buttonTapped s).dbManager.rows = some (tags.foldl Users.tap u).rows ∧
        (tags.foldl Users.tap u).rows.filter (·.id ≠ 1) = old.filter (·.id ≠ 1) ∧
          ∀ line ∈ (tags.foldl buttonTapped s).printed, Truthful line := by
    induction tags generalizing s u with
    | nil => exact ⟨rows, others, truthful⟩
    | cons tag tags ih =>
      exact ih _ _ (rows_buttonTapped tag rows) ((u.tap_others tag).trans others)
        (truthful_buttonTapped tag truthful)
  refine both tags _ _ started ?_ fun line none_yet => (by cases none_yet)
  simp [Users.rows]

end WCDBViewController

end SwiftApp
