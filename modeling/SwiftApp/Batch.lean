import SwiftApp.Slots
import SwiftApp.ObjectKey

namespace SwiftApp

open StepRun Slots

/-- One call of a multi-image method, with at least one image and both blocks given. -/
structure Batch where
  entry : EntryPoint
  images : List NSData
  nonempty : images ≠ []
  clock : Nat → Int
  successBlock : Nat
  faile : Nat

def Batch.size (b : Batch) : Nat := b.images.length

/-- The tool after the call, and the uploads that its loop has started. -/
def Batch.call (b : Batch) (tool : AliyunOSSTool) : AliyunOSSTool × List Upload :=
  b.entry.start b.images b.clock (some b.successBlock) (some b.faile) tool

def Batch.start (b : Batch) (tool : AliyunOSSTool) : AliyunOSSTool := (b.call tool).1

def Batch.uploads (b : Batch) : List Upload := (b.call ⟨[], []⟩).2

def Batch.url (b : Batch) (i : Nat) : String :=
  b.entry.imageURL (objectKey "customer" (b.clock i + 10000 * i))

def Batch.urls (b : Batch) : List String := (List.range b.size).map b.url

/-- An order in which the completion blocks of a batch reach the main queue. -/
structure Batch.Order (b : Batch) where
  blocks : List Upload
  perm : blocks.Perm b.uploads

theorem Batch.size_pos (b : Batch) : 0 < b.size := List.length_pos_iff.mpr b.nonempty

theorem Batch.url_ne_notValue (b : Batch) (i : Nat) : b.url i ≠ "notValue" :=
  imageURL_ne_notValue b.entry _

theorem Batch.uploads_eq (b : Batch) :
    b.uploads = b.entry.uploads b.images b.clock (some b.successBlock) (some b.faile) := by
  rw [Batch.uploads, Batch.call, EntryPoint.start_eq]

/-- The loop starts the same uploads whatever the array holds before. -/
theorem Batch.call_uploads (b : Batch) (tool : AliyunOSSTool) : (b.call tool).2 = b.uploads := by
  rw [Batch.uploads_eq, Batch.call, EntryPoint.start_eq]

theorem Batch.mem_uploads {b : Batch} {u : Upload} (h : u ∈ b.uploads) :
    u.index < b.size ∧ u.imageURL = b.url u.index ∧ u.successBlock = some b.successBlock ∧
      u.faile = some b.faile := by
  rw [Batch.uploads_eq] at h
  obtain ⟨i, hi, rfl⟩ := List.mem_mapIdx.mp h
  exact ⟨hi, rfl, rfl, rfl⟩

theorem Batch.uploads_index (b : Batch) : b.uploads.map Upload.index = List.range b.size := by
  apply List.ext_getElem (by simp [Batch.uploads_eq, EntryPoint.uploads, Batch.size])
  intro i hi _
  simp [Batch.uploads_eq, EntryPoint.uploads, uploadOne]

theorem Batch.uploads_nodup (b : Batch) : b.uploads.Nodup :=
  List.Nodup.of_map Upload.index (b.uploads_index ▸ List.nodup_range)

theorem Batch.eq_of_index {b : Batch} {u v : Upload} (hu : u ∈ b.uploads) (hv : v ∈ b.uploads)
    (h : u.index = v.index) : u = v :=
  List.inj_on_of_nodup_map (b.uploads_index ▸ List.nodup_range) hu hv h

theorem Batch.start_dataSourece (b : Batch) (tool : AliyunOSSTool) :
    b.start tool = { tool with dataSourece := List.replicate b.size "notValue" } := by
  simp only [Batch.start, Batch.call, EntryPoint.start_eq, Batch.size]

/-- The images whose completion block is still to come. -/
def waiting (blocks : List Upload) : Finset Nat := (blocks.map Upload.index).toFinset

theorem mem_waiting {blocks : List Upload} {i : Nat} :
    i ∈ waiting blocks ↔ ∃ u ∈ blocks, u.index = i := by
  simp [waiting]

theorem waiting_perm {xs ys : List Upload} (h : xs.Perm ys) : waiting xs = waiting ys := by
  ext i
  simp only [mem_waiting, h.mem_iff]

theorem waiting_erase {u : Upload} {blocks : List Upload}
    (nodup : ((u :: blocks).map Upload.index).Nodup) :
    (waiting (u :: blocks)).erase u.index = waiting blocks := by
  simp only [List.map_cons, List.nodup_cons] at nodup
  simp only [waiting, List.map_cons, List.toFinset_cons]
  exact Finset.erase_insert (by simpa using nodup.1)

/-- A board of URLs over which completion blocks arrive. -/
structure Board (url : Nat → String) (n : Nat) (blocks : List Upload) : Prop where
  fresh : ∀ i, url i ≠ "notValue"
  member : ∀ u ∈ blocks, u.index < n ∧ u.imageURL = url u.index
  nodup : (blocks.map Upload.index).Nodup

theorem Board.tail {url : Nat → String} {n : Nat} {u : Upload} {blocks : List Upload}
    (h : Board url n (u :: blocks)) : Board url n blocks :=
  ⟨h.fresh, fun v hv => h.member v (List.mem_cons_of_mem u hv), (List.nodup_cons.mp h.nodup).2⟩

theorem replace_slots {url : Nat → String} {n : Nat} {u : Upload} {blocks : List Upload}
    {tool : AliyunOSSTool} (h : Board url n (u :: blocks))
    (data : tool.dataSourece = slots "notValue" url n (waiting (u :: blocks))) :
    u.replace tool = some { tool with dataSourece := slots "notValue" url n (waiting blocks) } := by
  obtain ⟨bound, value⟩ := h.member u (by simp)
  simp only [Upload.replace, replaceObjectAtIndex, data, slots_length, if_pos bound, value, slots_set,
    waiting_erase h.nodup, Option.map_some]

theorem containsNotValue_slots {url : Nat → String} {n : Nat} {blocks : List Upload}
    {tool : AliyunOSSTool} (h : Board url n blocks)
    (data : tool.dataSourece = slots "notValue" url n (waiting blocks)) :
    tool.containsNotValue = true ↔ blocks ≠ [] := by
  rw [AliyunOSSTool.containsNotValue, data, List.contains_iff_mem, blank_mem_slots fun i _ => h.fresh i]
  apply Iff.intro
  · intro waited empty
    obtain ⟨i, _, hw⟩ := waited
    obtain ⟨u, hu, _⟩ := mem_waiting.mp hw
    simp [empty] at hu
  · intro hne
    obtain ⟨u, hu⟩ := List.exists_mem_of_ne_nil _ hne
    exact ⟨u.index, (h.member u hu).1, mem_waiting.mpr ⟨u, hu, rfl⟩⟩

theorem completion_slots_waiting {url : Nat → String} {n : Nat} {u : Upload} {blocks : List Upload}
    {tool : AliyunOSSTool} (h : Board url n (u :: blocks)) (hne : blocks ≠ [])
    (data : tool.dataSourece = slots "notValue" url n (waiting (u :: blocks))) :
    u.completion none tool =
      some { tool with dataSourece := slots "notValue" url n (waiting blocks) } := by
  have left : ({ tool with dataSourece := slots "notValue" url n (waiting blocks) } :
      AliyunOSSTool).containsNotValue := (containsNotValue_slots h.tail rfl).mpr hne
  simp only [Upload.completion, replace_slots h data, Option.map_some, left, if_true]

theorem completion_slots_last {url : Nat → String} {n block : Nat} {u : Upload}
    {tool : AliyunOSSTool} (h : Board url n [u]) (hs : u.successBlock = some block)
    (data : tool.dataSourece = slots "notValue" url n (waiting [u])) :
    u.completion none tool =
      some ⟨(List.range n).map url, tool.callbacks ++ [.success block ((List.range n).map url)]⟩ := by
  have full : slots "notValue" url n (waiting []) = (List.range n).map url :=
    slots_none_waiting fun i _ hi => by simp [waiting] at hi
  have left : ({ tool with dataSourece := slots "notValue" url n (waiting []) } :
      AliyunOSSTool).containsNotValue = false := by
    by_contra hc
    exact (containsNotValue_slots h.tail rfl).mp (by simpa using hc) rfl
  have room : ¬ n < 1 := by have := (h.member u (by simp)).1; omega
  rw [full] at left
  simp only [Upload.completion, replace_slots h data, Option.map_some, full, left, Bool.false_eq_true,
    if_false, Upload.report, hs, List.length_map, List.length_range, if_neg room]

/-- As long as blocks are still to come, successful ones only fill their places. -/
theorem run_slots_waiting {url : Nat → String} {n : Nat} {errors : Upload → Option NSError}
    (past : List Upload) {blocks : List Upload} {tool : AliyunOSSTool}
    (h : Board url n (past ++ blocks)) (hne : blocks ≠ []) (ok : ∀ u ∈ past, errors u = none)
    (data : tool.dataSourece = slots "notValue" url n (waiting (past ++ blocks))) :
    run (handle errors) tool past =
      some { tool with dataSourece := slots "notValue" url n (waiting blocks) } := by
  induction past generalizing tool with
  | nil =>
    rw [List.nil_append] at data
    rw [run_nil, ← data]
  | cons u past ih =>
    have first : handle errors tool u = some { tool with
        dataSourece := slots "notValue" url n (waiting (past ++ blocks)) } := by
      rw [handle, ok u (by simp)]
      exact completion_slots_waiting h (by simp [hne]) data
    rw [run_cons, first, Option.bind_some]
    exact ih h.tail (fun v hv => ok v (by simp [hv])) rfl

/-- Different blocks of one batch make a board for any number of places that has room for them. -/
theorem Batch.board {b : Batch} {n : Nat} {blocks : List Upload} (owned : ∀ u ∈ blocks, u ∈ b.uploads)
    (room : ∀ u ∈ blocks, u.index < n) (nodup : blocks.Nodup) : Board b.url n blocks where
  fresh := b.url_ne_notValue
  member u hu := ⟨room u hu, (Batch.mem_uploads (owned u hu)).2.1⟩
  nodup := by
    refine List.Nodup.map_on ?_ nodup
    intro u hu v hv same
    exact Batch.eq_of_index (owned u hu) (owned v hv) same

theorem Batch.Order.board {b : Batch} (o : b.Order) : Board b.url b.size o.blocks := by
  have owned : ∀ u ∈ o.blocks, u ∈ b.uploads := fun u hu => o.perm.mem_iff.mp hu
  exact Batch.board owned (fun u hu => (Batch.mem_uploads (owned u hu)).1)
    (o.perm.nodup_iff.mpr b.uploads_nodup)

theorem Batch.Order.start_slots {b : Batch} (o : b.Order) (tool : AliyunOSSTool) :
    (b.start tool).dataSourece = slots "notValue" b.url b.size (waiting o.blocks) := by
  rw [b.start_dataSourece]
  refine (slots_all_waiting ?_).symm
  intro i hi
  have same := o.perm.map Upload.index
  rw [b.uploads_index] at same
  simpa [waiting] using same.mem_iff.mpr (List.mem_range.mpr hi)

theorem Batch.Order.blocks_ne_nil {b : Batch} (o : b.Order) : o.blocks ≠ [] := by
  intro empty
  have same := (o.perm.map Upload.index).length_eq
  rw [empty, b.uploads_index] at same
  have := b.size_pos
  simp at same
  omega

theorem Batch.uploads_ne_nil (b : Batch) : b.uploads ≠ [] :=
  fun h => (show b.Order from ⟨b.uploads, .refl _⟩).blocks_ne_nil h

end SwiftApp
