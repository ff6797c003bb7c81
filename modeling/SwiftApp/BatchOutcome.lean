import SwiftApp.Batch
import Mathlib

namespace SwiftApp

open StepRun Slots

theorem Batch.urls_nodup {b : Batch} (mono : Monotone b.clock) : b.urls.Nodup := by
  refine List.Nodup.map_on ?_ List.nodup_range
  intro i _ j _ same
  have stamps := objectKey_stamp_inj.mp (imageURL_inj.mp same)
  rcases le_total i j with hij | hji
  · have := mono hij
    omega
  · have := mono hji
    omega

theorem Batch.urls_eq_uploads (b : Batch) :
    b.urls = b.uploads.map fun u => b.entry.imageURL u.put.objectKey := by
  apply List.ext_getElem (by simp [Batch.urls, Batch.uploads_eq, EntryPoint.uploads, Batch.size])
  intro i hi _
  simp [Batch.urls, Batch.url, Batch.uploads_eq, EntryPoint.uploads, uploadOne]

theorem Batch.uploads_data (b : Batch) : b.uploads.map (fun u => u.put.uploadingData) = b.images := by
  apply List.ext_getElem (by simp [Batch.uploads_eq, EntryPoint.uploads])
  intro i hi _
  simp [Batch.uploads_eq, EntryPoint.uploads, uploadOne]

theorem Batch.Order.run_waiting {b : Batch} (o : b.Order) {errors : Upload → Option NSError}
    {past rest : List Upload} (split : o.blocks = past ++ rest) (hne : rest ≠ [])
    (ok : ∀ u ∈ past, errors u = none) (tool : AliyunOSSTool) :
    run (handle errors) (b.start tool) past =
      some ⟨slots "notValue" b.url b.size (waiting rest), tool.callbacks⟩ := by
  have board := o.board
  have data := o.start_slots tool
  rw [split] at board data
  rw [run_slots_waiting past board hne ok data, b.start_dataSourece]

/-- Without a failure the last block, and only it, reports the whole batch. -/
theorem Batch.Order.run_all_ok {b : Batch} (o : b.Order) {errors : Upload → Option NSError}
    (ok : ∀ u ∈ o.blocks, errors u = none) (tool : AliyunOSSTool) :
    run (handle errors) (b.start tool) o.blocks =
      some ⟨b.urls, tool.callbacks ++ [.success b.successBlock b.urls]⟩ := by
  obtain ⟨past, u, split⟩ := (List.eq_nil_or_concat o.blocks).resolve_left o.blocks_ne_nil
  rw [List.concat_eq_append] at split
  have before := o.run_waiting split (by simp) (fun v hv => ok v (by simp [split, hv])) tool
  have board : Board b.url b.size [u] := by
    have whole := o.board
    rw [split] at whole
    refine ⟨whole.fresh, fun v hv => whole.member v (by simp_all), by simp⟩
  have owner := Batch.mem_uploads (o.perm.mem_iff.mp (show u ∈ o.blocks by simp [split]))
  rw [split, run_append, before, Option.bind_some, run_singleton, handle, ok u (by simp [split])]
  exact completion_slots_last board owner.2.2.1 rfl

/-- One batch without failures: nothing is reported before the last block, which
reports the URLs of all images in their order. -/
theorem batch_reports_once_at_last (b : Batch) (mono : Monotone b.clock) (o : b.Order)
    (tool : AliyunOSSTool) :
    (∀ past rest, o.blocks = past ++ rest → rest ≠ [] →
      ∃ t, run (handle fun _ => none) (b.start tool) past = some t ∧ t.callbacks = tool.callbacks) ∧
    (∃ t, run (handle fun _ => none) (b.start tool) o.blocks = some t ∧
      t.callbacks = tool.callbacks ++ [.success b.successBlock b.urls]) ∧
    b.urls.length = b.images.length ∧ b.urls.Nodup ∧
    (b.call tool).2 = b.uploads ∧ b.urls = b.uploads.map (fun u => b.entry.imageURL u.put.objectKey) ∧
    b.uploads.map (fun u => u.put.uploadingData) = b.images := by
  refine ⟨?_, ?_, by simp [Batch.urls, Batch.size], Batch.urls_nodup mono, b.call_uploads tool,
    b.urls_eq_uploads, b.uploads_data⟩
  · intro past rest split hne
    exact ⟨_, o.run_waiting split hne (fun _ _ => rfl) tool, rfl⟩
  · exact ⟨_, o.run_all_ok (fun _ _ => rfl) tool, rfl⟩

def twoImages : Batch where
  entry := .newImageDataArrays "bucket" "https://host"
  images := [[1], [2]]
  nonempty := by simp
  clock i := 1700000000000 + i
  successBlock := 0
  faile := 1

def oneImage : Batch where
  entry := .imageDataArray
  images := [[1]]
  nonempty := by simp
  clock _ := 1700000000000
  successBlock := 0
  faile := 1

theorem batch_reports_once_at_last_two :
    ∃ t, run (handle fun _ => none) (twoImages.start ⟨[], []⟩) twoImages.uploads.reverse = some t ∧
      t.callbacks = [.success 0 twoImages.urls] :=
  (batch_reports_once_at_last twoImages (fun i j hij => by simpa [twoImages] using hij)
    ⟨twoImages.uploads.reverse, List.reverse_perm _⟩ ⟨[], []⟩).2.1

/-- After a failure has emptied the array, a successful block raises. -/
theorem run_emptied_raises {errors : Upload → Option NSError} {blocks : List Upload}
    {tool : AliyunOSSTool} (empty : tool.dataSourece = []) (h : ∃ u ∈ blocks, errors u = none) :
    run (handle errors) tool blocks = none := by
  induction blocks generalizing tool with
  | nil => simp at h
  | cons u blocks ih =>
    rw [run_cons]
    cases he : errors u with
    | none => simp [handle, he, Upload.completion, Upload.replace, replaceObjectAtIndex, empty]
    | some e =>
      have later : ∃ v ∈ blocks, errors v = none := by
        obtain ⟨v, hv, hn⟩ := h
        rcases List.mem_cons.mp hv with rfl | hv
        · simp [he] at hn
        · exact ⟨v, hv, hn⟩
      rw [handle, he]
      refine ih ?_ later
      cases u.faile <;> simp [AliyunOSSTool.callFaile]

theorem run_emptied_fails {errors : Upload → Option NSError} {faile : Nat} {blocks : List Upload}
    {callbacks : List Callback} (h : ∀ u ∈ blocks, errors u ≠ none)
    (given : ∀ u ∈ blocks, u.faile = some faile) :
    run (handle errors) ⟨[], callbacks⟩ blocks =
      some ⟨[], callbacks ++ blocks.map fun u => .faile faile (errors u)⟩ := by
  induction blocks generalizing callbacks with
  | nil => simp
  | cons u blocks ih =>
    obtain ⟨e, he⟩ := Option.ne_none_iff_exists'.mp (h u (by simp))
    have first : handle errors ⟨[], callbacks⟩ u = some ⟨[], callbacks ++ [.faile faile (some e)]⟩ := by
      simp only [handle, he, Upload.completion, AliyunOSSTool.callFaile, given u (by simp)]
    rw [run_cons, first, Option.bind_some,
      ih (fun v hv => h v (by simp [hv])) (fun v hv => given v (by simp [hv]))]
    simp [he]

theorem first_failure {errors : Upload → Option NSError} {blocks : List Upload}
    (h : ∃ u ∈ blocks, errors u ≠ none) :
    ∃ past u rest, blocks = past ++ u :: rest ∧ (∀ v ∈ past, errors v = none) ∧ errors u ≠ none := by
  obtain ⟨u, hu, he⟩ := h
  obtain ⟨v, hv⟩ := Option.isSome_iff_exists.mp
    (List.find?_isSome (p := fun u => (errors u).isSome).mpr ⟨u, hu, Option.isSome_iff_ne_none.mpr he⟩)
  obtain ⟨hf, past, rest, split, ok⟩ := List.find?_eq_some_iff_append.mp hv
  refine ⟨past, v, rest, split, ?_, Option.isSome_iff_ne_none.mp hf⟩
  intro w hw
  simpa using ok w hw

/-- From the first failure on, every later failure is reported again and every later
success raises. -/
theorem Batch.Order.run_first_failure {b : Batch} (o : b.Order) {errors : Upload → Option NSError}
    {past rest later : List Upload} {u : Upload} (split : o.blocks = past ++ u :: rest ++ later)
    (ok : ∀ v ∈ past, errors v = none) (fails : errors u ≠ none) (tool : AliyunOSSTool) :
    ((∃ v ∈ rest, errors v = none) → run (handle errors) (b.start tool) (past ++ u :: rest) = none) ∧
    ((∀ v ∈ rest, errors v ≠ none) → run (handle errors) (b.start tool) (past ++ u :: rest) =
      some ⟨[], tool.callbacks ++ (u :: rest).map fun v => .faile b.faile (errors v)⟩) := by
  have given : ∀ v ∈ past ++ u :: rest, v.faile = some b.faile := fun v hv =>
    (Batch.mem_uploads (o.perm.mem_iff.mp (show v ∈ o.blocks by rw [split]; exact List.mem_append_left _ hv))).2.2.2
  have before := o.run_waiting (by simpa using split) (by simp) ok tool
  obtain ⟨e, he⟩ := Option.ne_none_iff_exists'.mp fails
  have first : ∀ t : AliyunOSSTool, handle errors t u = some ⟨[], t.callbacks ++ [.faile b.faile (some e)]⟩ := by
    intro t
    simp only [handle, he, Upload.completion, AliyunOSSTool.callFaile, given u (by simp)]
  apply And.intro
  · intro h
    rw [run_append, before, Option.bind_some, run_cons, first, Option.bind_some]
    exact run_emptied_raises rfl h
  · intro h
    rw [run_append, before, Option.bind_some, run_cons, first, Option.bind_some,
      run_emptied_fails h fun v hv => given v (by simp [hv])]
    simp [he]

end SwiftApp
