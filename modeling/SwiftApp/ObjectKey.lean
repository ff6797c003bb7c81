import SwiftApp.AliyunOSSTool
import Mathlib.Data.List.Nodup
import Mathlib.Data.List.Infix
import Mathlib.Order.Monotone.Basic

namespace SwiftApp

theorem repr_nat_injective {m n : Nat} (same : Nat.repr m = Nat.repr n) : m = n := by
  have digits : Nat.toDigits 10 m = Nat.toDigits 10 n := by
    rw [← Nat.toList_repr, ← Nat.toList_repr, same]
  rw [← Nat.ofDigitChars_ten_toDigits (n := m), digits, Nat.ofDigitChars_ten_toDigits]

/-- A number printed with a sign is not one printed without. -/
theorem minus_ne_repr (s : String) (n : Nat) : "-" ++ s ≠ Nat.repr n := by
  intro same
  have listed : '-' ∈ Nat.toDigits 10 n := by
    rw [← Nat.toList_repr, ← same]
    simp [String.toList_append]
  have digit := Nat.isDigit_of_mem_toDigits (by omega) (by omega) listed
  cases digit

theorem decimal_injective {s t : Int} (same : toString s = toString t) : s = t := by
  have printed : s.repr = t.repr := same
  rw [Int.repr_eq_if, Int.repr_eq_if] at printed
  split at printed <;> split at printed
  next =>
    have numbers := repr_nat_injective printed
    omega
  next => exact absurd printed.symm (minus_ne_repr _ _)
  next => exact absurd printed (minus_ne_repr _ _)
  next =>
    have numbers := repr_nat_injective ((String.append_right_inj "-").mp printed)
    omega

theorem objectKey_stamp_inj {folder : String} {s t : Int} :
    objectKey folder s = objectKey folder t ↔ s = t := by
  refine ⟨?_, fun h => h ▸ rfl⟩
  intro h
  have stamps : toString s = toString t := by
    simpa only [objectKey, String.append_left_inj, String.append_right_inj] using h
  exact decimal_injective stamps

theorem customer_ne_tomer (s t : Int) : objectKey "customer" s ≠ objectKey "tomer" t := by
  intro h
  have firsts := congrArg (fun key => key.toList.head?) h
  simp [objectKey, String.toList_append] at firsts

theorem slash_mem_imageURL (entry : EntryPoint) (s : Int) :
    '/' ∈ (entry.imageURL (objectKey "customer" s)).toList := by
  cases entry <;> simp [EntryPoint.imageURL, objectKey, String.toList_append]

/-- Whatever the prefix, a built URL has a slash and the placeholder has none. -/
theorem imageURL_ne_notValue (entry : EntryPoint) (s : Int) :
    entry.imageURL (objectKey "customer" s) ≠ "notValue" := by
  intro h
  have slash := slash_mem_imageURL entry s
  rw [h] at slash
  simp at slash

theorem imageURL_inj {entry : EntryPoint} {a b : String} :
    entry.imageURL a = entry.imageURL b ↔ a = b := by
  cases entry <;> simp [EntryPoint.imageURL]

inductive UploadCall
  | single (imageData : NSData) (AliBucketName AliImageURLPrefix : String)
      (timeStamp : Int) (rand₁ rand₂ : UInt32)
  | batch (entry : EntryPoint) (images : List NSData) (clock : Nat → Int)

def UploadCall.puts : UploadCall → List OSSPutObjectRequest
  | .single imageData bucket urlPrefix timeStamp rand₁ rand₂ =>
    [(upLoadImageWithImageData imageData bucket urlPrefix timeStamp rand₁ rand₂ none none).put]
  | .batch entry images clock =>
    (entry.start images clock none none ⟨[], []⟩).2.map Upload.put

def UploadCall.objectKeys (call : UploadCall) : List String :=
  call.puts.map OSSPutObjectRequest.objectKey

def UploadCall.readings : UploadCall → List Int
  | .single _ _ _ timeStamp _ _ => [timeStamp]
  | .batch _ images clock => (List.range images.length).map clock

/-- A run of uploads under a clock that never goes back during a call and has moved
on from one call to the next. -/
structure UploadRun where
  calls : List UploadCall
  within : ∀ call ∈ calls, call.readings.Pairwise (· ≤ ·)
  between : calls.Pairwise fun a b => ∀ s ∈ a.readings, ∀ t ∈ b.readings, s < t

def UploadRun.objectKeys (run : UploadRun) : List String :=
  run.calls.flatMap UploadCall.objectKeys

/-- The number of milliseconds the two random terms add to a single image's stamp. -/
def jitter (rand₁ rand₂ : UInt32) : Int := (rand₁ % 1000).toNat + (rand₂ % 1000000).toNat

/-- The delay between two calls is never made up for by their index or random offsets. -/
def UploadCall.Apart : UploadCall → UploadCall → Prop
  | .single _ _ _ s rand₁ rand₂, .single _ _ _ t rand₃ rand₄ =>
    t - s ≠ jitter rand₁ rand₂ - jitter rand₃ rand₄
  | .batch _ images clock, .batch _ images' clock' =>
    ∀ i < images.length, ∀ j < images'.length, clock' j - clock i ≠ 10000 * (i - j)
  | _, _ => True

theorem single_objectKeys {imageData : NSData} {bucket urlPrefix : String} {timeStamp : Int}
    {rand₁ rand₂ : UInt32} :
    (UploadCall.single imageData bucket urlPrefix timeStamp rand₁ rand₂).objectKeys =
      [objectKey "tomer" (timeStamp + jitter rand₁ rand₂)] := by
  simp [UploadCall.objectKeys, UploadCall.puts, upLoadImageWithImageData, jitter, Int.add_assoc]

theorem batch_objectKeys {entry : EntryPoint} {images : List NSData} {clock : Nat → Int} :
    (UploadCall.batch entry images clock).objectKeys =
      (List.range images.length).map fun i : Nat => objectKey "customer" (clock i + 10000 * i) := by
  simp only [UploadCall.objectKeys, UploadCall.puts, EntryPoint.start_eq, EntryPoint.uploads, List.map_map]
  apply List.ext_getElem (by simp)
  intro i hi hj
  simp [uploadOne]

/-- Within a batch the index term alone keeps the keys apart. -/
theorem batch_objectKeys_nodup {entry : EntryPoint} {images : List NSData} {clock : Nat → Int}
    (h : (UploadCall.batch entry images clock).readings.Pairwise (· ≤ ·)) :
    (UploadCall.batch entry images clock).objectKeys.Nodup := by
  rw [batch_objectKeys]
  have order := List.pairwise_map.mp h
  refine List.pairwise_map.mpr ((order.and (List.pairwise_lt_range)).imp ?_)
  intro i j order same
  obtain ⟨hc, hij⟩ := order
  have stamps := objectKey_stamp_inj.mp same
  omega

theorem objectKeys_disjoint_iff (a b : UploadCall) :
    List.Disjoint a.objectKeys b.objectKeys ↔ a.Apart b := by
  cases a with
  | single =>
    cases b with
    | single =>
      simp only [single_objectKeys, List.disjoint_singleton, List.mem_singleton, objectKey_stamp_inj,
        UploadCall.Apart]
      omega
    | batch =>
      simp only [single_objectKeys, batch_objectKeys, List.singleton_disjoint, List.mem_map,
        UploadCall.Apart, iff_true]
      intro shared
      obtain ⟨j, _, h⟩ := shared
      exact customer_ne_tomer _ _ h
  | batch =>
    cases b with
    | single =>
      simp only [single_objectKeys, batch_objectKeys, List.disjoint_singleton, List.mem_map,
        UploadCall.Apart, iff_true]
      intro shared
      obtain ⟨i, _, h⟩ := shared
      exact customer_ne_tomer _ _ h
    | batch =>
      simp only [batch_objectKeys, UploadCall.Apart]
      apply Iff.intro
      · intro h i hi j hj same
        apply h (List.mem_map.mpr ⟨i, List.mem_range.mpr hi, rfl⟩)
        refine List.mem_map.mpr ⟨j, List.mem_range.mpr hj, ?_⟩
        exact objectKey_stamp_inj.mpr (by omega)
      · intro apart key ha hb
        obtain ⟨i, hi, rfl⟩ := List.mem_map.mp ha
        obtain ⟨j, hj, same⟩ := List.mem_map.mp hb
        have stamps := objectKey_stamp_inj.mp same
        exact apart i (List.mem_range.mp hi) j (List.mem_range.mp hj) (by omega)

/-- The keys of a run are distinct exactly when no delay between two calls is
cancelled by their offsets. -/
theorem UploadRun.objectKeys_nodup_iff (run : UploadRun) :
    run.objectKeys.Nodup ↔ run.calls.Pairwise UploadCall.Apart := by
  rw [UploadRun.objectKeys, List.nodup_flatMap]
  apply Iff.intro
  · intro distinct
    obtain ⟨_, apart⟩ := distinct
    exact apart.imp fun {a b} h => (objectKeys_disjoint_iff a b).mp h
  · intro apart
    refine ⟨?_, apart.imp fun {a b} h => (objectKeys_disjoint_iff a b).mpr h⟩
    intro call hc
    cases call with
    | single => rw [single_objectKeys]; exact List.nodup_singleton _
    | batch => exact batch_objectKeys_nodup (run.within _ hc)

def tenSecondsApart : UploadRun where
  calls := [.batch .imageDataArray [[1], [2]] fun _ => 1700000000000,
    .batch .imageDataArray [[3]] fun _ => 1700000010000]
  within := by simp [UploadCall.readings, List.range_succ]
  between := by simp [UploadCall.readings]

theorem objectKeys_collide : ¬ tenSecondsApart.objectKeys.Nodup := by
  rw [UploadRun.objectKeys]
  simp [tenSecondsApart, batch_objectKeys, List.range_succ]

end SwiftApp
