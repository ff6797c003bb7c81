import SwiftApp.BatchOutcome
import SwiftApp.OSSClient

namespace SwiftApp

open StepRun Slots

def networkError : NSError := ⟨"com.aliyun.oss.clientError", 6⟩

/-- What a run of a batch, or a beginning of one, can have reported. -/
theorem Batch.Order.run_callbacks {b : Batch} (o : b.Order) {errors : Upload → Option NSError}
    {past rest : List Upload} (split : o.blocks = past ++ rest) {tool t : AliyunOSSTool}
    (h : run (handle errors) (b.start tool) past = some t) :
    ((∀ u ∈ o.blocks, errors u = none) ∧
      t.callbacks = tool.callbacks ++ [.success b.successBlock b.urls]) ∨
    ∃ told : List (Option NSError), t.callbacks = tool.callbacks ++ told.map (Callback.faile b.faile) := by
  by_cases failing : ∃ u ∈ past, errors u ≠ none
  · obtain ⟨front, u, later, eq, ok, fails⟩ := first_failure failing
    obtain ⟨raises, reports⟩ := o.run_first_failure (split.trans (by rw [eq])) ok fails tool
    rw [← eq] at raises reports
    by_cases hr : ∃ v ∈ later, errors v = none
    · rw [raises hr] at h
      cases h
    · have same := Option.some.inj ((reports fun v hv he => hr ⟨v, hv, he⟩).symm.trans h)
      subst t
      exact Or.inr ⟨(u :: later).map errors, by simp⟩
  · have ok : ∀ u ∈ past, errors u = none := fun u hu => by_contra fun he => failing ⟨u, hu, he⟩
    by_cases hne : rest = []
    · subst rest
      rw [List.append_nil] at split
      rw [← split] at h ok
      have same := Option.some.inj ((o.run_all_ok ok tool).symm.trans h)
      subst t
      exact Or.inl ⟨ok, rfl⟩
    · have same := Option.some.inj ((o.run_waiting split hne ok tool).symm.trans h)
      subst t
      exact Or.inr ⟨[], by simp⟩

/-- If a put failed, `faile` has been called and no success block has, and every URL
ever passed to a success block belongs to an object whose put succeeded. -/
def Batch.PutsReported (b : Batch) (o : b.Order) (presign : String → String → Option NSError)
    (puts : Upload → Option NSError) (tool : AliyunOSSTool) : Prop :=
  ((∃ u ∈ o.blocks, puts u ≠ none) →
    ∃ t new, run (handle fun u => u.continueWith presign (puts u)) (b.start tool) o.blocks = some t ∧
      t.callbacks = tool.callbacks ++ new ∧ (∃ c ∈ new, c.isFaile = true) ∧ ∀ c ∈ new, c.isSuccess = false) ∧
  ∀ past, past <+: o.blocks → ∀ t new,
    run (handle fun u => u.continueWith presign (puts u)) (b.start tool) past = some t →
    t.callbacks = tool.callbacks ++ new → ∀ block urls, .success block urls ∈ new →
      ∀ url ∈ urls, ∃ u ∈ o.blocks, u.imageURL = url ∧ puts u = none

def SinglePutReported (u : Upload) (put : Option NSError) (tool : AliyunOSSTool) : Prop :=
  ∃ new, (u.singleCompletion put tool).callbacks = tool.callbacks ++ new ∧
    (put ≠ none → (∃ c ∈ new, c.isFaile = true) ∧ ∀ c ∈ new, c.isSuccess = false) ∧
    ∀ block url, .successOne block url ∈ new → url = u.imageURL ∧ put = none

theorem single_put_reported_iff {u : Upload} {block : Nat} (hs : u.successBlock = some block)
    {put : Option NSError} {tool : AliyunOSSTool} : SinglePutReported u put tool ↔ put = none := by
  cases put with
  | none =>
    refine iff_of_true ⟨[.successOne block u.imageURL], ?_, by simp, by simp⟩ rfl
    simp only [Upload.singleCompletion, hs]
  | some e =>
    refine iff_of_false ?_ (by simp)
    intro h
    obtain ⟨new, hnew, failed, _⟩ := h
    have empty : new = [] := by simpa [Upload.singleCompletion] using hnew
    obtain ⟨⟨c, hc, _⟩, _⟩ := failed (by simp)
    simp [empty] at hc

theorem Batch.Order.mem_url {b : Batch} (o : b.Order) {url : String} (h : url ∈ b.urls) :
    ∃ u ∈ o.blocks, u.imageURL = url := by
  obtain ⟨i, hi, rfl⟩ := List.mem_map.mp h
  rw [← b.uploads_index] at hi
  obtain ⟨u, hu, rfl⟩ := List.mem_map.mp hi
  exact ⟨u, o.perm.mem_iff.mpr hu, (Batch.mem_uploads hu).2.1⟩

/-- The order brings every image whose presign fails after all images whose presign
succeeds, and there is at least one. -/
def PresignFailuresLast (presign : String → String → Option NSError) (blocks : List Upload) : Prop :=
  ∃ oks fails, blocks = oks ++ fails ∧ fails ≠ [] ∧
    (∀ u ∈ oks, presign u.put.bucketName u.put.objectKey = none) ∧
    ∀ u ∈ fails, presign u.put.bucketName u.put.objectKey ≠ none

theorem Batch.Order.presignFailuresLast_of_reported {b : Batch} (o : b.Order)
    {presign : String → String → Option NSError} {puts : Upload → Option NSError} {tool : AliyunOSSTool}
    (h : b.PutsReported o presign puts tool) (lost : ∃ u ∈ o.blocks, puts u ≠ none) :
    PresignFailuresLast presign o.blocks := by
  let errors : Upload → Option NSError := fun u => u.continueWith presign (puts u)
  obtain ⟨t, new, ht, hnew, _, quiet⟩ := h.1 lost
  by_cases failing : ∃ u ∈ o.blocks, errors u ≠ none
  · obtain ⟨past, u, rest, split, ok, fails⟩ := first_failure failing
    have here : o.blocks = past ++ u :: rest ++ [] := by simpa using split
    obtain ⟨raises, _⟩ := o.run_first_failure here ok fails tool
    refine ⟨past, u :: rest, split, by simp, ok, ?_⟩
    intro v hv
    rcases List.mem_cons.mp hv with rfl | hv
    · exact fails
    · intro he
      rw [split, raises ⟨v, hv, he⟩] at ht
      cases ht
  · have ok : ∀ u ∈ o.blocks, errors u = none := fun u hu => by_contra fun he => failing ⟨u, hu, he⟩
    have same := Option.some.inj ((o.run_all_ok ok tool).symm.trans ht)
    subst t
    have eq := List.append_cancel_left hnew
    have := quiet (.success b.successBlock b.urls) (by simp [← eq])
    simp [Callback.isSuccess] at this

theorem Batch.Order.lost_put_reported {b : Batch} (o : b.Order)
    {presign : String → String → Option NSError} (puts : Upload → Option NSError) (tool : AliyunOSSTool)
    (h : PresignFailuresLast presign o.blocks) :
    ∃ t new, run (handle fun u => u.continueWith presign (puts u)) (b.start tool) o.blocks = some t ∧
      t.callbacks = tool.callbacks ++ new ∧ (∃ c ∈ new, c.isFaile = true) ∧
        ∀ c ∈ new, c.isSuccess = false := by
  let errors : Upload → Option NSError := fun u => u.continueWith presign (puts u)
  obtain ⟨oks, fails, split, hne, ok, bad⟩ := h
  obtain ⟨u, rest, rfl⟩ := List.exists_cons_of_ne_nil hne
  have here : o.blocks = oks ++ u :: rest ++ [] := by simpa using split
  have signed : ∀ v ∈ oks, errors v = none := ok
  obtain ⟨_, reports⟩ := o.run_first_failure here signed (bad u (by simp)) tool
  refine ⟨_, _, by rw [split]; exact reports fun v hv => bad v (by simp [hv]), rfl, ?_, ?_⟩
  · exact ⟨.faile b.faile (errors u), by simp, rfl⟩
  · intro c hc
    obtain ⟨v, _, rfl⟩ := List.mem_map.mp hc
    rfl

/-- URLs are reported only in one full report, after every presign has succeeded. -/
theorem Batch.Order.reported_urls_stored {b : Batch} (o : b.Order)
    {presign : String → String → Option NSError} {puts : Upload → Option NSError} {tool : AliyunOSSTool}
    (h : (∀ u ∈ o.blocks, puts u = none) ∨ PresignFailuresLast presign o.blocks) {past rest : List Upload}
    (split : o.blocks = past ++ rest) {t : AliyunOSSTool} {new : List Callback}
    (ht : run (handle fun u => u.continueWith presign (puts u)) (b.start tool) past = some t)
    (hnew : t.callbacks = tool.callbacks ++ new) {block : Nat} {urls : List String}
    (told : .success block urls ∈ new) {url : String} (hurl : url ∈ urls) :
    ∃ u ∈ o.blocks, u.imageURL = url ∧ puts u = none := by
  rcases o.run_callbacks split ht with ⟨ok, calls⟩ | ⟨told', calls⟩
  · have eq : new = [.success b.successBlock b.urls] := List.append_cancel_left (hnew.symm.trans calls)
    have same : block = b.successBlock ∧ urls = b.urls := by simpa [eq] using told
    obtain ⟨rfl, rfl⟩ := same
    obtain ⟨u, hu, value⟩ := o.mem_url hurl
    rcases h with stored | ⟨oks, fails, split', hne, _, bad⟩
    · exact ⟨u, hu, value, stored u hu⟩
    · obtain ⟨v, hv⟩ := List.exists_mem_of_ne_nil _ hne
      exact absurd (ok v (by simp [split', hv])) (bad v hv)
  · have eq : new = told'.map (Callback.faile b.faile) := List.append_cancel_left (hnew.symm.trans calls)
    simp [eq] at told

theorem Batch.puts_reported_iff {b : Batch} (o : b.Order) {presign : String → String → Option NSError}
    {puts : Upload → Option NSError} {tool : AliyunOSSTool} :
    b.PutsReported o presign puts tool ↔
      (∀ u ∈ o.blocks, puts u = none) ∨ PresignFailuresLast presign o.blocks := by
  apply Iff.intro
  · intro h
    by_cases stored : ∀ u ∈ o.blocks, puts u = none
    · exact Or.inl stored
    · exact Or.inr (o.presignFailuresLast_of_reported h (by simpa using stored))
  · intro h
    apply And.intro
    · intro lost
      rcases h with stored | last
      · obtain ⟨u, hu, he⟩ := lost
        exact absurd (stored u hu) he
      · exact o.lost_put_reported puts tool last
    · intro past hp t new ht hnew block urls told url hurl
      obtain ⟨rest, split⟩ := hp
      exact o.reported_urls_stored h split.symm ht hnew told hurl

/-- Failed puts are reported exactly when there are none, or when failing presign
tasks, all coming last, are reported in their place. -/
theorem failed_puts_reported_iff (tool : AliyunOSSTool) :
    (∀ (imageData : NSData) (bucket urlPrefix : String) (timeStamp : Int) (rand₁ rand₂ : UInt32)
      (successBlock faile : Nat) (put : Option NSError),
      SinglePutReported (upLoadImageWithImageData imageData bucket urlPrefix timeStamp rand₁ rand₂
        (some successBlock) (some faile)) put tool ↔ put = none) ∧
    ∀ (b : Batch) (o : b.Order) (presign : String → String → Option NSError)
      (puts : Upload → Option NSError),
      b.PutsReported o presign puts tool ↔
        (∀ u ∈ o.blocks, puts u = none) ∨ PresignFailuresLast presign o.blocks := by
  apply And.intro
  · intro _ _ _ _ _ _ _ _ _
    exact single_put_reported_iff rfl
  · intro b o _ _
    exact Batch.puts_reported_iff o

/-- The put of the only image fails and its presign succeeds: success is reported. -/
theorem failed_put_reported_as_success :
    ¬ oneImage.PutsReported ⟨oneImage.uploads, .refl _⟩ (fun _ _ => none)
      (fun _ => some networkError) ⟨[], []⟩ := by
  rw [Batch.puts_reported_iff]
  intro h
  rcases h with stored | ⟨_, fails, _, hne, _, bad⟩
  · have := stored oneImage.uploads[0] (by simp)
    cases this
  · obtain ⟨u, hu⟩ := List.exists_mem_of_ne_nil _ hne
    exact bad u hu rfl

end SwiftApp
