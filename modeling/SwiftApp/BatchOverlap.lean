import SwiftApp.BatchOutcome

namespace SwiftApp

open StepRun Slots

/-- The shared tool while batches come and go. Batch `k` is the `k`-th one started and
block `k` its success block; `pending` are the uploads whose completion block is still to
run, and after a raise the app is gone. -/
structure Session where
  tool : AliyunOSSTool
  batches : List Batch
  pending : List Upload
  raised : Bool

inductive SessionStep
  | start (b : Batch)
  | complete (u : Upload)

def Session.initial (dataSourece : List String) : Session := ⟨⟨dataSourece, []⟩, [], [], false⟩

def Session.step (s : Session) : SessionStep → Option Session
  | .start b =>
    if s.raised then none
    else
      let b := { b with successBlock := s.batches.length, faile := s.batches.length }
      let (tool, uploads) := b.call s.tool
      some ⟨tool, s.batches ++ [b], s.pending ++ uploads, false⟩
  | .complete u =>
    if s.raised || !s.pending.contains u then none
    else match u.completion none s.tool with
      | none => some { s with raised := true }
      | some tool => some { s with tool := tool, pending := s.pending.erase u }

def Callback.keysFor (k : Nat) : Callback → Option (List String)
  | .success block keys => if block = k then some keys else none
  | _ => none

/-- What the success block of batch `k` has been given so far, call by call. -/
def Session.successes (s : Session) (k : Nat) : List (List String) :=
  s.tool.callbacks.filterMap (Callback.keysFor k)

def Session.Outstanding (s : Session) (k : Nat) : Prop :=
  ∃ u ∈ s.pending, u.successBlock = some k

/-- No handler has raised; a batch with blocks still to run has reported nothing, and
every other one has reported once, its own URLs in its own order. -/
structure Session.Answered (s : Session) : Prop where
  alive : s.raised = false
  silent : ∀ k, s.Outstanding k → s.successes k = []
  once : ∀ k b, s.batches[k]? = some b → ¬ s.Outstanding k → s.successes k = [b.urls]

/-- The block runs while its own batch is the last one started, or while its own and the
last started batch both have a single image. -/
def Session.OwnBoard (s : Session) : SessionStep → Prop
  | .start _ => True
  | .complete u => ∀ k, u.successBlock = some k → k + 1 = s.batches.length ∨
    (∀ b, s.batches[k]? = some b → b.size = 1) ∧ ∀ b, s.batches.getLast? = some b → b.size = 1

def Session.ownPending (s : Session) : List Upload :=
  s.pending.filter fun u => u.successBlock = some (s.batches.length - 1)

structure Session.Inv (s : Session) : Prop where
  answered : s.Answered
  unknown : ∀ k, s.batches.length ≤ k → s.successes k = []
  nodup : s.pending.Nodup
  owner : ∀ u ∈ s.pending, ∃ k b, u.successBlock = some k ∧ s.batches[k]? = some b ∧ u ∈ b.uploads
  named : ∀ (k : Nat) (b : Batch), s.batches[k]? = some b → b.successBlock = k
  room : ∀ b, s.batches.getLast? = some b → s.tool.dataSourece.length = b.size
  board : ∀ b, s.batches.getLast? = some b → 2 ≤ b.size →
    s.tool.dataSourece = slots "notValue" b.url b.size (waiting s.ownPending)

theorem filterMap_keysFor_append {k block : Nat} {keys : List String} {callbacks : List Callback} :
    (callbacks ++ [Callback.success block keys]).filterMap (Callback.keysFor k) =
      callbacks.filterMap (Callback.keysFor k) ++ if block = k then [keys] else [] := by
  by_cases h : block = k <;> simp [Callback.keysFor, h]

theorem Session.initial_inv (dataSourece : List String) : (Session.initial dataSourece).Inv where
  answered := ⟨rfl, fun _ _ => rfl, fun _ _ h => by simp [Session.initial] at h⟩
  unknown _ _ := rfl
  nodup := List.nodup_nil
  owner _ h := by simp [Session.initial] at h
  named _ _ h := by simp [Session.initial] at h
  room _ h := by simp [Session.initial] at h
  board _ h := by simp [Session.initial] at h

theorem getElem?_snoc {α : Type*} {xs : List α} {x y : α} {k : Nat} (h : (xs ++ [x])[k]? = some y) :
    k < xs.length ∧ xs[k]? = some y ∨ k = xs.length ∧ y = x := by
  rcases Nat.lt_or_ge k xs.length with hk | hk
  · rw [List.getElem?_append_left hk] at h
    exact Or.inl ⟨hk, h⟩
  · have bound := (List.getElem?_eq_some_iff.mp h).1
    simp only [List.length_append, List.length_singleton] at bound
    have last : k = xs.length := by omega
    subst k
    exact Or.inr ⟨rfl, by simpa using h.symm⟩

theorem Session.step_start {s t : Session} {b : Batch} (h : s.step (.start b) = some t) :
    ∃ b' : Batch, b'.successBlock = s.batches.length ∧ t = ⟨b'.start s.tool, s.batches ++ [b'],
      s.pending ++ b'.uploads, false⟩ := by
  simp only [Session.step] at h
  split at h
  next => cases h
  next =>
    refine ⟨{ b with successBlock := s.batches.length, faile := s.batches.length }, rfl, ?_⟩
    rw [← Option.some.inj h, Batch.call_uploads]
    rfl

theorem Session.step_complete {s t : Session} {u : Upload} (h : s.step (.complete u) = some t) :
    u ∈ s.pending ∧ (u.completion none s.tool = none ∧ t = { s with raised := true } ∨
      ∃ tool, u.completion none s.tool = some tool ∧
        t = { s with tool := tool, pending := s.pending.erase u }) := by
  simp only [Session.step] at h
  split at h
  next => cases h
  next hc =>
    have mem : u ∈ s.pending := by simp at hc; exact hc.2
    refine ⟨mem, ?_⟩
    cases he : u.completion none s.tool with
    | none => simp only [he] at h; exact Or.inl ⟨rfl, (Option.some.inj h).symm⟩
    | some tool => simp only [he] at h; exact Or.inr ⟨tool, rfl, (Option.some.inj h).symm⟩

theorem Session.Inv.owner_lt {s : Session} (hi : s.Inv) {u : Upload} (hu : u ∈ s.pending) :
    ∃ k, k < s.batches.length ∧ u.successBlock = some k := by
  obtain ⟨k, c, hk, hc, _⟩ := hi.owner u hu
  exact ⟨k, (List.getElem?_eq_some_iff.mp hc).1, hk⟩

theorem Session.Inv.not_mem_new {s : Session} (hi : s.Inv) {b : Batch}
    (name : b.successBlock = s.batches.length) {u : Upload} (hu : u ∈ s.pending) : u ∉ b.uploads := by
  intro new
  obtain ⟨k, bound, hk⟩ := hi.owner_lt hu
  have same := Option.some.inj (hk.symm.trans (Batch.mem_uploads new).2.2.1)
  omega

/-- After a start, what is left of the last batch is the whole new batch. -/
theorem Session.Inv.ownPending_start {s : Session} (hi : s.Inv) {b : Batch}
    (name : b.successBlock = s.batches.length) {tool : AliyunOSSTool} :
    Session.ownPending ⟨tool, s.batches ++ [b], s.pending ++ b.uploads, false⟩ = b.uploads := by
  have none_old : s.pending.filter (fun u => u.successBlock = some s.batches.length) = [] := by
    apply List.filter_eq_nil_iff.mpr
    intro u hu
    obtain ⟨k, bound, hk⟩ := hi.owner_lt hu
    simp [hk, Nat.ne_of_lt bound]
  have all_new : b.uploads.filter (fun u => u.successBlock = some s.batches.length) = b.uploads := by
    apply List.filter_eq_self.mpr
    intro u hu
    simp [(Batch.mem_uploads hu).2.2.1, name]
  simp [Session.ownPending, none_old, all_new]

theorem Session.successes_start {s : Session} {b : Batch} (k : Nat) :
    Session.successes ⟨b.start s.tool, s.batches ++ [b], s.pending ++ b.uploads, false⟩ k =
      s.successes k := by
  have tool : (b.start s.tool).callbacks = s.tool.callbacks := by rw [b.start_dataSourece]
  simp only [Session.successes, tool]

/-- A start answers nobody, and the batch it adds is outstanding. -/
theorem Session.Inv.answered_start {s : Session} (hi : s.Inv) {b : Batch}
    (name : b.successBlock = s.batches.length) :
    Session.Answered ⟨b.start s.tool, s.batches ++ [b], s.pending ++ b.uploads, false⟩ := by
  have new : ∀ u ∈ b.uploads, u.successBlock = some s.batches.length := fun u hu =>
    name ▸ (Batch.mem_uploads hu).2.2.1
  refine ⟨rfl, ?_, ?_⟩
  · intro k out
    rw [Session.successes_start]
    obtain ⟨u, hu, hk⟩ := out
    rcases List.mem_append.mp hu with hu | hu
    · exact hi.answered.silent k ⟨u, hu, hk⟩
    · have same := Option.some.inj (hk.symm.trans (new u hu))
      exact hi.unknown k (by omega)
  · intro k c hc done
    rw [Session.successes_start]
    rcases getElem?_snoc hc with ⟨_, hc⟩ | ⟨last, _⟩
    · apply hi.answered.once k c hc
      intro out
      obtain ⟨u, hu, he⟩ := out
      exact done ⟨u, List.mem_append_left _ hu, he⟩
    · obtain ⟨u, hu⟩ := List.exists_mem_of_ne_nil _ b.uploads_ne_nil
      exact absurd ⟨u, List.mem_append_right _ hu, last ▸ new u hu⟩ done

theorem Session.Inv.start {s t : Session} {b : Batch} (hi : s.Inv)
    (h : s.step (.start b) = some t) : t.Inv := by
  obtain ⟨b', name, rfl⟩ := Session.step_start h
  refine ⟨hi.answered_start name, ?_, ?_, ?_, ?_, ?_, ?_⟩
  · intro k hk
    rw [Session.successes_start]
    simp only [List.length_append, List.length_singleton] at hk
    exact hi.unknown k (by omega)
  · refine List.nodup_append.mpr ⟨hi.nodup, b'.uploads_nodup, ?_⟩
    intro u hu v hv same
    exact hi.not_mem_new name hu (same ▸ hv)
  · intro u hu
    rcases List.mem_append.mp hu with hu | hu
    · obtain ⟨k, c, hk, hc, mem⟩ := hi.owner u hu
      exact ⟨k, c, hk, by rw [List.getElem?_append_left (List.getElem?_eq_some_iff.mp hc).1]; exact hc, mem⟩
    · exact ⟨s.batches.length, b', name ▸ (Batch.mem_uploads hu).2.2.1, by simp, hu⟩
  · intro k c hc
    rcases getElem?_snoc hc with ⟨_, hc⟩ | ⟨rfl, rfl⟩
    · exact hi.named k c hc
    · exact name
  · intro c hc
    have same : b' = c := by simpa using hc
    subst c
    simp [b'.start_dataSourece]
  · intro c hc _
    have same : b' = c := by simpa using hc
    subst c
    rw [hi.ownPending_start name]
    exact (show b'.Order from ⟨b'.uploads, .refl _⟩).start_slots s.tool

/-- A completion leaves outstanding what was so for every other batch. -/
theorem Session.outstanding_erase {s : Session} {u : Upload} {j k : Nat}
    (hk : u.successBlock = some k) (hj : j ≠ k) :
    (∃ v ∈ s.pending.erase u, v.successBlock = some j) ↔ s.Outstanding j := by
  apply Iff.intro
  · intro h
    obtain ⟨v, hv, he⟩ := h
    exact ⟨v, List.mem_of_mem_erase hv, he⟩
  · intro h
    obtain ⟨v, hv, he⟩ := h
    have ne : v ≠ u := by
      intro same
      subst v
      exact hj (Option.some.inj (he.symm.trans hk))
    exact ⟨v, (List.mem_erase_of_ne ne).mpr hv, he⟩

/-- What one completion block may do to the session without breaking it: stay silent
while its batch has others to come, or report its batch as the last of them. -/
theorem Session.Inv.complete_of_calls {s : Session} {u : Upload} {tool : AliyunOSSTool} {k : Nat}
    {b : Batch} (hi : s.Inv) (mem : u ∈ s.pending) (hk : u.successBlock = some k)
    (hb : s.batches[k]? = some b)
    (calls : (∃ v ∈ s.pending.erase u, v.successBlock = some k) ∧ tool.callbacks = s.tool.callbacks ∨
      (¬ ∃ v ∈ s.pending.erase u, v.successBlock = some k) ∧
        tool.callbacks = s.tool.callbacks ++ [.success k b.urls])
    (room : ∀ c, s.batches.getLast? = some c → tool.dataSourece.length = c.size)
    (board : ∀ c, s.batches.getLast? = some c → 2 ≤ c.size → tool.dataSourece =
      slots "notValue" c.url c.size (waiting ((s.pending.erase u).filter fun v =>
        v.successBlock = some (s.batches.length - 1)))) :
    Session.Inv { s with tool := tool, pending := s.pending.erase u } := by
  have before : s.successes k = [] := hi.answered.silent k ⟨u, mem, hk⟩
  have elsewhere : ∀ j, j ≠ k →
      tool.callbacks.filterMap (Callback.keysFor j) = s.successes j := by
    intro j hj
    rcases calls with ⟨_, same⟩ | ⟨_, told⟩
    · rw [same, Session.successes]
    · rw [told, filterMap_keysFor_append, if_neg (Ne.symm hj), List.append_nil, Session.successes]
  have pending : ∀ j, j ≠ k → ((∃ v ∈ s.pending.erase u, v.successBlock = some j) ↔ s.Outstanding j) :=
    fun _ => Session.outstanding_erase hk
  refine ⟨⟨hi.answered.alive, ?_, ?_⟩, ?_, hi.nodup.erase u, ?_, hi.named, room, board⟩
  · intro j out
    by_cases hj : j = k
    · subst j
      rcases calls with ⟨_, same⟩ | ⟨done, _⟩
      · rw [Session.successes, same]
        exact before
      · exact absurd out done
    · exact (elsewhere j hj).trans (hi.answered.silent j ((pending j hj).mp out))
  · intro j c hc out
    by_cases hj : j = k
    · subst j
      rcases calls with ⟨more, _⟩ | ⟨_, told⟩
      · exact absurd more out
      · have same := Option.some.inj (hb.symm.trans hc)
        subst c
        rw [Session.successes, told, filterMap_keysFor_append, if_pos rfl]
        exact congrArg (· ++ [b.urls]) before
    · exact (elsewhere j hj).trans (hi.answered.once j c hc fun h => out ((pending j hj).mpr h))
  · intro j hj
    have ne : j ≠ k := by
      have := (List.getElem?_eq_some_iff.mp hb).1
      have : s.batches.length ≤ j := hj
      omega
    exact (elsewhere j ne).trans (hi.unknown j hj)
  · exact fun v hv => hi.owner v (List.mem_of_mem_erase hv)

/-- A single-image block on a board of one place overwrites it and reports its URL. -/
theorem completion_single {b : Batch} {u : Upload} {tool : AliyunOSSTool} (mem : u ∈ b.uploads)
    (one : b.size = 1) (room : tool.dataSourece.length = 1) :
    u.completion none tool = some ⟨b.urls, tool.callbacks ++ [.success b.successBlock b.urls]⟩ := by
  obtain ⟨bound, value, name, _⟩ := Batch.mem_uploads mem
  have first : u.index = 0 := by omega
  have urls : b.urls = [b.url 0] := by simp [Batch.urls, one]
  obtain ⟨x, hx⟩ := List.length_eq_one_iff.mp room
  have left : ¬ "notValue" = b.url 0 := (b.url_ne_notValue 0).symm
  simp [Upload.completion, Upload.replace, replaceObjectAtIndex, hx, first, value, urls,
    AliyunOSSTool.containsNotValue, left, Upload.report, name]

theorem Session.Inv.single_left {s : Session} {u : Upload} {k : Nat} {b : Batch} (hi : s.Inv)
    (hb : s.batches[k]? = some b) (hu : u ∈ b.uploads) (one : b.size = 1) :
    ¬ ∃ v ∈ s.pending.erase u, v.successBlock = some k := by
  intro h
  obtain ⟨v, hv, he⟩ := h
  obtain ⟨j, c, hj, hc, mem⟩ := hi.owner v (List.mem_of_mem_erase hv)
  have same := Option.some.inj (hj.symm.trans he)
  subst j
  have same := Option.some.inj (hb.symm.trans hc)
  subst c
  have hvi := (Batch.mem_uploads mem).1
  have hui := (Batch.mem_uploads hu).1
  have eq := Batch.eq_of_index mem hu (by omega)
  subst v
  exact hi.nodup.not_mem_erase hv

theorem Session.step_complete_some {s t : Session} {u : Upload} {tool : AliyunOSSTool}
    (h : s.step (.complete u) = some t) (told : u.completion none s.tool = some tool) :
    t = { s with tool := tool, pending := s.pending.erase u } := by
  rcases (Session.step_complete h).2 with ⟨raised, _⟩ | ⟨other, ht, rfl⟩
  · rw [told] at raised
    cases raised
  · cases told.symm.trans ht
    rfl

theorem Session.Inv.complete_single {s t : Session} {u : Upload} {k : Nat} {b : Batch} (hi : s.Inv)
    (h : s.step (.complete u) = some t) (hk : u.successBlock = some k) (hb : s.batches[k]? = some b)
    (hu : u ∈ b.uploads) (one : b.size = 1) (last : ∀ c, s.batches.getLast? = some c → c.size = 1) :
    t.Inv := by
  have mem := (Session.step_complete h).1
  have hne : s.batches ≠ [] := by
    intro empty
    simp [empty] at hb
  have room : s.tool.dataSourece.length = 1 := by
    have hl := List.getLast?_eq_some_getLast hne
    rw [hi.room _ hl, last _ hl]
  rw [Session.step_complete_some h (completion_single hu one room)]
  refine hi.complete_of_calls mem hk hb (Or.inr ⟨hi.single_left hb hu one, ?_⟩) ?_ ?_
  · rw [hi.named k b hb]
  · intro c hc
    simp [Batch.urls, one, last c hc]
  · intro c hc two
    have := last c hc
    omega

theorem Session.Inv.owned {s : Session} {b : Batch} (hi : s.Inv)
    (hb : s.batches[s.batches.length - 1]? = some b) : ∀ u ∈ s.ownPending, u ∈ b.uploads := by
  intro u hu
  obtain ⟨hu, he⟩ := List.mem_filter.mp hu
  obtain ⟨j, c, hj, hc, hm⟩ := hi.owner u hu
  have same := Option.some.inj (hj.symm.trans (by simpa using he))
  subst j
  exact Option.some.inj (hb.symm.trans hc) ▸ hm

theorem Session.Inv.complete_own {s t : Session} {u : Upload} {b : Batch} (hi : s.Inv)
    (h : s.step (.complete u) = some t) (hk : u.successBlock = some (s.batches.length - 1))
    (hb : s.batches[s.batches.length - 1]? = some b) (two : 2 ≤ b.size) : t.Inv := by
  have mem := (Session.step_complete h).1
  have hl : s.batches.getLast? = some b := by rw [List.getLast?_eq_getElem?]; exact hb
  have last : ∀ c, s.batches.getLast? = some c → b = c := fun c hc => Option.some.inj (hl.symm.trans hc)
  let rest := (s.pending.erase u).filter fun v => v.successBlock = some (s.batches.length - 1)
  have perm : s.ownPending.Perm (u :: rest) := by
    have split := (List.perm_cons_erase mem).filter fun v => v.successBlock = some (s.batches.length - 1)
    rwa [List.filter_cons_of_pos (by simpa using hk)] at split
  have owned : ∀ v ∈ u :: rest, v ∈ b.uploads := fun v hv => hi.owned hb v (perm.mem_iff.mpr hv)
  have board : Board b.url b.size (u :: rest) := Batch.board owned
    (fun v hv => (Batch.mem_uploads (owned v hv)).1) (perm.nodup_iff.mp (hi.nodup.filter _))
  have data : s.tool.dataSourece = slots "notValue" b.url b.size (waiting (u :: rest)) := by
    rw [hi.board b hl two, waiting_perm perm]
  have mine : (∃ v ∈ s.pending.erase u, v.successBlock = some (s.batches.length - 1)) ↔ rest ≠ [] := by
    simp [rest]
  by_cases hne : rest = []
  · rw [hne] at board data
    have name := hi.named _ b hb
    rw [Session.step_complete_some h (completion_slots_last board hk data)]
    refine hi.complete_of_calls mem hk hb (Or.inr ⟨fun more => mine.mp more hne, rfl⟩) ?_ ?_
    · intro c hc
      cases last c hc
      simp
    · intro c hc _
      cases last c hc
      change _ = slots "notValue" b.url b.size (waiting rest)
      rw [hne]
      exact (slots_none_waiting fun i _ hw => by simp [waiting] at hw).symm
  · rw [Session.step_complete_some h (completion_slots_waiting board hne data)]
    refine hi.complete_of_calls mem hk hb (Or.inl ⟨mine.mpr hne, rfl⟩) ?_ ?_
    · intro c hc
      cases last c hc
      simp
    · intro c hc _
      cases last c hc
      rfl

theorem Session.Inv.step {s t : Session} {a : SessionStep} (h : s.step a = some t)
    (own : s.OwnBoard a) (hi : s.Inv) : t.Inv := by
  cases a with
  | start b => exact hi.start h
  | complete u =>
    obtain ⟨k, b, hk, hb, hu⟩ := hi.owner u (Session.step_complete h).1
    by_cases one : b.size = 1 ∧ ∀ c, s.batches.getLast? = some c → c.size = 1
    · exact hi.complete_single h hk hb hu one.1 one.2
    · rcases own k hk with last | ⟨single, lastSingle⟩
      · have eq : k = s.batches.length - 1 := by omega
        subst k
        have hl : s.batches.getLast? = some b := by rw [List.getLast?_eq_getElem?]; exact hb
        have two : 2 ≤ b.size := by
          have pos := b.size_pos
          by_contra small
          refine one ⟨by omega, ?_⟩
          intro c hc
          have same := Option.some.inj (hl.symm.trans hc)
          subst c
          omega
        exact hi.complete_own h hk hb two
      · exact absurd ⟨single b hb, lastSingle⟩ one

/-- Overlapping batches are all answered as they should be as long as every completion
block finds the board of its own batch, or a board of one place for its one image. -/
theorem overlapping_batches_answered (dataSourece : List String) (steps : List SessionStep)
    (own : StepsMeet Session.step Session.OwnBoard (Session.initial dataSourece) steps) :
    Always Session.step Session.Answered (Session.initial dataSourece) steps := by
  have inv := always_of_stepsMeet (fun _ _ _ => Session.Inv.step) (Session.initial_inv dataSourece) own
  intro past hp t ht
  exact (inv past hp t ht).answered

theorem single_batches_meet {s : Session} {steps : List SessionStep}
    (old : ∀ b ∈ s.batches, b.size = 1) (new : ∀ b, .start b ∈ steps → b.size = 1) :
    StepsMeet Session.step Session.OwnBoard s steps := by
  induction steps generalizing s with
  | nil => trivial
  | cons a steps ih =>
    intro t ht
    refine ⟨?_, ih ?_ fun b hb => new b (List.mem_cons_of_mem a hb)⟩
    · cases a with
      | start b => trivial
      | complete u =>
        intro k _
        exact Or.inr ⟨fun b hb => old b (List.mem_of_getElem? hb),
          fun b hb => old b (List.mem_of_getLast? hb)⟩
    · cases a with
      | start b =>
        simp only [Session.step] at ht
        split at ht
        next => cases ht
        next =>
          cases Option.some.inj ht
          intro c hc
          rcases List.mem_append.mp hc with hc | hc
          · exact old c hc
          · rw [List.mem_singleton.mp hc]
            exact new b (by simp)
      | complete u =>
        rcases (Session.step_complete ht).2 with ⟨_, rfl⟩ | ⟨_, _, rfl⟩
        · exact old
        · exact old

/-- The uploads of a batch once the session has numbered its blocks. -/
def numbered (b : Batch) (k : Nat) : List Upload :=
  ({ b with successBlock := k, faile := k } : Batch).uploads

theorem overlapping_batches_answered_two :
    Always Session.step Session.Answered (Session.initial [])
      ([.start oneImage, .start oneImage] ++ (numbered oneImage 1 ++ numbered oneImage 0).map .complete) :=
  overlapping_batches_answered [] _ (single_batches_meet (by simp [Session.initial])
    (by simp [numbered, oneImage, Batch.uploads_eq, EntryPoint.uploads, Batch.size]))

/-- A batch of one image is started while a batch of two is on its way, and the second
block of the older batch runs next: it raises. -/
theorem overlapping_batches_raise :
    ¬ Always Session.step Session.Answered (Session.initial [])
      ([.start twoImages, .start oneImage] ++ ((numbered twoImages 0).drop 1).map .complete) := by
  intro h
  obtain ⟨t, ht, raised⟩ : ∃ t, run Session.step (Session.initial [])
      ([.start twoImages, .start oneImage] ++ ((numbered twoImages 0).drop 1).map .complete) = some t ∧
        t.raised = true := ⟨_, rfl, rfl⟩
  have alive := (always_end h ht).alive
  rw [raised] at alive
  cases alive

end SwiftApp
