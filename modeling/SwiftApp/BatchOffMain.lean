import SwiftApp.BatchOutcome

namespace SwiftApp

open StepRun Slots

/-- Where the main queue is inside a completion block. -/
inductive Handler
  | idle
  | replaced (u : Upload)
  | passed (u : Upload)
  deriving DecidableEq, Repr

/-- A batch started off the main thread: `todo` are the images the loop has not reached,
`registered` the one whose placeholder is in the array but whose upload is not started,
`inFlight` the started uploads whose completion block has not begun. -/
structure OffMain where
  tool : AliyunOSSTool
  todo : List Upload
  registered : Option Upload
  inFlight : List Upload
  handler : Handler
  raised : Bool

/-- The array operations of the loop and of the completion blocks, one by one. -/
inductive OffMainStep
  | addObject
  | startUpload
  | replaceObject (u : Upload)
  | containsObject
  | report
  deriving DecidableEq, Repr

/-- The batch after `removeAllObjects`. -/
def OffMain.initial (b : Batch) : OffMain := ⟨⟨[], []⟩, b.uploads, none, [], .idle, false⟩

def OffMain.step (s : OffMain) (a : OffMainStep) : Option OffMain :=
  if s.raised then none
  else match a with
    | .addObject =>
      match s.todo, s.registered with
      | u :: todo, none =>
        some { s with
          tool := { s.tool with dataSourece := s.tool.dataSourece ++ ["notValue"] }
          todo := todo
          registered := some u }
      | _, _ => none
    | .startUpload =>
      match s.registered with
      | some u => some { s with registered := none, inFlight := s.inFlight ++ [u] }
      | none => none
    | .replaceObject u =>
      if s.handler = .idle ∧ u ∈ s.inFlight then
        match u.replace s.tool with
        | none => some { s with raised := true }
        | some tool =>
          some { s with tool := tool, inFlight := s.inFlight.erase u, handler := .replaced u }
      else none
    | .containsObject =>
      match s.handler with
      | .replaced u => some { s with handler := if s.tool.containsNotValue then .idle else .passed u }
      | _ => none
    | .report =>
      match s.handler with
      | .passed u => some { s with tool := u.report s.tool, handler := .idle }
      | _ => none

/-- What the loop and the started uploads still owe the array. -/
def OffMain.outstanding (s : OffMain) : List Upload := s.inFlight ++ s.registered.toList

def OffMain.Complete (s : OffMain) : Prop :=
  s.todo = [] ∧ s.outstanding = [] ∧ s.handler = .idle

/-- When a block looks for placeholders, the loop has registered all images, or some
registered image is still on its way. -/
def OffMain.Covered (s : OffMain) : OffMainStep → Prop
  | .containsObject => s.todo = [] ∨ s.outstanding ≠ []
  | _ => True

/-- An interleaving of the loop with the completion blocks, to the end. -/
structure OffMainRun (b : Batch) where
  steps : List OffMainStep
  final : OffMain
  ran : run OffMain.step (OffMain.initial b) steps = some final
  complete : final.Complete

theorem OffMain.step_cases {s t : OffMain} {a : OffMainStep} (h : s.step a = some t) :
    s.raised = false ∧
    ((∃ u todo, a = .addObject ∧ s.todo = u :: todo ∧ s.registered = none ∧ t = { s with
        tool := { s.tool with dataSourece := s.tool.dataSourece ++ ["notValue"] }
        todo := todo
        registered := some u }) ∨
    (∃ u, a = .startUpload ∧ s.registered = some u ∧
      t = { s with registered := none, inFlight := s.inFlight ++ [u] }) ∨
    (∃ u, a = .replaceObject u ∧ s.handler = .idle ∧ u ∈ s.inFlight ∧
      (u.replace s.tool = none ∧ t = { s with raised := true } ∨ ∃ tool, u.replace s.tool = some tool ∧
        t = { s with tool := tool, inFlight := s.inFlight.erase u, handler := .replaced u })) ∨
    (∃ u, a = .containsObject ∧ s.handler = .replaced u ∧
      t = { s with handler := if s.tool.containsNotValue then .idle else .passed u }) ∨
    (∃ u, a = .report ∧ s.handler = .passed u ∧
      t = { s with tool := u.report s.tool, handler := .idle })) := by
  unfold OffMain.step at h
  split at h
  next => cases h
  next hr =>
    refine ⟨by simpa using hr, ?_⟩
    cases a with
    | addObject =>
      simp only at h
      split at h
      next u todo htodo hreg => exact Or.inl ⟨u, todo, rfl, htodo, hreg, (Option.some.inj h).symm⟩
      next => cases h
    | startUpload =>
      simp only at h
      split at h
      next u hreg => exact Or.inr (Or.inl ⟨u, rfl, hreg, (Option.some.inj h).symm⟩)
      next => cases h
    | replaceObject u =>
      simp only at h
      split at h
      next hc =>
        refine Or.inr (Or.inr (Or.inl ⟨u, rfl, hc.1, hc.2, ?_⟩))
        split at h
        next hrep => exact Or.inl ⟨hrep, (Option.some.inj h).symm⟩
        next tool hrep => exact Or.inr ⟨tool, hrep, (Option.some.inj h).symm⟩
      next => cases h
    | containsObject =>
      simp only at h
      split at h
      next u hrep => exact Or.inr (Or.inr (Or.inr (Or.inl ⟨u, rfl, hrep, (Option.some.inj h).symm⟩)))
      next => cases h
    | report =>
      simp only at h
      split at h
      next u hpass => exact Or.inr (Or.inr (Or.inr (Or.inr ⟨u, rfl, hpass, (Option.some.inj h).symm⟩)))
      next => cases h

/-- The array shows the first `reg.length` images, blank where a block has not written. -/
structure OffMain.OnBoard (b : Batch) (reg : List Upload) (s : OffMain) : Prop where
  split : b.uploads = reg ++ s.todo
  alive : s.raised = false
  sub : ∀ u ∈ s.outstanding, u ∈ reg
  nodup : s.outstanding.Nodup
  busy : ∀ u, s.handler = .replaced u ∨ s.handler = .passed u → u ∈ reg
  data : s.tool.dataSourece = slots "notValue" b.url reg.length (waiting s.outstanding)

theorem OffMain.initial_onBoard (b : Batch) : (OffMain.initial b).OnBoard b [] where
  split := rfl
  alive := rfl
  sub _ h := by simp [OffMain.outstanding, OffMain.initial] at h
  nodup := List.nodup_nil
  busy _ h := by simp [OffMain.initial] at h
  data := rfl

theorem OffMain.OnBoard.index_lt {b : Batch} {reg : List Upload} {s : OffMain} (h : s.OnBoard b reg)
    {u : Upload} (hu : u ∈ reg) : u.index < reg.length := by
  have all := b.uploads_index
  rw [h.split, List.map_append] at all
  have front : reg.map Upload.index = (List.range b.size).take reg.length := by
    rw [← all]
    exact (List.take_left' (by simp)).symm
  have mem := List.mem_map_of_mem (f := Upload.index) hu
  rw [front, List.take_range] at mem
  have := List.mem_range.mp mem
  omega

theorem OffMain.OnBoard.board {b : Batch} {reg : List Upload} {s : OffMain} (h : s.OnBoard b reg)
    {blocks : List Upload} (perm : s.outstanding.Perm blocks) : Board b.url reg.length blocks := by
  have registered : ∀ u ∈ blocks, u ∈ reg := fun u hu => h.sub u (perm.mem_iff.mpr hu)
  refine Batch.board ?_ (fun u hu => h.index_lt (registered u hu)) (perm.nodup_iff.mp h.nodup)
  intro u hu
  rw [h.split]
  exact List.mem_append_left _ (registered u hu)

theorem OffMain.OnBoard.contains {b : Batch} {reg : List Upload} {s : OffMain} (h : s.OnBoard b reg) :
    s.tool.containsNotValue = true ↔ s.outstanding ≠ [] :=
  containsNotValue_slots (h.board (.refl _)) h.data

theorem OffMain.OnBoard.replace {b : Batch} {reg : List Upload} {s : OffMain} (h : s.OnBoard b reg)
    {u : Upload} (hu : u ∈ s.inFlight) :
    u.replace s.tool = some { s.tool with
      dataSourece := slots "notValue" b.url reg.length
        (waiting (s.inFlight.erase u ++ s.registered.toList)) } := by
  have perm : s.outstanding.Perm (u :: (s.inFlight.erase u ++ s.registered.toList)) :=
    (List.perm_cons_erase hu).append_right _
  exact replace_slots (h.board perm) (by rw [h.data, waiting_perm perm])

/-- The index of an upload under way is inside the array, so replacing never raises. -/
theorem OffMain.OnBoard.replaced {b : Batch} {reg : List Upload} {s t : OffMain}
    (h : s.OnBoard b reg) {u : Upload} (hu : u ∈ s.inFlight)
    (hrep : u.replace s.tool = none ∧ t = { s with raised := true } ∨ ∃ tool, u.replace s.tool = some tool ∧
      t = { s with tool := tool, inFlight := s.inFlight.erase u, handler := .replaced u }) :
    ∃ tool, u.replace s.tool = some tool ∧ tool.callbacks = s.tool.callbacks ∧
      t = { s with tool := tool, inFlight := s.inFlight.erase u, handler := .replaced u } := by
  have told := h.replace hu
  rcases hrep with ⟨raised, _⟩ | ⟨tool, replaced, moved⟩
  · cases told.symm.trans raised
  · cases told.symm.trans replaced
    exact ⟨_, told, rfl, moved⟩

/-- The next image of the loop takes the next place of the array. -/
theorem OffMain.OnBoard.next_index {b : Batch} {reg todo : List Upload} {u : Upload} {s : OffMain}
    (h : s.OnBoard b reg) (htodo : s.todo = u :: todo) : u.index = reg.length := by
  have split : b.uploads = (reg ++ [u]) ++ todo := by rw [h.split, htodo]; simp
  have all := congrArg (fun xs => xs[reg.length]?) b.uploads_index
  have bound : reg.length < b.size := by
    have len := congrArg List.length b.uploads_index
    rw [split] at len
    simp at len
    omega
  rw [split] at all
  simpa [bound] using all

theorem OffMain.OnBoard.addObject {b : Batch} {reg todo : List Upload} {u : Upload} {s : OffMain}
    (h : s.OnBoard b reg) (htodo : s.todo = u :: todo) (hreg : s.registered = none) :
    OffMain.OnBoard b (reg ++ [u]) { s with
      tool := { s.tool with dataSourece := s.tool.dataSourece ++ ["notValue"] }
      todo := todo
      registered := some u } where
  split := by rw [h.split, htodo]; simp
  alive := h.alive
  sub v hv := by
    rcases List.mem_append.mp hv with hv | hv
    · exact List.mem_append_left _ (h.sub v (by simpa [OffMain.outstanding, hreg] using hv))
    · exact List.mem_append_right _ hv
  nodup := by
    have old : s.outstanding = s.inFlight := by simp [OffMain.outstanding, hreg]
    have fresh : u ∉ s.inFlight := by
      intro hu
      have := h.index_lt (h.sub u (old ▸ hu))
      have := h.next_index htodo
      omega
    have nodup := h.nodup
    rw [old] at nodup
    simp only [OffMain.outstanding, Option.toList_some]
    refine List.nodup_append.mpr ⟨nodup, List.nodup_singleton u, ?_⟩
    intro v hv w hw same
    rw [List.mem_singleton.mp hw] at same
    exact fresh (same ▸ hv)
  busy v hv := List.mem_append_left _ (h.busy v hv)
  data := by
    have grow : waiting (s.inFlight ++ [u]) = insert reg.length (waiting s.outstanding) := by
      ext i
      simp [mem_waiting, OffMain.outstanding, hreg, h.next_index htodo, or_comm, eq_comm]
    simp only [h.data, slots_append, OffMain.outstanding, Option.toList_some, grow,
      List.length_append, List.length_singleton]

theorem OffMain.OnBoard.replaceObject {b : Batch} {reg : List Upload} {u : Upload} {s : OffMain}
    {tool : AliyunOSSTool} (h : s.OnBoard b reg) (hu : u ∈ s.inFlight)
    (told : u.replace s.tool = some tool) :
    OffMain.OnBoard b reg
      { s with tool := tool, inFlight := s.inFlight.erase u, handler := .replaced u } where
  split := h.split
  alive := h.alive
  sub v hv := by
    apply h.sub v
    rcases List.mem_append.mp hv with hv | hv
    · exact List.mem_append_left _ (List.mem_of_mem_erase hv)
    · exact List.mem_append_right _ hv
  nodup := h.nodup.sublist ((List.erase_sublist).append (.refl _))
  busy v hv := by
    simp only [Handler.replaced.injEq, reduceCtorEq, or_false] at hv
    exact hv ▸ h.sub u (List.mem_append_left _ hu)
  data := by
    cases (h.replace hu).symm.trans told
    rfl

theorem Upload.report_dataSourece (u : Upload) (tool : AliyunOSSTool) :
    (u.report tool).dataSourece = tool.dataSourece := by
  unfold Upload.report AliyunOSSTool.callFaile
  split
  next => rfl
  next =>
    split
    next => split <;> rfl
    next => rfl

theorem OffMain.OnBoard.step {b : Batch} {reg : List Upload} {s t : OffMain} {a : OffMainStep}
    (h : s.OnBoard b reg) (ht : s.step a = some t) : ∃ reg', t.OnBoard b reg' := by
  obtain ⟨_, hcases⟩ := OffMain.step_cases ht
  rcases hcases with ⟨u, todo, _, htodo, hreg, rfl⟩ | ⟨u, _, hreg, rfl⟩ | ⟨u, _, hidle, hu, hrep⟩ |
    ⟨u, _, hrep, rfl⟩ | ⟨u, _, hpass, rfl⟩
  · exact ⟨reg ++ [u], h.addObject htodo hreg⟩
  · refine ⟨reg, h.split, h.alive, ?_, ?_, h.busy, ?_⟩
    · intro v hv
      exact h.sub v (by simpa [OffMain.outstanding, hreg] using hv)
    · simpa [OffMain.outstanding, hreg] using h.nodup
    · simpa [OffMain.outstanding, hreg] using h.data
  · obtain ⟨tool, told, _, rfl⟩ := h.replaced hu hrep
    exact ⟨reg, h.replaceObject hu told⟩
  · refine ⟨reg, h.split, h.alive, h.sub, h.nodup, ?_, h.data⟩
    intro v hv
    cases hc : s.tool.containsNotValue with
    | true => simp [hc] at hv
    | false =>
      simp only [hc, Bool.false_eq_true, if_false, reduceCtorEq, Handler.passed.injEq, false_or] at hv
      exact hv ▸ h.busy u (Or.inl hrep)
  · refine ⟨reg, h.split, h.alive, h.sub, h.nodup, ?_, ?_⟩
    · intro v hv
      simp at hv
    · change (u.report s.tool).dataSourece = _
      rw [u.report_dataSourece]
      exact h.data

/-- A block that found no placeholder is about to report `reg`, all of whose places are filled. -/
theorem OffMain.OnBoard.report {b : Batch} {reg : List Upload} {s : OffMain} (h : s.OnBoard b reg)
    {u : Upload} (hp : s.handler = .passed u) :
    (u.report s.tool).callbacks = s.tool.callbacks ++ [.success b.successBlock s.tool.dataSourece] := by
  have hu := h.busy u (Or.inr hp)
  have name : u.successBlock = some b.successBlock :=
    (Batch.mem_uploads (by rw [h.split]; exact List.mem_append_left _ hu)).2.2.1
  have room : ¬ s.tool.dataSourece.length < 1 := by
    have := List.length_pos_of_mem hu
    rw [h.data, slots_length]
    omega
  simp only [Upload.report, name, if_neg room]

theorem OffMain.OnBoard.full {b : Batch} {reg : List Upload} {s : OffMain} (h : s.OnBoard b reg)
    (todo : s.todo = []) (out : s.outstanding = []) : s.tool.dataSourece = b.urls := by
  have len := congrArg List.length b.uploads_index
  rw [h.split, todo, List.append_nil, List.length_map, List.length_range] at len
  rw [h.data, out, len]
  exact slots_none_waiting fun i _ hi => by simp [waiting] at hi

/-- The batch is reported when it is complete and not before. -/
structure OffMain.Reports (b : Batch) (s : OffMain) : Prop where
  done : s.Complete → s.tool.callbacks = [.success b.successBlock b.urls]
  silent : ¬ s.Complete → s.tool.callbacks = []
  passed : ∀ u, s.handler = .passed u → s.todo = [] ∧ s.outstanding = []

theorem OffMain.initial_reports (b : Batch) : (OffMain.initial b).Reports b where
  done h := absurd h.1 b.uploads_ne_nil
  silent _ := rfl
  passed _ h := by simp [OffMain.initial] at h

theorem OffMain.Complete.idle {s : OffMain} {handler : Handler} (h : s.Complete)
    (same : s.handler = handler) : handler = .idle :=
  same.symm.trans h.2.2

theorem OffMain.Reports.of_incomplete {b : Batch} {s : OffMain} (incomplete : ¬ s.Complete)
    (silent : s.tool.callbacks = [])
    (passed : ∀ u, s.handler = .passed u → s.todo = [] ∧ s.outstanding = []) : s.Reports b where
  done complete := absurd complete incomplete
  silent _ := silent
  passed := passed

/-- The loop takes a step: something was left to do before it, and is after it. -/
theorem OffMain.Reports.of_outstanding {b : Batch} {s t : OffMain} (h : s.Reports b)
    (before : s.todo ≠ [] ∨ s.outstanding ≠ []) (after : t.outstanding ≠ [])
    (told : t.tool.callbacks = s.tool.callbacks) (handler : t.handler = s.handler) : t.Reports b := by
  refine .of_incomplete (fun complete => after complete.2.1) ?_ ?_
  · rw [told]
    exact h.silent fun complete => before.elim (· complete.1) (· complete.2.1)
  · intro u passed
    have nothing := h.passed u (handler.symm.trans passed)
    exact before.elim (absurd nothing.1) (absurd nothing.2)

theorem OffMain.Reports.step {b : Batch} {reg : List Upload} {s t : OffMain} {a : OffMainStep}
    (h : s.Reports b) (board : s.OnBoard b reg) (ht : s.step a = some t) (covered : s.Covered a) :
    t.Reports b := by
  obtain ⟨_, hcases⟩ := OffMain.step_cases ht
  rcases hcases with ⟨u, todo, _, htodo, hreg, rfl⟩ | ⟨u, _, hreg, rfl⟩ | ⟨u, _, hidle, hu, hrep⟩ |
    ⟨u, rfl, hrep, rfl⟩ | ⟨u, _, hpass, rfl⟩
  · have left : s.todo ≠ [] := by simp [htodo]
    exact h.of_outstanding (Or.inl left) (by simp [OffMain.outstanding]) rfl rfl
  · have left : s.outstanding ≠ [] := by simp [OffMain.outstanding, hreg]
    exact h.of_outstanding (Or.inr left) (by simp [OffMain.outstanding]) rfl rfl
  · obtain ⟨tool, _, told, rfl⟩ := board.replaced hu hrep
    have before : ¬ s.Complete := by
      intro complete
      have none := List.append_eq_nil_iff.mp complete.2.1
      rw [none.1] at hu
      cases hu
    refine .of_incomplete (fun complete => ?_) (told.trans (h.silent before)) (fun v hv => ?_)
    · cases complete.idle rfl
    · cases hv
  · have before : s.tool.callbacks = [] := h.silent fun complete => by cases complete.idle hrep
    by_cases more : s.outstanding = []
    · have clear : s.tool.containsNotValue = false := by
        by_contra hc
        exact board.contains.mp (by simpa using hc) more
      have todo : s.todo = [] := covered.resolve_right fun hne => hne more
      rw [clear]
      refine .of_incomplete (fun complete => ?_) before (fun _ _ => ⟨todo, more⟩)
      cases complete.idle rfl
    · rw [board.contains.mpr more]
      exact .of_incomplete (fun complete => more complete.2.1) before fun v hv => by cases hv
  · obtain ⟨todo, out⟩ := h.passed u hpass
    have before : s.tool.callbacks = [] := h.silent fun complete => by cases complete.idle hpass
    have told := board.report hpass
    rw [before, List.nil_append, board.full todo out] at told
    exact ⟨fun _ => told, fun hc => absurd ⟨todo, out, rfl⟩ hc, fun v hv => by cases hv⟩

def Handler.passes : Handler → Nat
  | .passed _ => 1
  | _ => 0

def OffMain.reports (s : OffMain) : Nat := s.tool.callbacks.countP Callback.isSuccess + s.handler.passes

/-- After one report too early there is a second one by the time the batch is complete. -/
structure OffMain.Early (s : OffMain) : Prop where
  one : 1 ≤ s.reports
  two : s.todo = [] → s.outstanding = [] → (∀ u, s.handler ≠ .replaced u) → 2 ≤ s.reports

theorem OffMain.Early.step {b : Batch} {reg : List Upload} {s t : OffMain} {a : OffMainStep}
    (h : s.Early) (board : s.OnBoard b reg) (ht : s.step a = some t) : t.Early := by
  obtain ⟨_, hcases⟩ := OffMain.step_cases ht
  rcases hcases with ⟨u, todo, _, htodo, hreg, rfl⟩ | ⟨u, _, hreg, rfl⟩ | ⟨u, _, hidle, hu, hrep⟩ |
    ⟨u, rfl, hrep, rfl⟩ | ⟨u, _, hpass, rfl⟩
  · exact ⟨h.one, fun _ hout => absurd hout (by simp [OffMain.outstanding])⟩
  · exact ⟨h.one, fun _ hout => absurd hout (by simp [OffMain.outstanding])⟩
  · have one := h.one
    simp only [OffMain.reports, hidle, Handler.passes] at one
    obtain ⟨tool, _, told, rfl⟩ := board.replaced hu hrep
    refine ⟨?_, fun _ _ hne => absurd rfl (hne u)⟩
    simp only [OffMain.reports, told]
    exact one
  · have one := h.one
    simp only [OffMain.reports, hrep, Handler.passes] at one
    cases hc : s.tool.containsNotValue with
    | true =>
      exact ⟨one, fun _ hout => absurd hout (board.contains.mp hc)⟩
    | false =>
      refine ⟨by simp [OffMain.reports, Handler.passes], fun _ _ _ => ?_⟩
      change 2 ≤ s.tool.callbacks.countP Callback.isSuccess + 1
      omega
  · have told := board.report hpass
    have count : (u.report s.tool).callbacks.countP Callback.isSuccess =
        s.tool.callbacks.countP Callback.isSuccess + 1 := by
      simp [told, Callback.isSuccess]
    refine ⟨by simp only [OffMain.reports, count]; omega, fun todo out _ => ?_⟩
    have two := h.two todo out fun v hv => by rw [hpass] at hv; cases hv
    simp only [OffMain.reports, hpass, Handler.passes] at two
    simpa [OffMain.reports, count, Handler.passes] using two

/-- `successBlock` is called once, with all URLs, and not while images are left to register. -/
def OffMainRun.ReportsOnce {b : Batch} (r : OffMainRun b) : Prop :=
  Always OffMain.step (fun s => s.todo ≠ [] → s.tool.callbacks = []) (OffMain.initial b) r.steps ∧
    r.final.tool.callbacks = [.success b.successBlock b.urls]

/-- A batch started off the main thread is reported as it should be exactly when no
block looks for placeholders while the loop is unfinished and nothing else is on its way. -/
theorem off_main_reports_once_iff (b : Batch) (r : OffMainRun b) :
    r.ReportsOnce ↔ StepsMeet OffMain.step OffMain.Covered (OffMain.initial b) r.steps := by
  have keeps : ∀ s a t, OffMain.step s a = some t →
      (∃ reg, s.OnBoard b reg) → ∃ reg, t.OnBoard b reg := fun _ _ _ hstep hi =>
    hi.choose_spec.step hstep
  apply Iff.intro
  · intro h
    by_contra bad
    obtain ⟨past, a, rest, s, t, eq, hs, ht, bad⟩ := exists_bad_step bad
    obtain ⟨reg, board⟩ := run_invariant keeps hs ⟨[], OffMain.initial_onBoard b⟩
    have early : t.Early := by
      obtain ⟨_, hcases⟩ := OffMain.step_cases ht
      rcases hcases with ⟨_, _, rfl, _⟩ | ⟨_, rfl, _⟩ | ⟨_, rfl, _⟩ | ⟨u, rfl, _, rfl⟩ | ⟨_, rfl, _⟩
      · exact absurd trivial bad
      · exact absurd trivial bad
      · exact absurd trivial bad
      · simp only [OffMain.Covered, not_or, not_not] at bad
        have clear : s.tool.containsNotValue = false := by
          by_contra hc
          exact board.contains.mp (by simpa using hc) bad.2
        refine ⟨by simp [OffMain.reports, clear, Handler.passes], fun todo => absurd todo bad.1⟩
      · exact absurd trivial bad
    have whole := r.ran
    rw [eq, run_append, hs, Option.bind_some, run_cons, ht, Option.bind_some] at whole
    have stays : ∀ s a t, OffMain.step s a = some t →
        (∃ reg, s.OnBoard b reg) ∧ s.Early → (∃ reg, t.OnBoard b reg) ∧ t.Early :=
      fun _ _ _ hstep hi => ⟨keeps _ _ _ hstep hi.1, hi.2.step hi.1.choose_spec hstep⟩
    have inv := run_invariant stays whole ⟨board.step ht, early⟩
    obtain ⟨todo, out, idle⟩ := r.complete
    have two := inv.2.two todo out fun u hu => by rw [idle] at hu; cases hu
    simp [OffMain.reports, h.2, idle, Handler.passes, Callback.isSuccess] at two
  · intro h
    have stays : ∀ s a t, OffMain.step s a = some t → OffMain.Covered s a →
        (∃ reg, s.OnBoard b reg) ∧ s.Reports b → (∃ reg, t.OnBoard b reg) ∧ t.Reports b :=
      fun _ _ _ hstep hc hi => ⟨keeps _ _ _ hstep hi.1, hi.2.step hi.1.choose_spec hstep hc⟩
    have inv := always_of_stepsMeet stays ⟨⟨[], OffMain.initial_onBoard b⟩, OffMain.initial_reports b⟩ h
    refine ⟨?_, (always_end inv r.ran).2.done r.complete⟩
    intro past hp t ht todo
    exact (inv past hp t ht).2.silent fun hc => todo hc.1

/-- The only upload of the loop so far finishes before the second image is registered:
its block reports a batch of two images with one URL. -/
def earlyReport : OffMainRun twoImages where
  steps := [.addObject, .startUpload, .replaceObject (twoImages.uploads[0]), .containsObject, .report,
    .addObject, .startUpload, .replaceObject (twoImages.uploads[1]), .containsObject, .report]
  final := ⟨⟨twoImages.urls, [.success 0 [twoImages.url 0], .success 0 twoImages.urls]⟩, [], none, [],
    .idle, false⟩
  ran := rfl
  complete := ⟨rfl, rfl, rfl⟩

theorem early_report : ¬ earlyReport.ReportsOnce := by
  intro h
  cases h.2

/-- Uninterrupted, the loop leaves what the main-thread start leaves. -/
theorem OffMain.run_loop (s : OffMain) (alive : s.raised = false) (hreg : s.registered = none) :
    run OffMain.step s (s.todo.flatMap fun _ => [.addObject, .startUpload]) = some { s with
      tool := { s.tool with
        dataSourece := s.tool.dataSourece ++ List.replicate s.todo.length "notValue" }
      todo := []
      inFlight := s.inFlight ++ s.todo } := by
  obtain ⟨tool, todo, registered, inFlight, handler, raised⟩ := s
  simp only at alive hreg
  subst alive hreg
  induction todo generalizing tool inFlight with
  | nil => simp
  | cons u todo ih =>
    simp only [List.flatMap_cons, List.cons_append, List.nil_append, run_cons]
    simp only [OffMain.step, Bool.false_eq_true, if_false, Option.bind_some]
    rw [ih]
    simp [List.replicate_succ]

theorem OffMain.run_loop_start (b : Batch) :
    run OffMain.step (OffMain.initial b) (b.uploads.flatMap fun _ => [.addObject, .startUpload]) =
      some { OffMain.initial b with tool := b.start ⟨[], []⟩, todo := [], inFlight := b.uploads } := by
  have size : b.uploads.length = b.size := by simpa using congrArg List.length b.uploads_index
  have loop := OffMain.run_loop (OffMain.initial b) rfl rfl
  simpa [OffMain.initial, b.start_dataSourece, size] using loop

/-- Uninterrupted, the steps of a block do what the block does on the main thread. -/
theorem OffMain.run_block {s : OffMain} {u : Upload} {tool : AliyunOSSTool} (alive : s.raised = false)
    (idle : s.handler = .idle) (hu : u ∈ s.inFlight) (h : u.completion none s.tool = some tool) :
    run OffMain.step s [.replaceObject u, .containsObject] =
        some { s with tool := tool, inFlight := s.inFlight.erase u } ∨
      run OffMain.step s [.replaceObject u, .containsObject, .report] =
        some { s with tool := tool, inFlight := s.inFlight.erase u } := by
  obtain ⟨filled, hrep, hdone⟩ := Option.map_eq_some_iff.mp h
  cases hc : filled.containsNotValue with
  | true =>
    have same : filled = tool := by simpa [hc] using hdone
    subst tool
    exact Or.inl (by simp [run_cons, OffMain.step, alive, idle, hu, hrep, hc])
  | false =>
    have same : u.report filled = tool := by simpa [hc] using hdone
    subst tool
    exact Or.inr (by simp [run_cons, OffMain.step, alive, idle, hu, hrep, hc])

end SwiftApp
