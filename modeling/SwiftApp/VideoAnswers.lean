import SwiftApp.AliyunUploadVideoTool
import Mathlib.Data.List.Nodup
import Mathlib.Data.List.Count

namespace SwiftApp

open StepRun

/-- A client is started once its delayed start has run, and once only; each success block is
called at most once, for its own call's client, with `true` only after that client's finish. -/
structure VideoApp.Answered (s : VideoApp) : Prop where
  started : ∀ k < s.clients, s.starts.count k = if k ∈ s.stars then 0 else 1
  once : (s.answers.map VideoAnswer.succeedBlock).Nodup
  own : ∀ a ∈ s.answers, a.client = a.succeedBlock
  truth : ∀ a ∈ s.answers, a.isSucceed = true → (a.succeedBlock, VODCallback.finish) ∈ s.delivered

/-- A delayed start runs while its call is still the latest; a terminal block runs when
no success block is held, or for the latest call and as the first one of its client. -/
def VideoApp.OwnTurn (s : VideoApp) : VideoStep → Prop
  | .star => s.stars.head? = s.tool.uploader
  | .runBlock _ _ => ∀ client isSucceed, s.mainQueue.head? = some (.terminal client isSucceed) →
    s.tool.succeedBlock = none ∨
      s.tool.uploader = some client ∧ VideoEvent.terminal client ∉ s.log
  | _ => True

/-- The SDK ends a client once, with finish or failure, and tells nothing terminal after that. -/
def VideoApp.SdkOrder (s : VideoApp) : VideoStep → Prop
  | .deliver client callback => callback ∈ [.expire, .finish, .failure] →
    (client, VODCallback.finish) ∉ s.delivered ∧ (client, VODCallback.failure) ∉ s.delivered
  | _ => True

/-- What the shared fields, the queue and the record of past events say about each other
in every run. -/
structure VideoApp.Wired (s : VideoApp) : Prop where
  latest : s.tool.uploader = if s.clients = 0 then none else some (s.clients - 1)
  block : ∀ k, s.tool.succeedBlock = some k → s.tool.uploader = some k
  stars : s.stars.Nodup ∧ ∀ k ∈ s.stars, k < s.clients
  starts : ∀ k ∈ s.starts, k < s.clients
  queued : ∀ k isSucceed, MainBlock.terminal k isSucceed ∈ s.mainQueue → k < s.clients ∧
    (isSucceed = true → (k, VODCallback.finish) ∈ s.delivered)
  logged : ∀ k, VideoEvent.terminal k ∈ s.log → k < s.clients
  answered : ∀ a ∈ s.answers, VideoEvent.terminal a.client ∈ s.log
  called : ∀ k, s.tool.succeedBlock = some k → VideoEvent.terminal k ∈ s.log →
    k ∈ s.answers.map VideoAnswer.succeedBlock

/-- The step left the calls, their starts and their answers as they were. -/
structure VideoApp.Silent (s t : VideoApp) : Prop where
  clients : t.clients = s.clients
  uploader : t.tool.uploader = s.tool.uploader
  succeedBlock : t.tool.succeedBlock = s.tool.succeedBlock
  stars : t.stars = s.stars
  starts : t.starts = s.starts
  answers : t.answers = s.answers
  delivered : ∀ x ∈ s.delivered, x ∈ t.delivered
  log : ∀ k, VideoEvent.terminal k ∈ t.log ↔ VideoEvent.terminal k ∈ s.log

theorem VideoApp.Answered.silent {s t : VideoApp} (h : s.Answered) (quiet : s.Silent t) :
    t.Answered where
  started := by
    rw [quiet.clients, quiet.starts, quiet.stars]
    exact h.started
  once := quiet.answers ▸ h.once
  own := quiet.answers ▸ h.own
  truth a ha yes := quiet.delivered _ (h.truth a (quiet.answers ▸ ha) yes)

theorem VideoApp.Wired.silent {s t : VideoApp} (h : s.Wired) (quiet : s.Silent t)
    (queued : ∀ k isSucceed, MainBlock.terminal k isSucceed ∈ t.mainQueue →
      MainBlock.terminal k isSucceed ∈ s.mainQueue ∨
        k < s.clients ∧ (isSucceed = true → (k, VODCallback.finish) ∈ t.delivered)) : t.Wired where
  latest := by rw [quiet.uploader, quiet.clients]; exact h.latest
  block k hk := quiet.uploader ▸ h.block k (quiet.succeedBlock ▸ hk)
  stars := by rw [quiet.stars, quiet.clients]; exact h.stars
  starts := by rw [quiet.starts, quiet.clients]; exact h.starts
  queued k isSucceed hk := by
    rw [quiet.clients]
    rcases queued k isSucceed hk with old | new
    · exact ⟨(h.queued k isSucceed old).1, fun yes => quiet.delivered _ ((h.queued k isSucceed old).2 yes)⟩
    · exact new
  logged k hk := by rw [quiet.clients]; exact h.logged k ((quiet.log k).mp hk)
  answered a ha := (quiet.log _).mpr (h.answered a (quiet.answers ▸ ha))
  called k hk ran := quiet.answers ▸ h.called k (quiet.succeedBlock ▸ hk) ((quiet.log k).mp ran)

theorem VideoApp.silent_getHud (s : VideoApp) : s.Silent s.getHud.2 := by
  obtain ⟨screen, eq⟩ := s.getHud_eq
  rw [eq]
  exact ⟨rfl, rfl, rfl, rfl, rfl, rfl, fun _ h => h, fun _ => Iff.rfl⟩

theorem VideoApp.getHud_mainQueue (s : VideoApp) : s.getHud.2.mainQueue = s.mainQueue := by
  obtain ⟨screen, eq⟩ := s.getHud_eq
  rw [eq]

theorem VideoApp.silent_deliver {s t : VideoApp} {client : Nat} {callback : VODCallback}
    (h : s.step (.deliver client callback) = some t) : s.Silent t := by
  obtain ⟨_, rfl⟩ := VideoApp.step_deliver h
  cases callback with
  | started =>
    have quiet := VideoApp.silent_getHud { s with delivered := s.delivered ++ [(client, .started)] }
    exact ⟨quiet.clients, quiet.uploader, quiet.succeedBlock, quiet.stars, quiet.starts, quiet.answers,
      fun x hx => quiet.delivered x (List.mem_append_left _ hx), fun k => by
        simpa [VODCallback.listener, testUploadStartedCallbackFunc] using quiet.log k⟩
  | progress | expire | finish | failure =>
    exact ⟨rfl, rfl, rfl, rfl, rfl, rfl, fun x hx => List.mem_append_left _ hx, fun _ => Iff.rfl⟩

theorem VideoApp.silent_progressBlock (s : VideoApp) (uploadedSize totalSize : Int) :
    s.Silent (s.progressBlock uploadedSize totalSize) := by
  have quiet := s.silent_getHud
  exact ⟨quiet.clients, quiet.uploader, quiet.succeedBlock, quiet.stars, quiet.starts, quiet.answers,
    quiet.delivered, fun k => by simpa [VideoApp.progressBlock] using quiet.log k⟩

/-- Whatever is dispatched as a success belongs to a client the SDK has finished. -/
theorem VideoApp.Wired.deliver {s t : VideoApp} {client : Nat} {callback : VODCallback} (h : s.Wired)
    (hstep : s.step (.deliver client callback) = some t) : t.Wired := by
  apply h.silent (VideoApp.silent_deliver hstep)
  obtain ⟨mem, rfl⟩ := VideoApp.step_deliver hstep
  have bound := h.starts client mem
  intro k isSucceed hk
  cases callback with
  | started =>
    left
    simpa [VODCallback.listener, testUploadStartedCallbackFunc, VideoApp.getHud_mainQueue] using hk
  | progress =>
    left
    simpa [VODCallback.listener, testProgressCallbackFunc, VideoApp.dispatch_async] using hk
  | expire | failure =>
    rcases List.mem_append.mp hk with hk | hk
    · exact Or.inl hk
    · cases List.mem_singleton.mp hk
      exact Or.inr ⟨bound, fun no => by cases no⟩
  | finish =>
    rcases List.mem_append.mp hk with hk | hk
    · exact Or.inl hk
    · cases List.mem_singleton.mp hk
      exact Or.inr ⟨bound, fun _ => List.mem_append_right _ (List.mem_singleton_self _)⟩

theorem VideoApp.Wired.uploadAuth {s : VideoApp} (h : s.Wired) (view : Nat) (hasBlock : Bool) :
    (s.uploadAuth view hasBlock).Wired where
  latest := rfl
  block k hk := by
    cases hasBlock with
    | true => exact hk
    | false => cases hk
  stars := by
    refine ⟨List.nodup_append.mpr ⟨h.stars.1, List.nodup_singleton _, ?_⟩, ?_⟩
    · intro k hk j hj same
      have := h.stars.2 k hk
      have := List.mem_singleton.mp hj
      omega
    · intro k hk
      show k < s.clients + 1
      rcases List.mem_append.mp hk with hk | hk
      · have := h.stars.2 k hk
        omega
      · have := List.mem_singleton.mp hk
        omega
  starts k hk := Nat.lt_succ_of_lt (h.starts k hk)
  queued k isSucceed hk := ⟨Nat.lt_succ_of_lt (h.queued k isSucceed hk).1, (h.queued k isSucceed hk).2⟩
  logged k hk := Nat.lt_succ_of_lt (h.logged k hk)
  answered := h.answered
  called k hk ran := by
    cases hasBlock with
    | true =>
      have same : s.clients = k := Option.some.inj hk
      have := h.logged k ran
      omega
    | false => cases hk

theorem VideoApp.Wired.dequeue {s : VideoApp} {block : MainBlock} {later : List MainBlock}
    (h : s.Wired) (queue : s.mainQueue = block :: later) :
    VideoApp.Wired { s with mainQueue := later } where
  latest := h.latest
  block := h.block
  stars := h.stars
  starts := h.starts
  queued k isSucceed hk := h.queued k isSucceed (by rw [queue]; exact List.mem_cons_of_mem _ hk)
  logged := h.logged
  answered := h.answered
  called := h.called

theorem VideoApp.Wired.terminalBlock {s : VideoApp} {client : Nat} {isSucceed : Bool}
    {later : List MainBlock} (h : s.Wired) (queue : s.mainQueue = .terminal client isSucceed :: later) :
    VideoApp.Wired (({ s with mainQueue := later } : VideoApp).terminalBlock client isSucceed) where
  latest := h.latest
  block := h.block
  stars := h.stars
  starts := h.starts
  queued := (h.dequeue queue).queued
  logged k hk := by
    rcases List.mem_append.mp hk with hk | hk
    · exact h.logged k hk
    · cases List.mem_singleton.mp hk
      exact (h.queued client isSucceed (by rw [queue]; exact List.mem_cons_self)).1
  answered a ha := by
    rcases List.mem_append.mp ha with ha | ha
    · exact List.mem_append_left _ (h.answered a ha)
    · cases block : s.tool.succeedBlock with
      | none => simp [block] at ha
      | some k =>
        have same : a = ⟨k, isSucceed, client⟩ := by simpa [block] using ha
        rw [same]
        exact List.mem_append_right _ (List.mem_singleton_self _)
  called k hk _ := by
    have held : s.tool.succeedBlock = some k := hk
    simp [VideoApp.terminalBlock, held]

/-- The client that a delayed start finds is the latest one. -/
theorem VideoApp.Wired.star {s : VideoApp} {k : Nat} {later : List Nat} (h : s.Wired)
    (stars : s.stars = k :: later) :
    VideoApp.Wired { s with stars := later, starts := s.starts ++ s.tool.uploader.toList } := by
  have before := h.stars
  rw [stars] at before
  refine { h with
    stars := ⟨before.1.of_cons, fun j hj => before.2 j (List.mem_cons_of_mem _ hj)⟩
    starts := ?_ }
  intro j hj
  rcases List.mem_append.mp hj with hj | hj
  · exact h.starts j hj
  · have := before.2 k List.mem_cons_self
    have last := h.latest
    rw [if_neg (by omega)] at last
    have : j = s.clients - 1 := by simpa [last] using hj
    show j < s.clients
    omega

theorem VideoApp.Wired.step {s t : VideoApp} {a : VideoStep} (h : s.Wired) (hstep : s.step a = some t) :
    t.Wired := by
  cases a with
  | uploadAuth view hasBlock =>
    cases Option.some.inj hstep
    exact h.uploadAuth view hasBlock
  | star =>
    obtain ⟨k, later, stars, rfl⟩ := VideoApp.step_star hstep
    exact h.star stars
  | deliver client callback => exact h.deliver hstep
  | runBlock window currentVC =>
    obtain ⟨block, later, queue, rfl⟩ := VideoApp.step_runBlock hstep
    cases block with
    | terminal client isSucceed => exact h.terminalBlock queue
    | progress uploadedSize totalSize =>
      apply (h.dequeue queue).silent (VideoApp.silent_progressBlock _ uploadedSize totalSize)
      intro k isSucceed hk
      left
      simpa [MainBlock.run, VideoApp.progressBlock, VideoApp.getHud_mainQueue] using hk
    | hideHUD => exact { h.dequeue queue with }
  | faded hud =>
    cases VideoApp.step_faded hstep
    exact { h with }

theorem VideoApp.Answered.uploadAuth {s : VideoApp} (h : s.Answered) (hw : s.Wired) (view : Nat)
    (hasBlock : Bool) : (s.uploadAuth view hasBlock).Answered where
  started k hk := by
    have fresh : s.starts.count s.clients = 0 :=
      List.count_eq_zero.mpr fun mem => Nat.lt_irrefl _ (hw.starts _ mem)
    have bound : k < s.clients + 1 := hk
    show s.starts.count k = if k ∈ s.stars ++ [s.clients] then 0 else 1
    rcases Nat.lt_succ_iff_lt_or_eq.mp bound with old | rfl
    · rw [h.started k old]
      simp [Nat.ne_of_lt old]
    · simp [fresh]
  once := h.once
  own := h.own
  truth := h.truth

/-- A delayed start is right exactly when the client it finds is its own. -/
theorem VideoApp.answered_star {s : VideoApp} {k : Nat} {later : List Nat} (h : s.Answered)
    (hw : s.Wired) (stars : s.stars = k :: later) :
    VideoApp.Answered { s with stars := later, starts := s.starts ++ s.tool.uploader.toList } ↔
      s.OwnTurn .star := by
  have order := hw.stars
  rw [stars] at order
  have bound := order.2 k List.mem_cons_self
  have last := hw.latest
  rw [if_neg (by omega)] at last
  have waited : s.starts.count k = 0 := by rw [h.started k bound, stars]; simp
  have gone : k ∉ later := (List.nodup_cons.mp order.1).1
  simp only [VideoApp.OwnTurn, stars, List.head?_cons, last, Option.some.injEq]
  apply Iff.intro
  · intro after
    have once := after.started k bound
    simp only [Option.toList_some, List.count_append, waited, if_neg gone] at once
    by_contra other
    rw [List.count_singleton, if_neg (by simpa using Ne.symm other)] at once
    omega
  · intro own
    refine { h with started := ?_ }
    intro j hj
    show (s.starts ++ [s.clients - 1]).count j = if j ∈ later then 0 else 1
    have before := h.started j hj
    rw [stars] at before
    simp only [List.count_append, List.count_singleton]
    by_cases same : j = k
    · rw [same, waited, ← own, if_neg gone]
      simp
    · rw [before, ← own]
      simp [same, Ne.symm same]

theorem VideoApp.answered_append {s : VideoApp} {a : VideoAnswer} (h : s.Answered) :
    VideoApp.Answered { s with answers := s.answers ++ [a] } ↔
      a.succeedBlock ∉ s.answers.map VideoAnswer.succeedBlock ∧ a.client = a.succeedBlock ∧
        (a.isSucceed = true → (a.succeedBlock, VODCallback.finish) ∈ s.delivered) := by
  apply Iff.intro
  · intro after
    have once : ((s.answers ++ [a]).map VideoAnswer.succeedBlock).Nodup := after.once
    rw [List.map_append, List.nodup_append] at once
    refine ⟨fun again => once.2.2 _ again _ (by simp) rfl, ?_, ?_⟩
    · exact after.own a (List.mem_append_right _ (List.mem_singleton_self a))
    · exact after.truth a (List.mem_append_right _ (List.mem_singleton_self a))
  · intro new
    obtain ⟨first, own, truth⟩ := new
    refine ⟨h.started, ?_, ?_, ?_⟩
    · show ((s.answers ++ [a]).map VideoAnswer.succeedBlock).Nodup
      rw [List.map_append]
      refine List.nodup_append.mpr ⟨h.once, List.nodup_singleton _, ?_⟩
      intro x hx y hy same
      have hy : y = a.succeedBlock := by simpa using hy
      exact first (hy ▸ same ▸ hx)
    · intro c hc
      rcases List.mem_append.mp hc with hc | hc
      · exact h.own c hc
      · cases List.mem_singleton.mp hc
        exact own
    · intro c hc
      rcases List.mem_append.mp hc with hc | hc
      · exact h.truth c hc
      · cases List.mem_singleton.mp hc
        exact truth

theorem VideoApp.ownTurn_terminal {s : VideoApp} {client : Nat} {isSucceed : Bool}
    {later : List MainBlock} {window currentVC : Option Nat}
    (queue : s.mainQueue = .terminal client isSucceed :: later) :
    s.OwnTurn (.runBlock window currentVC) ↔ s.tool.succeedBlock = none ∨
      s.tool.uploader = some client ∧ VideoEvent.terminal client ∉ s.log := by
  simp only [VideoApp.OwnTurn, queue, List.head?_cons, Option.some.injEq, MainBlock.terminal.injEq]
  apply Iff.intro
  · exact fun all => all client isSucceed ⟨rfl, rfl⟩
  · intro one c b same
    obtain ⟨rfl, rfl⟩ := same
    exact one

theorem VideoApp.answered_terminal {s : VideoApp} {client : Nat} {isSucceed : Bool}
    {later : List MainBlock} {window currentVC : Option Nat} (h : s.Answered) (hw : s.Wired)
    (queue : s.mainQueue = .terminal client isSucceed :: later) :
    VideoApp.Answered (({ s with mainQueue := later } : VideoApp).terminalBlock client isSucceed) ↔
      s.OwnTurn (.runBlock window currentVC) := by
  rw [VideoApp.ownTurn_terminal queue]
  cases block : s.tool.succeedBlock with
  | none =>
    refine iff_of_true ?_ (Or.inl rfl)
    simp only [VideoApp.terminalBlock, block, Option.map_none, Option.toList_none, List.append_nil]
    exact { h with }
  | some k =>
    have latest := hw.block k block
    let hidden : VideoApp := { s with
      mainQueue := later
      screen := s.screen.hideHUDForView s.tool.view
      tool := { s.tool with hud := none }
      log := s.log ++ [.terminal client] }
    have told : ({ s with mainQueue := later } : VideoApp).terminalBlock client isSucceed =
        { hidden with answers := hidden.answers ++ [⟨k, isSucceed, client⟩] } := by
      simp [hidden, VideoApp.terminalBlock, block]
    have before : hidden.Answered := { h with }
    rw [told, VideoApp.answered_append before]
    simp only [reduceCtorEq, false_or]
    apply Iff.intro
    · intro new
      obtain ⟨first, own, _⟩ := new
      have own : client = k := own
      refine ⟨own ▸ latest, ?_⟩
      intro ran
      exact first (hw.called k block (own ▸ ran))
    · intro turn
      obtain ⟨last, fresh⟩ := turn
      have own : client = k := Option.some.inj (last.symm.trans latest)
      refine ⟨?_, own, ?_⟩
      · intro again
        obtain ⟨c, hc, same⟩ := List.mem_map.mp again
        have same : c.client = client := by rw [h.own c hc, same, own]
        exact fresh (same ▸ hw.answered c hc)
      · intro yes
        have done := (hw.queued client isSucceed (by rw [queue]; exact List.mem_cons_self)).2 yes
        exact own ▸ done

theorem VideoApp.answered_step {s t : VideoApp} {a : VideoStep} (hstep : s.step a = some t)
    (hw : s.Wired) (h : s.Answered) : t.Answered ↔ s.OwnTurn a := by
  cases a with
  | uploadAuth view hasBlock =>
    cases Option.some.inj hstep
    exact iff_of_true (h.uploadAuth hw view hasBlock) trivial
  | star =>
    obtain ⟨k, later, stars, rfl⟩ := VideoApp.step_star hstep
    exact VideoApp.answered_star h hw stars
  | deliver client callback =>
    exact iff_of_true (h.silent (VideoApp.silent_deliver hstep)) trivial
  | runBlock window currentVC =>
    obtain ⟨block, later, queue, rfl⟩ := VideoApp.step_runBlock hstep
    have shorter : VideoApp.Answered { s with mainQueue := later } := { h with }
    cases block with
    | terminal client isSucceed => exact VideoApp.answered_terminal h hw queue
    | progress uploadedSize totalSize =>
      exact iff_of_true (shorter.silent (VideoApp.silent_progressBlock _ uploadedSize totalSize))
        fun client isSucceed front => by simp [queue] at front
    | hideHUD =>
      exact iff_of_true { h with } fun client isSucceed front => by simp [queue] at front
  | faded hud =>
    cases VideoApp.step_faded hstep
    exact iff_of_true { h with } trivial

theorem VideoApp.initial_wired (screen : Screen) : (VideoApp.initial screen).Wired where
  latest := rfl
  block _ h := by cases h
  stars := ⟨List.nodup_nil, fun _ h => by cases h⟩
  starts _ h := by cases h
  queued _ _ h := by cases h
  logged _ h := by cases h
  answered _ h := by cases h
  called _ h := by cases h

theorem VideoApp.initial_answered (screen : Screen) : (VideoApp.initial screen).Answered where
  started _ h := absurd h (Nat.not_lt_zero _)
  once := List.nodup_nil
  own _ h := by cases h
  truth _ h := by cases h

/-- Every upload is started and answered as it should be throughout a run exactly when each
delayed start and each terminal block of the run falls into its own call's turn. -/
theorem video_uploads_answered_iff (screen : Screen) (steps : List VideoStep) :
    Always VideoApp.step VideoApp.Answered (VideoApp.initial screen) steps ↔
      StepsMeet VideoApp.step VideoApp.OwnTurn (VideoApp.initial screen) steps := by
  refine always_iff_stepsMeet ?_ ?_ (VideoApp.initial_wired screen) (VideoApp.initial_answered screen)
  · intro s a t hstep hw
    exact hw.step hstep
  · intro s a t hstep hw h
    exact VideoApp.answered_step hstep hw h

/-- One call: its token expires, the SDK goes on and finishes. -/
def expireThenFinish : List VideoStep :=
  [.uploadAuth 0 true, .star, .deliver 0 .expire, .deliver 0 .finish, .runBlock none none,
    .runBlock none none]

/-- The success block of that call is called twice, and first with `false`. -/
theorem success_block_called_twice :
    StepsMeet VideoApp.step VideoApp.SdkOrder (VideoApp.initial Screen.blank) expireThenFinish ∧
      ((run VideoApp.step (VideoApp.initial Screen.blank) expireThenFinish).map fun t =>
        t.answers.map fun a => (a.succeedBlock, a.isSucceed)) = some [(0, false), (0, true)] ∧
      ¬ Always VideoApp.step VideoApp.Answered (VideoApp.initial Screen.blank) expireThenFinish := by
  refine ⟨?_, rfl, ?_⟩
  · refine (stepsMeet_cons rfl).mpr ⟨trivial, (stepsMeet_cons rfl).mpr ⟨trivial, ?_⟩⟩
    refine (stepsMeet_cons rfl).mpr ⟨fun _ => ⟨by decide, by decide⟩, ?_⟩
    refine (stepsMeet_cons rfl).mpr ⟨fun _ => ⟨by decide, by decide⟩, ?_⟩
    exact (stepsMeet_cons rfl).mpr ⟨trivial, (stepsMeet_cons rfl).mpr ⟨trivial, trivial⟩⟩
  · intro h
    obtain ⟨t, ht, twice⟩ : ∃ t, run VideoApp.step (VideoApp.initial Screen.blank) expireThenFinish =
        some t ∧ t.answers.map VideoAnswer.succeedBlock = [0, 0] := ⟨_, rfl, rfl⟩
    have once := (always_end h ht).once
    rw [twice] at once
    exact absurd once (by decide)

end SwiftApp
