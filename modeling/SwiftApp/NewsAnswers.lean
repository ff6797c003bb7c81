import SwiftApp.NewsFeed
import Mathlib.Algebra.Order.Field.Rat
import Mathlib.Tactic.Linarith

namespace SwiftApp

open StepRun HandyJSONViewController

/-- A run of the feed from the end of `setupTableView()`. -/
structure NewsRun (platform : NewsPlatform) where
  orientation : UIDeviceOrientation
  steps : List NewsStep
  final : HandyJSONViewController
  ran : run (HandyJSONViewController.step platform) (initial orientation) steps = some final

/-- The step is no completion of a good response. -/
def NewsStep.Useless (platform : NewsPlatform) (a : NewsStep) : Prop :=
  ∀ request result, a = .completion request result → ∀ items, ¬ result.IsNews platform items

variable {platform : NewsPlatform}

theorem useless_iff {a : NewsStep} : a.Useless platform ↔ a.decoded platform = none := by
  unfold NewsStep.Useless NewsStep.decoded
  cases a with
  | completion request result =>
    simp only [NewsStep.completion.injEq, decoded_eq_none]
    exact ⟨fun h => h request result ⟨rfl, rfl⟩, fun h _ _ same => same.2 ▸ h⟩
  | _ => simp

theorem useless_or_news (a : NewsStep) :
    a.Useless platform ∨ ∃ request result items, a = .completion request result ∧
      result.IsNews platform items ∧ a.decoded platform = some (items.map TouTiaoModel.ofFields) := by
  cases h : a.decoded platform with
  | none => exact Or.inl (useless_iff.mpr h)
  | some articles =>
    cases a with
    | completion request result =>
      obtain ⟨items, news, rfl⟩ := decoded_eq_some.mp h
      exact Or.inr ⟨request, result, items, rfl, news, rfl⟩
    | _ => cases h

theorem run_articles {s t : HandyJSONViewController} {as : List NewsStep}
    (h : run (HandyJSONViewController.step platform) s as = some t) :
    (t.articles = s.articles ∧ ∀ a ∈ as, a.Useless platform) ∨
      ∃ past request result items rest, as = past ++ .completion request result :: rest ∧
        result.IsNews platform items ∧ t.articles = items.map TouTiaoModel.ofFields ∧
        ∀ a ∈ rest, a.Useless platform := by
  induction as generalizing s with
  | nil => cases Option.some.inj h; exact Or.inl ⟨rfl, by simp⟩
  | cons a as ih =>
    obtain ⟨u, hu, hrest⟩ := Option.bind_eq_some_iff.mp h
    have head := step_articles hu
    rcases ih hrest with ⟨kept, useless⟩ | ⟨past, request, result, items, rest, rfl, later⟩
    · rcases useless_or_news a with idle | ⟨request, result, items, rfl, news, decoded⟩
      · rw [useless_iff.mp idle] at head
        exact Or.inl ⟨kept.trans head, List.forall_mem_cons.mpr ⟨idle, useless⟩⟩
      · rw [decoded] at head
        exact Or.inr ⟨[], request, result, items, as, rfl, news, kept.trans head, useless⟩
    · exact Or.inr ⟨a :: past, request, result, items, rest, rfl, later⟩

theorem NewsRun.coherent (r : NewsRun platform) : r.final.Coherent platform :=
  run_invariant (fun _ _ _ h => step_coherent h) r.ran coherent_initial

/-- In every run: `articles` is empty or what the last good response decodes to, one article for
each of its items; a completion without news changes nothing; every row the table may ask
for has an article, so no query traps. -/
theorem feed_shows_last_news (r : NewsRun platform) :
    ((r.final.articles = [] ∧ ∀ a ∈ r.steps, a.Useless platform) ∨
      ∃ past request result items rest, r.steps = past ++ .completion request result :: rest ∧
        result.IsNews platform items ∧ r.final.articles = items.map TouTiaoModel.ofFields ∧
        ∀ a ∈ rest, a.Useless platform) ∧
    (∀ request result t, r.final.step platform (.completion request result) = some t →
      ((∀ items, ¬ result.IsNews platform items) → t.articles = r.final.articles) ∧
      ∀ items, result.IsNews platform items → t.articles = items.map TouTiaoModel.ofFields) ∧
    ∀ row < r.final.tableview.numberOfRows, row < r.final.articles.length ∧
      ∀ dequeued, (r.final.cellForRowAt platform row dequeued).isSome ∧
        (r.final.heightForRowAt platform row dequeued).isSome ∧ (r.final.didSelectRowAt row).isSome := by
  refine ⟨run_articles r.ran, ?_, ?_⟩
  · intro request result t h
    have articles := step_articles h
    refine ⟨?_, ?_⟩
    · intro malformed
      have idle : (NewsStep.completion request result).decoded platform = none :=
        decoded_eq_none.mpr malformed
      rw [articles, idle, Option.getD_none]
    · intro items news
      have decoded : (NewsStep.completion request result).decoded platform =
          some (items.map TouTiaoModel.ofFields) := decoded_eq_some.mpr ⟨items, news, rfl⟩
      rw [articles, decoded, Option.getD_some]
  · intro row asked
    rw [r.coherent.rows] at asked
    refine ⟨asked, ?_⟩
    intro dequeued
    have shown := List.getElem?_eq_getElem asked
    obtain ⟨table, answer, _⟩ := heightForRowAt_eq dequeued r.coherent shown
    refine ⟨?_, by rw [answer]; rfl, ?_⟩
    · unfold cellForRowAt
      rw [shown, Option.map_some]
      rfl
    · unfold didSelectRowAt
      rw [shown, Option.map_some]
      rfl

/-- Every request started in the run is still pending or has completed in it. -/
theorem run_completed {s t : HandyJSONViewController} {as : List NewsStep}
    (h : run (HandyJSONViewController.step platform) s as = some t) {request : Nat}
    (started : request ∈ s.pending ∨ s.requests ≤ request ∧ request < t.requests) :
    request ∈ t.pending ∨ ∃ result, NewsStep.completion request result ∈ as := by
  induction as generalizing s with
  | nil =>
    cases Option.some.inj h
    apply Or.inl
    rcases started with pending | ⟨new, old⟩
    · exact pending
    · omega
  | cons a as ih =>
    obtain ⟨u, hu, hrest⟩ := Option.bind_eq_some_iff.mp h
    have tail (h : request ∈ u.pending ∨ u.requests ≤ request ∧ request < t.requests) :
        request ∈ t.pending ∨ ∃ result, NewsStep.completion request result ∈ a :: as := by
      rcases ih hrest h with pending | ⟨result, later⟩
      · exact Or.inl pending
      · exact Or.inr ⟨result, List.mem_cons_of_mem a later⟩
    rcases step_pending hu with ⟨requests, pending⟩ | ⟨requests, pending⟩ |
      ⟨done, result, rfl, requests, pending⟩
    · apply tail
      rw [requests, pending]
      rcases started with old | ⟨new, below⟩
      · exact Or.inl (List.mem_append_left _ old)
      · by_cases this : request = s.requests
        · exact Or.inl (by simp [this])
        · exact Or.inr ⟨by omega, below⟩
    · rw [← requests, ← pending] at started
      exact tail started
    · by_cases this : request = done
      · subst this
        exact Or.inr ⟨result, List.mem_cons_self⟩
      · apply tail
        rw [requests, pending]
        exact started.imp_left (List.mem_erase_of_ne this).mpr

/-- A run in which some requests were started and all have completed, each with news. -/
structure SettledNews (platform : NewsPlatform) extends NewsRun platform where
  started : 0 < final.requests
  settled : final.pending = []
  news : ∀ request result, NewsStep.completion request result ∈ steps →
    ∃ items, result.IsNews platform items

/-- When all requests have completed, `articles` is what the response that came in last decodes
to, whichever request it answers. -/
theorem last_completion_decides (r : SettledNews platform) :
    ∃ past request result items rest, r.steps = past ++ .completion request result :: rest ∧
      (∀ a ∈ rest, ∀ later result', a ≠ NewsStep.completion later result') ∧
      result.IsNews platform items ∧ r.final.articles = items.map TouTiaoModel.ofFields := by
  have no_useless {a : NewsStep} (ha : a ∈ r.steps) (useless : a.Useless platform) :
      ∀ request result, a ≠ .completion request result := by
    intro request result same
    subst same
    obtain ⟨items, news⟩ := r.news request result ha
    exact useless request result rfl items news
  rcases run_articles r.ran with ⟨_, useless⟩ | ⟨past, request, result, items, rest, split, news,
    articles, useless⟩
  · have begun : 0 ∈ (initial r.orientation).pending ∨
        (initial r.orientation).requests ≤ 0 ∧ 0 < r.final.requests :=
      Or.inr ⟨Nat.le_refl 0, r.started⟩
    have first := run_completed r.ran begun
    rw [r.settled] at first
    rcases first with pending | ⟨result, completed⟩
    · exact absurd pending List.not_mem_nil
    · exact absurd rfl (no_useless completed (useless _ completed) 0 result)
  · refine ⟨past, request, result, items, rest, split, ?_, news, articles⟩
    intro a ha
    have inRun : a ∈ r.steps := by
      rw [split]
      exact List.mem_append_right past (List.mem_cons_of_mem _ ha)
    exact no_useless inRun (useless a ha)

def bytes (text : String) : List UInt8 := text.toList.map fun c => UInt8.ofNat c.toNat

def oldNews : List UInt8 := bytes "\x7b\"result\":\x7b\"data\":[]\x7d\x7d"

def newNews : List UInt8 := bytes "\x7b\"result\":\x7b\"data\":[\x7b\"title\":\"t\"\x7d]\x7d\x7d"

def newItem : List (String × Json) := [("title", .string "t")]

def longNews : List UInt8 := bytes "\x7b\"result\":\x7b\"data\":[\x7b\"title\":\"tt\"\x7d]\x7d\x7d"

def longItem : List (String × Json) := [("title", .string "tt")]

/-- A platform that meets these three bodies only, and gives a title more room the longer it is. -/
def threeBodies : NewsPlatform where
  jsonObject data :=
    if data = oldNews then some (.object [("result", .object [("data", .array [])])])
    else if data = newNews then
      some (.object [("result", .object [("data", .array [.object newItem])])])
    else if data = longNews then
      some (.object [("result", .object [("data", .array [.object longItem])])])
    else none
  isURL _ := false
  fittingHeight title _ := 56 + 20 * (title.getD "").length
  fittingHeight_ne title _ := by
    have long : (0 : ℚ) ≤ (title.getD "").length := Nat.cast_nonneg _
    linarith

theorem oldNews_isNews : (MoyaResult.success oldNews).IsNews threeBodies [] :=
  ⟨oldNews, _, rfl, rfl, _, _, rfl, rfl, rfl⟩

theorem newNews_isNews : (MoyaResult.success newNews).IsNews threeBodies [newItem] :=
  ⟨newNews, _, rfl, rfl, _, _, rfl, rfl, rfl⟩

/-- Two requests overlap and the older one is answered last. -/
def overtaken : SettledNews threeBodies where
  orientation := .portrait
  steps := [.loadArticles, .loadArticles, .completion 1 (.success newNews),
    .completion 0 (.success oldNews)]
  final := (run (HandyJSONViewController.step threeBodies) (initial .portrait)
    [.loadArticles, .loadArticles, .completion 1 (.success newNews),
      .completion 0 (.success oldNews)]).get rfl
  ran := (Option.some_get _).symm
  started := by decide
  settled := rfl
  news := by
    intro request result h
    simp only [List.mem_cons, reduceCtorEq, NewsStep.completion.injEq, List.not_mem_nil, or_false,
      false_or] at h
    rcases h with ⟨_, rfl⟩ | ⟨_, rfl⟩
    · exact ⟨_, newNews_isNews⟩
    · exact ⟨_, oldNews_isNews⟩

theorem newest_request_overtaken : ¬ ∀ (platform : NewsPlatform) (r : SettledNews platform)
    (request : Nat) (result : MoyaResult) (items : List (List (String × Json))),
    request + 1 = r.final.requests → NewsStep.completion request result ∈ r.steps →
    result.IsNews platform items → r.final.articles = items.map TouTiaoModel.ofFields := by
  intro h
  have shown := h threeBodies overtaken 1 (.success newNews) [newItem] rfl (by simp [overtaken])
    newNews_isNews
  exact absurd (congrArg List.length shown) (by decide)

/-- In every run, the height answered for a row is that of the article now in the row. -/
theorem row_height_fresh (r : NewsRun platform) (row : Nat) (article : TouTiaoModel)
    (dequeued : TouTiaoCellTableViewCell) (shown : r.final.articles[row]? = some article) :
    ∃ t, r.final.heightForRowAt platform row dequeued =
      some (platform.fittingHeight article.title article.author_name, t) := by
  obtain ⟨table, answer, _⟩ := heightForRowAt_eq dequeued r.coherent shown
  exact ⟨_, answer⟩

/-- The row is measured in both orientations before the article in it is replaced by a longer one. -/
def replaced : NewsRun threeBodies where
  orientation := .portrait
  steps := [.loadArticles, .completion 0 (.success newNews), .heightForRowAt 0 ⟨none, none, none⟩,
    .rotate .landscapeLeft, .heightForRowAt 0 ⟨none, none, none⟩, .loadArticles,
    .completion 1 (.success longNews)]
  final := (run (HandyJSONViewController.step threeBodies) (initial .portrait)
    [.loadArticles, .completion 0 (.success newNews), .heightForRowAt 0 ⟨none, none, none⟩,
      .rotate .landscapeLeft, .heightForRowAt 0 ⟨none, none, none⟩, .loadArticles,
      .completion 1 (.success longNews)]).get rfl
  ran := (Option.some_get _).symm

theorem row_height_fresh_replaced : ∃ t, replaced.final.heightForRowAt threeBodies 0
    ⟨none, none, none⟩ = some (96, t) := by
  have height : threeBodies.fittingHeight (some "tt") none = 96 := by decide +kernel
  rw [← height]
  exact row_height_fresh replaced 0 ⟨some "tt", none, none⟩ ⟨none, none, none⟩ rfl

end SwiftApp
