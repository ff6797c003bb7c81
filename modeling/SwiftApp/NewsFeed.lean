import SwiftApp.HandyJSONViewController

namespace SwiftApp

open StepRun

/-- A response with a JSON object in which `result.data` is an array of objects, its items. -/
def MoyaResult.IsNews (platform : NewsPlatform) (result : MoyaResult)
    (items : List (List (String × Json))) : Prop :=
  ∃ data json, result = .success data ∧ platform.jsonObject data = some json ∧ json.IsNews items

/-- The list a step sets `articles` to, if it is the completion of a good response. -/
def NewsStep.decoded (platform : NewsPlatform) : NewsStep → Option (List TouTiaoModel)
  | .completion _ result => platform.decoded result
  | _ => none

/-- The row count is the one of `articles`, and every cached height is that of the article now
in its row. -/
structure HandyJSONViewController.Coherent (platform : NewsPlatform)
    (s : HandyJSONViewController) : Prop where
  rows : s.tableview.numberOfRows = s.articles.length
  guarded : s.tableview.fd_indexPathHeightCache.Guarded
  fresh : ∀ isPortrait row, s.tableview.fd_indexPathHeightCache.height isPortrait 0 row ≠ -1 →
    ∃ article, s.articles[row]? = some article ∧
      s.tableview.fd_indexPathHeightCache.height isPortrait 0 row =
        platform.fittingHeight article.title article.author_name

variable {platform : NewsPlatform}

theorem decoded_eq_some {result : MoyaResult} {articles : List TouTiaoModel} :
    platform.decoded result = some articles ↔
      ∃ items, result.IsNews platform items ∧ articles = items.map TouTiaoModel.ofFields := by
  cases result with
  | failure => simp [NewsPlatform.decoded, MoyaResult.IsNews]
  | success data =>
    simp only [NewsPlatform.decoded, Option.bind_eq_some_iff, fetchedArticles_eq_some]
    apply Iff.intro
    · intro h
      obtain ⟨json, parsed, items, news, rfl⟩ := h
      exact ⟨items, ⟨data, json, rfl, parsed, news⟩, rfl⟩
    · intro h
      obtain ⟨items, ⟨_, json, same, parsed, news⟩, rfl⟩ := h
      cases same
      exact ⟨json, parsed, items, news, rfl⟩

theorem decoded_eq_none {result : MoyaResult} :
    platform.decoded result = none ↔ ∀ items, ¬ result.IsNews platform items := by
  apply Iff.intro
  · intro h items news
    have := decoded_eq_some.mpr ⟨items, news, rfl⟩
    simp [h] at this
  · intro h
    cases hd : platform.decoded result with
    | none => rfl
    | some articles =>
      obtain ⟨items, news, _⟩ := decoded_eq_some.mp hd
      exact absurd news (h items)

namespace HandyJSONViewController

theorem completion_articles {s : HandyJSONViewController} {result : MoyaResult} :
    (s.completion platform result).articles = (platform.decoded result).getD s.articles := by
  cases result with
  | failure => rfl
  | success data =>
    simp only [completion, NewsPlatform.decoded]
    cases (platform.jsonObject data).bind fetchedArticles <;> rfl

/-- Whenever `articles` is set or a response turns out malformed, the table is reloaded. -/
theorem completion_cases {s : HandyJSONViewController} (platform : NewsPlatform)
    (result : MoyaResult) :
    s.completion platform result = s ∨
      ∃ articles, s.completion platform result = { s with articles }.reloadData := by
  cases result with
  | failure => exact Or.inl rfl
  | success data =>
    apply Or.inr
    simp only [completion]
    cases (platform.jsonObject data).bind fetchedArticles with
    | none => exact ⟨s.articles, rfl⟩
    | some articles => exact ⟨articles, rfl⟩

theorem heightForRowAt_eq {s : HandyJSONViewController} {row : Nat} {article : TouTiaoModel}
    (dequeued : TouTiaoCellTableViewCell) (coherent : s.Coherent platform)
    (shown : s.articles[row]? = some article) :
    ∃ table, s.heightForRowAt platform row dequeued =
        some (platform.fittingHeight article.title article.author_name,
          { s with tableview := table }) ∧
      s.tableview.HeightAnswered s.orientation 0 row
        (platform.fittingHeight article.title article.author_name) table := by
  have configured (cell : TouTiaoCellTableViewCell) : s.configureTemplate row cell =
      some { cell with titleLabel := article.title, authorLabel := article.author_name } := by
    unfold configureTemplate
    rw [shown, Option.map_some]
  unfold heightForRowAt
  by_cases missing : s.tableview.fd_indexPathHeightCache.height s.orientation.isPortrait 0 row = -1
  · obtain ⟨table, answer, answered⟩ := UITableView.fd_heightForCellCacheBy_miss id
      platform.cellHeight (s.configureTemplate row) missing
      (configured (id (s.tableview.fd_templateCell "TouTiaoCell" dequeued)))
    exact ⟨table, by rw [answer]; rfl, answered⟩
  · obtain ⟨cachedFor, same, height⟩ := coherent.fresh _ _ missing
    cases shown.symm.trans same
    obtain ⟨table, answer, answered⟩ := UITableView.fd_heightForCellCacheBy_hit id
      platform.cellHeight "TouTiaoCell" dequeued (s.configureTemplate row) height
      (platform.fittingHeight_ne _ _)
    exact ⟨table, by rw [answer]; rfl, answered⟩

theorem coherent_initial {orientation : UIDeviceOrientation} :
    (initial orientation).Coherent platform where
  rows := rfl
  guarded := by
    intro _ isPortrait inSection row
    cases isPortrait <;> rfl
  fresh := by
    intro isPortrait row h
    cases isPortrait <;> exact absurd rfl h

theorem Coherent.reloadData {s : HandyJSONViewController} (coherent : s.Coherent platform)
    (articles : List TouTiaoModel) : ({ s with articles }.reloadData).Coherent platform where
  rows := rfl
  guarded := coherent.guarded.fd_reloadData
  fresh _ _ h := absurd (FDIndexPathHeightCache.height_fd_reloadData coherent.guarded) h

theorem Coherent.answered {s : HandyJSONViewController} (coherent : s.Coherent platform)
    {row : Nat} {article : TouTiaoModel} (shown : s.articles[row]? = some article)
    {table : UITableView TouTiaoCellTableViewCell}
    (answered : s.tableview.HeightAnswered s.orientation 0 row
      (platform.fittingHeight article.title article.author_name) table) :
    ({ s with tableview := table } : HandyJSONViewController).Coherent platform where
  rows := answered.rows.trans coherent.rows
  guarded := answered.guarded coherent.guarded
  fresh := by
    intro isPortrait row' h
    rcases answered.cached isPortrait 0 row' with old | ⟨_, rfl, new⟩
    · rw [old] at h ⊢
      exact coherent.fresh isPortrait row' h
    · exact ⟨article, shown, new⟩

/-- A step starts a request, completes one, answers a height query, or only looks: at most the
row count is asked for again or the device turned. -/
theorem step_cases {s t : HandyJSONViewController} {a : NewsStep}
    (h : s.step platform a = some t) :
    (a = .loadArticles ∧ t = s.loadArticles) ∨
    (∃ request result, a = .completion request result ∧ request ∈ s.pending ∧
      t = ({ s with pending := s.pending.erase request } :
        HandyJSONViewController).completion platform result) ∨
    (∃ row dequeued height, a = .heightForRowAt row dequeued ∧ row < s.tableview.numberOfRows ∧
      s.heightForRowAt platform row dequeued = some (height, t)) ∨
    ((∀ request result, a ≠ .completion request result) ∧ ∃ numberOfRows orientation,
      (numberOfRows = s.tableview.numberOfRows ∨ numberOfRows = s.articles.length) ∧
      t = { s with tableview := { s.tableview with numberOfRows }, orientation }) := by
  cases a with
  | loadArticles => cases h; exact Or.inl ⟨rfl, rfl⟩
  | numberOfRowsInSection =>
    cases h
    exact Or.inr (Or.inr (Or.inr ⟨by simp, _, s.orientation, Or.inr rfl, rfl⟩))
  | rotate orientation =>
    cases h
    exact Or.inr (Or.inr (Or.inr ⟨by simp, _, orientation, Or.inl rfl, rfl⟩))
  | completion request result =>
    obtain ⟨waiting, rfl⟩ := guarded h
    exact Or.inr (Or.inl ⟨request, result, rfl, waiting, rfl⟩)
  | cellForRowAt row dequeued =>
    obtain ⟨_, _, _, same⟩ := guarded_map h
    exact Or.inr (Or.inr (Or.inr ⟨by simp, _, s.orientation, Or.inl rfl, same⟩))
  | didSelectRowAt row =>
    obtain ⟨_, _, _, same⟩ := guarded_map h
    exact Or.inr (Or.inr (Or.inr ⟨by simp, _, s.orientation, Or.inl rfl, same⟩))
  | heightForRowAt row dequeued =>
    obtain ⟨asked, ⟨height, _⟩, answer, rfl⟩ := guarded_map h
    exact Or.inr (Or.inr (Or.inl ⟨row, dequeued, height, rfl, asked, answer⟩))

theorem decoded_of_not_completion {a : NewsStep}
    (h : ∀ request result, a ≠ .completion request result) : a.decoded platform = none := by
  cases a with
  | completion request result => exact absurd rfl (h request result)
  | _ => rfl

theorem heightForRowAt_keeps {s t : HandyJSONViewController} {row : Nat} {height : ℚ}
    {dequeued : TouTiaoCellTableViewCell}
    (h : s.heightForRowAt platform row dequeued = some (height, t)) :
    ∃ table, t = { s with tableview := table } := by
  obtain ⟨answer, _, same⟩ := Option.map_eq_some_iff.mp h
  cases same
  exact ⟨_, rfl⟩

theorem step_articles {s t : HandyJSONViewController} {a : NewsStep}
    (h : s.step platform a = some t) :
    t.articles = (a.decoded platform).getD s.articles := by
  rcases step_cases h with ⟨rfl, rfl⟩ | ⟨request, result, rfl, _, rfl⟩ |
    ⟨row, dequeued, height, rfl, _, answer⟩ | ⟨other, _, _, _, rfl⟩
  · rfl
  · exact completion_articles
  · obtain ⟨_, rfl⟩ := heightForRowAt_keeps answer
    rfl
  · rw [decoded_of_not_completion other]
    rfl

theorem completion_requests {s : HandyJSONViewController} {result : MoyaResult} :
    (s.completion platform result).requests = s.requests ∧
      (s.completion platform result).pending = s.pending := by
  rcases completion_cases platform result with same | ⟨articles, reloaded⟩
  · rw [same]
    exact ⟨rfl, rfl⟩
  · rw [reloaded]
    exact ⟨rfl, rfl⟩

theorem step_pending {s t : HandyJSONViewController} {a : NewsStep}
    (h : s.step platform a = some t) :
    (t.requests = s.requests + 1 ∧ t.pending = s.pending ++ [s.requests]) ∨
    (t.requests = s.requests ∧ t.pending = s.pending) ∨
    ∃ request result, a = .completion request result ∧ t.requests = s.requests ∧
      t.pending = s.pending.erase request := by
  rcases step_cases h with ⟨rfl, rfl⟩ | ⟨request, result, rfl, _, rfl⟩ |
    ⟨row, dequeued, height, rfl, _, answer⟩ | ⟨other, _, _, _, rfl⟩
  · exact Or.inl ⟨rfl, rfl⟩
  · exact Or.inr (Or.inr ⟨request, result, rfl, completion_requests⟩)
  · obtain ⟨_, rfl⟩ := heightForRowAt_keeps answer
    exact Or.inr (Or.inl ⟨rfl, rfl⟩)
  · exact Or.inr (Or.inl ⟨rfl, rfl⟩)

theorem step_coherent {s t : HandyJSONViewController} {a : NewsStep}
    (h : s.step platform a = some t) (coherent : s.Coherent platform) : t.Coherent platform := by
  rcases step_cases h with ⟨rfl, rfl⟩ | ⟨request, result, rfl, _, rfl⟩ |
    ⟨row, dequeued, height, rfl, asked, answer⟩ | ⟨_, _, _, rows, rfl⟩
  · exact ⟨coherent.rows, coherent.guarded, coherent.fresh⟩
  · have waiting : ({ s with pending := s.pending.erase request } :
        HandyJSONViewController).Coherent platform :=
      ⟨coherent.rows, coherent.guarded, coherent.fresh⟩
    rcases completion_cases platform result with same | ⟨articles, reloaded⟩
    · rw [same]
      exact waiting
    · rw [reloaded]
      exact waiting.reloadData articles
  · rw [coherent.rows] at asked
    have shown := List.getElem?_eq_getElem asked
    obtain ⟨table, answer', answered⟩ := heightForRowAt_eq dequeued coherent shown
    cases answer.symm.trans answer'
    exact coherent.answered shown answered
  · refine ⟨?_, coherent.guarded, coherent.fresh⟩
    rcases rows with rfl | rfl
    · exact coherent.rows
    · rfl

end HandyJSONViewController

end SwiftApp
