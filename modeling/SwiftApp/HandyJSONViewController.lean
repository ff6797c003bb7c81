import SwiftApp.StepRun
import SwiftApp.TouTiaoModel
import SwiftApp.FDTemplateLayoutCell

namespace SwiftApp

open StepRun

/-- What the feed gets from Foundation and UIKit: the JSON parser, `URL(string:)`, and the
height auto layout gives the cell for a title and an author. -/
structure NewsPlatform where
  jsonObject : List UInt8 → Option Json
  isURL : String → Bool
  fittingHeight : Option String → Option String → ℚ
  fittingHeight_ne : ∀ title author, fittingHeight title author ≠ -1

inductive MoyaResult
  | success (data : List UInt8)
  | failure
deriving DecidableEq

inductive Thumbnail
  | placeholder
  | sd_setImage (url : String)
deriving DecidableEq

structure TouTiaoCellTableViewCell where
  titleLabel : Option String
  authorLabel : Option String
  thumbnailImageView : Option Thumbnail
deriving DecidableEq

structure HandyJSONViewController where
  articles : List TouTiaoModel
  tableview : UITableView TouTiaoCellTableViewCell
  /-- number of `loadArticles` calls so far; the calls are numbered from 0 -/
  requests : Nat
  /-- requests whose completion has not run yet -/
  pending : List Nat
  orientation : UIDeviceOrientation

inductive PushedController
  | iqKeyboardVC | wcdbVC
deriving DecidableEq

inductive NewsStep
  | loadArticles
  | completion (request : Nat) (result : MoyaResult)
  | numberOfRowsInSection
  | cellForRowAt (row : Nat) (dequeued : TouTiaoCellTableViewCell)
  | heightForRowAt (row : Nat) (dequeued : TouTiaoCellTableViewCell)
  | didSelectRowAt (row : Nat)
  | rotate (orientation : UIDeviceOrientation)
deriving DecidableEq

/-- What a response sets `articles` to, if anything. -/
def NewsPlatform.decoded (platform : NewsPlatform) : MoyaResult → Option (List TouTiaoModel)
  | .success data => (platform.jsonObject data).bind fetchedArticles
  | .failure => none

/-- The height of a configured cell; the class does not override `prepareForReuse`. -/
def NewsPlatform.cellHeight (platform : NewsPlatform) (cell : TouTiaoCellTableViewCell) : ℚ :=
  platform.fittingHeight cell.titleLabel cell.authorLabel

namespace HandyJSONViewController

/-- After `setupTableView()`, before the first `loadArticles()`. -/
def initial (orientation : UIDeviceOrientation) : HandyJSONViewController :=
  ⟨[], .new, 0, [], orientation⟩

def loadArticles (s : HandyJSONViewController) : HandyJSONViewController :=
  { s with requests := s.requests + 1, pending := s.pending ++ [s.requests] }

def numberOfRowsInSection (s : HandyJSONViewController) : Nat := s.articles.length

def reloadData (s : HandyJSONViewController) : HandyJSONViewController :=
  { s with tableview := s.tableview.reloadData s.numberOfRowsInSection }

variable (platform : NewsPlatform)

/-- The completion block of `provider.request(.fetchNews)`. -/
def completion (s : HandyJSONViewController) (result : MoyaResult) : HandyJSONViewController :=
  match result with
  | .success data =>
    match (platform.jsonObject data).bind fetchedArticles with
    | some articles => { s with articles }.reloadData
    | none => s.reloadData
  | .failure => s

/-- `none` is a trap on `articles[indexPath.row]`, here and in the two queries below. -/
def cellForRowAt (s : HandyJSONViewController) (row : Nat) (dequeued : TouTiaoCellTableViewCell) :
    Option TouTiaoCellTableViewCell :=
  s.articles[row]?.map fun article =>
    { dequeued with
      titleLabel := article.title
      authorLabel := article.author_name
      thumbnailImageView :=
        match article.thumbnail_pic_s with
        | some imageUrlString =>
          if platform.isURL imageUrlString then some (.sd_setImage imageUrlString)
          else some .placeholder
        | none => some .placeholder }

/-- The configuration block of `heightForRowAt`. -/
def configureTemplate (s : HandyJSONViewController) (row : Nat) (cell : TouTiaoCellTableViewCell) :
    Option TouTiaoCellTableViewCell :=
  s.articles[row]?.map fun article =>
    { cell with titleLabel := article.title, authorLabel := article.author_name }

def heightForRowAt (s : HandyJSONViewController) (row : Nat) (dequeued : TouTiaoCellTableViewCell) :
    Option (ℚ × HandyJSONViewController) :=
  (s.tableview.fd_heightForCellCacheBy id platform.cellHeight s.orientation "TouTiaoCell" 0 row
      dequeued (s.configureTemplate row)).map
    fun answer => (answer.1, { s with tableview := answer.2 })

def didSelectRowAt (s : HandyJSONViewController) (row : Nat) : Option (Option PushedController) :=
  s.articles[row]?.map fun _ =>
    if row = 0 then some .iqKeyboardVC else if row = 1 then some .wcdbVC else none

/-- The table asks only for rows it has been told of. -/
def step (s : HandyJSONViewController) : NewsStep → Option HandyJSONViewController
  | .loadArticles => some s.loadArticles
  | .completion request result =>
    if request ∈ s.pending then
      some ({ s with pending := s.pending.erase request }.completion platform result)
    else none
  | .numberOfRowsInSection =>
    some { s with tableview := { s.tableview with numberOfRows := s.numberOfRowsInSection } }
  | .cellForRowAt row dequeued =>
    if row < s.tableview.numberOfRows then (s.cellForRowAt platform row dequeued).map fun _ => s
    else none
  | .heightForRowAt row dequeued =>
    if row < s.tableview.numberOfRows then (s.heightForRowAt platform row dequeued).map Prod.snd
    else none
  | .didSelectRowAt row =>
    if row < s.tableview.numberOfRows then (s.didSelectRowAt row).map fun _ => s else none
  | .rotate orientation => some { s with orientation }

end HandyJSONViewController

end SwiftApp
