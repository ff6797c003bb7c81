import Mathlib.Data.List.Basic
import Mathlib.Data.Rat.Defs

namespace SwiftApp

/-- What `JSONSerialization.jsonObject(with:options: .allowFragments)` hands back. -/
inductive Json
  | null
  | bool (value : Bool)
  | number (value : ℚ)
  | string (value : String)
  | array (elements : List Json)
  | object (fields : List (String × Json))

/-- `as? [String: Any]` -/
def Json.asDictionary : Json → Option (List (String × Json))
  | .object fields => some fields
  | _ => none

/-- `as? [[String: Any]]`: every element has to be a dictionary. -/
def Json.asDictionaries : Json → Option (List (List (String × Json)))
  | .array elements => elements.mapM Json.asDictionary
  | _ => none

/-- ObjectMapper's `Map` in `.fromJSON` direction. -/
structure Map where
  JSON : List (String × Json)
  isKeyPresent : Bool
  currentValue : Option Json

def Map.fromJSON (JSON : List (String × Json)) : Map := ⟨JSON, false, none⟩

def Map.subscript (map : Map) (key : String) : Map :=
  match map.JSON.lookup key with
  | none => { map with isKeyPresent := false, currentValue := none }
  | some .null => { map with isKeyPresent := true, currentValue := none }
  | some object => { map with isKeyPresent := true, currentValue := some object }

/-- `value()` at the type `String?` -/
def Map.value (map : Map) : Option String :=
  match map.currentValue with
  | some (.string value) => some value
  | _ => none

/-- `left <- map[key]` for an optional string -/
def Map.assign (map : Map) (left : Option String) (key : String) : Option String :=
  if (map.subscript key).isKeyPresent then (map.subscript key).value else left

structure TouTiaoModel where
  title : Option String
  author_name : Option String
  thumbnail_pic_s : Option String
deriving DecidableEq

/-- `required init?(map: Map) {}` -/
def TouTiaoModel.initMap (_ : Map) : Option TouTiaoModel := some ⟨none, none, none⟩

def TouTiaoModel.mapping (model : TouTiaoModel) (map : Map) : TouTiaoModel where
  title := map.assign model.title "title"
  author_name := map.assign model.author_name "author_name"
  thumbnail_pic_s := map.assign model.thumbnail_pic_s "thumbnail_pic_s"

/-- `TouTiaoModel(JSON:)`, that is ObjectMapper's `Mapper.map(JSON:)` -/
def TouTiaoModel.initJSON (JSON : List (String × Json)) : Option TouTiaoModel :=
  (TouTiaoModel.initMap (Map.fromJSON JSON)).map fun object => object.mapping (Map.fromJSON JSON)

/-- The string under a key, if the value there is one. -/
def stringField (JSON : List (String × Json)) (key : String) : Option String :=
  match JSON.lookup key with
  | some (.string value) => some value
  | _ => none

/-- The article an element of `result.data` describes. -/
def TouTiaoModel.ofFields (JSON : List (String × Json)) : TouTiaoModel where
  title := stringField JSON "title"
  author_name := stringField JSON "author_name"
  thumbnail_pic_s := stringField JSON "thumbnail_pic_s"

theorem assign_none (JSON : List (String × Json)) (key : String) :
    (Map.fromJSON JSON).assign none key = stringField JSON key := by
  unfold Map.assign Map.subscript Map.fromJSON Map.value stringField
  cases JSON.lookup key with
  | none => rfl
  | some value => cases value <;> rfl

/-- `init?(map:)` refuses nothing, so no element is dropped. -/
theorem initJSON_eq (JSON : List (String × Json)) :
    TouTiaoModel.initJSON JSON = some (TouTiaoModel.ofFields JSON) := by
  unfold TouTiaoModel.initJSON TouTiaoModel.initMap TouTiaoModel.mapping TouTiaoModel.ofFields
  simp only [Option.map_some, assign_none]

theorem filterMap_initJSON (data : List (List (String × Json))) :
    data.filterMap TouTiaoModel.initJSON = data.map TouTiaoModel.ofFields := by
  induction data with
  | nil => rfl
  | cons fields data ih =>
    rw [List.filterMap_cons, initJSON_eq, List.map_cons, ih]

theorem asDictionary_eq_some {json : Json} {fields : List (String × Json)} :
    json.asDictionary = some fields ↔ json = .object fields := by
  cases json <;> simp [Json.asDictionary]

theorem asDictionaries_eq_some {json : Json} {items : List (List (String × Json))} :
    json.asDictionaries = some items ↔ json = .array (items.map Json.object) := by
  cases json with
  | array elements =>
    unfold Json.asDictionaries
    induction elements generalizing items with
    | nil => cases items <;> simp
    | cons element elements ih =>
      simp only [List.mapM_cons, Option.pure_def, Option.bind_eq_bind, Option.bind_eq_some_iff,
        asDictionary_eq_some, Option.some.injEq]
      apply Iff.intro
      · intro h
        obtain ⟨fields, rfl, rest, hrest, rfl⟩ := h
        have := ih.mp hrest
        simp_all
      · intro h
        cases items with
        | nil => simp at h
        | cons fields items =>
          simp only [List.map_cons, Json.array.injEq, List.cons.injEq] at h
          exact ⟨fields, h.1, items, ih.mpr (by rw [h.2]), rfl⟩
  | null => simp [Json.asDictionaries]
  | bool value => simp [Json.asDictionaries]
  | number value => simp [Json.asDictionaries]
  | string value => simp [Json.asDictionaries]
  | object fields => simp [Json.asDictionaries]

/-- The inner `if let`s of the completion handler: what `articles` is set to, if anything. -/
def fetchedArticles (json : Json) : Option (List TouTiaoModel) := do
  let json ← json.asDictionary
  let result ← (← json.lookup "result").asDictionary
  let data ← (← result.lookup "data").asDictionaries
  return data.filterMap TouTiaoModel.initJSON

/-- An object in which `result` is an object and `result.data` an array of objects only. -/
def Json.IsNews (json : Json) (items : List (List (String × Json))) : Prop :=
  ∃ fields result, json = .object fields ∧ fields.lookup "result" = some (.object result) ∧
    result.lookup "data" = some (.array (items.map Json.object))

theorem fetchedArticles_eq_some {json : Json} {articles : List TouTiaoModel} :
    fetchedArticles json = some articles ↔
      ∃ items, json.IsNews items ∧ articles = items.map TouTiaoModel.ofFields := by
  unfold fetchedArticles Json.IsNews
  simp only [Option.pure_def, Option.bind_eq_bind, Option.bind_eq_some_iff, asDictionary_eq_some,
    asDictionaries_eq_some, filterMap_initJSON, Option.some.injEq]
  apply Iff.intro
  · intro h
    obtain ⟨fields, rfl, _, hr, result, rfl, _, hd, items, rfl, rfl⟩ := h
    exact ⟨items, ⟨fields, result, rfl, hr, hd⟩, rfl⟩
  · intro h
    obtain ⟨items, ⟨fields, result, rfl, hr, hd⟩, rfl⟩ := h
    exact ⟨fields, rfl, _, hr, result, rfl, _, hd, items, rfl, rfl⟩

end SwiftApp
