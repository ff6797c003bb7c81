import SwiftApp.JSONText

namespace SwiftApp

open JSONText

/-- What `JSONSerialization` hands back from a text with an object or an array at its top. -/
inductive JSONObject (NSDictionary NSArray : Type)
  | dictionary (dictionary : NSDictionary)
  | array (array : NSArray)

/-- `JSONSerialization`, each call with `try?`: it parses exactly the texts with an object or an
array at their top, and what it writes is text that parses back. -/
structure JSONSerialization (NSDictionary NSArray : Type) where
  /-- `NSDictionary()` -/
  empty : NSDictionary
  jsonObject : ByteArray → Option (JSONObject NSDictionary NSArray)
  data : NSDictionary → Option ByteArray
  object_iff : ∀ text : String, (∃ dictionary, jsonObject text.toUTF8 = some (.dictionary dictionary)) ↔
    Text ObjectValue text.toList
  array_iff : ∀ text : String, (∃ array, jsonObject text.toUTF8 = some (.array array)) ↔
    Text ArrayValue text.toList
  data_utf8 : ∀ dictionary bytes, data dictionary = some bytes → bytes.IsValidUTF8
  data_parses : ∀ dictionary bytes, data dictionary = some bytes →
    jsonObject bytes = some (.dictionary dictionary)

variable {NSDictionary NSArray : Type}

namespace JSONSerialization

variable (F : JSONSerialization NSDictionary NSArray)

/-- `none` is a trap: on a missing dictionary, one that cannot be written, or bad bytes. -/
def convertDictionaryToJSONString (dict : Option NSDictionary) : Option String :=
  dict.bind fun dict => (F.data dict).bind fun data => String.fromUTF8? data

/-- `none` is a trap on the forced cast. -/
def getDictionaryFromJSONString (jsonString : String) : Option NSDictionary :=
  match F.jsonObject jsonString.toUTF8 with
  | some (.dictionary dict) => some dict
  | some (.array _) => none
  | none => some F.empty

theorem getDictionary_of_object {F : JSONSerialization NSDictionary NSArray} {jsonString : String}
    {dict : NSDictionary} (h : F.jsonObject jsonString.toUTF8 = some (.dictionary dict)) :
    F.getDictionaryFromJSONString jsonString = some dict := by
  unfold getDictionaryFromJSONString
  rw [h]

theorem convertDictionary_round_trip {F : JSONSerialization NSDictionary NSArray}
    {dict : NSDictionary} (writable : (F.data dict).isSome = true) :
    (F.convertDictionaryToJSONString (some dict)).bind F.getDictionaryFromJSONString =
      some dict := by
  obtain ⟨bytes, written⟩ := Option.isSome_iff_exists.mp writable
  have valid := F.data_utf8 dict bytes written
  have text : F.convertDictionaryToJSONString (some dict) = some (String.fromUTF8 bytes valid) := by
    unfold convertDictionaryToJSONString
    rw [Option.bind_some, written, Option.bind_some, String.fromUTF8?, dif_pos valid]
  rw [text, Option.bind_some]
  exact getDictionary_of_object (F.data_parses dict bytes written)

end JSONSerialization

/-- `getDictionaryFromJSONString` returns, with the parsed dictionary for an object and the empty
one for every other string, and inverts the encoder, if and only if the string is no JSON text
with an array at its top. -/
theorem dictionary_from_json_iff (F : JSONSerialization NSDictionary NSArray) (jsonString : String) :
    ((∃ dict, F.getDictionaryFromJSONString jsonString = some dict ∧
        (Text ObjectValue jsonString.toList →
          F.jsonObject jsonString.toUTF8 = some (.dictionary dict)) ∧
        (¬ Text ObjectValue jsonString.toList → dict = F.empty)) ∧
      ∀ dict, (F.data dict).isSome = true →
        (F.convertDictionaryToJSONString (some dict)).bind F.getDictionaryFromJSONString =
          some dict) ↔
      ¬ Text ArrayValue jsonString.toList := by
  rw [and_iff_left fun dict writable => JSONSerialization.convertDictionary_round_trip writable,
    ← F.array_iff, ← F.object_iff]
  unfold JSONSerialization.getDictionaryFromJSONString
  apply Iff.intro
  · intro returns isArray
    obtain ⟨dict, returned, _⟩ := returns
    obtain ⟨array, parsed⟩ := isArray
    rw [parsed] at returned
    cases returned
  · intro noArray
    cases parsed : F.jsonObject jsonString.toUTF8 with
    | none =>
      refine ⟨F.empty, rfl, ?_, fun _ => rfl⟩
      intro object
      obtain ⟨_, no⟩ := object
      cases no
    | some value =>
      cases value with
      | dictionary dict => exact ⟨dict, rfl, fun _ => rfl, fun no => absurd ⟨dict, rfl⟩ no⟩
      | array array => exact absurd ⟨array, parsed⟩ noArray

theorem fromUTF8?_toUTF8 (text : String) : String.fromUTF8? text.toUTF8 = some text := by
  have valid : text.toUTF8.IsValidUTF8 := text.isValidUTF8
  rw [String.fromUTF8?, dif_pos valid]
  rfl

open Classical in
/-- What is at the top of a text, kept as the text itself. -/
noncomputable def topOfText (text : String) :
    Option (JSONObject { text : String // Text ObjectValue text.toList }
      { text : String // Text ArrayValue text.toList }) :=
  if object : Text ObjectValue text.toList then some (.dictionary ⟨text, object⟩)
  else if array : Text ArrayValue text.toList then some (.array ⟨text, array⟩)
  else none

theorem topOfText_object {text : String} (h : Text ObjectValue text.toList) :
    topOfText text = some (.dictionary ⟨text, h⟩) := by
  unfold topOfText
  rw [dif_pos h]

theorem topOfText_array {text : String} (h : Text ArrayValue text.toList) :
    topOfText text = some (.array ⟨text, h⟩) := by
  unfold topOfText
  rw [dif_neg fun object => not_object_and_array object h, dif_pos h]

theorem topOfText_other {text : String} (noObject : ¬ Text ObjectValue text.toList)
    (noArray : ¬ Text ArrayValue text.toList) : topOfText text = none := by
  unfold topOfText
  rw [dif_neg noObject, dif_neg noArray]

theorem topOfText_dictionary_iff {text : String} :
    (∃ dictionary, topOfText text = some (.dictionary dictionary)) ↔ Text ObjectValue text.toList := by
  apply Iff.intro
  · intro parsed
    obtain ⟨dictionary, top⟩ := parsed
    by_contra noObject
    by_cases array : Text ArrayValue text.toList
    · cases (topOfText_array array).symm.trans top
    · cases (topOfText_other noObject array).symm.trans top
  · exact fun object => ⟨_, topOfText_object object⟩

theorem topOfText_array_iff {text : String} :
    (∃ array, topOfText text = some (.array array)) ↔ Text ArrayValue text.toList := by
  apply Iff.intro
  · intro parsed
    obtain ⟨array, top⟩ := parsed
    by_contra noArray
    by_cases object : Text ObjectValue text.toList
    · cases (topOfText_object object).symm.trans top
    · cases (topOfText_other object noArray).symm.trans top
  · exact fun array => ⟨_, topOfText_array array⟩

/-- A serialization whose dictionaries and arrays are their own texts. -/
noncomputable def textSerialization :
    JSONSerialization { text : String // Text ObjectValue text.toList }
      { text : String // Text ArrayValue text.toList } where
  empty := ⟨"\x7b\x7d", emptyObject_text⟩
  jsonObject bytes := (String.fromUTF8? bytes).bind topOfText
  data dictionary := some dictionary.1.toUTF8
  object_iff := by
    intro text
    rw [fromUTF8?_toUTF8, Option.bind_some]
    exact topOfText_dictionary_iff
  array_iff := by
    intro text
    rw [fromUTF8?_toUTF8, Option.bind_some]
    exact topOfText_array_iff
  data_utf8 := by
    intro dictionary bytes h
    cases Option.some.inj h
    exact dictionary.1.isValidUTF8
  data_parses := by
    intro dictionary bytes h
    cases Option.some.inj h
    rw [fromUTF8?_toUTF8, Option.bind_some]
    exact topOfText_object dictionary.2

/-- A server that answers with an empty list. -/
theorem array_text_traps :
    ¬ ∃ dict, textSerialization.getDictionaryFromJSONString "[]" = some dict := by
  intro returns
  obtain ⟨dict, returned⟩ := returns
  obtain ⟨array, parsed⟩ := (textSerialization.array_iff "[]").mpr emptyArray_text
  unfold JSONSerialization.getDictionaryFromJSONString at returned
  rw [parsed] at returned
  cases returned

end SwiftApp
