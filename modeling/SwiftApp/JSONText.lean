import Mathlib.Data.List.Basic

namespace JSONText

/-! The texts of JSON, by their grammar. -/

def isBlank (c : Char) : Bool := c = ' ' || c = '\t' || c = '\n' || c = '\r'

def Blank (text : List Char) : Prop := ∀ c ∈ text, isBlank c = true

def Digits (text : List Char) : Prop := text ≠ [] ∧ ∀ c ∈ text, c.isDigit = true

def HexDigit (c : Char) : Prop := c.isDigit = true ∨ ('a' ≤ c ∧ c ≤ 'f') ∨ ('A' ≤ c ∧ c ≤ 'F')

/-- One character between quotation marks, or one escape. -/
inductive StringChar : List Char → Prop
  | unescaped {c : Char} : 0x20 ≤ c.toNat → c ≠ '\x22' → c ≠ '\x5c' → StringChar [c]
  | escape {c : Char} : c ∈ ['\x22', '\x5c', '/', 'b', 'f', 'n', 'r', 't'] →
    StringChar ['\x5c', c]
  | unicode {c d e f : Char} : HexDigit c → HexDigit d → HexDigit e → HexDigit f →
    StringChar ['\x5c', 'u', c, d, e, f]

inductive StringChars : List Char → Prop
  | nil : StringChars []
  | cons {char rest : List Char} : StringChar char → StringChars rest → StringChars (char ++ rest)

inductive StringText : List Char → Prop
  | quoted {body : List Char} : StringChars body → StringText ('\x22' :: (body ++ ['\x22']))

inductive IntPart : List Char → Prop
  | zero : IntPart ['0']
  | digits {text : List Char} : Digits text → text.head? ≠ some '0' → IntPart text

inductive FracPart : List Char → Prop
  | none : FracPart []
  | digits {text : List Char} : Digits text → FracPart ('.' :: text)

inductive ExpPart : List Char → Prop
  | none : ExpPart []
  | digits {e : Char} {sign text : List Char} : e = 'e' ∨ e = 'E' →
    sign = [] ∨ sign = ['+'] ∨ sign = ['-'] → Digits text → ExpPart (e :: (sign ++ text))

inductive NumberText : List Char → Prop
  | mk {sign int frac exp : List Char} : sign = [] ∨ sign = ['-'] → IntPart int → FracPart frac →
    ExpPart exp → NumberText (sign ++ int ++ frac ++ exp)

mutual

inductive Value : List Char → Prop
  | null : Value ['n', 'u', 'l', 'l']
  | true : Value ['t', 'r', 'u', 'e']
  | false : Value ['f', 'a', 'l', 's', 'e']
  | string {text : List Char} : StringText text → Value text
  | number {text : List Char} : NumberText text → Value text
  | array {text : List Char} : ArrayValue text → Value text
  | object {text : List Char} : ObjectValue text → Value text

/-- A value with blanks around it. -/
inductive Item : List Char → Prop
  | mk {before value after : List Char} : Blank before → Value value → Blank after →
    Item (before ++ value ++ after)

inductive Items : List Char → Prop
  | one {item : List Char} : Item item → Items item
  | more {item items : List Char} : Item item → Items items → Items (item ++ ',' :: items)

inductive ArrayValue : List Char → Prop
  | empty {gap : List Char} : Blank gap → ArrayValue ('[' :: (gap ++ [']']))
  | filled {items : List Char} : Items items → ArrayValue ('[' :: (items ++ [']']))

inductive Member : List Char → Prop
  | mk {before name after item : List Char} : Blank before → StringText name → Blank after →
    Item item → Member (before ++ name ++ after ++ ':' :: item)

inductive Members : List Char → Prop
  | one {member : List Char} : Member member → Members member
  | more {member members : List Char} : Member member → Members members →
    Members (member ++ ',' :: members)

inductive ObjectValue : List Char → Prop
  | empty {gap : List Char} : Blank gap → ObjectValue ('\x7b' :: (gap ++ ['\x7d']))
  | filled {members : List Char} : Members members → ObjectValue ('\x7b' :: (members ++ ['\x7d']))

end

/-- A text of the given kind of value, with blanks around it. -/
def Text (kind : List Char → Prop) (text : List Char) : Prop :=
  ∃ before value after, Blank before ∧ kind value ∧ Blank after ∧ text = before ++ value ++ after

theorem ObjectValue.head {text : List Char} (h : ObjectValue text) : text.head? = some '\x7b' := by
  cases h <;> rfl

theorem ArrayValue.head {text : List Char} (h : ArrayValue text) : text.head? = some '[' := by
  cases h <;> rfl

/-- The kind of a text shows in its first character that is no blank. -/
theorem text_head {kind : List Char → Prop} {c : Char} (solid : isBlank c = false)
    (starts : ∀ value, kind value → value.head? = some c) {text : List Char} (h : Text kind text) :
    (text.dropWhile isBlank).head? = some c := by
  obtain ⟨before, value, after, blank, is, _, rfl⟩ := h
  cases value with
  | nil => cases starts [] is
  | cons d rest =>
    cases Option.some.inj (starts _ is)
    rw [List.append_assoc, List.dropWhile_append_of_pos blank, List.cons_append,
      List.dropWhile_cons_of_neg (by rw [solid]; exact Bool.false_ne_true)]
    rfl

theorem not_object_and_array {text : List Char} (object : Text ObjectValue text) :
    ¬ Text ArrayValue text := by
  intro array
  have brace := text_head rfl (fun _ h => h.head) object
  have bracket := text_head rfl (fun _ h => h.head) array
  cases brace.symm.trans bracket

theorem text_of_kind {kind : List Char → Prop} {text : List Char} (h : kind text) : Text kind text :=
  ⟨[], text, [], fun _ no => absurd no List.not_mem_nil, h, fun _ no => absurd no List.not_mem_nil,
    (List.append_nil text).symm⟩

theorem emptyObject_text : Text ObjectValue ['\x7b', '\x7d'] :=
  text_of_kind (ObjectValue.empty fun _ no => absurd no List.not_mem_nil)

theorem emptyArray_text : Text ArrayValue ['[', ']'] :=
  text_of_kind (ArrayValue.empty fun _ no => absurd no List.not_mem_nil)

end JSONText
