/-
Module: HermesNode.Lib.Json
Purpose: The grammar of JSON texts over bytes. A tree records what a text says and keeps string
  literals and scalars as they are written; `Derives` relates it to every text that spells it, with
  whatever whitespace. One family of trees and one relation cover values, the items of an array and
  the members of an object, so that an induction on a derivation goes through all of them at once.
Trusted boundary: human-reviewed spec (the JSON grammar)
Main exports: IsWs, StringBody, Derives
-/
import HermesNode.Lib.Buffer

namespace HermesNode.Json

/-! ### Tokens -/

def quoteByte : UInt8 := 34

def backslashByte : UInt8 := 92

/-- Space, tab, line feed and carriage return. -/
def isWs (c : UInt8) : Bool := c == 32 || c == 9 || c == 10 || c == 13

/-- A run of whitespace. -/
def IsWs (text : Bytes) : Prop := ∀ c ∈ text, isWs c = true

def isDigit (c : UInt8) : Bool := 48 ≤ c && c ≤ 57

def isHex (c : UInt8) : Bool := isDigit c || (97 ≤ c && c ≤ 102) || (65 ≤ c && c ≤ 70)

/-- The bytes that may follow a backslash, `u` aside. -/
def isEscape (c : UInt8) : Bool := (ascii "\"\\/bfnrt").contains c

/-- A byte that stands for itself in a string; bytes of longer characters are among them. -/
def isPlain (c : UInt8) : Bool := c != quoteByte && c != backslashByte && 32 ≤ c

/-- What stands between the quotes of a string literal. -/
inductive StringBody : Bytes → Prop where
  | nil : StringBody []
  | plain {c : UInt8} {body : Bytes} (hc : isPlain c = true) (rest : StringBody body) :
      StringBody (c :: body)
  | escape {c : UInt8} {body : Bytes} (hc : isEscape c = true) (rest : StringBody body) :
      StringBody (backslashByte :: c :: body)
  | unicode {a b c d : UInt8} {body : Bytes}
      (hhex : isHex a = true ∧ isHex b = true ∧ isHex c = true ∧ isHex d = true)
      (rest : StringBody body) : StringBody (backslashByte :: 117 :: a :: b :: c :: d :: body)

/-- The string a body stands for, when it has no escapes but those of a quote, a backslash and a
slash. -/
def simpleValue : Bytes → Option Bytes
  | [] => some []
  | [c] => if isPlain c then some [c] else none
  | c :: d :: body =>
      if c == backslashByte then
        if d == quoteByte || d == backslashByte || d == 47 then (simpleValue body).map (d :: ·)
        else none
      else if isPlain c then (simpleValue (d :: body)).map (c :: ·)
      else none

/-- The text of a string literal. -/
def literal (body : Bytes) : Bytes := quoteByte :: (body ++ [quoteByte])

def Digits (text : Bytes) : Prop := text ≠ [] ∧ ∀ c ∈ text, isDigit c = true

/-- The integer part of a number has no leading zero. -/
def IntegerPart (text : Bytes) : Prop := text = [48] ∨ (Digits text ∧ text.head? ≠ some 48)

/-- The scalars that are no strings. -/
inductive Scalar : Bytes → Prop where
  | nullLiteral : Scalar (ascii "null")
  | trueLiteral : Scalar (ascii "true")
  | falseLiteral : Scalar (ascii "false")
  | number {minus int frac exp : Bytes} (hminus : minus = [] ∨ minus = [45])
      (hint : IntegerPart int)
      (hfrac : frac = [] ∨ ∃ digits, Digits digits ∧ frac = 46 :: digits)
      (hexp : exp = [] ∨ ∃ e sign digits, (e = 101 ∨ e = 69) ∧
        (sign = [] ∨ sign = [43] ∨ sign = [45]) ∧ Digits digits ∧ exp = e :: (sign ++ digits)) :
      Scalar (minus ++ int ++ frac ++ exp)

/-! ### Trees -/

inductive Kind where
  | value
  | items
  | members
deriving Repr, DecidableEq

/-- What a text says. -/
inductive Tree : Kind → Type where
  | scalar (text : Bytes) : Tree .value
  | string (body : Bytes) : Tree .value
  | array (items : Tree .items) : Tree .value
  | object (members : Tree .members) : Tree .value
  | noItems : Tree .items
  | item (value : Tree .value) (rest : Tree .items) : Tree .items
  | noMembers : Tree .members
  | member (key : Bytes) (value : Tree .value) (rest : Tree .members) : Tree .members

/-- The text spells the tree. A value is spelled without the whitespace around it, the items and
members with it. -/
inductive Derives : {kind : Kind} → Tree kind → Bytes → Prop where
  | scalar {text : Bytes} (h : Scalar text) : Derives (.scalar text) text
  | string {body : Bytes} (h : StringBody body) : Derives (.string body) (literal body)
  | array {items : Tree .items} {text : Bytes} (h : Derives items text) :
      Derives (.array items) (91 :: (text ++ [93]))
  | object {members : Tree .members} {text : Bytes} (h : Derives members text) :
      Derives (.object members) (123 :: (text ++ [125]))
  | noItems {ws : Bytes} (h : IsWs ws) : Derives .noItems ws
  | lastItem {value : Tree .value} {before text after : Bytes} (hbefore : IsWs before)
      (h : Derives value text) (hafter : IsWs after) :
      Derives (.item value .noItems) (before ++ text ++ after)
  | item {value next : Tree .value} {items : Tree .items} {before text after rest : Bytes}
      (hbefore : IsWs before) (h : Derives value text) (hafter : IsWs after)
      (hrest : Derives (.item next items) rest) :
      Derives (.item value (.item next items)) (before ++ text ++ after ++ 44 :: rest)
  | noMembers {ws : Bytes} (h : IsWs ws) : Derives .noMembers ws
  | lastMember {key : Bytes} {value : Tree .value} {w₁ w₂ w₃ text after : Bytes}
      (h₁ : IsWs w₁) (hkey : StringBody key) (h₂ : IsWs w₂) (h₃ : IsWs w₃)
      (h : Derives value text) (hafter : IsWs after) :
      Derives (.member key value .noMembers)
        (w₁ ++ literal key ++ w₂ ++ 58 :: (w₃ ++ text ++ after))
  | member {key next : Bytes} {value nextValue : Tree .value} {members : Tree .members}
      {w₁ w₂ w₃ text after rest : Bytes}
      (h₁ : IsWs w₁) (hkey : StringBody key) (h₂ : IsWs w₂) (h₃ : IsWs w₃)
      (h : Derives value text) (hafter : IsWs after)
      (hrest : Derives (.member next nextValue members) rest) :
      Derives (.member key value (.member next nextValue members))
        (w₁ ++ literal key ++ w₂ ++ 58 :: (w₃ ++ text ++ after ++ 44 :: rest))

namespace Tree

/-- The members with their keys as they are written. -/
def entries : {kind : Kind} → Tree kind → List (Bytes × Tree .value)
  | _, .member key value rest => (key, value) :: entries rest
  | _, _ => []

/-- The value of the first member whose key stands for `name`. -/
def lookup (name : Bytes) : {kind : Kind} → Tree kind → Option (Tree .value)
  | _, .member key value rest =>
      if simpleValue key = some name then some value else lookup name rest
  | _, _ => none

theorem lookup_eq_none {name : Bytes} {members : Tree .members}
    (h : ∀ entry ∈ members.entries, simpleValue entry.1 ≠ some name) :
    members.lookup name = none := by
  match members with
  | .noMembers => rfl
  | .member key value rest =>
      rw [entries, List.forall_mem_cons] at h
      rw [lookup, if_neg h.1, lookup_eq_none h.2]

theorem lookup_of_mem {name key : Bytes} {value : Tree .value} {members : Tree .members}
    (hunique : (members.entries.map fun entry => simpleValue entry.1).Nodup)
    (hmem : (key, value) ∈ members.entries) (hname : simpleValue key = some name) :
    members.lookup name = some value := by
  match members with
  | .noMembers => cases hmem
  | .member key' value' rest =>
      rw [entries] at hunique hmem
      rw [List.map_cons, List.nodup_cons] at hunique
      rw [lookup]
      rcases List.mem_cons.mp hmem with heq | hrest
      · cases heq
        rw [if_pos hname]
      · rw [if_neg, lookup_of_mem hunique.2 hrest hname]
        intro hsame
        apply hunique.1
        rw [hsame, ← hname]
        exact List.mem_map.mpr ⟨(key, value), hrest, rfl⟩

end Tree

/-! ### Which bytes a token has -/

/-- A byte that is neither whitespace nor structural. -/
def isToken (c : UInt8) : Bool := 32 < c && !(ascii "\",:[]\x7b\x7d").contains c

theorem isToken_of_isDigit {c : UInt8} (h : isDigit c = true) : isToken c = true := by
  simp only [isDigit, Bool.and_eq_true, decide_eq_true_eq, UInt8.le_iff_toNat_le] at h
  have hbytes : ascii "\",:[]\x7b\x7d" = [34, 44, 58, 91, 93, 123, 125] := by decide
  simp only [isToken, hbytes, Bool.and_eq_true, decide_eq_true_eq, UInt8.lt_iff_toNat_lt,
    Bool.not_eq_true', List.contains_eq_mem, decide_eq_false_iff_not, List.mem_cons,
    List.not_mem_nil, or_false, ← UInt8.toNat_inj]
  simp only [UInt8.reduceToNat] at h ⊢
  omega

theorem isToken_digits {text : Bytes} (h : Digits text) : ∀ c ∈ text, isToken c = true :=
  fun c hc => isToken_of_isDigit (h.2 c hc)

theorem isToken_integerPart {text : Bytes} (h : IntegerPart text) : ∀ c ∈ text, isToken c = true := by
  rcases h with rfl | ⟨hdigits, _⟩
  · exact List.all_eq_true.mp rfl
  · exact isToken_digits hdigits

theorem Scalar.token {text : Bytes} (h : Scalar text) :
    text ≠ [] ∧ ∀ c ∈ text, isToken c = true := by
  cases h with
  | nullLiteral => exact ⟨List.cons_ne_nil _ _, List.all_eq_true.mp rfl⟩
  | trueLiteral => exact ⟨List.cons_ne_nil _ _, List.all_eq_true.mp rfl⟩
  | falseLiteral => exact ⟨List.cons_ne_nil _ _, List.all_eq_true.mp rfl⟩
  | @number minus int frac exp hminus hint hfrac hexp =>
      constructor
      · intro hnil
        simp only [List.append_eq_nil_iff] at hnil
        rcases hint with hzero | ⟨hdigits, _⟩
        · rw [hnil.1.1.2] at hzero
          cases hzero
        · exact hdigits.1 hnil.1.1.2
      · intro c hc
        simp only [List.mem_append] at hc
        rcases hc with ((hc | hc) | hc) | hc
        · rcases hminus with rfl | rfl
          · cases hc
          · rw [List.mem_singleton.mp hc]
            rfl
        · exact isToken_integerPart hint c hc
        · rcases hfrac with rfl | ⟨digits, hdigits, rfl⟩
          · cases hc
          · rcases List.mem_cons.mp hc with rfl | hin
            · rfl
            · exact isToken_digits hdigits c hin
        · rcases hexp with rfl | ⟨e, sign, digits, he, hsign, hdigits, rfl⟩
          · cases hc
          · rcases List.mem_cons.mp hc with rfl | hin
            · rcases he with rfl | rfl <;> rfl
            · rcases List.mem_append.mp hin with hin | hin
              · rcases hsign with rfl | rfl | rfl
                · cases hin
                · rw [List.mem_singleton.mp hin]
                  rfl
                · rw [List.mem_singleton.mp hin]
                  rfl
              · exact isToken_digits hdigits c hin

end HermesNode.Json
