/-
Module: HermesNode.Lib.JsSource
Purpose: How JavaScript reads a source text, for a fragment of the language: names, string literals
  and the punctuators between them, and from these a function expression whose body is a list of
  expression and throw statements. A text with anything else in it has no reading here.
Trusted boundary: human-reviewed spec (the lexical grammar of ECMAScript, where a string literal may
  contain U+2028 and U+2029)
Main exports: Element, Lexer, Lexer.run, lex
-/
import HermesNode.Lib.Uri

namespace HermesNode.JsSource

/-! ### Input elements -/

/-- What a source text is made of, white space apart. -/
inductive Element where
  | lineEnd
  | name (text : JsString)
  | punctuator (c : UInt16)
  /-- A string literal, by its value. -/
  | string (value : JsString)
deriving Repr, DecidableEq

inductive Mode where
  | between
  | name (text : JsString)
  /-- Inside a literal that ends at `mark`. -/
  | string (mark : UInt16) (value : JsString)
  | escape (mark : UInt16) (value : JsString)
  /-- Inside an escape that lacks `left + 1` hexadecimal digits. -/
  | hex (mark : UInt16) (value : JsString) (left code : Nat)
  /-- Behind a carriage return that continues a literal on the next line. -/
  | continued (mark : UInt16) (value : JsString)
deriving Repr, DecidableEq

def isLineTerminator (c : UInt16) : Bool := c == 10 || c == 13 || c == 0x2028 || c == 0x2029

def isWhiteSpace (c : UInt16) : Bool :=
  c == 9 || c == 11 || c == 12 || c == 32 || c == 0xA0 || c == 0xFEFF

def isNameStart (c : UInt16) : Bool :=
  (65 ≤ c && c ≤ 90) || (97 ≤ c && c ≤ 122) || c == 95 || c == 36

def isNamePart (c : UInt16) : Bool := isNameStart c || (48 ≤ c && c ≤ 57)

/-- `(`, `)`, `,`, `;` and the braces. -/
def isPunctuator (c : UInt16) : Bool :=
  c == 40 || c == 41 || c == 44 || c == 59 || c == 123 || c == 125

/-- A character behind a backslash that stands for another one. -/
def singleEscape (c : UInt16) : Option UInt16 :=
  if c == 98 then some 8
  else if c == 116 then some 9
  else if c == 110 then some 10
  else if c == 118 then some 11
  else if c == 102 then some 12
  else if c == 114 then some 13
  else none

structure Lexer where
  elements : List Element
  mode : Mode
deriving Repr, DecidableEq

namespace Lexer

/-- A character where no element has begun. -/
def outside (elements : List Element) (c : UInt16) : Option Lexer :=
  if isLineTerminator c then some ⟨elements ++ [.lineEnd], .between⟩
  else if isWhiteSpace c then some ⟨elements, .between⟩
  else if isNameStart c then some ⟨elements, .name [c]⟩
  else if isPunctuator c then some ⟨elements ++ [.punctuator c], .between⟩
  else if c == 34 || c == 39 then some ⟨elements, .string c []⟩
  else none

/-- A character inside a literal. -/
def inString (elements : List Element) (mark : UInt16) (value : JsString) (c : UInt16) :
    Option Lexer :=
  if c == mark then some ⟨elements ++ [.string value], .between⟩
  else if c == 92 then some ⟨elements, .escape mark value⟩
  else if c == 10 || c == 13 then none
  else some ⟨elements, .string mark (value ++ [c])⟩

/-- A character behind a backslash. The escapes of digits and of `u` with braces are left out. -/
def inEscape (elements : List Element) (mark : UInt16) (value : JsString) (c : UInt16) :
    Option Lexer :=
  if c == 13 then some ⟨elements, .continued mark value⟩
  else if isLineTerminator c then some ⟨elements, .string mark value⟩
  else if c == 120 then some ⟨elements, .hex mark value 1 0⟩
  else if c == 117 then some ⟨elements, .hex mark value 3 0⟩
  else if 48 ≤ c && c ≤ 57 then none
  else some ⟨elements, .string mark (value ++ [(singleEscape c).getD c])⟩

def step (s : Lexer) (c : UInt16) : Option Lexer :=
  match s.mode with
  | .between => outside s.elements c
  | .name text =>
      if isNamePart c then some { s with mode := .name (text ++ [c]) }
      else outside (s.elements ++ [.name text]) c
  | .string mark value => inString s.elements mark value c
  | .escape mark value => inEscape s.elements mark value c
  | .hex mark value left code =>
      (hexValue c).map fun digit =>
        match left with
        | 0 => { s with mode := .string mark (value ++ [UInt16.ofNat (code * 16 + digit)]) }
        | left + 1 => { s with mode := .hex mark value left (code * 16 + digit) }
  | .continued mark value =>
      if c == 10 then some { s with mode := .string mark value }
      else inString s.elements mark value c

/-- The characters of a text, one after the other. -/
def run : Lexer → JsString → Option Lexer
  | s, [] => some s
  | s, c :: rest => (s.step c).bind fun t => run t rest

/-- The elements of the text, unless it ends inside a literal. -/
def finish (s : Lexer) : Option (List Element) :=
  match s.mode with
  | .between => some s.elements
  | .name text => some (s.elements ++ [.name text])
  | _ => none

theorem run_cons {s t : Lexer} {c : UInt16} (h : s.step c = some t) (rest : JsString) :
    s.run (c :: rest) = t.run rest := by
  simp [run, h]

theorem run_append {s t : Lexer} {text : JsString} (h : s.run text = some t) (rest : JsString) :
    s.run (text ++ rest) = t.run rest := by
  induction text generalizing s with
  | nil =>
      cases h
      rfl
  | cons c text ih =>
      obtain ⟨u, hstep, hrun⟩ := Option.bind_eq_some_iff.mp h
      rw [List.cons_append, run_cons hstep]
      exact ih hrun

/-- A character that is neither the mark, a backslash nor the end of a line stands for itself. -/
theorem step_string {mark c : UInt16} (hmark : c ≠ mark) (hescape : c ≠ 92) (hlf : c ≠ 10)
    (hcr : c ≠ 13) (elements : List Element) (value : JsString) :
    step ⟨elements, .string mark value⟩ c = some ⟨elements, .string mark (value ++ [c])⟩ := by
  simp [step, inString, hmark, hescape, hlf, hcr]

end Lexer

def lex (text : JsString) : Option (List Element) :=
  (Lexer.run ⟨[], .between⟩ text).bind Lexer.finish

/-! ### A function expression -/

inductive Expression where
  | name (text : JsString)
  | string (value : JsString)
  /-- `new callee(argument)` -/
  | construct (callee : JsString) (argument : Expression)
deriving Repr, DecidableEq

inductive Statement where
  | empty
  | expression (e : Expression)
  | throwing (e : Expression)
deriving Repr, DecidableEq

structure FunctionExpression where
  parameters : List JsString
  body : List Statement
deriving Repr, DecidableEq

/-- The code units of an ASCII text. -/
def word (s : String) : JsString := (ascii s).map UInt8.toUInt16

def keywords : List JsString := [word "function", word "new", word "throw"]

def expression : List Element → Option (Expression × List Element)
  | .string value :: rest => some (.string value, rest)
  | .name text :: .name callee :: .punctuator 40 :: rest =>
      if text = word "new" ∧ callee ∉ keywords then
        (expression rest).bind fun (argument, rest) =>
          match rest with
          | .punctuator 41 :: rest => some (.construct callee argument, rest)
          | _ => none
      else none
  | .name text :: rest => if text ∈ keywords then none else some (.name text, rest)
  | _ => none

/-- The whole of `elements` as an expression. -/
def wholeExpression (elements : List Element) : Option Expression :=
  (expression elements).bind fun (e, rest) => if rest = [] then some e else none

def statement : List Element → Option Statement
  | [] => some .empty
  | element :: rest =>
      if element = .name (word "throw") then (wholeExpression rest).map .throwing
      else (wholeExpression (element :: rest)).map .expression

/-- What stands between the semicolons. No expression of the fragment has one. -/
def semicolonSplit : List Element → List (List Element)
  | [] => [[]]
  | element :: rest =>
      if element = .punctuator 59 then [] :: semicolonSplit rest
      else (semicolonSplit rest).modifyHead (element :: ·)

/-- A statement list. Behind its last semicolon there need not be a statement. -/
def statements (elements : List Element) : Option (List Statement) :=
  let pieces := semicolonSplit elements
  (if pieces.getLast? = some [] then pieces.dropLast else pieces).mapM statement

/-- The parameters and what is behind their closing parenthesis. -/
def parameters : List Element → Option (List JsString × List Element)
  | .punctuator 41 :: rest => some ([], rest)
  | .name text :: .punctuator 41 :: rest => some ([text], rest)
  | .name text :: .punctuator 44 :: rest =>
      (parameters rest).map fun (texts, rest) => (text :: texts, rest)
  | _ => none

/-- No line ends between `throw` and its expression; elsewhere in the fragment line ends say
nothing. -/
def restricted : List Element → Bool
  | .name text :: .lineEnd :: rest => text == word "throw" || restricted rest
  | _ :: rest => restricted rest
  | [] => false

def functionExpression (elements : List Element) : Option FunctionExpression :=
  if restricted elements then none
  else
    match elements.filter (· != .lineEnd) with
    | .punctuator 40 :: .name text :: .punctuator 40 :: rest =>
        if text = word "function" then
          (parameters rest).bind fun (parameters, rest) =>
            match rest with
            | .punctuator 123 :: rest =>
                if [.punctuator 125, .punctuator 41] <:+ rest then
                  (statements (rest.take (rest.length - 2))).map (⟨parameters, ·⟩)
                else none
            | _ => none
        else none
    | _ => none

/-- A text that is one function expression in parentheses. -/
def program (text : JsString) : Option FunctionExpression := (lex text).bind functionExpression

example : program (word "(function(a, b) \x7b a; throw new E('x\\x41\\\n');\n\x7d)") =
    some ⟨[word "a", word "b"],
      [.expression (.name (word "a")), .throwing (.construct (word "E") (.string (word "xA")))]⟩ := by
  decide

end HermesNode.JsSource
