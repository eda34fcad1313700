/-
Module: HermesNode.Lib.Shell
Purpose: How a POSIX shell reads one simple command: the line is cut into words, leading assignment
  words are set aside, and quotation is removed from the rest. What depends on more than the line
  has no reading here: a parameter or command substitution, a pattern that is matched against file
  names, a tilde, an operator, a reserved word in first position.
Trusted boundary: human-reviewed spec (the shell command language of POSIX, no aliases defined)
Main exports: Piece, Word, Lexer.run_bare, Lexer.step_single
-/
import HermesNode.Lib.Buffer
import Mathlib.Data.List.TakeWhile

namespace HermesNode.Shell

/-! ### Words -/

/-- What a word is made of. -/
inductive Piece where
  | bare (c : UInt8)
  | quoted (c : UInt8)
  /-- A pair of quotation marks. It makes a word even around nothing. -/
  | marks
deriving Repr, DecidableEq

abbrev Word := List Piece

/-- Quote removal. -/
def Word.text (word : Word) : Bytes :=
  word.filterMap fun
    | .bare c => some c
    | .quoted c => some c
    | .marks => none

def Word.isBare (word : Word) : Bool :=
  word.all fun
    | .bare _ => true
    | _ => false

def isNameStart (c : UInt8) : Bool :=
  (65 ≤ c && c ≤ 90) || (97 ≤ c && c ≤ 122) || c == 95

def isNameChar (c : UInt8) : Bool := isNameStart c || (48 ≤ c && c ≤ 57)

/-- The rest of a name, up to an equals sign. -/
def assignsAfter : Bytes → Bool
  | [] => false
  | c :: rest => c == 61 || (isNameChar c && assignsAfter rest)

/-- A name, an equals sign and anything. -/
def assigns : Bytes → Bool
  | [] => false
  | c :: rest => isNameStart c && assignsAfter rest

/-- The bytes of a word before its first quotation. -/
def Word.unquoted : Word → Bytes
  | .bare c :: rest => c :: Word.unquoted rest
  | _ => []

/-- An assignment word: its name and its equals sign are not quoted. -/
def Word.isAssignment (word : Word) : Bool := assigns word.unquoted

def Word.isReserved (reserved : List Bytes) (word : Word) : Bool :=
  word.isBare && reserved.contains word.text

/-- Whether the word goes through pathname or tilde expansion. -/
def Word.expands (word : Word) : Bool :=
  word.any (fun piece => piece == .bare 42 || piece == .bare 63 || piece == .bare 91) ||
    word.head? == some (.bare 126)

/-! ### Cutting a line into words -/

inductive Mode where
  | between
  | word
  | comment
  | single
  | double
  /-- After a backslash, inside a word or not. -/
  | escape (inWord : Bool)
  | doubleEscape
deriving Repr, DecidableEq

structure Lexer where
  words : List Word
  current : Word
  mode : Mode
deriving Repr, DecidableEq

namespace Lexer

def start : Lexer := ⟨[], [], .between⟩

def add (s : Lexer) (piece : Piece) (mode : Mode) : Lexer :=
  { s with current := s.current ++ [piece], mode := mode }

def delimit (s : Lexer) : Lexer := ⟨s.words ++ [s.current], [], .between⟩

/-- The bytes outside quotation marks that end a word or start an expansion. -/
def operators : Bytes := ascii "\n&|;<>()$`"

/-- A byte outside quotation marks. -/
def outside (s : Lexer) (c : UInt8) : Option Lexer :=
  if operators.contains c then none
  else if c == 32 || c == 9 then some (if s.mode == .between then s else s.delimit)
  else if c == 35 && s.mode == .between then some { s with mode := .comment }
  else if c == 39 then some (s.add .marks .single)
  else if c == 34 then some (s.add .marks .double)
  else if c == 92 then some { s with mode := .escape (s.mode != .between) }
  else some (s.add (.bare c) .word)

/-- One byte of the line. A line has no NUL. -/
def step (s : Lexer) (c : UInt8) : Option Lexer :=
  if c == 0 then none
  else
    match s.mode with
    | .between | .word => s.outside c
    | .comment => if c == 10 then none else some s
    | .single => if c == 39 then some { s with mode := .word } else some (s.add (.quoted c) .single)
    | .double =>
        if c == 34 then some { s with mode := .word }
        else if c == 92 then some { s with mode := .doubleEscape }
        else if c == 36 || c == 96 then none
        else some (s.add (.quoted c) .double)
    | .escape inWord =>
        -- An escaped newline continues the line and leaves nothing behind.
        if c == 10 then some { s with mode := if inWord then .word else .between }
        else some (s.add (.quoted c) .word)
    | .doubleEscape =>
        if c == 10 then some { s with mode := .double }
        else if (ascii "$`\"\\").contains c then some (s.add (.quoted c) .double)
        else some ((s.add (.quoted 92) .double).add (.quoted c) .double)

/-- The bytes of a line, one after the other. -/
def run : Lexer → Bytes → Option Lexer
  | s, [] => some s
  | s, c :: rest => (s.step c).bind fun t => run t rest

/-- The words of the line, unless it ends inside a quotation. -/
def finish (s : Lexer) : Option (List Word) :=
  match s.mode with
  | .between | .comment => some s.words
  | .word => some (s.words ++ [s.current])
  | _ => none

theorem run_cons {s t : Lexer} {c : UInt8} (h : s.step c = some t) (rest : Bytes) :
    s.run (c :: rest) = t.run rest := by
  simp [run, h]

theorem run_append {s t : Lexer} {line : Bytes} (h : s.run line = some t) (rest : Bytes) :
    s.run (line ++ rest) = t.run rest := by
  induction line generalizing s with
  | nil =>
      cases h
      rfl
  | cons c line ih =>
      obtain ⟨u, hstep, hrun⟩ := Option.bind_eq_some_iff.mp h
      rw [List.cons_append, run_cons hstep]
      exact ih hrun

/-- The bytes that do not stand for themselves everywhere in a line. -/
def specials : Bytes := 0 :: operators ++ ascii " \t#'\"\\"

def isPlain (c : UInt8) : Bool := !specials.contains c

theorem step_plain {s : Lexer} {c : UInt8} (h : isPlain c = true)
    (hmode : s.mode = .between ∨ s.mode = .word) :
    s.step c = some (s.add (.bare c) .word) := by
  simp only [isPlain, specials, Bool.not_eq_true', List.contains_eq_mem, decide_eq_false_iff_not,
    List.cons_append, List.mem_cons, List.mem_append, not_or] at h
  obtain ⟨hnul, hoperator, hrest⟩ := h
  have hneq : c ≠ 32 ∧ c ≠ 9 ∧ c ≠ 35 ∧ c ≠ 39 ∧ c ≠ 34 ∧ c ≠ 92 := by
    simpa [ascii] using hrest
  obtain ⟨hspace, htab, hhash, hsingle, hdouble, hescape⟩ := hneq
  have houtside : s.outside c = some (s.add (.bare c) .word) := by
    simp [outside, hoperator, hspace, htab, hhash, hsingle, hdouble, hescape]
  obtain hmode | hmode := hmode
  · simp [step, hnul, hmode, houtside]
  · simp [step, hnul, hmode, houtside]

theorem run_bare {text : Bytes} (h : text.all isPlain = true) (words : List Word) (current : Word) :
    run ⟨words, current, .word⟩ text = some ⟨words, current ++ text.map .bare, .word⟩ := by
  induction text generalizing current with
  | nil => simp [run]
  | cons c text ih =>
      simp only [List.all_cons, Bool.and_eq_true] at h
      have hstep : step ⟨words, current, .word⟩ c = _ := step_plain h.1 (Or.inr rfl)
      rw [run_cons hstep, add, ih h.2, List.map_cons, List.append_assoc]
      rfl

/-- Between single quotation marks every other byte stands for itself. -/
theorem step_single {c : UInt8} (hnul : c ≠ 0) (hmark : c ≠ 39) (words : List Word)
    (current : Word) :
    step ⟨words, current, .single⟩ c = some ⟨words, current ++ [.quoted c], .single⟩ := by
  simp [step, add, hnul, hmark]

end Lexer

def lex (line : Bytes) : Option (List Word) := (Lexer.start.run line).bind Lexer.finish

/-! ### A simple command -/

def posixReserved : List Bytes :=
  ["!", "\x7b", "\x7d", "case", "do", "done", "elif", "else", "esac", "fi", "for", "if", "in", "then",
    "until", "while"].map ascii

/-- The arguments of the command a line is, where the words of `reserved` are no commands. -/
def argv (reserved : List Bytes) (line : Bytes) : Option (List Bytes) :=
  (lex line).bind fun words =>
    if (words.head?.map (Word.isReserved reserved)).getD false then none
    else
      let command := words.dropWhile Word.isAssignment
      if command.any Word.expands then none else some (command.map Word.text)

example : argv posixReserved (ascii "LC_ALL=C cc -o 'a b'\\ \"c\" ''") =
    some [ascii "cc", ascii "-o", ascii "a b c", []] := by decide

end HermesNode.Shell
