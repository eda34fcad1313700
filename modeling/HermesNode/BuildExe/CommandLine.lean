/-
Module: HermesNode.BuildExe.CommandLine
Purpose: The command line `build-exe` prints for a command it ran, so that it can be pasted into a
  shell. Each argument comes back as it was, quoted or not. The one thing that goes wrong is the
  first word: printed bare, it may be an assignment or a reserved word to the shell.
Trusted boundary: human-reviewed spec (transcribed from `lib/build-exe/build_exe.cpp`)
Main exports: needsShellQuoting, formatCommandLine, argv_formatCommandLine_iff
-/
import HermesNode.Lib.Shell

namespace HermesNode.BuildExe

open HermesNode.Shell

/-! ### The printer -/

/-- The characters a shell leaves alone. -/
def safe (c : UInt8) : Bool :=
  (65 ≤ c && c ≤ 90) || (97 ≤ c && c ≤ 122) || (48 ≤ c && c ≤ 57) || (ascii "_@%+=:,./-").contains c

def needsShellQuoting (arg : Bytes) : Bool :=
  if arg.isEmpty then true else arg.any fun c => !safe c

/-- The loop over the characters between the quotation marks. -/
def quotedChars : Bytes → Bytes
  | [] => []
  | c :: rest => if c == 39 then [39, 92, 39, 39] ++ quotedChars rest else c :: quotedChars rest

/-- What is appended for one argument. -/
def spelling (arg : Bytes) : Bytes :=
  if needsShellQuoting arg then 39 :: quotedChars arg ++ [39] else arg

def formatCommandLine (argv : List Bytes) : Bytes :=
  argv.foldl (fun joined arg => (if joined.isEmpty then [] else joined ++ [32]) ++ spelling arg) []

example : formatCommandLine [ascii "cc", ascii "it's", []] = ascii "cc 'it'\\''s' ''" := by decide

theorem spelling_ne_nil (arg : Bytes) : spelling arg ≠ [] := by
  unfold spelling
  split
  · simp
  · rename_i hbare
    rintro rfl
    exact hbare rfl

/-- The first argument, then each other one after a space. -/
theorem formatCommandLine_cons (head : Bytes) (rest : List Bytes) :
    formatCommandLine (head :: rest) = spelling head ++ rest.flatMap fun arg => 32 :: spelling arg := by
  have happend : ∀ joined : Bytes, joined ≠ [] →
      rest.foldl (fun joined arg => (if joined.isEmpty then [] else joined ++ [32]) ++ spelling arg)
        joined = joined ++ rest.flatMap fun arg => 32 :: spelling arg := by
    induction rest with
    | nil => simp
    | cons arg rest ih =>
        intro joined hjoined
        have hnext : (joined ++ [32]) ++ spelling arg ≠ [] := by simp
        rw [List.foldl_cons, List.isEmpty_eq_false_iff.mpr hjoined]
        simp only [Bool.false_eq_true, ↓reduceIte]
        rw [ih _ hnext]
        simp
  simp only [formatCommandLine, List.foldl_cons, List.isEmpty_nil, ↓reduceIte, List.nil_append]
  exact happend _ (spelling_ne_nil head)

/-! ### What the shell makes of one argument -/

/-- The pieces of an argument printed between quotation marks. A quotation mark of its own stands
outside of two pairs. -/
def quotedPieces : Bytes → Word
  | [] => []
  | c :: rest =>
      if c == 39 then .quoted 39 :: .marks :: quotedPieces rest else .quoted c :: quotedPieces rest

def pieces (arg : Bytes) : Word :=
  if needsShellQuoting arg then .marks :: quotedPieces arg else arg.map .bare

theorem text_quotedPieces (arg : Bytes) : Word.text (quotedPieces arg) = arg := by
  induction arg with
  | nil => rfl
  | cons c rest ih =>
      unfold quotedPieces
      split
      · rename_i hmark
        simp only [beq_iff_eq] at hmark
        simpa [Word.text, hmark] using ih
      · simpa [Word.text] using ih

theorem text_bare (arg : Bytes) : Word.text (arg.map .bare) = arg := by
  simp [Word.text, List.filterMap_map]

/-- Quote removal gives the argument back. -/
@[simp] theorem text_pieces (arg : Bytes) : Word.text (pieces arg) = arg := by
  unfold pieces
  split
  · simpa [Word.text] using text_quotedPieces arg
  · exact text_bare arg

theorem isPlain_of_safe {c : UInt8} (h : safe c = true) : Lexer.isPlain c = true := by
  have hspecial : Lexer.specials.all (fun c => !safe c) = true := rfl
  by_contra hplain
  have hmem : c ∈ Lexer.specials := by simpa [Lexer.isPlain] using hplain
  have hunsafe := List.all_eq_true.mp hspecial c hmem
  simp [h] at hunsafe

theorem bare_of_not_needsShellQuoting {arg : Bytes} (h : needsShellQuoting arg = false) :
    ∃ c rest, arg = c :: rest ∧ Lexer.isPlain c = true ∧ rest.all Lexer.isPlain = true := by
  cases arg with
  | nil => cases h
  | cons c rest =>
      simp only [needsShellQuoting, List.isEmpty_cons, Bool.false_eq_true, ↓reduceIte,
        List.any_eq_false, Bool.not_eq_true', Bool.not_eq_false] at h
      refine ⟨c, rest, rfl, isPlain_of_safe (h c List.mem_cons_self), ?_⟩
      exact List.all_eq_true.mpr fun d hd => isPlain_of_safe (h d (List.mem_cons_of_mem _ hd))

/-- Between the quotation marks the shell is back inside them after each character. -/
theorem run_quotedChars {arg : Bytes} (h : (0 : UInt8) ∉ arg) (words : List Word) (current : Word) :
    Lexer.run ⟨words, current, .single⟩ (quotedChars arg) =
      some ⟨words, current ++ quotedPieces arg, .single⟩ := by
  induction arg generalizing current with
  | nil => simp [quotedChars, quotedPieces, Lexer.run]
  | cons c rest ih =>
      simp only [List.mem_cons, not_or] at h
      obtain ⟨hnul, hrest⟩ := h
      unfold quotedChars quotedPieces
      by_cases hmark : c = 39
      · subst hmark
        -- Close, escape, reopen: one quoted character and a new pair.
        have hreopen : Lexer.run ⟨words, current, .single⟩ [39, 92, 39, 39] =
            some ⟨words, current ++ [.quoted 39] ++ [.marks], .single⟩ := rfl
        simp only [beq_self_eq_true, ↓reduceIte]
        rw [Lexer.run_append hreopen, ih hrest]
        simp [List.append_assoc]
      · have hbeq : (c == 39) = false := by simpa using hmark
        simp only [hbeq, Bool.false_eq_true, ↓reduceIte]
        rw [Lexer.run_cons (Lexer.step_single (Ne.symm hnul) hmark words current), ih hrest]
        simp [List.append_assoc]

/-- One printed argument becomes one word. -/
theorem run_spelling {arg : Bytes} (h : (0 : UInt8) ∉ arg) (words : List Word) :
    Lexer.run ⟨words, [], .between⟩ (spelling arg) = some ⟨words, pieces arg, .word⟩ := by
  unfold spelling pieces
  cases hquote : needsShellQuoting arg with
  | true =>
      have hopen : Lexer.step ⟨words, [], .between⟩ 39 = some ⟨words, [.marks], .single⟩ := rfl
      have hclose : Lexer.run ⟨words, [.marks] ++ quotedPieces arg, .single⟩ [39] =
          some ⟨words, [.marks] ++ quotedPieces arg, .word⟩ := rfl
      simp only [↓reduceIte, List.cons_append]
      rw [Lexer.run_cons hopen, Lexer.run_append (run_quotedChars h words [.marks]), hclose]
      rfl
  | false =>
      obtain ⟨c, rest, rfl, hc, hrest⟩ := bare_of_not_needsShellQuoting hquote
      have hstep : Lexer.step ⟨words, [], .between⟩ c = some ⟨words, [.bare c], .word⟩ :=
        Lexer.step_plain hc (Or.inl rfl)
      simp only [Bool.false_eq_true, ↓reduceIte]
      rw [Lexer.run_cons hstep, Lexer.run_bare hrest]
      rfl

/-! ### What the shell makes of the line -/

/-- Every argument is one word of the printed line, in order. -/
theorem lex_formatCommandLine {head : Bytes} {rest : List Bytes}
    (h : ∀ arg ∈ head :: rest, (0 : UInt8) ∉ arg) :
    lex (formatCommandLine (head :: rest)) = some ((head :: rest).map pieces) := by
  have hrest : ∀ (words : List Word) (current : Word), (∀ arg ∈ rest, (0 : UInt8) ∉ arg) →
      (Lexer.run ⟨words, current, .word⟩ (rest.flatMap fun arg => 32 :: spelling arg)).bind
        Lexer.finish = some (words ++ current :: rest.map pieces) := by
    clear h
    induction rest with
    | nil =>
        intro words current _
        rfl
    | cons arg rest ih =>
        intro words current hnul
        have hspace : Lexer.step ⟨words, current, .word⟩ 32 =
            some ⟨words ++ [current], [], .between⟩ := rfl
        rw [List.flatMap_cons, List.cons_append, Lexer.run_cons hspace,
          Lexer.run_append (run_spelling (hnul arg List.mem_cons_self) _),
          ih _ _ fun other hother => hnul other (List.mem_cons_of_mem _ hother)]
        simp [List.append_assoc]
  rw [lex, formatCommandLine_cons, Lexer.start,
    Lexer.run_append (run_spelling (h head List.mem_cons_self) _),
    hrest _ _ fun arg harg => h arg (List.mem_cons_of_mem _ harg)]
  rfl

theorem isAssignment_pieces (arg : Bytes) :
    (pieces arg).isAssignment = (!needsShellQuoting arg && assigns arg) := by
  have hbare : ∀ text : Bytes, Word.unquoted (text.map .bare) = text := by
    intro text
    induction text with
    | nil => rfl
    | cons c text ih => simp [Word.unquoted, ih]
  unfold pieces Word.isAssignment
  cases needsShellQuoting arg with
  | true => rfl
  | false => simp [hbare]

theorem isReserved_pieces (reserved : List Bytes) (arg : Bytes) :
    (pieces arg).isReserved reserved = (!needsShellQuoting arg && reserved.contains arg) := by
  unfold Word.isReserved
  rw [text_pieces]
  have hbare : (pieces arg).isBare = !needsShellQuoting arg := by
    unfold pieces Word.isBare
    cases needsShellQuoting arg with
    | true => rfl
    | false => simp [List.all_map]
  rw [hbare]

/-- Only the bytes a shell leaves alone are printed bare. -/
theorem safe_of_bare_mem {arg : Bytes} {c : UInt8} (h : .bare c ∈ pieces arg) : safe c = true := by
  unfold pieces at h
  cases hquote : needsShellQuoting arg with
  | true =>
      have hquoted : ∀ text : Bytes, .bare c ∉ quotedPieces text := by
        intro text
        induction text with
        | nil => simp [quotedPieces]
        | cons d text ih =>
            unfold quotedPieces
            split <;> simp [ih]
      rw [hquote, if_pos rfl] at h
      exact absurd h (by simp [hquoted])
  | false =>
      rw [hquote] at h
      have hmem : c ∈ arg := by simpa using h
      cases arg with
      | nil => cases hmem
      | cons d rest =>
          simp only [needsShellQuoting, List.isEmpty_cons, Bool.false_eq_true, ↓reduceIte,
            List.any_eq_false, Bool.not_eq_true', Bool.not_eq_false] at hquote
          exact hquote c hmem

/-- A printed argument is never a pattern and never starts with a tilde. -/
theorem expands_pieces (arg : Bytes) : (pieces arg).expands = false := by
  have habsent : ∀ c : UInt8, safe c = false → .bare c ∉ pieces arg := by
    intro c hunsafe hmem
    rw [safe_of_bare_mem hmem] at hunsafe
    cases hunsafe
  have hpattern : ∀ piece ∈ pieces arg,
      ¬ (piece == .bare 42 || piece == .bare 63 || piece == .bare 91) = true := by
    intro piece hpiece hspecial
    simp only [Bool.or_eq_true, beq_iff_eq] at hspecial
    obtain (rfl | rfl) | rfl := hspecial
    · exact habsent 42 rfl hpiece
    · exact habsent 63 rfl hpiece
    · exact habsent 91 rfl hpiece
  have htilde : (pieces arg).head? ≠ some (.bare 126) := fun hhead =>
    habsent 126 rfl (List.mem_of_head? hhead)
  simp only [Word.expands, Bool.or_eq_false_iff]
  exact ⟨List.any_eq_false.mpr hpattern, beq_eq_false_iff_ne.mpr htilde⟩

/-- The shell's arguments, as they follow from its words. -/
theorem argv_formatCommandLine (reserved : List Bytes) {head : Bytes} {rest : List Bytes}
    (h : ∀ arg ∈ head :: rest, (0 : UInt8) ∉ arg) :
    Shell.argv reserved (formatCommandLine (head :: rest)) =
      if (pieces head).isReserved reserved then none
      else some ((((head :: rest).map pieces).dropWhile Word.isAssignment).map Word.text) := by
  have hexpands : (((head :: rest).map pieces).dropWhile Word.isAssignment).any Word.expands =
      false := by
    rw [List.any_eq_false]
    intro word hword
    obtain ⟨arg, -, rfl⟩ := List.mem_map.mp ((List.dropWhile_sublist _).mem hword)
    simp [expands_pieces]
  rw [Shell.argv, lex_formatCommandLine h, Option.bind_some]
  simp only [hexpands, Bool.false_eq_true, ↓reduceIte]
  rfl

/-- **The pasted line gives the arguments back exactly when its first word is quoted, or is neither
an assignment nor a reserved word.** -/
theorem argv_formatCommandLine_iff (reserved : List Bytes) {head : Bytes} {rest : List Bytes}
    (h : ∀ arg ∈ head :: rest, (0 : UInt8) ∉ arg) :
    Shell.argv reserved (formatCommandLine (head :: rest)) = some (head :: rest) ↔
      needsShellQuoting head = true ∨ (assigns head = false ∧ head ∉ reserved) := by
  have hcomplete : ((head :: rest).map pieces).map Word.text = head :: rest := by
    simp [Function.comp_def]
  rw [argv_formatCommandLine reserved h, isReserved_pieces]
  cases hquote : needsShellQuoting head with
  | true =>
      have hword : (pieces head).isAssignment = false := by simp [isAssignment_pieces, hquote]
      rw [List.map_cons, List.dropWhile_cons_of_neg (by simp [hword]), ← List.map_cons, hcomplete]
      simp
  | false =>
      by_cases hreserved : head ∈ reserved
      · simp [hreserved]
      · cases hassigns : assigns head with
        | false =>
            have hword : (pieces head).isAssignment = false := by
              simp [isAssignment_pieces, hassigns]
            rw [List.map_cons, List.dropWhile_cons_of_neg (by simp [hword]), ← List.map_cons,
              hcomplete]
            simp [hreserved]
        | true =>
            -- The first word is set aside, so an argument is missing.
            have hword : (pieces head).isAssignment = true := by
              simp [isAssignment_pieces, hquote, hassigns]
            have hshort : ((((head :: rest).map pieces).dropWhile Word.isAssignment).map
                Word.text).length ≤ rest.length := by
              rw [List.map_cons, List.dropWhile_cons_of_pos hword, List.length_map]
              simpa using (List.dropWhile_sublist (l := rest.map pieces) Word.isAssignment).length_le
            simp only [Bool.not_false, Bool.true_and, List.contains_eq_mem, hreserved,
              decide_false, Bool.false_eq_true, ↓reduceIte, Option.some.injEq, false_or,
              Bool.true_eq_false, false_and, iff_false]
            intro hsame
            rw [hsame, List.length_cons] at hshort
            omega

theorem argv_formatCommandLine_quoted :
    Shell.argv posixReserved (formatCommandLine [ascii "c c", ascii "A=b", ascii "$x", []]) =
      some [ascii "c c", ascii "A=b", ascii "$x", []] := by
  have hpasted : ∀ arg ∈ [ascii "c c", ascii "A=b", ascii "$x", []], (0 : UInt8) ∉ arg := by
    simp [ascii]
  exact (argv_formatCommandLine_iff posixReserved hpasted).mpr (Or.inl rfl)

/-- A driver in the directory `v=1` is an assignment when its line is pasted. -/
theorem formatCommandLine_assignment :
    ¬ ∀ (head : Bytes) (rest : List Bytes), (∀ arg ∈ head :: rest, (0 : UInt8) ∉ arg) →
      Shell.argv posixReserved (formatCommandLine (head :: rest)) = some (head :: rest) := by
  intro h
  have hline := h (ascii "v=1/cc") [ascii "-o", ascii "app"] (by simp [ascii])
  have hargv : Shell.argv posixReserved (formatCommandLine [ascii "v=1/cc", ascii "-o",
      ascii "app"]) = some [ascii "-o", ascii "app"] := by decide
  rw [hargv] at hline
  cases hline

end HermesNode.BuildExe
