/-
Module: HermesNode.Build.ThrowingStub
Purpose: The module that stands in for a file that does not compile. Whatever text the path and the
  error are, the wrapped stub is a function whose body is one throw statement, and the message of
  its error is that text: the escaper works byte by byte, and the literal is read back as one string.
Trusted boundary: none
Main exports: quotePoint, strictFrom_quoteForJSString, program_makeThrowingStub
-/
import HermesNode.Build.Disk
import HermesNode.Lib.JsSource
import HermesNode.Lib.Utf8

namespace HermesNode.Build

open HermesNode.JsSource

/-! ### The escaped text as code units -/

theorem strictFrom_ascii {as : Bytes} (h : as.all (· < 0x80) = true) (rest : Bytes) :
    strictFrom none (as ++ rest) = (strictFrom none rest).map (as.map UInt8.toUInt16 ++ ·) := by
  induction as with
  | nil => cases hrest : strictFrom none rest <;> simp [hrest]
  | cons b as ih =>
      simp only [List.all_cons, Bool.and_eq_true, decide_eq_true_eq] at h
      have hlt : b.toNat < 0x80 := UInt8.lt_iff_toNat_lt.mp h.1
      have hchar : utf8Char b.toNat = [b] := by simp [utf8Char, utf8Of, hlt]
      have hunit : utf16Of b.toNat = [b.toUInt16] := by
        rw [utf16Of, if_pos (by omega), UInt16.ofNat_uInt8ToNat]
      have hscalar : IsScalar b.toNat := by
        unfold IsScalar
        omega
      have hfirst := strictFrom_char hscalar (as ++ rest)
      rw [hchar, hunit] at hfirst
      rw [List.cons_append, ← List.singleton_append, hfirst, ih h.2, Option.map_map]
      rfl

/-- A code point of the text as it stands in the literal. -/
def quotePoint (cp : Nat) : JsString :=
  if cp < 0x80 then (quoteByte (UInt8.ofNat cp)).map UInt8.toUInt16 else utf16Of cp

theorem hexDigit_ascii : ∀ d < 16, hexDigit d < 0x80 := by decide

/-- A control character without an escape of its own. -/
theorem quoteByte_control {b : UInt8} (hlt : b < 32) (hlf : b ≠ 10) (hcr : b ≠ 13) (htab : b ≠ 9) :
    quoteByte b = [92, 117, 48, 48, hexDigit (b.toNat / 16), hexDigit (b.toNat % 16)] := by
  have hnat : b.toNat < 32 := UInt8.lt_iff_toNat_lt.mp hlt
  have hquote : b ≠ 34 := by
    rintro rfl
    exact absurd hlt (by decide)
  have hescape : b ≠ 92 := by
    rintro rfl
    exact absurd hlt (by decide)
  have hzero : b.toNat / 16 / 16 = 0 := by omega
  have hsmall : b.toNat / 16 % 16 = b.toNat / 16 := by omega
  simp only [quoteByte, hquote, hescape, hlf, hcr, htab, hlt, ↓reduceIte, hexPadded, hzero, hsmall]
  rfl

/-- The ways a byte stands in the literal. -/
theorem quoteByte_cases (b : UInt8) :
    (b ∈ [(34 : UInt8), 92, 10, 13, 9]) ∨
      (b.toNat < 32 ∧
        quoteByte b = [92, 117, 48, 48, hexDigit (b.toNat / 16), hexDigit (b.toNat % 16)]) ∨
      (b ∉ [(34 : UInt8), 92, 10, 13] ∧ quoteByte b = [b]) := by
  by_cases hspecial : b ∈ [(34 : UInt8), 92, 10, 13, 9]
  · exact Or.inl hspecial
  · simp only [List.mem_cons, List.not_mem_nil, or_false, not_or] at hspecial
    obtain ⟨hquote, hescape, hlf, hcr, htab⟩ := hspecial
    by_cases hlt : b < 32
    · exact Or.inr (Or.inl ⟨UInt8.lt_iff_toNat_lt.mp hlt, quoteByte_control hlt hlf hcr htab⟩)
    · refine Or.inr (Or.inr ⟨by simp [hquote, hescape, hlf, hcr], ?_⟩)
      simp [quoteByte, hquote, hescape, hlf, hcr, htab, hlt]

theorem quoteByte_ascii {b : UInt8} (h : b < 0x80) : (quoteByte b).all (· < 0x80) = true := by
  obtain hspecial | ⟨hlt, hcontrol⟩ | ⟨-, hself⟩ := quoteByte_cases b
  · have hall : [(34 : UInt8), 92, 10, 13, 9].all (fun b => (quoteByte b).all (· < 0x80)) = true := by
      decide
    exact List.all_eq_true.mp hall b hspecial
  · have hhigh := hexDigit_ascii (b.toNat / 16) (by omega)
    have hlow := hexDigit_ascii (b.toNat % 16) (by omega)
    rw [hcontrol]
    simp [hhigh, hlow]
  · simp [hself, h]

/-- Bytes above ASCII pass through the escaper. -/
theorem quoteForJSString_high {s : Bytes} (h : ∀ b ∈ s, 0x80 ≤ b.toNat) : quoteForJSString s = s := by
  induction s with
  | nil => rfl
  | cons b s ih =>
      have hbyte : quoteByte b = [b] := by
        have hb := h b List.mem_cons_self
        obtain hspecial | ⟨hlt, -⟩ | ⟨-, hself⟩ := quoteByte_cases b
        · simp only [List.mem_cons, List.not_mem_nil, or_false] at hspecial
          obtain rfl | rfl | rfl | rfl | rfl := hspecial <;> exact absurd hb (by decide)
        · omega
        · exact hself
      have hrest := ih fun c hc => h c (List.mem_cons_of_mem _ hc)
      rw [quoteForJSString, List.flatMap_cons, hbyte, ← quoteForJSString, hrest]
      rfl

/-- The literal of a code point is read as its units. -/
theorem strictFrom_quotePoint {cp : Nat} (h : IsScalar cp) (rest : Bytes) :
    strictFrom none (quoteForJSString (utf8Char cp) ++ rest) =
      (strictFrom none rest).map (quotePoint cp ++ ·) := by
  unfold quotePoint
  split
  · rename_i hlt
    have hchar : utf8Char cp = [UInt8.ofNat cp] := by simp [utf8Char, utf8Of, hlt]
    have hbyte : UInt8.ofNat cp < 0x80 := by
      rw [UInt8.lt_iff_toNat_lt, UInt8.toNat_ofNat', Nat.mod_eq_of_lt (by omega)]
      exact hlt
    have hquote : quoteForJSString [UInt8.ofNat cp] = quoteByte (UInt8.ofNat cp) := by
      simp [quoteForJSString]
    rw [hchar, hquote, strictFrom_ascii (quoteByte_ascii hbyte)]
  · rename_i hge
    have hhigh : ∀ b ∈ utf8Char cp, 0x80 ≤ b.toNat := by
      intro b hb
      obtain ⟨n, hn, rfl⟩ := List.mem_map.mp hb
      have hbytes := utf8Of_bytes h hn
      rw [UInt8.toNat_ofNat', Nat.mod_eq_of_lt (by omega)]
      omega
    rw [quoteForJSString_high hhigh, strictFrom_char h]

theorem strictFrom_quoteForJSString {cps : List Nat} (h : ∀ cp ∈ cps, IsScalar cp) (rest : Bytes) :
    strictFrom none (quoteForJSString (cps.flatMap utf8Char) ++ rest) =
      (strictFrom none rest).map (cps.flatMap quotePoint ++ ·) := by
  rw [quoteForJSString, List.flatMap_assoc]
  exact strictFrom_flatMap (fun _ hcp => strictFrom_quotePoint hcp) h rest

/-! ### The literal as one string -/

theorem hexValue_hexDigit : ∀ d < 16, hexValue (hexDigit d).toUInt16 = some d := by decide

/-- What stands for an ASCII byte in the literal adds the byte to its value. -/
theorem run_quoteByte (b : UInt8) (elements : List Element) (value : JsString) :
    Lexer.run ⟨elements, .string 34 value⟩ ((quoteByte b).map UInt8.toUInt16) =
      some ⟨elements, .string 34 (value ++ [b.toUInt16])⟩ := by
  obtain hspecial | ⟨hlt, hcontrol⟩ | ⟨hplain, hself⟩ := quoteByte_cases b
  · simp only [List.mem_cons, List.not_mem_nil, or_false] at hspecial
    obtain rfl | rfl | rfl | rfl | rfl := hspecial <;> rfl
  · have hopen : ∀ rest, Lexer.run ⟨elements, .string 34 value⟩ (92 :: 117 :: 48 :: 48 :: rest) =
        Lexer.run ⟨elements, .hex 34 value 1 0⟩ rest := fun rest => rfl
    have hhigh := hexValue_hexDigit (b.toNat / 16) (by omega)
    have hlow := hexValue_hexDigit (b.toNat % 16) (by omega)
    have hcode : (0 * 16 + b.toNat / 16) * 16 + b.toNat % 16 = b.toNat := by omega
    have hunits : ([92, 117, 48, 48, hexDigit (b.toNat / 16), hexDigit (b.toNat % 16)] : Bytes).map
        UInt8.toUInt16 = 92 :: 117 :: 48 :: 48 :: (hexDigit (b.toNat / 16)).toUInt16 ::
          [(hexDigit (b.toNat % 16)).toUInt16] := rfl
    rw [hcontrol, hunits, hopen]
    simp only [Lexer.run, Lexer.step, hhigh, hlow, Option.map_some, Option.bind_some, hcode,
      UInt16.ofNat_uInt8ToNat]
  · have hne : ∀ c ∈ [(34 : UInt8), 92, 10, 13], b.toUInt16 ≠ c.toUInt16 := by
      intro c hc heq
      rw [UInt8.toUInt16_inj.mp heq] at hplain
      exact hplain hc
    have hstep : Lexer.step ⟨elements, .string 34 value⟩ b.toUInt16 = _ :=
      Lexer.step_string (hne 34 (by simp)) (hne 92 (by simp)) (hne 10 (by simp)) (hne 13 (by simp))
        elements value
    rw [hself, List.map_singleton, Lexer.run_cons hstep]
    rfl

/-- Units that are not ASCII stand for themselves. -/
theorem run_high {text : JsString} (h : ∀ c ∈ text, 0x80 ≤ c.toNat) (elements : List Element)
    (value : JsString) :
    Lexer.run ⟨elements, .string 34 value⟩ text = some ⟨elements, .string 34 (value ++ text)⟩ := by
  induction text generalizing value with
  | nil => simp [Lexer.run]
  | cons c text ih =>
      have hne : ∀ d : UInt16, d.toNat < 0x80 → c ≠ d := by
        rintro d hd rfl
        have hc := h c List.mem_cons_self
        omega
      have hstep := Lexer.step_string (hne 34 (by decide)) (hne 92 (by decide)) (hne 10 (by decide))
        (hne 13 (by decide)) elements value
      rw [Lexer.run_cons hstep, ih fun d hd => h d (List.mem_cons_of_mem _ hd), List.append_assoc]
      rfl

/-- What stands for a code point in the literal adds the code point to its value. -/
theorem run_quotePoint {cp : Nat} (h : IsScalar cp) (elements : List Element) (value : JsString) :
    Lexer.run ⟨elements, .string 34 value⟩ (quotePoint cp) =
      some ⟨elements, .string 34 (value ++ utf16Of cp)⟩ := by
  unfold quotePoint
  split
  · rename_i hlt
    have hunit : utf16Of cp = [(UInt8.ofNat cp).toUInt16] := by
      rw [utf16Of, if_pos (by omega), ← UInt16.ofNat_uInt8ToNat, UInt8.toNat_ofNat',
        Nat.mod_eq_of_lt (by omega)]
    rw [hunit]
    exact run_quoteByte _ elements value
  · rename_i hge
    apply run_high
    intro c hc
    unfold IsScalar at h
    unfold utf16Of at hc
    split at hc
    · rw [List.mem_singleton.mp hc, UInt16.toNat_ofNat', Nat.mod_eq_of_lt (by omega)]
      omega
    · simp only [List.mem_cons, List.not_mem_nil, or_false] at hc
      obtain rfl | rfl := hc <;> rw [UInt16.toNat_ofNat', Nat.mod_eq_of_lt (by omega)] <;> omega

theorem run_quotePoints {cps : List Nat} (h : ∀ cp ∈ cps, IsScalar cp) (elements : List Element)
    (value : JsString) :
    Lexer.run ⟨elements, .string 34 value⟩ (cps.flatMap quotePoint) =
      some ⟨elements, .string 34 (value ++ cps.flatMap utf16Of)⟩ := by
  induction cps generalizing value with
  | nil => simp [Lexer.run]
  | cons cp cps ih =>
      rw [List.flatMap_cons, Lexer.run_append (run_quotePoint (h cp List.mem_cons_self) _ _),
        ih fun c hc => h c (List.mem_cons_of_mem _ hc), List.flatMap_cons, List.append_assoc]

/-! ### The stub -/

/-- The error text as the message of a `SyntaxError`: the class is not named twice. -/
def StubMessage (error message : Bytes) : Prop :=
  error = ascii "SyntaxError: " ++ message ∨
    (¬ ascii "SyntaxError: " <+: error ∧ message = error)

theorem makeThrowingStub_eq {path error message : Bytes} (h : StubMessage error message) :
    makeThrowingStub path error = ascii "throw new SyntaxError(\"" ++
      (quoteForJSString (path ++ ascii ": " ++ message) ++ ascii "\");\n") := by
  have hlength : (ascii "SyntaxError: ").length = 13 := rfl
  have htext : (if error.take 13 == ascii "SyntaxError: " then error.drop 13 else error) =
      message := by
    obtain rfl | ⟨hfront, rfl⟩ := h
    · rw [List.take_left' hlength, List.drop_left' hlength, beq_self_eq_true, if_pos rfl]
    · have hne : (message.take 13 == ascii "SyntaxError: ") = false := by
        rw [beq_eq_false_iff_ne]
        intro htake
        exact hfront (htake ▸ List.take_prefix 13 message)
      rw [hne]
      rfl
  simp only [makeThrowingStub, htext, List.append_assoc]

theorem isUtf8_message {error message : Bytes} (herror : isUtf8 error = true)
    (h : StubMessage error message) : isUtf8 message = true := by
  obtain rfl | ⟨-, rfl⟩ := h
  · simpa [ascii, isUtf8_ascii] using herror
  · exact herror

/-- The wrapper's opening and the stub's, up to its literal. -/
def stubElements : List Element :=
  [.punctuator 40, .name (word "function"), .punctuator 40, .name (word "exports"), .punctuator 44,
    .name (word "require"), .punctuator 44, .name (word "module"), .punctuator 44,
    .name (word "__filename"), .punctuator 44, .name (word "__dirname"), .punctuator 41,
    .punctuator 123, .name (word "throw"), .name (word "new"), .name (word "SyntaxError"),
    .punctuator 40]

theorem run_opening : Lexer.run ⟨[], .between⟩
    ((kCJSWrapperPrefix ++ ascii "throw new SyntaxError(\"").map UInt8.toUInt16) =
      some ⟨stubElements, .string 34 []⟩ := by
  decide

theorem run_closing (elements : List Element) (value : JsString) :
    Lexer.run ⟨elements, .string 34 value⟩
      ((ascii "\");\n" ++ kCJSWrapperSuffix).map UInt8.toUInt16) =
      some ⟨elements ++ [.string value] ++ [.punctuator 41] ++ [.punctuator 59] ++ [.lineEnd] ++
        [.lineEnd] ++ [.punctuator 125] ++ [.punctuator 41], .between⟩ :=
  rfl

/-- **The wrapped stub is a function of one statement, which throws a `SyntaxError` with the path
and the error text as its message.** -/
theorem program_makeThrowingStub {path error message : Bytes} (hpath : isUtf8 path = true)
    (herror : isUtf8 error = true) (hmessage : StubMessage error message) :
    (strictFrom none (wrapCJS (makeThrowingStub path error))).bind program =
      some ⟨[word "exports", word "require", word "module", word "__filename", word "__dirname"],
        [.throwing (.construct (word "SyntaxError")
          (.string (decodeUtf8 (path ++ ascii ": " ++ message))))]⟩ := by
  obtain ⟨cps, hcps, htext⟩ : ∃ cps : List Nat, (∀ cp ∈ cps, IsScalar cp) ∧
      path ++ ascii ": " ++ message = cps.flatMap utf8Char := by
    obtain ⟨before, hbefore, rfl⟩ := isUtf8_points hpath
    obtain ⟨behind, hbehind, rfl⟩ := isUtf8_points (isUtf8_message herror hmessage)
    refine ⟨before ++ [58, 32] ++ behind, ?_, by simp [utf8Char, utf8Of, ascii]⟩
    intro cp hcp
    simp only [List.mem_append, List.mem_cons, List.not_mem_nil, or_false] at hcp
    obtain (hcp | rfl | rfl) | hcp := hcp
    · exact hbefore cp hcp
    · exact Or.inl (by decide)
    · exact Or.inl (by decide)
    · exact hbehind cp hcp
  have hunits : strictFrom none (wrapCJS (makeThrowingStub path error)) =
      some ((kCJSWrapperPrefix ++ ascii "throw new SyntaxError(\"").map UInt8.toUInt16 ++
        (cps.flatMap quotePoint ++ (ascii "\");\n" ++ kCJSWrapperSuffix).map UInt8.toUInt16)) := by
    have hascii : (ascii "\");\n" ++ kCJSWrapperSuffix).all (· < 0x80) = true := by decide
    have hclosing := strictFrom_ascii hascii []
    rw [wrapCJS, makeThrowingStub_eq hmessage, htext]
    have hassoc : kCJSWrapperPrefix ++ (ascii "throw new SyntaxError(\"" ++
        (quoteForJSString (cps.flatMap utf8Char) ++ ascii "\");\n")) ++ kCJSWrapperSuffix =
        (kCJSWrapperPrefix ++ ascii "throw new SyntaxError(\"") ++
          (quoteForJSString (cps.flatMap utf8Char) ++
            ((ascii "\");\n" ++ kCJSWrapperSuffix) ++ [])) := by
      simp only [List.append_assoc, List.append_nil]
    rw [hassoc, strictFrom_ascii (by decide), strictFrom_quoteForJSString hcps, hclosing]
    simp [strictFrom]
  have hlex : lex ((kCJSWrapperPrefix ++ ascii "throw new SyntaxError(\"").map UInt8.toUInt16 ++
      (cps.flatMap quotePoint ++ (ascii "\");\n" ++ kCJSWrapperSuffix).map UInt8.toUInt16)) =
      some (stubElements ++ [.string (cps.flatMap utf16Of)] ++ [.punctuator 41] ++ [.punctuator 59] ++
        [.lineEnd] ++ [.lineEnd] ++ [.punctuator 125] ++ [.punctuator 41]) := by
    rw [lex, Lexer.run_append run_opening, Lexer.run_append (run_quotePoints hcps _ _), run_closing]
    rfl
  rw [hunits, Option.bind_some, program, hlex, htext, decodeUtf8_chars hcps]
  rfl

theorem program_makeThrowingStub_separator :
    (strictFrom none (wrapCJS (makeThrowingStub (ascii "\"a.js")
      (ascii "SyntaxError: \\" ++ [0xE2, 0x80, 0xA8])))).bind program =
      some ⟨[word "exports", word "require", word "module", word "__filename", word "__dirname"],
        [.throwing (.construct (word "SyntaxError")
          (.string (decodeUtf8 (ascii "\"a.js" ++ ascii ": " ++
            (ascii "\\" ++ [0xE2, 0x80, 0xA8])))))]⟩ :=
  program_makeThrowingStub (by decide) (by decide) (Or.inl rfl)

end HermesNode.Build
