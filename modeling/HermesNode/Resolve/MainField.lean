/-
Module: HermesNode.Resolve.MainField
Purpose: What the reader of the `"main"` field reads off a valid JSON text. Counting one kind of
  bracket is enough to find the end of a value: scanning a whole part of a JSON text, strings included,
  leaves the count where it was, whatever brackets of either kind the part is made of. So the members
  of the object are skipped one by one until the key is `main`.
Trusted boundary: none
Main exports: scan, Neutral, packageMain_exact
-/
import HermesNode.Lib.Json
import HermesNode.Resolve.ScanAt

namespace HermesNode.Resolve

open Json (Tree Derives StringBody IsWs literal simpleValue)

/-! ### String literals -/

theorem readJsonStringLoop_quote (rest value : Bytes) :
    readJsonStringLoop (quote :: rest) value = some (value, rest) := by
  cases rest <;> simp [readJsonStringLoop]

variable {c : UInt8}

theorem readJsonStringLoop_keep (hquote : c ≠ quote) (hescape : c ≠ backslash)
    (rest value : Bytes) :
    readJsonStringLoop (c :: rest) value = readJsonStringLoop rest (value ++ [c]) := by
  cases rest <;> simp [readJsonStringLoop, hquote, hescape]

theorem readJsonStringLoop_escape (c : UInt8) (rest value : Bytes) :
    readJsonStringLoop (backslash :: c :: rest) value = readJsonStringLoop rest (value ++ [c]) := by
  have hquote : (backslash == quote) = false := by decide
  simp [readJsonStringLoop, hquote]

theorem ne_of_isPlain (h : Json.isPlain c = true) : c ≠ quote ∧ c ≠ backslash := by
  simp only [Json.isPlain, Bool.and_eq_true, bne_iff_ne] at h
  exact h.1

theorem ne_of_isHex (h : Json.isHex c = true) : c ≠ quote ∧ c ≠ backslash := by
  constructor
  · rintro rfl
    revert h
    decide
  · rintro rfl
    revert h
    decide

theorem readJsonStringLoop_body {body : Bytes} (h : StringBody body) (rest value : Bytes) :
    ∃ v, readJsonStringLoop (body ++ quote :: rest) value = some (v, rest) := by
  induction h generalizing value with
  | nil => exact ⟨value, readJsonStringLoop_quote rest value⟩
  | plain hc _ ih =>
      obtain ⟨hquote, hescape⟩ := ne_of_isPlain hc
      rw [List.cons_append, readJsonStringLoop_keep hquote hescape]
      exact ih _
  | escape hc _ ih =>
      rw [List.cons_append, List.cons_append]
      rw [show Json.backslashByte = backslash from rfl, readJsonStringLoop_escape]
      exact ih _
  | unicode hhex _ ih =>
      obtain ⟨ha, hb, hc, hd⟩ := hhex
      simp only [List.cons_append]
      rw [show Json.backslashByte = backslash from rfl, readJsonStringLoop_escape,
        readJsonStringLoop_keep (ne_of_isHex ha).1 (ne_of_isHex ha).2,
        readJsonStringLoop_keep (ne_of_isHex hb).1 (ne_of_isHex hb).2,
        readJsonStringLoop_keep (ne_of_isHex hc).1 (ne_of_isHex hc).2,
        readJsonStringLoop_keep (ne_of_isHex hd).1 (ne_of_isHex hd).2]
      exact ih _

theorem readJsonString_literal {body : Bytes} (h : StringBody body) (rest : Bytes) :
    ∃ v, readJsonString (literal body ++ rest) = some (v, rest) := by
  have hread := readJsonStringLoop_body h rest []
  simpa [readJsonString, literal, show Json.quoteByte = quote from rfl] using hread

/-- With simple escapes only, what is read is what the literal stands for. -/
theorem readJsonStringLoop_simple {body v : Bytes} (h : simpleValue body = some v)
    (rest value : Bytes) :
    readJsonStringLoop (body ++ quote :: rest) value = some (value ++ v, rest) := by
  induction body using Json.simpleValue.induct generalizing v value with
  | case1 =>
      simp only [simpleValue, Option.some.injEq] at h
      subst h
      simpa using readJsonStringLoop_quote rest value
  | case2 c hplain =>
      simp only [simpleValue, hplain, if_true, Option.some.injEq] at h
      subst h
      obtain ⟨hquote, hescape⟩ := ne_of_isPlain hplain
      rw [List.cons_append, readJsonStringLoop_keep hquote hescape, List.nil_append,
        readJsonStringLoop_quote]
  | case3 c hplain => simp [simpleValue, hplain] at h
  | case4 c d body hescape hsimple ih =>
      simp only [simpleValue, hescape, hsimple, if_true] at h
      obtain ⟨inner, hinner, rfl⟩ := Option.map_eq_some_iff.mp h
      obtain rfl : c = Json.backslashByte := by simpa using hescape
      rw [List.cons_append, List.cons_append, show Json.backslashByte = backslash from rfl,
        readJsonStringLoop_escape, ih hinner]
      simp
  | case5 c d body hescape hsimple => simp [simpleValue, hescape, hsimple] at h
  | case6 c d body hescape hplain ih =>
      simp only [simpleValue, hescape, hplain, if_true] at h
      obtain ⟨inner, hinner, rfl⟩ := Option.map_eq_some_iff.mp h
      obtain ⟨hquote, hback⟩ := ne_of_isPlain hplain
      rw [List.cons_append, readJsonStringLoop_keep hquote hback, ih hinner]
      simp
  | case7 c d body hescape hplain => simp [simpleValue, hescape, hplain] at h

theorem readJsonString_simple {body v : Bytes} (h : simpleValue body = some v) (rest : Bytes) :
    readJsonString (literal body ++ rest) = some (v, rest) := by
  have hread := readJsonStringLoop_simple h rest []
  simpa [readJsonString, literal, show Json.quoteByte = quote from rfl] using hread

/-! ### Counting one kind of bracket -/

/-- The two kinds of brackets. -/
inductive Brackets : UInt8 → UInt8 → Prop where
  | braces : Brackets 123 125
  | squares : Brackets 91 93

variable {text : Bytes}

/-- The fuel of the bracket loop does not show once it covers the text. -/
theorem skipBracketed_enough {o c : UInt8} {fuel fuel' : Nat} {depth : Int}
    (h : text.length ≤ fuel) (h' : text.length ≤ fuel') :
    skipBracketed o c fuel text depth = skipBracketed o c fuel' text depth := by
  induction fuel generalizing fuel' text depth with
  | zero =>
      obtain rfl : text = [] := List.eq_nil_of_length_eq_zero (Nat.le_zero.mp h)
      cases fuel' <;> rfl
  | succ fuel ih =>
      cases text with
      | nil => cases fuel' <;> rfl
      | cons d text =>
          cases fuel' with
          | zero => exact absurd h' (by simp)
          | succ fuel' =>
              have hshort : text.length ≤ fuel := by simpa using h
              have hshort' : text.length ≤ fuel' := by simpa using h'
              simp only [skipBracketed]
              split
              · cases hstring : readJsonString (d :: text) with
                | none => rfl
                | some r =>
                    have hlength := (readJsonString_suffix hstring).2
                    exact ih (Nat.le_trans (Nat.le_of_lt hlength) hshort)
                      (Nat.le_trans (Nat.le_of_lt hlength) hshort')
              · split
                · exact ih hshort hshort'
                · split
                  · split
                    · rfl
                    · exact ih hshort hshort'
                  · exact ih hshort hshort'

/-- The bracket loop on a text, with the fuel it needs. -/
def scan (o c : UInt8) (text : Bytes) (depth : Int) : Option Bytes :=
  skipBracketed o c text.length text depth

section

variable {o c : UInt8}

theorem scan_string {body : Bytes} (h : StringBody body) (rest : Bytes) (depth : Int) :
    scan o c (literal body ++ rest) depth = scan o c rest depth := by
  obtain ⟨v, hread⟩ := readJsonString_literal h rest
  have hlength := (readJsonString_suffix hread).2
  rw [scan, literal, show Json.quoteByte = quote from rfl] at *
  simp only [List.cons_append, List.length_cons, skipBracketed, beq_self_eq_true, if_true]
  simp only [List.cons_append] at hread hlength
  rw [hread]
  exact skipBracketed_enough (Nat.le_of_lt hlength) (Nat.le_refl _)

theorem scan_other {d : UInt8} (hquote : d ≠ quote) (ho : d ≠ o) (hc : d ≠ c) (rest : Bytes)
    (depth : Int) : scan o c (d :: rest) depth = scan o c rest depth := by
  simp [scan, skipBracketed, hquote, ho, hc]

theorem Brackets.ne (h : Brackets o c) : o ≠ quote ∧ c ≠ quote ∧ c ≠ o := by
  cases h with
  | braces => decide
  | squares => decide

theorem scan_open (h : Brackets o c) (rest : Bytes) (depth : Int) :
    scan o c (o :: rest) depth = scan o c rest (depth + 1) := by
  simp [scan, skipBracketed, h.ne.1]

theorem scan_close (h : Brackets o c) (rest : Bytes) (depth : Int) :
    scan o c (c :: rest) depth =
      if depth - 1 = 0 then some rest else scan o c rest (depth - 1) := by
  simp [scan, skipBracketed, h.ne.2.1, h.ne.2.2]

/-- Inside a value, scanning the text changes nothing. -/
def Neutral (o c : UInt8) (text : Bytes) : Prop :=
  ∀ (rest : Bytes) (depth : Int), 1 ≤ depth → scan o c (text ++ rest) depth = scan o c rest depth

theorem Neutral.append {text text' : Bytes} (h : Neutral o c text) (h' : Neutral o c text') :
    Neutral o c (text ++ text') := by
  intro rest depth hdepth
  rw [List.append_assoc, h _ _ hdepth, h' _ _ hdepth]

theorem neutral_of_forall (h : ∀ d ∈ text, d ≠ quote ∧ d ≠ o ∧ d ≠ c) :
    Neutral o c text := by
  intro rest depth _
  induction text with
  | nil => rfl
  | cons d text ih =>
      obtain ⟨hquote, ho, hc⟩ := h d (by simp)
      rw [List.cons_append, scan_other hquote ho hc]
      exact ih fun e he => h e (List.mem_cons_of_mem _ he)

theorem Neutral.cons {d : UInt8} (h : d ≠ quote ∧ d ≠ o ∧ d ≠ c)
    (htext : Neutral o c text) : Neutral o c (d :: text) := by
  intro rest depth hdepth
  rw [List.cons_append, scan_other h.1 h.2.1 h.2.2]
  exact htext rest depth hdepth

theorem neutral_literal {body : Bytes} (h : StringBody body) : Neutral o c (literal body) :=
  fun rest depth _ => scan_string h rest depth

/-- A part between brackets of the counted kind goes one level down and comes back. -/
theorem Neutral.enclosed (h : Brackets o c) (htext : Neutral o c text) :
    Neutral o c (o :: (text ++ [c])) := by
  intro rest depth hdepth
  rw [List.cons_append, List.append_assoc, scan_open h, htext _ _ (by omega), List.singleton_append,
    scan_close h, if_neg (by omega), Int.add_sub_cancel]

/-- And one between brackets of the other kind does not count. -/
theorem Neutral.uncounted {d e : UInt8} (hd : d ≠ quote ∧ d ≠ o ∧ d ≠ c)
    (he : e ≠ quote ∧ e ≠ o ∧ e ≠ c) (htext : Neutral o c text) :
    Neutral o c (d :: (text ++ [e])) := by
  apply Neutral.cons hd
  apply Neutral.append htext
  exact neutral_of_forall fun b hb => List.mem_singleton.mp hb ▸ he

/-- Bytes that no bracket kind counts. -/
theorem ne_of_isWs (h : Brackets o c) {d : UInt8} (hd : Json.isWs d = true) :
    d ≠ quote ∧ d ≠ o ∧ d ≠ c := by
  have hbytes : d = 32 ∨ d = 9 ∨ d = 10 ∨ d = 13 := by
    simpa [Json.isWs, or_assoc] using hd
  cases h with
  | braces => rcases hbytes with rfl | rfl | rfl | rfl <;> decide
  | squares => rcases hbytes with rfl | rfl | rfl | rfl <;> decide

theorem isToken_ne {d : UInt8} (hd : Json.isToken d = true) :
    d ≠ quote ∧ d ≠ 44 ∧ d ≠ 58 ∧ d ≠ 91 ∧ d ≠ 93 ∧ d ≠ 123 ∧ d ≠ 125 ∧ 32 < d := by
  have hbytes : ascii "\",:[]\x7b\x7d" = [34, 44, 58, 91, 93, 123, 125] := by decide
  simp only [Json.isToken, hbytes, Bool.and_eq_true, decide_eq_true_eq, Bool.not_eq_true',
    List.contains_eq_mem, decide_eq_false_iff_not, List.mem_cons, List.not_mem_nil, or_false,
    not_or] at hd
  obtain ⟨hlt, h34, h44, h58, h91, h93, h123, h125⟩ := hd
  exact ⟨h34, h44, h58, h91, h93, h123, h125, hlt⟩

theorem ne_of_isToken (h : Brackets o c) {d : UInt8} (hd : Json.isToken d = true) :
    d ≠ quote ∧ d ≠ o ∧ d ≠ c := by
  obtain ⟨h34, _, _, h91, h93, h123, h125, _⟩ := isToken_ne hd
  cases h with
  | braces => exact ⟨h34, h123, h125⟩
  | squares => exact ⟨h34, h91, h93⟩

theorem neutral_ws (h : Brackets o c) {ws : Bytes} (hws : IsWs ws) : Neutral o c ws :=
  neutral_of_forall fun d hd => ne_of_isWs h (hws d hd)

/-- Commas and colons. -/
theorem separator_ne (h : Brackets o c) {d : UInt8} (hd : d = 44 ∨ d = 58) :
    d ≠ quote ∧ d ≠ o ∧ d ≠ c := by
  cases h with
  | braces => rcases hd with rfl | rfl <;> decide
  | squares => rcases hd with rfl | rfl <;> decide

/-- Scanning any part of a JSON text leaves the count of either kind of bracket where it was. -/
theorem Derives.neutral (h : Brackets o c) {kind : Json.Kind} {tree : Tree kind}
    (hderives : Derives tree text) : Neutral o c text := by
  induction hderives with
  | scalar hscalar => exact neutral_of_forall fun d hd => ne_of_isToken h (hscalar.token.2 d hd)
  | string hbody => exact neutral_literal hbody
  | array _ ih =>
      cases h with
      | braces => exact ih.uncounted (by decide) (by decide)
      | squares => exact ih.enclosed Brackets.squares
  | object _ ih =>
      cases h with
      | braces => exact ih.enclosed Brackets.braces
      | squares => exact ih.uncounted (by decide) (by decide)
  | noItems hws => exact neutral_ws h hws
  | lastItem hbefore _ hafter ih =>
      exact ((neutral_ws h hbefore).append ih).append (neutral_ws h hafter)
  | item hbefore _ hafter _ ih ihrest =>
      exact (((neutral_ws h hbefore).append ih).append (neutral_ws h hafter)).append
        (ihrest.cons (separator_ne h (Or.inl rfl)))
  | noMembers hws => exact neutral_ws h hws
  | lastMember h₁ hkey h₂ h₃ _ hafter ih =>
      exact (((neutral_ws h h₁).append (neutral_literal hkey)).append (neutral_ws h h₂)).append
        ((((neutral_ws h h₃).append ih).append (neutral_ws h hafter)).cons
          (separator_ne h (Or.inr rfl)))
  | member h₁ hkey h₂ h₃ _ hafter _ ih ihrest =>
      exact (((neutral_ws h h₁).append (neutral_literal hkey)).append (neutral_ws h h₂)).append
        (((((neutral_ws h h₃).append ih).append (neutral_ws h hafter)).append
          (ihrest.cons (separator_ne h (Or.inl rfl)))).cons (separator_ne h (Or.inr rfl)))

/-- From its opening bracket on, a value ends at the bracket that closes it. -/
theorem scan_enclosed (h : Brackets o c) (htext : Neutral o c text) (rest : Bytes) :
    scan o c (o :: (text ++ [c]) ++ rest) 0 = some rest := by
  rw [List.cons_append, List.append_assoc, scan_open h, Int.zero_add, htext _ _ (Int.le_refl 1),
    List.singleton_append, scan_close h]
  rfl

end

/-! ### Skipping a value -/

/-- What can stand behind a value in a JSON text: nothing, whitespace, a comma or a closing
bracket. -/
def EndsValue (rest : Bytes) : Prop :=
  ∀ c, rest.head? = some c → Json.isWs c = true ∨ c = 44 ∨ c = 93 ∨ c = 125

theorem isSpace_of_isWs (h : Json.isWs c = true) : isSpace c = true := by
  have hbytes : c = 32 ∨ c = 9 ∨ c = 10 ∨ c = 13 := by
    simpa [Json.isWs, or_assoc] using h
  rcases hbytes with rfl | rfl | rfl | rfl <;> decide

theorem EndsValue.endsToken {rest : Bytes} (h : EndsValue rest)
    (hc : rest.head? = some c) : endsToken c = true := by
  rcases h c hc with hws | rfl | rfl | rfl
  · simp [Resolve.endsToken, isSpace_of_isWs hws]
  · rfl
  · rfl
  · rfl

theorem not_isSpace_of_gt (h : 32 < c) : isSpace c = false := by
  simp only [isSpace, UInt8.lt_iff_toNat_lt, UInt8.reduceToNat] at *
  simp only [Bool.or_eq_false_iff, beq_eq_false_iff_ne, Bool.and_eq_false_iff,
    decide_eq_false_iff_not, UInt8.le_iff_toNat_le, UInt8.reduceToNat, ne_eq, ← UInt8.toNat_inj]
  omega

theorem not_endsToken_of_isToken (h : Json.isToken c = true) : endsToken c = false := by
  obtain ⟨_, h44, _, _, h93, _, h125, hlt⟩ := isToken_ne h
  simp [endsToken, h44, h93, h125, not_isSpace_of_gt hlt]

/-- `skipValue` on a JSON value leaves exactly what follows it. -/
theorem skipValue_derives {value : Tree .value} {text rest : Bytes} (h : Derives value text)
    (hrest : EndsValue rest) : skipValue (text ++ rest) = some rest := by
  cases h with
  | scalar hscalar =>
      obtain ⟨hne, htoken⟩ := hscalar.token
      have hdrop : (text ++ rest).dropWhile (fun d => !endsToken d) = rest := by
        rw [List.dropWhile_append_of_pos]
        · cases rest with
          | nil => rfl
          | cons c rest => simp [hrest.endsToken rfl]
        · intro d hd
          simp [not_endsToken_of_isToken (htoken d hd)]
      cases text with
      | nil => exact absurd rfl hne
      | cons c text =>
          obtain ⟨h34, _, _, h91, _, h123, _, _⟩ := isToken_ne (htoken c (by simp))
          simp only [List.cons_append] at hdrop ⊢
          simp [skipValue, h34, h91, h123, hdrop]
  | @string body hbody =>
      obtain ⟨v, hread⟩ := readJsonString_literal hbody rest
      simp only [literal, List.cons_append] at hread ⊢
      simp only [skipValue, show (Json.quoteByte == quote) = true from rfl, if_true, hread]
      rfl
  | @array items text h =>
      have hscan := scan_enclosed Brackets.squares (Derives.neutral Brackets.squares h) rest
      simpa [skipValue, scan, quote] using hscan
  | @object members text h =>
      have hscan := scan_enclosed Brackets.braces (Derives.neutral Brackets.braces h) rest
      simpa [skipValue, scan, quote] using hscan

/-! ### The members of the object -/

/-- The string a value is, if it is one. -/
def stringOf : Tree .value → Option Bytes
  | .string body => simpleValue body
  | _ => none

/-- The value of the member `main`, if it is a string. -/
def mainOf (members : Tree .members) : Option Bytes :=
  (members.lookup (ascii "main")).bind stringOf

theorem skipWs_before {ws : Bytes} (h : IsWs ws) (hc : isSpace c = false)
    (rest : Bytes) : skipWs (ws ++ c :: rest) = c :: rest := by
  unfold skipWs
  rw [List.dropWhile_append_of_pos]
  · simp [hc]
  · exact fun d hd => isSpace_of_isWs (h d hd)

/-- The first byte of a value, which is a quote only where the value is a string. -/
theorem derives_head {value : Tree .value} (h : Derives value text) :
    ∃ c rest, text = c :: rest ∧ isSpace c = false ∧ (c = quote → ∃ body, value = .string body) := by
  cases h with
  | scalar hscalar =>
      obtain ⟨hne, htoken⟩ := hscalar.token
      obtain ⟨c, rest, rfl⟩ := List.exists_cons_of_ne_nil hne
      obtain ⟨hquote, _, _, _, _, _, _, hlt⟩ := isToken_ne (htoken c (by simp))
      exact ⟨c, rest, rfl, not_isSpace_of_gt hlt, fun heq => absurd heq hquote⟩
  | @string body _ => exact ⟨quote, _, rfl, rfl, fun _ => ⟨body, rfl⟩⟩
  | array _ => exact ⟨91, _, rfl, rfl, fun heq => absurd heq (by decide)⟩
  | object _ => exact ⟨123, _, rfl, rfl, fun heq => absurd heq (by decide)⟩

theorem readMain_derives {value : Tree .value} (h : Derives value text)
    (hsimple : ∀ body, value = .string body → (simpleValue body).isSome = true) (rest : Bytes) :
    (if (text ++ rest).head? != some quote then none
      else (readJsonString (text ++ rest)).map (·.1)) = stringOf value := by
  by_cases hstring : ∃ body, value = .string body
  · obtain ⟨body, rfl⟩ := hstring
    obtain ⟨v, hv⟩ := Option.isSome_iff_exists.mp (hsimple body rfl)
    cases h with
    | string _ =>
        rw [readJsonString_simple hv]
        simp [literal, show Json.quoteByte = quote from rfl, stringOf, hv]
  · obtain ⟨c, front, rfl, _, hquote⟩ := derives_head h
    have hc : c ≠ quote := fun heq => hstring (hquote heq)
    have hnone : stringOf value = none := by
      cases value with
      | string body => exact absurd ⟨body, rfl⟩ hstring
      | scalar _ => rfl
      | array _ => rfl
      | object _ => rfl
    simp [hc, hnone]

theorem packageMainLoop_member {fuel : Nat} {key w₁ w₂ w₃ text behind : Bytes}
    {value : Tree .value} (h₁ : IsWs w₁) (h₂ : IsWs w₂) (h₃ : IsWs w₃) (h : Derives value text)
    (hkey : (simpleValue key).isSome = true)
    (hmain : simpleValue key = some (ascii "main") → ∀ body, value = .string body →
      (simpleValue body).isSome = true)
    (hbehind : EndsValue behind) :
    packageMainLoop (fuel + 1) (w₁ ++ literal key ++ w₂ ++ 58 :: (w₃ ++ text ++ behind)) =
      if simpleValue key = some (ascii "main") then stringOf value
      else if (skipWs behind).head? == some 44 then packageMainLoop fuel (skipWs behind).tail
      else none := by
  obtain ⟨name, hname⟩ := Option.isSome_iff_exists.mp hkey
  obtain ⟨c, front, hfront, hspace, _⟩ := derives_head h
  have hstart : skipWs (w₁ ++ literal key ++ w₂ ++ 58 :: (w₃ ++ text ++ behind)) =
      literal key ++ (w₂ ++ 58 :: (w₃ ++ text ++ behind)) := by
    simp only [List.append_assoc]
    exact skipWs_before h₁ rfl _
  have hcolon : skipWs (w₂ ++ 58 :: (w₃ ++ text ++ behind)) = 58 :: (w₃ ++ text ++ behind) :=
    skipWs_before h₂ rfl _
  have hvalue : skipWs (w₃ ++ text ++ behind) = text ++ behind := by
    rw [List.append_assoc, hfront]
    exact skipWs_before h₃ hspace _
  have hquote : (literal key ++ (w₂ ++ 58 :: (w₃ ++ text ++ behind))).head? = some quote := rfl
  simp only [packageMainLoop, hstart, hquote, readJsonString_simple hname, hcolon, hvalue, hname,
    List.head?_cons, List.tail_cons, bne_self_eq_false, Bool.false_eq_true, if_false,
    skipValue_derives h hbehind, Option.some.injEq, beq_iff_eq]
  split
  · rename_i heq
    exact readMain_derives h (hmain (heq ▸ hname)) behind
  · rfl

theorem endsValue_ws {ws : Bytes} (h : IsWs ws) (hc : c = 44 ∨ c = 93 ∨ c = 125)
    (rest : Bytes) : EndsValue (ws ++ c :: rest) := by
  intro d hd
  cases ws with
  | nil =>
      obtain rfl : c = d := by simpa using hd
      exact Or.inr hc
  | cons e ws =>
      obtain rfl : e = d := by simpa using hd
      exact Or.inl (h e (by simp))

/-- The key/value loop on the members of a JSON object finds the value of `main`. -/
theorem packageMainLoop_derives {fuel : Nat} {members : Tree .members} {text after : Bytes}
    (h : Derives members text)
    (hkeys : ∀ entry ∈ members.entries, (simpleValue entry.1).isSome = true)
    (hmain : ∀ body, members.lookup (ascii "main") = some (.string body) →
      (simpleValue body).isSome = true)
    (hfuel : (text ++ 125 :: after).length < fuel) :
    packageMainLoop fuel (text ++ 125 :: after) = mainOf members := by
  induction fuel generalizing members text with
  | zero => exact absurd hfuel (Nat.not_lt_zero _)
  | succ fuel ih =>
      cases h with
      | noMembers hws =>
          have hend : skipWs (text ++ 125 :: after) = 125 :: after := skipWs_before hws rfl _
          simp only [packageMainLoop, hend, List.head?_cons]
          rw [if_pos (by decide)]
          rfl
      | @lastMember key value w₁ w₂ w₃ body wafter h₁ hkey h₂ h₃ hvalue hafter =>
          have hmain' : simpleValue key = some (ascii "main") → ∀ body, value = .string body →
              (simpleValue body).isSome = true := by
            intro heq body hbody
            exact hmain body (by rw [Tree.lookup, if_pos heq, hbody])
          have hassoc : w₁ ++ literal key ++ w₂ ++ 58 :: (w₃ ++ body ++ wafter) ++ 125 :: after =
              w₁ ++ literal key ++ w₂ ++ 58 :: (w₃ ++ body ++ (wafter ++ 125 :: after)) := by
            simp only [List.append_assoc, List.cons_append]
          have hend : skipWs (wafter ++ 125 :: after) = 125 :: after := skipWs_before hafter rfl _
          rw [hassoc, packageMainLoop_member h₁ h₂ h₃ hvalue (hkeys (key, value) (by simp [Tree.entries])) hmain'
            (endsValue_ws hafter (by simp) _), hend]
          simp only [mainOf, Tree.lookup, List.head?_cons]
          split
          · rfl
          · rfl
      | @member key next value nextValue members w₁ w₂ w₃ body wafter rest h₁ hkey h₂ h₃ hvalue hafter
          hrest =>
          have hmain' : simpleValue key = some (ascii "main") → ∀ body, value = .string body →
              (simpleValue body).isSome = true := by
            intro heq body hbody
            exact hmain body (by rw [Tree.lookup, if_pos heq, hbody])
          have hassoc : w₁ ++ literal key ++ w₂ ++ 58 :: (w₃ ++ body ++ wafter ++ 44 :: rest) ++
              125 :: after = w₁ ++ literal key ++ w₂ ++
                58 :: (w₃ ++ body ++ (wafter ++ 44 :: (rest ++ 125 :: after))) := by
            simp only [List.append_assoc, List.cons_append]
          have hcomma : skipWs (wafter ++ 44 :: (rest ++ 125 :: after)) =
              44 :: (rest ++ 125 :: after) := skipWs_before hafter rfl _
          rw [hassoc] at hfuel ⊢
          rw [packageMainLoop_member h₁ h₂ h₃ hvalue (hkeys (key, value) (by simp [Tree.entries])) hmain'
            (endsValue_ws hafter (by simp) _), hcomma]
          rw [mainOf, Tree.lookup]
          by_cases heq : simpleValue key = some (ascii "main")
          · rw [if_pos heq, if_pos heq]
            rfl
          · rw [if_neg heq, if_neg heq]
            refine ih hrest (fun k hk => hkeys k ?_) (fun b hb => hmain b ?_) ?_
            · rw [Tree.entries]
              exact List.mem_cons_of_mem _ hk
            · rw [Tree.lookup, if_neg heq]
              exact hb
            · simp only [List.length_append, List.length_cons] at hfuel ⊢
              omega

/-- `readPackageMain` on a JSON object with whitespace around it. -/
theorem packageMain_derives {members : Tree .members} {text before after : Bytes}
    (h : Derives (.object members) text) (hbefore : IsWs before)
    (hkeys : ∀ entry ∈ members.entries, (simpleValue entry.1).isSome = true)
    (hmain : ∀ body, members.lookup (ascii "main") = some (.string body) →
      (simpleValue body).isSome = true) :
    packageMain (before ++ text ++ after) = mainOf members := by
  cases h with
  | @object _ inner h =>
      have hopen : skipWs (before ++ 123 :: (inner ++ [125]) ++ after) =
          123 :: (inner ++ 125 :: after) := by
        rw [List.append_assoc]
        simp only [List.cons_append, List.append_assoc, List.nil_append]
        exact skipWs_before hbefore rfl _
      simp only [packageMain, hopen, List.head?_cons, List.tail_cons]
      rw [if_neg (by decide)]
      exact packageMainLoop_derives h hkeys hmain (by simp)

/-- The reader of `main`: on every text it ends, and reads nothing outside the text; `skipValue` from
the first byte of a JSON value ends right behind it; and on a JSON object with unique keys, with no
escapes but the simple ones in its keys and its `main`, it returns the string that the member `main`
is, and nothing when there is none or it is no string. -/
theorem packageMain_exact :
    (∀ content, ∃ main, readPackageMainAt content = .accepted main ∧ packageMain content = main) ∧
      (∀ content i, ∃ j, skipValueAt content i = .accepted j) ∧
      (∀ (value : Tree .value) (front text rest : Bytes), Derives value text → EndsValue rest →
        skipValueAt (front ++ text ++ rest) front.length =
          .accepted (some (front.length + text.length))) ∧
      ∀ (members : Tree .members) (before text after : Bytes), Derives (.object members) text →
        IsWs before →
        (members.entries.map fun entry => simpleValue entry.1).Nodup →
        (∀ entry ∈ members.entries, (simpleValue entry.1).isSome = true) →
        ((∀ entry ∈ members.entries, simpleValue entry.1 ≠ some (ascii "main")) →
          readPackageMainAt (before ++ text ++ after) = .accepted none) ∧
        ∀ key value, (key, value) ∈ members.entries → simpleValue key = some (ascii "main") →
          ((∀ body, value ≠ .string body) →
            readPackageMainAt (before ++ text ++ after) = .accepted none) ∧
          ∀ body main, value = .string body → simpleValue body = some main →
            readPackageMainAt (before ++ text ++ after) = .accepted (some main) := by
  refine ⟨fun content => ⟨_, readPackageMainAt_eq content, rfl⟩, ?_, ?_, ?_⟩
  · intro content i
    by_cases hi : i < content.length
    · have hindex : indexOf content (content.drop i) = i := by
        rw [indexOf, List.length_drop]
        omega
      have heq := skipValueAt_eq (List.drop_suffix i content)
      rw [hindex] at heq
      exact ⟨_, heq⟩
    · exact ⟨none, by simp [skipValueAt, hi, pure_eq_accepted]⟩
  · intro value front text rest h hrest
    have hsuffix : text ++ rest <:+ front ++ text ++ rest := ⟨front, (List.append_assoc _ _ _).symm⟩
    have hindex : indexOf (front ++ text ++ rest) (text ++ rest) = front.length := by
      simp only [indexOf, List.length_append]
      omega
    have hend : indexOf (front ++ text ++ rest) rest = front.length + text.length := by
      simp only [indexOf, List.length_append]
      omega
    have heq := skipValueAt_eq hsuffix
    rw [hindex, skipValue_derives h hrest, Option.map_some, hend] at heq
    exact heq
  · intro members before text after h hbefore hunique hkeys
    have hread : (∀ body, members.lookup (ascii "main") = some (.string body) →
        (simpleValue body).isSome = true) →
        readPackageMainAt (before ++ text ++ after) = .accepted (mainOf members) := by
      intro hmain
      rw [readPackageMainAt_eq, packageMain_derives h hbefore hkeys hmain]
    constructor
    · intro habsent
      have hlookup := Tree.lookup_eq_none habsent
      rw [hread (by simp [hlookup]), mainOf, hlookup]
      rfl
    · intro key value hmem hname
      have hlookup := Tree.lookup_of_mem hunique hmem hname
      constructor
      · intro hother
        have hnone : stringOf value = none := by
          cases value with
          | string body => exact absurd rfl (hother body)
          | scalar _ => rfl
          | array _ => rfl
          | object _ => rfl
        rw [hread, mainOf, hlookup, Option.bind_some, hnone]
        intro body hbody
        rw [hlookup, Option.some.injEq] at hbody
        exact absurd hbody (hother body)
      · rintro body main rfl hmain
        rw [hread, mainOf, hlookup, Option.bind_some, stringOf, hmain]
        intro body' hbody
        rw [hlookup, Option.some.injEq, Json.Tree.string.injEq] at hbody
        rw [← hbody, hmain]
        rfl

/-- A value whose own strings hold a nested `main` and unbalanced brackets. -/
def decoy : Tree .value :=
  .array (.item
    (.object (.member (ascii "main") (.string (ascii "\x7d]\\\"\x7b")) .noMembers))
    (.item (.scalar (ascii "null")) .noItems))

def sampleMembers : Tree .members :=
  .member (ascii "x") decoy (.member (ascii "main") (.string (ascii "lib\\/a.js")) .noMembers)

def sampleText : Bytes :=
  ascii "\x7b\"x\": [\x7b\"main\":\"\x7d]\\\"\x7b\"\x7d, null], \"main\" : \"lib\\/a.js\"\x7d"

theorem sampleText_derives : Derives (.object sampleMembers) sampleText := by
  have hnil : IsWs [] := by simp [IsWs]
  have hblank : IsWs [32] := by simp [IsWs, Json.isWs]
  have hplain : ∀ {body : Bytes}, body.all Json.isPlain = true → StringBody body := by
    intro body hbody
    induction body with
    | nil => exact StringBody.nil
    | cons c body ih =>
        rw [List.all_cons, Bool.and_eq_true] at hbody
        exact StringBody.plain hbody.1 (ih hbody.2)
  have hunbalanced : StringBody (ascii "\x7d]\\\"\x7b") :=
    StringBody.plain rfl (StringBody.plain rfl (StringBody.escape rfl (hplain rfl)))
  have hpath : StringBody (ascii "lib\\/a.js") :=
    StringBody.plain rfl (StringBody.plain rfl (StringBody.plain rfl
      (StringBody.escape rfl (hplain rfl))))
  have hmain : StringBody (ascii "main") := hplain rfl
  have hx : StringBody (ascii "x") := hplain rfl
  have hinner := Derives.object
    (Derives.lastMember hnil hmain hnil hnil (Derives.string hunbalanced) hnil)
  have hdecoy := Derives.array
    (Derives.item hnil hinner hnil
      (Derives.lastItem hblank (Derives.scalar Json.Scalar.nullLiteral) hnil))
  exact Derives.object (Derives.member hnil hx hnil hblank hdecoy hnil
    (Derives.lastMember hblank hmain hblank hblank (Derives.string hpath) hnil))

theorem sampleText_main : readPackageMainAt sampleText = .accepted (some (ascii "lib/a.js")) := by
  have hread := (packageMain_exact.2.2.2 sampleMembers [] sampleText [] sampleText_derives
    (by simp [IsWs]) (by decide) (by decide)).2 (ascii "main") (.string (ascii "lib\\/a.js"))
    (by simp [sampleMembers, Tree.entries]) (by decide)
  simpa using hread.2 (ascii "lib\\/a.js") (ascii "lib/a.js") rfl (by decide)

end HermesNode.Resolve
