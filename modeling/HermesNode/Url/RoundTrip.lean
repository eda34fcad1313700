/-
Module: HermesNode.Url.RoundTrip
Purpose: What a list of well-formed pairs serializes to is parsed back to the list, also after the
  URL standard has percent-encoded it as a query. A serialized component is one piece of text for
  each code point, and each piece is decoded on its own.
Trusted boundary: none
Main exports: formPoint, decode_formPoints, params_round_trip
-/
import HermesNode.Url.Url

namespace HermesNode.Url

/-! ### The text of a code point -/

/-- What is left of an apostrophe in the query of a URL. -/
def quoteUnit (special : Bool) (c : UInt16) : JsString :=
  if special && c == 39 then percentPoint 39 else [c]

/-- What a code point of a name or value becomes in the query of a URL. -/
def formPoint (special : Bool) (cp : Nat) : JsString :=
  if cp = 32 then [43]
  else if isUnescaped cp then quoteUnit special (UInt16.ofNat cp)
  else percentPoint cp

/-- The units of a serialized name or value. -/
def isFormUnit (c : UInt16) : Bool := isUnescaped c.toNat || c == 37 || c == 43

variable {cp : Nat}

theorem isUnescaped_lt (h : isUnescaped cp = true) : cp < 127 := by
  by_cases hlt : cp < 127
  · exact hlt
  · simp only [isUnescaped, Bool.or_eq_true, Bool.and_eq_true, decide_eq_true_eq,
      List.contains_iff_mem, List.mem_cons, List.not_mem_nil, or_false] at h
    omega

theorem ofNat_toNat_unescaped (h : isUnescaped cp = true) :
    (UInt16.ofNat cp).toNat = cp := by
  have hlt := isUnescaped_lt h
  rw [UInt16.toNat_ofNat']
  omega

theorem unescaped_ne (h : isUnescaped cp = true) :
    UInt16.ofNat cp ≠ 37 ∧ UInt16.ofNat cp ≠ 43 := by
  have hcp := ofNat_toNat_unescaped h
  constructor
  · intro heq
    rw [heq] at hcp
    rw [← hcp] at h
    exact absurd h (by decide)
  · intro heq
    rw [heq] at hcp
    rw [← hcp] at h
    exact absurd h (by decide)

theorem isFormUnit_ofNat (h : isUnescaped cp = true) :
    isFormUnit (UInt16.ofNat cp) = true := by
  simp [isFormUnit, ofNat_toNat_unescaped h, h]

theorem upperHexDigit_unescaped : ∀ d < 16, isUnescaped (upperHexDigit d).toNat = true := by
  decide

variable {c : UInt16}

/-- A percent-encoded code point is percent signs and upper-case digits. -/
theorem percentPoint_units (h : IsScalar cp) (hc : c ∈ percentPoint cp) :
    c = 37 ∨ ∃ d < 16, c = upperHexDigit d := by
  obtain ⟨b, hb, hunit⟩ := List.mem_flatMap.mp hc
  have hlt := utf8Of_lt h hb
  simp only [percentByte, List.mem_cons, List.not_mem_nil, or_false] at hunit
  obtain heq | heq | heq := hunit
  · exact Or.inl heq
  · exact Or.inr ⟨b / 16, by omega, heq⟩
  · exact Or.inr ⟨b % 16, by omega, heq⟩

/-- No digit is a percent sign, a plus or an apostrophe. -/
theorem upperHexDigit_ne : ∀ d < 16,
    upperHexDigit d ≠ 37 ∧ upperHexDigit d ≠ 43 ∧ upperHexDigit d ≠ 39 := by
  decide

theorem percentPoint_ne (h : IsScalar cp) (hc : c ∈ percentPoint cp) :
    c ≠ 43 ∧ c ≠ 39 := by
  obtain heq | ⟨d, hd, heq⟩ := percentPoint_units h hc
  · rw [heq]
    decide
  · rw [heq]
    exact (upperHexDigit_ne d hd).2

theorem percentPoint_form (h : IsScalar cp) :
    ∀ c ∈ percentPoint cp, isFormUnit c = true := by
  intro c hc
  obtain heq | ⟨d, hd, heq⟩ := percentPoint_units h hc
  · rw [heq]
    rfl
  · rw [heq]
    simp [isFormUnit, upperHexDigit_unescaped d hd]

variable {special : Bool}

theorem quoteUnit_form (h : isFormUnit c = true) :
    ∀ d ∈ quoteUnit special c, isFormUnit d = true := by
  intro d hd
  unfold quoteUnit at hd
  split at hd
  · exact percentPoint_form (Or.inl (by decide)) d hd
  · rw [List.mem_singleton.mp hd]
    exact h

theorem formPoint_form (h : IsScalar cp) :
    ∀ c ∈ formPoint special cp, isFormUnit c = true := by
  intro c hc
  unfold formPoint at hc
  split at hc
  · rw [List.mem_singleton.mp hc]
    rfl
  · split at hc
    · rename_i hunescaped
      exact quoteUnit_form (isFormUnit_ofNat hunescaped) c hc
    · exact percentPoint_form h c hc

/-! ### Serialization -/

theorem encodedSpaceToPlus_cons (h : c ≠ 37) (rest : JsString) :
    encodedSpaceToPlus (c :: rest) = c :: encodedSpaceToPlus rest := by
  match rest with
  | [] => simp [encodedSpaceToPlus]
  | [d] => simp [encodedSpaceToPlus]
  | d :: e :: rest => simp [encodedSpaceToPlus, h]

theorem space_digits : ∀ b < 256, upperHexDigit (b / 16) = 50 ∧ upperHexDigit (b % 16) = 48 →
    b = 32 := by
  decide +kernel

theorem encodedSpaceToPlus_percentByte {b : Nat} (hb : b < 256) (hspace : b ≠ 32)
    (rest : JsString) :
    encodedSpaceToPlus (percentByte b ++ rest) = percentByte b ++ encodedSpaceToPlus rest := by
  have hdigits : ¬ (upperHexDigit (b / 16) = 50 ∧ upperHexDigit (b % 16) = 48) :=
    fun h => hspace (space_digits b hb h)
  have hhigh := (upperHexDigit_ne (b / 16) (by omega)).1
  have hlow := (upperHexDigit_ne (b % 16) (by omega)).1
  simp only [percentByte, List.cons_append, List.nil_append, encodedSpaceToPlus]
  rw [if_neg (by simpa using hdigits), encodedSpaceToPlus_cons hhigh, encodedSpaceToPlus_cons hlow]

theorem encodedSpaceToPlus_percentBytes {bs : List Nat} (hbs : ∀ b ∈ bs, b < 256 ∧ b ≠ 32)
    (rest : JsString) :
    encodedSpaceToPlus (bs.flatMap percentByte ++ rest) =
      bs.flatMap percentByte ++ encodedSpaceToPlus rest := by
  induction bs with
  | nil => rfl
  | cons b bs ih =>
      obtain ⟨hb, hspace⟩ := hbs b List.mem_cons_self
      rw [List.flatMap_cons, List.append_assoc, encodedSpaceToPlus_percentByte hb hspace,
        ih fun b hb => hbs b (List.mem_cons_of_mem _ hb), List.append_assoc]

theorem encodedSpaceToPlus_encodePoint (h : IsScalar cp) (rest : JsString) :
    encodedSpaceToPlus (encodePoint cp ++ rest) =
      formPoint false cp ++ encodedSpaceToPlus rest := by
  unfold encodePoint formPoint
  by_cases hspace : cp = 32
  · subst hspace
    rw [if_neg (by decide), if_pos rfl]
    simp [percentPoint, utf8Of, percentByte, upperHexDigit, encodedSpaceToPlus]
  · rw [if_neg hspace]
    split
    · rename_i hunescaped
      simp [quoteUnit, encodedSpaceToPlus_cons (unescaped_ne hunescaped).1]
    · apply encodedSpaceToPlus_percentBytes
      intro b hb
      have hbytes := utf8Of_bytes h hb
      omega

theorem encodedSpaceToPlus_points {cps : List Nat} (h : ∀ cp ∈ cps, IsScalar cp) :
    encodedSpaceToPlus (cps.flatMap encodePoint) = cps.flatMap (formPoint false) := by
  induction cps with
  | nil => rfl
  | cons cp cps ih =>
      rw [List.flatMap_cons, encodedSpaceToPlus_encodePoint (h cp List.mem_cons_self),
        ih fun c hc => h c (List.mem_cons_of_mem _ hc), List.flatMap_cons]

/-- A component is serialized piece by piece. -/
theorem encodeComponent_eq {cps : List Nat} (h : ∀ cp ∈ cps, IsScalar cp) :
    encodeComponent (cps.flatMap utf16Of) = some (cps.flatMap (formPoint false)) := by
  have hvalues : scalarValues (cps.flatMap utf16Of) = some cps :=
    scalarValues_eq_some.mpr ⟨rfl, h⟩
  rw [encodeComponent, encodeURIComponent, hvalues]
  simp only [Option.map_some, encodedSpaceToPlus_points h]

/-! ### Parsing -/

theorem plusToSpace_append (s t : JsString) :
    plusToSpace (s ++ t) = plusToSpace s ++ plusToSpace t := by
  simp [plusToSpace]

theorem plusToSpace_of_ne {s : JsString} (h : ∀ c ∈ s, c ≠ 43) : plusToSpace s = s := by
  induction s with
  | nil => rfl
  | cons c s ih =>
      have hrest := ih fun d hd => h d (List.mem_cons_of_mem _ hd)
      simp only [plusToSpace] at hrest
      simp [plusToSpace, h c List.mem_cons_self, hrest]

/-- Each piece is decoded on its own. -/
theorem decode_formPoint (h : IsScalar cp) (rest : JsString) :
    decodeFrom none (plusToSpace (formPoint special cp) ++ rest) =
      (decodeFrom none rest).map (utf16Of cp ++ ·) := by
  unfold formPoint
  by_cases hspace : cp = 32
  · rw [if_pos hspace, hspace]
    exact decodeFrom_literal (by decide) rest
  · rw [if_neg hspace]
    split
    · rename_i hunescaped
      obtain ⟨hpercent, hplus⟩ := unescaped_ne hunescaped
      have hlt := isUnescaped_lt hunescaped
      have hunits : utf16Of cp = [UInt16.ofNat cp] := by
        rw [utf16Of, if_pos (by omega)]
      unfold quoteUnit
      split
      · rename_i hquote
        rw [Bool.and_eq_true, beq_iff_eq] at hquote
        have hcp : cp = 39 := by
          have htoNat := ofNat_toNat_unescaped hunescaped
          rw [hquote.2] at htoNat
          exact htoNat.symm
        rw [plusToSpace_of_ne fun c hc => (percentPoint_ne (Or.inl (by decide)) hc).1, hcp]
        exact decodeFrom_percentPoint (Or.inl (by decide)) rest
      · rw [plusToSpace_of_ne (by simpa using hplus), hunits]
        exact decodeFrom_literal hpercent rest
    · rw [plusToSpace_of_ne fun c hc => (percentPoint_ne h hc).1]
      exact decodeFrom_percentPoint h rest

/-- A serialized component is decoded to itself. -/
theorem decode_formPoints {cps : List Nat} (h : ∀ cp ∈ cps, IsScalar cp) :
    decodeURIComponent (plusToSpace (cps.flatMap (formPoint special))) =
      some (cps.flatMap utf16Of) := by
  unfold decodeURIComponent
  induction cps with
  | nil => rfl
  | cons cp cps ih =>
      rw [List.flatMap_cons, plusToSpace_append, decode_formPoint (h cp List.mem_cons_self),
        ih fun c hc => h c (List.mem_cons_of_mem _ hc), List.flatMap_cons]
      rfl

theorem isFormUnit_ne (h : isFormUnit c = true) : c ≠ 38 ∧ c ≠ 61 := by
  constructor
  · intro heq
    rw [heq] at h
    exact absurd h (by decide)
  · intro heq
    rw [heq] at h
    exact absurd h (by decide)

theorem formPoints_form {cps : List Nat} (h : ∀ cp ∈ cps, IsScalar cp) :
    ∀ c ∈ cps.flatMap (formPoint special), isFormUnit c = true := by
  intro c hc
  obtain ⟨cp, hcp, hunit⟩ := List.mem_flatMap.mp hc
  exact formPoint_form (h cp hcp) c hunit

/-- The text of a pair of code point lists. -/
def formPair (special : Bool) (pair : List Nat × List Nat) : JsString :=
  pair.1.flatMap (formPoint special) ++ 61 :: pair.2.flatMap (formPoint special)

/-- The strings of a pair of code point lists. -/
def pairStrings (pair : List Nat × List Nat) : JsString × JsString :=
  (pair.1.flatMap utf16Of, pair.2.flatMap utf16Of)

/-- Both lists hold code points only. -/
def ScalarPair (pair : List Nat × List Nat) : Prop :=
  (∀ cp ∈ pair.1, IsScalar cp) ∧ ∀ cp ∈ pair.2, IsScalar cp

variable {pair : List Nat × List Nat}

theorem parsePair_formPair (h : ScalarPair pair) :
    parsePair (formPair special pair) = some (pairStrings pair) := by
  have hname : ∀ c ∈ pair.1.flatMap (formPoint special), (c != 61) = true := by
    intro c hc
    simpa using (isFormUnit_ne (formPoints_form h.1 c hc)).2
  have hcontains : (formPair special pair).contains 61 = true := by
    simp [formPair]
  rw [parsePair, if_pos hcontains]
  simp only [formPair]
  rw [List.takeWhile_append_of_pos hname, List.dropWhile_append_of_pos hname]
  simp only [bne_self_eq_false, Bool.false_eq_true, not_false_eq_true, List.takeWhile_cons_of_neg,
    List.append_nil, List.dropWhile_cons_of_neg, List.drop_succ_cons, List.drop_zero,
    decode_formPoints h.1, decode_formPoints h.2]
  rfl

theorem formPair_ne_amp (h : ScalarPair pair) :
    38 ∉ formPair special pair := by
  intro hmem
  cases List.mem_append.mp hmem with
  | inl hname => exact (isFormUnit_ne (formPoints_form h.1 38 hname)).1 rfl
  | inr hvalue =>
      cases List.mem_cons.mp hvalue with
      | inl heq => exact absurd heq (by decide)
      | inr hvalue => exact (isFormUnit_ne (formPoints_form h.2 38 hvalue)).1 rfl

variable {pairs : List (List Nat × List Nat)}

theorem parsePairs_formPairs (h : ∀ pair ∈ pairs, ScalarPair pair) (list : Params) :
    parsePairs list (pairs.map (formPair special)) = (list ++ pairs.map pairStrings, false) := by
  induction pairs generalizing list with
  | nil => simp [parsePairs]
  | cons pair pairs ih =>
      have hne : (formPair special pair).isEmpty = false := by
        simp [formPair]
      rw [List.map_cons, parsePairs, hne]
      simp only [Bool.false_eq_true, if_false, parsePair_formPair (h pair List.mem_cons_self)]
      rw [ih fun p hp => h p (List.mem_cons_of_mem _ hp)]
      simp

theorem parseString_formPairs {special : Bool} (h : ∀ pair ∈ pairs, ScalarPair pair) :
    parseString [] (List.intercalate [38] (pairs.map (formPair special))) =
    (pairs.map pairStrings, false) := by
  unfold parseString
  split
  · rename_i hempty
    cases pairs with
    | nil => rfl
    | cons pair pairs =>
        cases pairs with
        | nil => simp [List.intercalate, formPair] at hempty
        | cons second pairs => simp [List.intercalate, formPair] at hempty
  · rename_i hne
    have hpairs : pairs.map (formPair special) ≠ [] := by
      intro hnil
      rw [hnil] at hne
      exact hne rfl
    have hamp : ∀ piece ∈ pairs.map (formPair special), 38 ∉ piece := by
      intro piece hpiece
      obtain ⟨pair, hpair, heq⟩ := List.mem_map.mp hpiece
      rw [← heq]
      exact formPair_ne_amp (h pair hpair)
    rw [List.splitOn_intercalate 38 hamp hpairs, parsePairs_formPairs h, List.nil_append]

/-! ### The query of a URL -/

/-- The units of a serialized list. -/
def isQueryUnit (c : UInt16) : Bool := isFormUnit c || c == 38 || c == 61

theorem isQueryUnit_lt (h : isQueryUnit c = true) : c.toNat < 127 := by
  simp only [isQueryUnit, isFormUnit, Bool.or_eq_true, beq_iff_eq] at h
  obtain (((h | rfl) | rfl) | rfl) | rfl := h
  · exact isUnescaped_lt h
  · decide
  · decide
  · decide
  · decide

/-- Of these units the query percent-encode sets hold the apostrophe at most. -/
theorem queryUnit_kept : ∀ n < 127, isQueryUnit (UInt16.ofNat n) = true →
    isTabOrNewline n = false ∧ inQuerySet false n = false ∧
      inQuerySet true n = (n == 39) := by
  decide

theorem queryPoint_unit (special : Bool) (h : isQueryUnit c = true) :
    isTabOrNewline c.toNat = false ∧ queryPoint special c.toNat = quoteUnit special c := by
  have hlt := isQueryUnit_lt h
  have hunit : UInt16.ofNat c.toNat = c := UInt16.ofNat_toNat
  obtain ⟨htab, hplain, hspecial⟩ := queryUnit_kept c.toNat hlt (by rw [hunit]; exact h)
  refine ⟨htab, ?_⟩
  have hunits : utf16Of c.toNat = [c] := by
    rw [utf16Of, if_pos (by omega), hunit]
  unfold queryPoint quoteUnit
  cases special with
  | false => simp [hplain, hunits]
  | true =>
      by_cases hquote : c = 39
      · subst hquote
        rfl
      · have hne : c.toNat ≠ 39 := by
          intro heq
          rw [← hunit, heq] at hquote
          exact hquote rfl
        simp [hspecial, hne, hunits, hquote]

theorem codePoints_ascii {s : JsString} (h : ∀ c ∈ s, c.toNat < 0x80) :
    codePoints s = s.map fun c => some c.toNat := by
  have hs : s = (s.map UInt16.toNat).flatMap utf16Of := by
    induction s with
    | nil => rfl
    | cons c s ih =>
        have hc := h c List.mem_cons_self
        have hunits : utf16Of c.toNat = [c] := by
          rw [utf16Of, if_pos (by omega), UInt16.ofNat_toNat]
        rw [List.map_cons, List.flatMap_cons, hunits,
          ← ih fun d hd => h d (List.mem_cons_of_mem _ hd)]
        rfl
  have hscalars : ∀ cp ∈ s.map UInt16.toNat, IsScalar cp := by
    intro cp hcp
    obtain ⟨c, hc, heq⟩ := List.mem_map.mp hcp
    have hlt := h c hc
    exact Or.inl (by omega)
  have hpoints := codePoints_flatMap hscalars
  rw [← hs, List.map_map] at hpoints
  exact hpoints

/-- The search setter keeps a serialized list, but for the apostrophes of a special URL. -/
theorem whatwgSearch_units (special : Bool) {t : JsString} (h : ∀ c ∈ t, isQueryUnit c = true)
    (hne : t ≠ []) : whatwgSearch special (63 :: t) = 63 :: t.flatMap (quoteUnit special) := by
  have hascii : ∀ c ∈ t, c.toNat < 0x80 := by
    intro c hc
    have hlt := isQueryUnit_lt (h c hc)
    omega
  have hfilter : (t.map UInt16.toNat).filter (!isTabOrNewline ·) = t.map UInt16.toNat := by
    rw [List.filter_eq_self]
    intro cp hcp
    obtain ⟨c, hc, heq⟩ := List.mem_map.mp hcp
    rw [← heq, (queryPoint_unit special (h c hc)).1]
    rfl
  have hquery : (t.map UInt16.toNat).flatMap (queryPoint special) =
      t.flatMap (quoteUnit special) := by
    rw [List.flatMap_map]
    apply List.flatMap_congr
    intro c hc
    exact (queryPoint_unit special (h c hc)).2
  have hnonempty : (t.flatMap (quoteUnit special)).isEmpty = false := by
    cases t with
    | nil => exact absurd rfl hne
    | cons c t =>
        have hpiece : quoteUnit special c ≠ [] := by
          unfold quoteUnit
          split
          · decide
          · simp
        simp [hpiece]
  unfold whatwgSearch
  simp only [List.head?_cons, if_true, List.drop_succ_cons, List.drop_zero,
    codePoints_ascii hascii, List.map_map]
  have hpoints : (fun cp : Option Nat => cp.getD 0xFFFD) ∘ (fun c : UInt16 => some c.toNat) =
      UInt16.toNat := rfl
  rw [hpoints, hfilter, hquery, hnonempty]
  rfl

theorem flatMap_quoteUnit {s : JsString} (h : ∀ c ∈ s, c ≠ 39) :
    s.flatMap (quoteUnit special) = s := by
  induction s with
  | nil => rfl
  | cons c s ih =>
      have hunit : quoteUnit special c = [c] := by
        simp [quoteUnit, h c List.mem_cons_self]
      rw [List.flatMap_cons, hunit, ih fun d hd => h d (List.mem_cons_of_mem _ hd)]
      rfl

theorem formPoint_quote (special : Bool) (h : IsScalar cp) :
    (formPoint false cp).flatMap (quoteUnit special) = formPoint special cp := by
  unfold formPoint
  split
  · exact flatMap_quoteUnit (by simp)
  · split
    · simp [quoteUnit]
    · exact flatMap_quoteUnit fun c hc => (percentPoint_ne h hc).2

theorem formPoints_quote (special : Bool) {cps : List Nat} (h : ∀ cp ∈ cps, IsScalar cp) :
    (cps.flatMap (formPoint false)).flatMap (quoteUnit special) =
      cps.flatMap (formPoint special) := by
  rw [List.flatMap_assoc]
  apply List.flatMap_congr
  intro cp hcp
  exact formPoint_quote special (h cp hcp)

theorem formPair_quote (special : Bool) (h : ScalarPair pair) :
    (formPair false pair).flatMap (quoteUnit special) = formPair special pair := by
  have hequals : quoteUnit special 61 = [61] := by
    simp [quoteUnit]
  simp only [formPair, List.flatMap_append, List.flatMap_cons, formPoints_quote special h.1,
    formPoints_quote special h.2, hequals, List.singleton_append]

theorem intercalate_quote (special : Bool) (h : ∀ pair ∈ pairs, ScalarPair pair) :
    (List.intercalate [38] (pairs.map (formPair false))).flatMap (quoteUnit special) =
      List.intercalate [38] (pairs.map (formPair special)) := by
  induction pairs with
  | nil => rfl
  | cons pair pairs ih =>
      have hpair := formPair_quote special (h pair List.mem_cons_self)
      have hrest := ih fun p hp => h p (List.mem_cons_of_mem _ hp)
      cases pairs with
      | nil => simp [List.intercalate, hpair]
      | cons second pairs =>
          have hamp : quoteUnit special 38 = [38] := by
            simp [quoteUnit]
          simp only [List.map_cons] at hrest ⊢
          rw [List.intercalate_cons_cons, List.intercalate_cons_cons, List.flatMap_append,
            List.flatMap_append, hpair, hrest]
          simp [hamp]

theorem formPairs_units (h : ∀ pair ∈ pairs, ScalarPair pair) :
    ∀ c ∈ List.intercalate [38] (pairs.map (formPair false)), isQueryUnit c = true := by
  have hpiece : ∀ pair, ScalarPair pair → ∀ c ∈ formPair false pair, isQueryUnit c = true := by
    intro pair hpair c hc
    cases List.mem_append.mp hc with
    | inl hname => simp [isQueryUnit, formPoints_form hpair.1 c hname]
    | inr hvalue =>
        cases List.mem_cons.mp hvalue with
        | inl heq => simp [isQueryUnit, heq]
        | inr hvalue => simp [isQueryUnit, formPoints_form hpair.2 c hvalue]
  induction pairs with
  | nil =>
      intro c hc
      simp [List.intercalate] at hc
  | cons pair pairs ih =>
      have hfirst := hpiece pair (h pair List.mem_cons_self)
      have hrest := ih fun p hp => h p (List.mem_cons_of_mem _ hp)
      intro c hc
      cases pairs with
      | nil =>
          simp only [List.map_cons, List.map_nil, List.intercalate_singleton] at hc
          exact hfirst c hc
      | cons second pairs =>
          simp only [List.map_cons] at hc hrest
          rw [List.intercalate_cons_cons, List.mem_append, List.mem_append] at hc
          obtain (hc | hc) | hc := hc
          · exact hfirst c hc
          · simp [isQueryUnit, List.mem_singleton.mp hc]
          · exact hrest c hc

/-! ### Lists of well-formed pairs -/

/-- No name or value of the list has an unpaired surrogate. -/
def WellFormedParams (list : Params) : Prop :=
  ∀ pair ∈ list, isWellFormed pair.1 = true ∧ isWellFormed pair.2 = true

theorem WellFormedParams.points {list : Params} (h : WellFormedParams list) :
    ∃ pairs : List (List Nat × List Nat), (∀ pair ∈ pairs, ScalarPair pair) ∧
      list = pairs.map pairStrings := by
  induction list with
  | nil => exact ⟨[], by simp, rfl⟩
  | cons pair list ih =>
      obtain ⟨pairs, hpairs, heq⟩ := ih fun p hp => h p (List.mem_cons_of_mem _ hp)
      obtain ⟨hname, hvalue⟩ := h pair List.mem_cons_self
      obtain ⟨names, hnames, hnameScalars⟩ := isWellFormed_iff.mp hname
      obtain ⟨values, hvalues, hvalueScalars⟩ := isWellFormed_iff.mp hvalue
      refine ⟨(names, values) :: pairs, ?_, ?_⟩
      · intro p hp
        cases List.mem_cons.mp hp with
        | inl hfirst =>
            rw [hfirst]
            exact ⟨hnameScalars, hvalueScalars⟩
        | inr hrest => exact hpairs p hrest
      · have hstrings : pairStrings (names, values) = pair := by
          rw [pairStrings, ← hnames, ← hvalues]
        rw [List.map_cons, hstrings, ← heq]

theorem pairToString_form (h : ScalarPair pair) :
    pairToString (pairStrings pair) = some (formPair false pair) := by
  simp [pairToString, pairStrings, encodeComponent_eq h.1, encodeComponent_eq h.2, formPair]

theorem paramsToString_form (h : ∀ pair ∈ pairs, ScalarPair pair) :
    paramsToString (pairs.map pairStrings) =
      some (List.intercalate [38] (pairs.map (formPair false))) := by
  have hpieces : (pairs.map pairStrings).mapM pairToString =
      some (pairs.map (formPair false)) := by
    induction pairs with
    | nil => rfl
    | cons pair pairs ih =>
        rw [List.map_cons, List.mapM_cons, pairToString_form (h pair List.mem_cons_self),
          ih fun p hp => h p (List.mem_cons_of_mem _ hp)]
        rfl
  rw [paramsToString, hpieces]
  rfl

/-- A list of well-formed pairs is serialized, and the search that the URL standard makes of its text
is parsed to the list. -/
theorem params_round_trip (special : Bool) {list : Params} (h : WellFormedParams list) :
    ∃ t, paramsToString list = some t ∧
      newURLSearchParams (whatwgSearch special (if t.isEmpty then [] else 63 :: t)) =
        some list := by
  obtain ⟨pairs, hpairs, hlist⟩ := h.points
  subst hlist
  refine ⟨_, paramsToString_form hpairs, ?_⟩
  have hparse := @parseString_formPairs pairs special hpairs
  split
  · rename_i hempty
    -- no text: no pairs
    have hnil : List.intercalate [38] (pairs.map (formPair special)) = [] := by
      rw [← intercalate_quote special hpairs, List.isEmpty_iff.mp hempty]
      rfl
    rw [hnil] at hparse
    have hsearch : whatwgSearch special [] = [] := rfl
    simp only [hsearch, newURLSearchParams, List.head?_nil, reduceCtorEq, if_false, hparse]
  · rename_i hne
    have htext : List.intercalate [38] (pairs.map (formPair false)) ≠ [] :=
      fun hnil => hne (List.isEmpty_iff.mpr hnil)
    rw [whatwgSearch_units special (formPairs_units hpairs) htext,
      intercalate_quote special hpairs]
    simp only [newURLSearchParams, List.head?_cons, if_true, List.drop_succ_cons, List.drop_zero,
      hparse]

end HermesNode.Url
