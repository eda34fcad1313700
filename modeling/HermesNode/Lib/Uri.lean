/-
Module: HermesNode.Lib.Uri
Purpose: Code points of JavaScript strings, UTF-8 encoding, and `encodeURIComponent` and
  `decodeURIComponent` of ECMA-262. A percent-encoded code point decodes to itself in front of any
  text, and what decodes from ASCII is well formed.
Trusted boundary: human-reviewed spec (ECMA-262 URI handling functions)
Main exports: codePoints, scalarValues, decodeFrom_percentPoint, decodeURIComponent_wellFormed
-/
import HermesNode.Lib.Unicode

namespace HermesNode

/-! ### Code points -/

/-- A code point that is no surrogate. -/
def IsScalar (cp : Nat) : Prop := cp < 0xD800 ∨ (0xE000 ≤ cp ∧ cp < 0x110000)

def isHighSurrogate (c : UInt16) : Bool := 0xD800 ≤ c.toNat && c.toNat < 0xDC00

def isLowSurrogate (c : UInt16) : Bool := 0xDC00 ≤ c.toNat && c.toNat < 0xE000

/-- A code unit on its own: a surrogate is no code point. -/
def unitPoint (c : UInt16) : Option Nat :=
  if isHighSurrogate c || isLowSurrogate c then none else some c.toNat

/-- The code points of a string, and where it has an unpaired surrogate. -/
def codePoints : JsString → List (Option Nat)
  | [] => []
  | [c] => [unitPoint c]
  | c :: d :: rest =>
      if isHighSurrogate c && isLowSurrogate d then
        some (0x10000 + (c.toNat - 0xD800) * 0x400 + (d.toNat - 0xDC00)) :: codePoints rest
      else unitPoint c :: codePoints (d :: rest)

/-- The code points of a string without unpaired surrogates. -/
def scalarValues (s : JsString) : Option (List Nat) := (codePoints s).mapM id

theorem unitPoint_eq_some {c : UInt16} {cp : Nat} (h : unitPoint c = some cp) :
    utf16Of cp = [c] ∧ IsScalar cp := by
  unfold unitPoint at h
  split at h
  · cases h
  · rename_i hplain
    cases h
    simp only [isHighSurrogate, isLowSurrogate, Bool.or_eq_true, Bool.and_eq_true,
      decide_eq_true_eq] at hplain
    have hlt := c.toNat_lt
    constructor
    · simp only [utf16Of, if_pos hlt, UInt16.ofNat_toNat]
    · unfold IsScalar
      omega

theorem pairPoint_spec {c d : UInt16} (hc : isHighSurrogate c = true)
    (hd : isLowSurrogate d = true) :
    let cp := 0x10000 + (c.toNat - 0xD800) * 0x400 + (d.toNat - 0xDC00)
    utf16Of cp = [c, d] ∧ IsScalar cp := by
  simp only [isHighSurrogate, isLowSurrogate, Bool.and_eq_true, decide_eq_true_eq] at hc hd
  have hhigh : 0xD800 + (0x10000 + (c.toNat - 0xD800) * 0x400 + (d.toNat - 0xDC00) - 0x10000) /
      0x400 = c.toNat := by
    omega
  have hlow : 0xDC00 + (0x10000 + (c.toNat - 0xD800) * 0x400 + (d.toNat - 0xDC00) - 0x10000) %
      0x400 = d.toNat := by
    omega
  constructor
  · rw [utf16Of, if_neg (by omega), hhigh, hlow, UInt16.ofNat_toNat, UInt16.ofNat_toNat]
  · unfold IsScalar
    omega

theorem mapM_id_cons {x : Option Nat} {xs : List (Option Nat)} {cps : List Nat}
    (h : (x :: xs).mapM id = some cps) :
    ∃ cp rest, x = some cp ∧ xs.mapM id = some rest ∧ cps = cp :: rest := by
  rw [List.mapM_cons] at h
  cases x with
  | none => cases h
  | some cp =>
      cases hrest : xs.mapM id with
      | none =>
          rw [hrest] at h
          cases h
      | some rest =>
          rw [hrest] at h
          cases h
          exact ⟨cp, rest, rfl, rfl, rfl⟩

/-- A string without unpaired surrogates is the code units of its code points. -/
theorem flatMap_of_codePoints {s : JsString} {cps : List Nat}
    (h : (codePoints s).mapM id = some cps) :
    s = cps.flatMap utf16Of ∧ ∀ cp ∈ cps, IsScalar cp := by
  induction s using codePoints.induct generalizing cps with
  | case1 =>
      cases h
      simp
  | case2 c =>
      obtain ⟨cp, rest, hcp, hrest, hcps⟩ := mapM_id_cons h
      cases hrest
      subst hcps
      obtain ⟨hunits, hscalar⟩ := unitPoint_eq_some hcp
      simpa [hunits] using hscalar
  | case3 c d rest hpair ih =>
      rw [codePoints, if_pos hpair] at h
      obtain ⟨cp, cps', hcp, hrest, hcps⟩ := mapM_id_cons h
      subst hcps
      rw [Bool.and_eq_true] at hpair
      have hspec := pairPoint_spec hpair.1 hpair.2
      rw [Option.some.inj hcp] at hspec
      obtain ⟨hunits, hscalar⟩ := hspec
      obtain ⟨hs, hscalars⟩ := ih hrest
      constructor
      · rw [List.flatMap_cons, hunits, ← hs]
        rfl
      · simpa using ⟨hscalar, hscalars⟩
  | case4 c d rest hpair ih =>
      rw [codePoints, if_neg hpair] at h
      obtain ⟨cp, cps', hcp, hrest, hcps⟩ := mapM_id_cons h
      subst hcps
      obtain ⟨hunits, hscalar⟩ := unitPoint_eq_some hcp
      obtain ⟨hs, hscalars⟩ := ih hrest
      constructor
      · rw [List.flatMap_cons, hunits, ← hs]
        rfl
      · simpa using ⟨hscalar, hscalars⟩

theorem codePoints_scalar {s : JsString} {cp : Nat} (h : some cp ∈ codePoints s) : IsScalar cp := by
  induction s using codePoints.induct with
  | case1 => simp [codePoints] at h
  | case2 c =>
      rw [codePoints, List.mem_singleton] at h
      exact (unitPoint_eq_some h.symm).2
  | case3 c d rest hpair ih =>
      rw [codePoints, if_pos hpair] at h
      rw [Bool.and_eq_true] at hpair
      cases List.mem_cons.mp h with
      | inl hfirst =>
          rw [Option.some.inj hfirst]
          exact (pairPoint_spec hpair.1 hpair.2).2
      | inr hrest => exact ih hrest
  | case4 c d rest hpair ih =>
      rw [codePoints, if_neg hpair] at h
      cases List.mem_cons.mp h with
      | inl hfirst => exact (unitPoint_eq_some hfirst.symm).2
      | inr hrest => exact ih hrest

theorem codePoints_utf16Of {cp : Nat} (h : IsScalar cp) (rest : JsString) :
    codePoints (utf16Of cp ++ rest) = some cp :: codePoints rest := by
  unfold IsScalar at h
  unfold utf16Of
  split
  · rename_i hsmall
    have hunit : (UInt16.ofNat cp).toNat = cp := by
      simp [Nat.mod_eq_of_lt hsmall]
    have hhigh : isHighSurrogate (UInt16.ofNat cp) = false := by
      simp only [isHighSurrogate, hunit, Bool.and_eq_false_iff, decide_eq_false_iff_not]
      omega
    have hlow : isLowSurrogate (UInt16.ofNat cp) = false := by
      simp only [isLowSurrogate, hunit, Bool.and_eq_false_iff, decide_eq_false_iff_not]
      omega
    have hpoint : unitPoint (UInt16.ofNat cp) = some cp := by
      simp [unitPoint, hhigh, hlow, hunit]
    cases rest with
    | nil => simp [codePoints, hpoint]
    | cons d rest => simp [codePoints, hhigh, hpoint]
  · rename_i hlarge
    have hc : (UInt16.ofNat (0xD800 + (cp - 0x10000) / 0x400)).toNat =
        0xD800 + (cp - 0x10000) / 0x400 := by
      rw [UInt16.toNat_ofNat']
      omega
    have hd : (UInt16.ofNat (0xDC00 + (cp - 0x10000) % 0x400)).toNat =
        0xDC00 + (cp - 0x10000) % 0x400 := by
      rw [UInt16.toNat_ofNat']
      omega
    have hhigh : isHighSurrogate (UInt16.ofNat (0xD800 + (cp - 0x10000) / 0x400)) = true := by
      simp only [isHighSurrogate, hc, Bool.and_eq_true, decide_eq_true_eq]
      omega
    have hlow : isLowSurrogate (UInt16.ofNat (0xDC00 + (cp - 0x10000) % 0x400)) = true := by
      simp only [isLowSurrogate, hd, Bool.and_eq_true, decide_eq_true_eq]
      omega
    have hcp : 0x10000 + (0xD800 + (cp - 0x10000) / 0x400 - 0xD800) * 0x400 +
        (0xDC00 + (cp - 0x10000) % 0x400 - 0xDC00) = cp := by
      omega
    simp only [List.cons_append, List.nil_append, codePoints, hhigh, hlow, Bool.and_self, if_true,
      hc, hd, hcp]

theorem codePoints_flatMap {cps : List Nat} (h : ∀ cp ∈ cps, IsScalar cp) :
    codePoints (cps.flatMap utf16Of) = cps.map some := by
  induction cps with
  | nil => rfl
  | cons cp cps ih =>
      rw [List.flatMap_cons, codePoints_utf16Of (h cp List.mem_cons_self),
        ih fun c hc => h c (List.mem_cons_of_mem _ hc), List.map_cons]

theorem scalarValues_eq_some {s : JsString} {cps : List Nat} :
    scalarValues s = some cps ↔ s = cps.flatMap utf16Of ∧ ∀ cp ∈ cps, IsScalar cp := by
  constructor
  · exact flatMap_of_codePoints
  · intro h
    obtain ⟨hs, hscalars⟩ := h
    rw [scalarValues, hs, codePoints_flatMap hscalars]
    clear hs hscalars
    induction cps with
    | nil => rfl
    | cons cp cps ih =>
        rw [List.map_cons, List.mapM_cons, ih]
        rfl

/-- The string has no unpaired surrogate. -/
def isWellFormed (s : JsString) : Bool := (scalarValues s).isSome

theorem isWellFormed_iff {s : JsString} :
    isWellFormed s = true ↔ ∃ cps : List Nat, s = cps.flatMap utf16Of ∧
      ∀ cp ∈ cps, IsScalar cp := by
  rw [isWellFormed, Option.isSome_iff_exists]
  constructor
  · intro h
    obtain ⟨cps, hcps⟩ := h
    exact ⟨cps, scalarValues_eq_some.mp hcps⟩
  · intro h
    obtain ⟨cps, hcps⟩ := h
    exact ⟨cps, scalarValues_eq_some.mpr hcps⟩

theorem isWellFormed_append {s t : JsString} (hs : isWellFormed s = true)
    (ht : isWellFormed t = true) : isWellFormed (s ++ t) = true := by
  obtain ⟨cps, rfl, hcps⟩ := isWellFormed_iff.mp hs
  obtain ⟨cps', rfl, hcps'⟩ := isWellFormed_iff.mp ht
  apply isWellFormed_iff.mpr
  refine ⟨cps ++ cps', by rw [List.flatMap_append], ?_⟩
  intro cp hcp
  cases List.mem_append.mp hcp with
  | inl h => exact hcps cp h
  | inr h => exact hcps' cp h

theorem isWellFormed_utf16Of {cp : Nat} (h : IsScalar cp) : isWellFormed (utf16Of cp) = true :=
  isWellFormed_iff.mpr ⟨[cp], by simp, by simpa using h⟩

/-! ### Percent encoding -/

/-- The UTF-8 bytes of a code point. -/
def utf8Of (cp : Nat) : List Nat :=
  if cp < 0x80 then [cp]
  else if cp < 0x800 then [0xC0 + cp / 64, 0x80 + cp % 64]
  else if cp < 0x10000 then [0xE0 + cp / 4096, 0x80 + cp / 64 % 64, 0x80 + cp % 64]
  else [0xF0 + cp / 262144, 0x80 + cp / 4096 % 64, 0x80 + cp / 64 % 64, 0x80 + cp % 64]

def upperHexDigit (d : Nat) : UInt16 := if d < 10 then UInt16.ofNat (48 + d) else UInt16.ofNat (55 + d)

/-- A byte as a percent sign and two upper-case digits. -/
def percentByte (b : Nat) : JsString := [37, upperHexDigit (b / 16), upperHexDigit (b % 16)]

def percentPoint (cp : Nat) : JsString := (utf8Of cp).flatMap percentByte

def hexValue (c : UInt16) : Option Nat :=
  if 48 ≤ c.toNat ∧ c.toNat ≤ 57 then some (c.toNat - 48)
  else if 65 ≤ c.toNat ∧ c.toNat ≤ 70 then some (c.toNat - 55)
  else if 97 ≤ c.toNat ∧ c.toNat ≤ 102 then some (c.toNat - 87)
  else none

def hexByte (high low : UInt16) : Option UInt8 := do
  let h ← hexValue high
  let l ← hexValue low
  pure (UInt8.ofNat (h * 16 + l))

/-- The characters `encodeURIComponent` leaves as they are: letters, digits and `-_.!~*'()`. -/
def isUnescaped (cp : Nat) : Bool :=
  (65 ≤ cp && cp ≤ 90) || (97 ≤ cp && cp ≤ 122) || (48 ≤ cp && cp ≤ 57) ||
    [45, 95, 46, 33, 126, 42, 39, 40, 41].contains cp

def encodePoint (cp : Nat) : JsString :=
  if isUnescaped cp then [UInt16.ofNat cp] else percentPoint cp

/-- `encodeURIComponent`; there is none for a string with an unpaired surrogate. -/
def encodeURIComponent (s : JsString) : Option JsString :=
  (scalarValues s).map fun cps => cps.flatMap encodePoint

/-- A byte of a UTF-8 sequence, where it must be one. -/
def utf8Strict (pending : Option Pending) (b : UInt8) : Option (Option Pending × JsString) :=
  match pending with
  | none => if b.toNat < 0x80 || (utf8Start b).1.isSome then some (utf8Start b) else none
  | some p =>
      if p.lower ≤ b.toNat ∧ b.toNat ≤ p.upper then some (utf8Step (some p) b) else none

/-- The rest of a string, behind the escapes of a sequence that lacks bytes. -/
def decodeFrom : Option Pending → JsString → Option JsString
  | pending, [] => if pending.isSome then none else some []
  | pending, c :: rest =>
      if c = 37 then
        match rest with
        | high :: low :: rest => do
            let b ← hexByte high low
            let next ← utf8Strict pending b
            let decoded ← decodeFrom next.1 rest
            pure (next.2 ++ decoded)
        | _ => none
      else if pending.isSome then none
      else do
        let decoded ← decodeFrom none rest
        pure (c :: decoded)

/-- `decodeURIComponent`; there is none for a malformed escape or sequence. -/
def decodeURIComponent (s : JsString) : Option JsString := decodeFrom none s

example : decodeURIComponent [37, 69, 50, 37, 56, 50, 37, 97, 99, 33] = some [0x20AC, 33] := by
  decide

/-- The bytes of a code point: itself, or bytes that are not ASCII. -/
theorem utf8Of_bytes {cp b : Nat} (h : IsScalar cp) (hb : b ∈ utf8Of cp) :
    b = cp ∧ cp < 0x80 ∨ 0x80 ≤ b ∧ b < 256 := by
  unfold IsScalar at h
  unfold utf8Of at hb
  split at hb
  · simp only [List.mem_singleton] at hb
    omega
  · split at hb
    · simp only [List.mem_cons, List.not_mem_nil, or_false] at hb
      omega
    · split at hb
      · simp only [List.mem_cons, List.not_mem_nil, or_false] at hb
        omega
      · simp only [List.mem_cons, List.not_mem_nil, or_false] at hb
        omega

theorem utf8Of_lt {cp b : Nat} (h : IsScalar cp) (hb : b ∈ utf8Of cp) : b < 256 := by
  have hbytes := utf8Of_bytes h hb
  omega

theorem hexValue_upperHexDigit : ∀ d < 16, hexValue (upperHexDigit d) = some d := by
  decide

theorem hexByte_percent {b : Nat} (h : b < 256) :
    hexByte (upperHexDigit (b / 16)) (upperHexDigit (b % 16)) = some (UInt8.ofNat b) := by
  have hhigh := hexValue_upperHexDigit (b / 16) (by omega)
  have hlow := hexValue_upperHexDigit (b % 16) (by omega)
  have hb : b / 16 * 16 + b % 16 = b := by
    omega
  simp only [hexByte, hhigh, hlow, Option.bind_eq_bind, Option.bind_some, Option.pure_def, hb]

theorem decodeFrom_percentByte (pending : Option Pending) {b : Nat} (h : b < 256)
    (rest : JsString) :
    decodeFrom pending (percentByte b ++ rest) =
      (utf8Strict pending (UInt8.ofNat b)).bind fun next =>
        (decodeFrom next.1 rest).map (next.2 ++ ·) := by
  simp only [percentByte, List.cons_append, List.nil_append, decodeFrom, if_true,
    hexByte_percent h, Option.bind_eq_bind, Option.bind_some, Option.pure_def]
  cases utf8Strict pending (UInt8.ofNat b) with
  | none => rfl
  | some next =>
      simp only [Option.bind_some]
      cases decodeFrom next.1 rest <;> rfl

theorem decodeFrom_literal {c : UInt16} (h : c ≠ 37) (rest : JsString) :
    decodeFrom none (c :: rest) = (decodeFrom none rest).map (c :: ·) := by
  rw [decodeFrom.eq_def]
  simp only [if_neg h, Option.isSome_none, Bool.false_eq_true, if_false]
  cases decodeFrom none rest <;> rfl

/-- The last byte of a sequence. -/
theorem utf8Strict_last {p : Pending} {b : Nat} (hneeded : p.needed = 1) (hb : b < 256)
    (hlower : p.lower ≤ b) (hupper : b ≤ p.upper) :
    utf8Strict (some p) (UInt8.ofNat b) = some (none, utf16Of (p.codePoint * 64 + b % 64)) := by
  have hbyte : (UInt8.ofNat b).toNat = b := by
    simp [Nat.mod_eq_of_lt hb]
  simp [utf8Strict, utf8Step, hbyte, hlower, hupper, hneeded]

/-- A byte in the middle of a sequence. -/
theorem utf8Strict_middle {p : Pending} {b : Nat} (hneeded : 1 < p.needed) (hb : b < 256)
    (hlower : p.lower ≤ b) (hupper : b ≤ p.upper) :
    ∃ q : Pending, utf8Strict (some p) (UInt8.ofNat b) = some (some q, []) ∧
      q.needed = p.needed - 1 ∧ q.lower = 0x80 ∧ q.upper = 0xBF ∧
      q.codePoint = p.codePoint * 64 + b % 64 := by
  have hbyte : (UInt8.ofNat b).toNat = b := by
    simp [Nat.mod_eq_of_lt hb]
  simp only [utf8Strict, utf8Step, hbyte, hlower, hupper, hneeded, and_self, if_true, dif_pos]
  exact ⟨_, rfl, rfl, rfl, rfl, rfl⟩

theorem decodeFrom_lacking {pending q : Option Pending} {b : Nat} (hb : b < 256)
    (h : utf8Strict pending (UInt8.ofNat b) = some (q, [])) (rest : JsString) :
    decodeFrom pending (percentByte b ++ rest) = decodeFrom q rest := by
  rw [decodeFrom_percentByte pending hb, h, Option.bind_some]
  cases decodeFrom q rest <;> rfl

theorem decodeFrom_complete {p : Pending} {b cp : Nat} (hneeded : p.needed = 1) (hb : b < 256)
    (hlower : p.lower ≤ b) (hupper : b ≤ p.upper) (hcp : p.codePoint * 64 + b % 64 = cp)
    (rest : JsString) :
    decodeFrom (some p) (percentByte b ++ rest) = (decodeFrom none rest).map (utf16Of cp ++ ·) := by
  rw [decodeFrom_percentByte (some p) hb, utf8Strict_last hneeded hb hlower hupper,
    Option.bind_some, hcp]

theorem utf8Strict_ascii {b : Nat} (hb : b < 0x80) :
    utf8Strict none (UInt8.ofNat b) = some (none, [UInt16.ofNat b]) := by
  have hbyte : (UInt8.ofNat b).toNat = b := by
    simp
    omega
  simp [utf8Strict, utf8Start, hbyte, hb]

theorem utf8Strict_two {cp : Nat} (hlow : 0x80 ≤ cp) (hhigh : cp < 0x800) :
    ∃ p : Pending, utf8Strict none (UInt8.ofNat (0xC0 + cp / 64)) = some (some p, []) ∧
      p.needed = 1 ∧ p.lower = 0x80 ∧ p.upper = 0xBF ∧ p.codePoint = cp / 64 := by
  have hbyte : (UInt8.ofNat (0xC0 + cp / 64)).toNat = 0xC0 + cp / 64 := by
    rw [UInt8.toNat_ofNat']
    omega
  have hcode : (0xC0 + cp / 64) % 32 = cp / 64 := by
    omega
  have hclass : 0xC2 ≤ 0xC0 + cp / 64 ∧ 0xC0 + cp / 64 ≤ 0xDF := by
    omega
  have hstart : ¬ 0xC0 + cp / 64 < 0x80 := by
    omega
  simp only [utf8Strict, utf8Start, hbyte, if_neg hstart, if_pos hclass, Option.isSome_some,
    Bool.or_true, if_true]
  exact ⟨_, rfl, rfl, rfl, rfl, hcode⟩

/-- The lead of three bytes: the range of the second one keeps overlong forms and surrogates out. -/
theorem utf8Strict_three {cp : Nat} (hlow : 0x800 ≤ cp) (hhigh : cp < 0x10000)
    (hscalar : IsScalar cp) :
    ∃ p : Pending, utf8Strict none (UInt8.ofNat (0xE0 + cp / 4096)) = some (some p, []) ∧
      p.needed = 2 ∧ p.lower ≤ 0x80 + cp / 64 % 64 ∧ 0x80 + cp / 64 % 64 ≤ p.upper ∧
      p.codePoint = cp / 4096 := by
  unfold IsScalar at hscalar
  have hbyte : (UInt8.ofNat (0xE0 + cp / 4096)).toNat = 0xE0 + cp / 4096 := by
    rw [UInt8.toNat_ofNat']
    omega
  simp only [utf8Strict, utf8Start, hbyte, if_neg (by omega : ¬ 0xE0 + cp / 4096 < 0x80),
    if_neg (by omega : ¬ (0xC2 ≤ 0xE0 + cp / 4096 ∧ 0xE0 + cp / 4096 ≤ 0xDF))]
  by_cases hfirst : 0xE0 + cp / 4096 = 0xE0
  · simp only [if_pos hfirst, Option.isSome_some, Bool.or_true, if_true]
    exact ⟨_, rfl, rfl, by simp only; omega, by simp only; omega, by simp only; omega⟩
  · simp only [if_neg hfirst]
    by_cases hsurrogate : 0xE0 + cp / 4096 = 0xED
    · simp only [if_pos hsurrogate, Option.isSome_some, Bool.or_true, if_true]
      exact ⟨_, rfl, rfl, by simp only; omega, by simp only; omega, by simp only; omega⟩
    · simp only [if_neg hsurrogate,
        if_pos (by omega : 0xE1 ≤ 0xE0 + cp / 4096 ∧ 0xE0 + cp / 4096 ≤ 0xEF),
        Option.isSome_some, Bool.or_true, if_true]
      exact ⟨_, rfl, rfl, by simp only; omega, by simp only; omega, by simp only; omega⟩

theorem utf8Strict_four {cp : Nat} (hlow : 0x10000 ≤ cp) (hhigh : cp < 0x110000) :
    ∃ p : Pending, utf8Strict none (UInt8.ofNat (0xF0 + cp / 262144)) = some (some p, []) ∧
      p.needed = 3 ∧ p.lower ≤ 0x80 + cp / 4096 % 64 ∧ 0x80 + cp / 4096 % 64 ≤ p.upper ∧
      p.codePoint = cp / 262144 := by
  have hbyte : (UInt8.ofNat (0xF0 + cp / 262144)).toNat = 0xF0 + cp / 262144 := by
    rw [UInt8.toNat_ofNat']
    omega
  simp only [utf8Strict, utf8Start, hbyte, if_neg (by omega : ¬ 0xF0 + cp / 262144 < 0x80),
    if_neg (by omega : ¬ (0xC2 ≤ 0xF0 + cp / 262144 ∧ 0xF0 + cp / 262144 ≤ 0xDF)),
    if_neg (by omega : ¬ 0xF0 + cp / 262144 = 0xE0),
    if_neg (by omega : ¬ 0xF0 + cp / 262144 = 0xED),
    if_neg (by omega : ¬ (0xE1 ≤ 0xF0 + cp / 262144 ∧ 0xF0 + cp / 262144 ≤ 0xEF))]
  by_cases hfirst : 0xF0 + cp / 262144 = 0xF0
  · simp only [if_pos hfirst, Option.isSome_some, Bool.or_true, if_true]
    exact ⟨_, rfl, rfl, by simp only; omega, by simp only; omega, by simp only; omega⟩
  · simp only [if_neg hfirst]
    by_cases hlast : 0xF0 + cp / 262144 = 0xF4
    · simp only [if_pos hlast, Option.isSome_some, Bool.or_true, if_true]
      exact ⟨_, rfl, rfl, by simp only; omega, by simp only; omega, by simp only; omega⟩
    · simp only [if_neg hlast,
        if_pos (by omega : 0xF1 ≤ 0xF0 + cp / 262144 ∧ 0xF0 + cp / 262144 ≤ 0xF3),
        Option.isSome_some, Bool.or_true, if_true]
      exact ⟨_, rfl, rfl, by simp only; omega, by simp only; omega, by simp only; omega⟩

/-- A percent-encoded code point decodes to its code units, whatever follows. -/
theorem decodeFrom_percentPoint {cp : Nat} (h : IsScalar cp) (rest : JsString) :
    decodeFrom none (percentPoint cp ++ rest) = (decodeFrom none rest).map (utf16Of cp ++ ·) := by
  have hrange : cp < 0x110000 := by
    unfold IsScalar at h
    omega
  unfold percentPoint utf8Of
  split
  · rename_i hone
    simp only [List.flatMap_cons, List.flatMap_nil, List.append_nil]
    rw [decodeFrom_percentByte none (by omega), utf8Strict_ascii hone, Option.bind_some, utf16Of,
      if_pos (by omega)]
  · rename_i hone
    split
    · rename_i htwo
      obtain ⟨p, hlead, hneeded, hlower, hupper, hcode⟩ := utf8Strict_two (by omega) htwo
      simp only [List.flatMap_cons, List.flatMap_nil, List.append_nil, List.append_assoc]
      rw [decodeFrom_lacking (by omega) hlead]
      exact decodeFrom_complete hneeded (by omega) (by omega) (by omega) (by omega) rest
    · rename_i htwo
      split
      · rename_i hthree
        obtain ⟨p, hlead, hneeded, hlower, hupper, hcode⟩ :=
          utf8Strict_three (by omega) hthree h
        obtain ⟨q, hmiddle, hneeded', hlower', hupper', hcode'⟩ :=
          utf8Strict_middle (by omega : 1 < p.needed) (by omega) hlower hupper
        simp only [List.flatMap_cons, List.flatMap_nil, List.append_nil, List.append_assoc]
        rw [decodeFrom_lacking (by omega) hlead, decodeFrom_lacking (by omega) hmiddle]
        exact decodeFrom_complete (by omega) (by omega) (by omega) (by omega) (by omega) rest
      · rename_i hthree
        obtain ⟨p, hlead, hneeded, hlower, hupper, hcode⟩ :=
          utf8Strict_four (by omega) hrange
        obtain ⟨q, hmiddle, hneeded', hlower', hupper', hcode'⟩ :=
          utf8Strict_middle (by omega : 1 < p.needed) (by omega) hlower hupper
        obtain ⟨r, hmiddle', hneeded'', hlower'', hupper'', hcode''⟩ :=
          utf8Strict_middle (by omega : 1 < q.needed) (by omega : 0x80 + cp / 64 % 64 < 256)
            (by omega) (by omega)
        simp only [List.flatMap_cons, List.flatMap_nil, List.append_nil, List.append_assoc]
        rw [decodeFrom_lacking (by omega) hlead, decodeFrom_lacking (by omega) hmiddle,
          decodeFrom_lacking (by omega) hmiddle']
        exact decodeFrom_complete (by omega) (by omega) (by omega) (by omega) (by omega) rest

/-! ### What decodes is well formed -/

/-- Where the next byte of a pending sequence takes its code point: the bytes behind it only make
code points of it. -/
def Pending.Completes (p : Pending) : Prop :=
  ∀ b, p.lower ≤ b → b ≤ p.upper →
    (p.needed = 1 → IsScalar (p.codePoint * 64 + b % 64)) ∧
    (p.needed = 2 → p.codePoint * 64 + b % 64 < 0x360 ∨
      (0x380 ≤ p.codePoint * 64 + b % 64 ∧ p.codePoint * 64 + b % 64 < 0x4400)) ∧
    (p.needed = 3 → 0x10 ≤ p.codePoint * 64 + b % 64 ∧ p.codePoint * 64 + b % 64 < 0x110)

/-- What a byte leaves pending completes, and what it gives is well formed. -/
def Sound (next : Option Pending × JsString) : Prop :=
  (∀ p, next.1 = some p → p.Completes) ∧ isWellFormed next.2 = true

theorem isWellFormed_nil : isWellFormed [] = true := rfl

theorem isWellFormed_ascii {c : UInt16} (h : c.toNat < 0x80) : isWellFormed [c] = true := by
  have hscalar : IsScalar c.toNat := Or.inl (by omega)
  have hunits : utf16Of c.toNat = [c] := by
    rw [utf16Of, if_pos c.toNat_lt, UInt16.ofNat_toNat]
  rw [← hunits]
  exact isWellFormed_utf16Of hscalar

theorem utf8Strict_continue_sound {p : Pending} {b : UInt8} {next : Option Pending × JsString}
    (hp : p.Completes) (h : utf8Strict (some p) b = some next) : Sound next := by
  unfold utf8Strict at h
  simp only at h
  split at h
  · rename_i hin
    obtain ⟨hone, htwo, hthree⟩ := hp b.toNat hin.1 hin.2
    have hle := p.needed_le
    have hpos := p.needed_pos
    simp only [utf8Step, if_pos hin] at h
    split at h
    · rename_i hmore
      cases h
      refine ⟨?_, isWellFormed_nil⟩
      intro q hq
      cases hq
      intro c hlower hupper
      simp only at hlower hupper ⊢
      unfold IsScalar
      refine ⟨?_, ?_, ?_⟩
      · intro hneeded
        have hnext := htwo (by omega)
        omega
      · intro hneeded
        have hnext := hthree (by omega)
        omega
      · intro hneeded
        omega
    · cases h
      refine ⟨?_, isWellFormed_utf16Of (hone (by omega))⟩
      intro q hq
      cases hq
  · cases h

theorem sound_pending {p : Pending} (h : p.Completes) : Sound (some p, []) := by
  refine ⟨?_, isWellFormed_nil⟩
  intro q hq
  cases hq
  exact h

theorem utf8Strict_start_sound {b : UInt8} {next : Option Pending × JsString}
    (h : utf8Strict none b = some next) : Sound next := by
  unfold utf8Strict at h
  simp only at h
  split at h
  · rename_i hvalid
    cases h
    have hb := b.toNat_lt
    unfold utf8Start at hvalid ⊢
    simp only at hvalid ⊢
    split
    · rename_i hascii
      refine ⟨(fun q hq => by cases hq), isWellFormed_ascii ?_⟩
      rw [UInt16.toNat_ofNat']
      omega
    · rename_i hascii
      -- one class of lead bytes after the other
      split
      · apply sound_pending
        intro c hlower hupper
        simp only at hlower hupper ⊢
        unfold IsScalar
        omega
      · split
        · apply sound_pending
          intro c hlower hupper
          simp only at hlower hupper ⊢
          unfold IsScalar
          omega
        · split
          · apply sound_pending
            intro c hlower hupper
            simp only at hlower hupper ⊢
            unfold IsScalar
            omega
          · split
            · apply sound_pending
              intro c hlower hupper
              simp only at hlower hupper ⊢
              unfold IsScalar
              omega
            · split
              · apply sound_pending
                intro c hlower hupper
                simp only at hlower hupper ⊢
                unfold IsScalar
                omega
              · split
                · apply sound_pending
                  intro c hlower hupper
                  simp only at hlower hupper ⊢
                  unfold IsScalar
                  omega
                · split
                  · apply sound_pending
                    intro c hlower hupper
                    simp only at hlower hupper ⊢
                    unfold IsScalar
                    omega
                  · simp [*] at hvalid
  · cases h

theorem decodeFrom_wellFormed {pending : Option Pending} {s decoded : JsString}
    (hpending : ∀ p, pending = some p → p.Completes) (hs : ∀ c ∈ s, c.toNat < 0x80)
    (h : decodeFrom pending s = some decoded) : isWellFormed decoded = true := by
  induction pending, s using decodeFrom.induct generalizing decoded with
  | case1 pending hsome =>
      rw [decodeFrom, if_pos hsome] at h
      cases h
  | case2 pending hnone =>
      rw [decodeFrom, if_neg hnone] at h
      cases h
      exact isWellFormed_nil
  | case3 pending high low rest ih =>
      simp only [decodeFrom, if_true, Option.bind_eq_bind, Option.bind_eq_some_iff,
        Option.pure_def, Option.some.injEq] at h
      obtain ⟨b, _, next, hnext, tail, htail, hdecoded⟩ := h
      have hsound : Sound next := by
        cases pending with
        | none => exact utf8Strict_start_sound hnext
        | some p => exact utf8Strict_continue_sound (hpending p rfl) hnext
      have hrest : ∀ c ∈ rest, c.toNat < 0x80 := by
        intro c hc
        exact hs c (by simp [hc])
      rw [← hdecoded]
      exact isWellFormed_append hsound.2 (ih next hsound.1 hrest htail)
  | case4 pending rest hshort =>
      rw [decodeFrom.eq_def] at h
      simp only [if_true] at h
      cases h
  | case5 pending c rest hc hsome =>
      rw [decodeFrom.eq_def] at h
      simp only [if_neg hc, if_pos hsome] at h
      cases h
  | case6 pending c rest hc hnone ih =>
      rw [Option.not_isSome_iff_eq_none] at hnone
      subst hnone
      rw [decodeFrom_literal hc, Option.map_eq_some_iff] at h
      obtain ⟨tail, htail, hdecoded⟩ := h
      have hrest : ∀ d ∈ rest, d.toNat < 0x80 := fun d hd => hs d (List.mem_cons_of_mem _ hd)
      have hlead := isWellFormed_ascii (hs c List.mem_cons_self)
      rw [← hdecoded]
      exact isWellFormed_append hlead (ih (fun p hp => by cases hp) hrest htail)

theorem decodeURIComponent_wellFormed {s decoded : JsString} (hs : ∀ c ∈ s, c.toNat < 0x80)
    (h : decodeURIComponent s = some decoded) : isWellFormed decoded = true :=
  decodeFrom_wellFormed (fun p hp => by cases hp) hs h

end HermesNode
