/-
Module: HermesNode.Lib.Utf8
Purpose: UTF-8 as a code. The bytes of code points are the well-formed ones; a decoder that stops at
  the first byte in the wrong place reads exactly these, and reads them as the replacing decoder does.
  Also what the replacing decoder makes of a text that is cut short.
Trusted boundary: none
Main exports: utf8Char, strictFrom, decodeUtf8_chars, decodeUtf8_append_eq_iff
-/
import HermesNode.Lib.Uri

namespace HermesNode

/-- The bytes of a code point. -/
def utf8Char (cp : Nat) : Bytes := (utf8Of cp).map UInt8.ofNat

/-- The text of some bytes, behind a sequence that lacks bytes; there is none where a byte is not in
its place. -/
def strictFrom : Option Pending → Bytes → Option JsString
  | pending, [] => if pending.isSome then none else some []
  | pending, b :: bs =>
      (utf8Strict pending b).bind fun next => (strictFrom next.1 bs).map (next.2 ++ ·)

/-! ### Code points -/

theorem decodeFrom_percentBytes (pending : Option Pending) (bs : Bytes) :
    decodeFrom pending (bs.flatMap fun b => percentByte b.toNat) = strictFrom pending bs := by
  induction bs generalizing pending with
  | nil =>
      rw [List.flatMap_nil, decodeFrom, strictFrom]
  | cons b bs ih =>
      rw [List.flatMap_cons, decodeFrom_percentByte pending b.toNat_lt, strictFrom,
        UInt8.ofNat_toNat]
      simp only [ih]

theorem percentPoint_eq {cp : Nat} (h : IsScalar cp) :
    percentPoint cp = (utf8Char cp).flatMap fun b => percentByte b.toNat := by
  unfold percentPoint utf8Char
  rw [List.flatMap_map]
  apply List.flatMap_congr
  intro b hb
  have hlt := utf8Of_lt h hb
  rw [UInt8.toNat_ofNat', Nat.mod_eq_of_lt hlt]

/-- A code point is read on its own. -/
theorem strictFrom_char {cp : Nat} (h : IsScalar cp) (rest : Bytes) :
    strictFrom none (utf8Char cp ++ rest) = (strictFrom none rest).map (utf16Of cp ++ ·) := by
  rw [← decodeFrom_percentBytes, List.flatMap_append, ← percentPoint_eq h,
    decodeFrom_percentPoint h, decodeFrom_percentBytes]

/-- What is decoded one code point after the other. -/
theorem strictFrom_flatMap {f : Nat → Bytes} {g : Nat → JsString}
    (hone : ∀ cp, IsScalar cp → ∀ rest,
      strictFrom none (f cp ++ rest) = (strictFrom none rest).map (g cp ++ ·))
    {cps : List Nat} (h : ∀ cp ∈ cps, IsScalar cp) (rest : Bytes) :
    strictFrom none (cps.flatMap f ++ rest) = (strictFrom none rest).map (cps.flatMap g ++ ·) := by
  induction cps with
  | nil => cases hrest : strictFrom none rest <;> simp [hrest]
  | cons cp cps ih =>
      rw [List.flatMap_cons, List.append_assoc, hone cp (h cp List.mem_cons_self),
        ih fun c hc => h c (List.mem_cons_of_mem _ hc), List.flatMap_cons, Option.map_map]
      congr 1
      funext t
      simp

theorem strictFrom_chars {cps : List Nat} (h : ∀ cp ∈ cps, IsScalar cp) (rest : Bytes) :
    strictFrom none (cps.flatMap utf8Char ++ rest) =
      (strictFrom none rest).map (cps.flatMap utf16Of ++ ·) :=
  strictFrom_flatMap (fun _ hcp => strictFrom_char hcp) h rest

/-! ### The replacing decoder -/

variable {pending : Option Pending}

theorem utf8Strict_step {b : UInt8} {next : Option Pending × JsString}
    (h : utf8Strict pending b = some next) : next = utf8Step pending b := by
  unfold utf8Strict at h
  cases pending with
  | none =>
      simp only at h
      split at h
      · exact (Option.some.inj h).symm
      · cases h
  | some p =>
      simp only at h
      split at h
      · exact (Option.some.inj h).symm
      · cases h

variable {s : JsString}

/-- What is read without an error is read by the replacing decoder. -/
theorem strictFrom_decode {bs : Bytes}
    (h : strictFrom pending bs = some s) :
    (utf8Run pending bs).2 ++ utf8Finish (utf8Run pending bs).1 = s := by
  induction bs generalizing pending s with
  | nil =>
      cases pending with
      | none => simpa [strictFrom, utf8Run, utf8Finish] using h
      | some p => simp [strictFrom] at h
  | cons b bs ih =>
      rw [strictFrom, Option.bind_eq_some_iff] at h
      obtain ⟨next, hnext, hrest⟩ := h
      obtain ⟨t, ht, hs⟩ := Option.map_eq_some_iff.mp hrest
      rw [utf8Strict_step hnext] at ht hs
      rw [utf8Run, ← hs, ← ih ht, List.append_assoc]

theorem decodeUtf8_chars {cps : List Nat} (h : ∀ cp ∈ cps, IsScalar cp) :
    decodeUtf8 (cps.flatMap utf8Char) = cps.flatMap utf16Of := by
  apply strictFrom_decode
  have hchars := strictFrom_chars h []
  simpa [strictFrom] using hchars

/-! ### Well-formed bytes -/

theorem utf8Behind_two {a : UInt8} (ha : 0xC2 ≤ a.toNat ∧ a.toNat ≤ 0xDF) (b : UInt8)
    (rest : Bytes) : utf8Behind a (b :: rest) = (isTail b && isUtf8 rest) := by
  match rest with
  | [] => simp [utf8Behind, ha, isUtf8]
  | [c] => simp [utf8Behind, ha]
  | c :: d :: rest => simp [utf8Behind, ha]

theorem utf8Behind_three {a : UInt8} (ha : 0xE0 ≤ a.toNat ∧ a.toNat ≤ 0xEF) (b c : UInt8)
    (rest : Bytes) :
    utf8Behind a (b :: c :: rest) = (isUtf8.secondOk a b && isTail c && isUtf8 rest) := by
  have htwo : ¬ a.toNat ≤ 0xDF := by omega
  match rest with
  | [] => simp [utf8Behind, ha, htwo, isUtf8]
  | d :: rest => simp [utf8Behind, ha, htwo]

theorem utf8Behind_four {a : UInt8} (ha : 0xF0 ≤ a.toNat ∧ a.toNat ≤ 0xF4) (b c d : UInt8)
    (rest : Bytes) :
    utf8Behind a (b :: c :: d :: rest) =
      (isUtf8.secondOk a b && isTail c && isTail d && isUtf8 rest) := by
  have htwo : ¬ a.toNat ≤ 0xDF := by omega
  have hthree : ¬ a.toNat ≤ 0xEF := by omega
  simp [utf8Behind, ha, htwo, hthree]

/-- What stands behind a lead byte that is no ASCII. -/
theorem utf8Behind_inv {a : UInt8} {rest : Bytes} (h : utf8Behind a rest = true) :
    (∃ b behind, rest = b :: behind ∧ (0xC2 ≤ a.toNat ∧ a.toNat ≤ 0xDF) ∧ isTail b = true ∧
      isUtf8 behind = true) ∨
    (∃ b c behind, rest = b :: c :: behind ∧ (0xE0 ≤ a.toNat ∧ a.toNat ≤ 0xEF) ∧
      isUtf8.secondOk a b = true ∧ isTail c = true ∧ isUtf8 behind = true) ∨
    ∃ b c d behind, rest = b :: c :: d :: behind ∧ (0xF0 ≤ a.toNat ∧ a.toNat ≤ 0xF4) ∧
      isUtf8.secondOk a b = true ∧ isTail c = true ∧ isTail d = true ∧ isUtf8 behind = true := by
  by_cases htwo : 0xC2 ≤ a.toNat ∧ a.toNat ≤ 0xDF
  · left
    rcases rest with _ | ⟨b, behind⟩
    · simp [utf8Behind] at h
    · rw [utf8Behind_two htwo, Bool.and_eq_true] at h
      exact ⟨b, behind, rfl, htwo, h.1, h.2⟩
  · have htwo' : ¬ ((0xC2 ≤ a.toNat && a.toNat ≤ 0xDF) = true) := by simpa using htwo
    by_cases hthree : 0xE0 ≤ a.toNat ∧ a.toNat ≤ 0xEF
    · right
      left
      rcases rest with _ | ⟨b, _ | ⟨c, behind⟩⟩
      · simp [utf8Behind] at h
      · rw [utf8Behind, Bool.and_eq_true] at h
        exact absurd h.1 htwo'
      · rw [utf8Behind_three hthree, Bool.and_eq_true, Bool.and_eq_true] at h
        exact ⟨b, c, behind, rfl, hthree, h.1.1, h.1.2, h.2⟩
    · have hthree' : ¬ ((0xE0 ≤ a.toNat && a.toNat ≤ 0xEF) = true) := by simpa using hthree
      right
      right
      rcases rest with _ | ⟨b, _ | ⟨c, _ | ⟨d, behind⟩⟩⟩
      · simp [utf8Behind] at h
      · rw [utf8Behind, Bool.and_eq_true] at h
        exact absurd h.1 htwo'
      · rw [utf8Behind, if_neg htwo', Bool.and_eq_true, Bool.and_eq_true] at h
        exact absurd h.1.1 hthree'
      · rw [utf8Behind, if_neg htwo', if_neg hthree'] at h
        simp only [Bool.and_eq_true, decide_eq_true_eq] at h
        exact ⟨b, c, d, behind, rfl, h.1.1.1.1, h.1.1.1.2, h.1.1.2, h.1.2, h.2⟩

theorem secondOk_iff {a b : UInt8} :
    isUtf8.secondOk a b = true ↔ 0x80 ≤ b.toNat ∧ b.toNat ≤ 0xBF ∧
      (a.toNat = 0xE0 → 0xA0 ≤ b.toNat) ∧ (a.toNat = 0xED → b.toNat < 0xA0) ∧
      (a.toNat = 0xF0 → 0x90 ≤ b.toNat) ∧ (a.toNat = 0xF4 → b.toNat < 0x90) := by
  have heq : ∀ n : UInt8, a = n ↔ a.toNat = n.toNat := fun n => UInt8.toNat_inj.symm
  simp only [isUtf8.secondOk, isTail, Bool.and_eq_true, decide_eq_true_eq, Bool.not_eq_true',
    Bool.and_eq_false_iff, beq_eq_false_iff_ne, decide_eq_false_iff_not, ne_eq, heq,
    show (0xE0 : UInt8).toNat = 0xE0 from rfl, show (0xED : UInt8).toNat = 0xED from rfl,
    show (0xF0 : UInt8).toNat = 0xF0 from rfl, show (0xF4 : UInt8).toNat = 0xF4 from rfl]
  omega

/-- Two bytes of a code point. -/
theorem utf8Char_two {a b : UInt8} (ha : 0xC2 ≤ a.toNat ∧ a.toNat ≤ 0xDF) (hb : isTail b = true) :
    ∃ cp, IsScalar cp ∧ utf8Char cp = [a, b] := by
  simp only [isTail, Bool.and_eq_true, decide_eq_true_eq] at hb
  refine ⟨(a.toNat - 0xC0) * 64 + (b.toNat - 0x80), Or.inl (by omega), ?_⟩
  unfold utf8Char utf8Of
  rw [if_neg (by omega), if_pos (by omega)]
  have hlead : 0xC0 + ((a.toNat - 0xC0) * 64 + (b.toNat - 0x80)) / 64 = a.toNat := by omega
  have htail : 0x80 + ((a.toNat - 0xC0) * 64 + (b.toNat - 0x80)) % 64 = b.toNat := by omega
  simp only [List.map_cons, List.map_nil, hlead, htail, UInt8.ofNat_toNat]

/-- Three bytes of a code point. -/
theorem utf8Char_three {a b c : UInt8} (ha : 0xE0 ≤ a.toNat ∧ a.toNat ≤ 0xEF)
    (hb : isUtf8.secondOk a b = true) (hc : isTail c = true) :
    ∃ cp, IsScalar cp ∧ utf8Char cp = [a, b, c] := by
  simp only [isTail, Bool.and_eq_true, decide_eq_true_eq] at hc
  rw [secondOk_iff] at hb
  obtain ⟨cp, hcp⟩ : ∃ cp, cp = (a.toNat - 0xE0) * 4096 + (b.toNat - 0x80) * 64 +
    (c.toNat - 0x80) := ⟨_, rfl⟩
  have hlead : 0xE0 + cp / 4096 = a.toNat := by omega
  have hsecond : 0x80 + cp / 64 % 64 = b.toNat := by omega
  have htail : 0x80 + cp % 64 = c.toNat := by omega
  refine ⟨cp, ?_, ?_⟩
  · unfold IsScalar
    omega
  · unfold utf8Char utf8Of
    rw [if_neg (by omega), if_neg (by omega), if_pos (by omega)]
    simp only [List.map_cons, List.map_nil, hlead, hsecond, htail, UInt8.ofNat_toNat]

/-- Four bytes of a code point. -/
theorem utf8Char_four {a b c d : UInt8} (ha : 0xF0 ≤ a.toNat ∧ a.toNat ≤ 0xF4)
    (hb : isUtf8.secondOk a b = true) (hc : isTail c = true) (hd : isTail d = true) :
    ∃ cp, IsScalar cp ∧ utf8Char cp = [a, b, c, d] := by
  simp only [isTail, Bool.and_eq_true, decide_eq_true_eq] at hc hd
  rw [secondOk_iff] at hb
  obtain ⟨cp, hcp⟩ : ∃ cp, cp = (a.toNat - 0xF0) * 262144 + (b.toNat - 0x80) * 4096 +
    (c.toNat - 0x80) * 64 + (d.toNat - 0x80) := ⟨_, rfl⟩
  have hlead : 0xF0 + cp / 262144 = a.toNat := by omega
  have hsecond : 0x80 + cp / 4096 % 64 = b.toNat := by omega
  have hthird : 0x80 + cp / 64 % 64 = c.toNat := by omega
  have htail : 0x80 + cp % 64 = d.toNat := by omega
  refine ⟨cp, ?_, ?_⟩
  · unfold IsScalar
    omega
  · unfold utf8Char utf8Of
    rw [if_neg (by omega), if_neg (by omega), if_neg (by omega)]
    simp only [List.map_cons, List.map_nil, hlead, hsecond, hthird, htail, UInt8.ofNat_toNat]

/-- Well-formed bytes are those of code points. -/
theorem isUtf8_points {bs : Bytes} (h : isUtf8 bs = true) :
    ∃ cps : List Nat, (∀ cp ∈ cps, IsScalar cp) ∧ bs = cps.flatMap utf8Char := by
  have hcons : ∀ {cp : Nat} {rest : Bytes}, IsScalar cp →
      (∃ cps : List Nat, (∀ cp ∈ cps, IsScalar cp) ∧ rest = cps.flatMap utf8Char) →
      ∃ cps : List Nat, (∀ cp ∈ cps, IsScalar cp) ∧
        utf8Char cp ++ rest = cps.flatMap utf8Char := by
    intro cp rest hcp hrest
    obtain ⟨cps, hcps, heq⟩ := hrest
    refine ⟨cp :: cps, ?_, by rw [heq, List.flatMap_cons]⟩
    simpa using ⟨hcp, hcps⟩
  induction hn : bs.length using Nat.strongRecOn generalizing bs with
  | ind n ih =>
      cases bs with
      | nil => exact ⟨[], by simp, rfl⟩
      | cons a rest =>
          rw [List.length_cons] at hn
          rw [isUtf8_cons] at h
          split at h
          · rename_i ha
            have hone : utf8Char a.toNat = [a] := by
              unfold utf8Char utf8Of
              rw [if_pos ha, List.map_singleton, UInt8.ofNat_toNat]
            have hrest := @hcons a.toNat rest (Or.inl (by omega)) (ih rest.length (by omega) h rfl)
            rwa [hone] at hrest
          · obtain ⟨b, behind, hrest, ha, hb, hbehind⟩ |
              ⟨b, c, behind, hrest, ha, hb, hc, hbehind⟩ |
              ⟨b, c, d, behind, hrest, ha, hb, hc, hd, hbehind⟩ := utf8Behind_inv h
            · subst hrest
              obtain ⟨cp, hcp, hchar⟩ := utf8Char_two ha hb
              have hall := hcons hcp (ih behind.length (by simp at hn; omega) hbehind rfl)
              rwa [hchar] at hall
            · subst hrest
              obtain ⟨cp, hcp, hchar⟩ := utf8Char_three ha hb hc
              have hall := hcons hcp (ih behind.length (by simp at hn; omega) hbehind rfl)
              rwa [hchar] at hall
            · subst hrest
              obtain ⟨cp, hcp, hchar⟩ := utf8Char_four ha hb hc hd
              have hall := hcons hcp (ih behind.length (by simp at hn; omega) hbehind rfl)
              rwa [hchar] at hall

/-! ### What is read is well formed -/

/-- Behind a sequence that lacks bytes stands one it takes. -/
theorem strictFrom_next {p : Pending} {bs : Bytes} (h : strictFrom (some p) bs = some s) :
    ∃ b rest t, bs = b :: rest ∧ (p.lower ≤ b.toNat ∧ b.toNat ≤ p.upper) ∧
      strictFrom (utf8Step p b).1 rest = some t := by
  cases bs with
  | nil => simp [strictFrom] at h
  | cons b rest =>
      rw [strictFrom, Option.bind_eq_some_iff] at h
      obtain ⟨next, hnext, hrest⟩ := h
      obtain ⟨t, ht, _⟩ := Option.map_eq_some_iff.mp hrest
      unfold utf8Strict at hnext
      simp only at hnext
      split at hnext
      · rename_i hin
        cases hnext
        exact ⟨b, rest, t, rfl, hin, ht⟩
      · cases hnext

theorem strictFrom_last {p : Pending} {bs : Bytes} (hneeded : p.needed = 1)
    (h : strictFrom (some p) bs = some s) :
    ∃ b rest t, bs = b :: rest ∧ p.lower ≤ b.toNat ∧ b.toNat ≤ p.upper ∧
      strictFrom none rest = some t := by
  obtain ⟨b, rest, t, hbs, hin, ht⟩ := strictFrom_next h
  simp only [utf8Step, if_pos hin, hneeded, Nat.lt_irrefl, dite_false] at ht
  exact ⟨b, rest, t, hbs, hin.1, hin.2, ht⟩

/-- Behind a sequence that lacks more stands a byte that leaves one less lacking. -/
theorem strictFrom_more {p : Pending} {bs : Bytes} (hneeded : 1 < p.needed)
    (h : strictFrom (some p) bs = some s) :
    ∃ b rest q t, bs = b :: rest ∧ p.lower ≤ b.toNat ∧ b.toNat ≤ p.upper ∧
      q.needed = p.needed - 1 ∧ q.lower = 0x80 ∧ q.upper = 0xBF ∧
      strictFrom (some q) rest = some t := by
  obtain ⟨b, rest, t, hbs, hin, ht⟩ := strictFrom_next h
  simp only [utf8Step, if_pos hin, dif_pos hneeded] at ht
  exact ⟨b, rest, _, t, hbs, hin.1, hin.2, rfl, rfl, rfl, ht⟩

/-- What a byte that is no ASCII leaves lacking, and which second byte it takes. -/
theorem utf8Start_pending {a : UInt8} {p : Pending} (h : (utf8Start a).1 = some p) :
    ((0xC2 ≤ a.toNat ∧ a.toNat ≤ 0xDF) ∧ p.needed = 1 ∧ p.lower = 0x80 ∧ p.upper = 0xBF) ∨
    ((0xE0 ≤ a.toNat ∧ a.toNat ≤ 0xEF) ∧ p.needed = 2 ∧
      ∀ b : UInt8, p.lower ≤ b.toNat → b.toNat ≤ p.upper → isUtf8.secondOk a b = true) ∨
    (0xF0 ≤ a.toNat ∧ a.toNat ≤ 0xF4) ∧ p.needed = 3 ∧
      ∀ b : UInt8, p.lower ≤ b.toNat → b.toNat ≤ p.upper → isUtf8.secondOk a b = true := by
  unfold utf8Start at h
  simp only at h
  split at h
  · cases h
  split at h
  · cases h
    exact Or.inl ⟨by assumption, rfl, rfl, rfl⟩
  split at h
  · cases h
    refine Or.inr (Or.inl ⟨by omega, rfl, fun b hlower hupper => secondOk_iff.mpr ?_⟩)
    simp only at hlower hupper
    omega
  split at h
  · cases h
    refine Or.inr (Or.inl ⟨by omega, rfl, fun b hlower hupper => secondOk_iff.mpr ?_⟩)
    simp only at hlower hupper
    omega
  split at h
  · cases h
    refine Or.inr (Or.inl ⟨by omega, rfl, fun b hlower hupper => secondOk_iff.mpr ?_⟩)
    simp only at hlower hupper
    omega
  split at h
  · cases h
    refine Or.inr (Or.inr ⟨by omega, rfl, fun b hlower hupper => secondOk_iff.mpr ?_⟩)
    simp only at hlower hupper
    omega
  split at h
  · cases h
    refine Or.inr (Or.inr ⟨by omega, rfl, fun b hlower hupper => secondOk_iff.mpr ?_⟩)
    simp only at hlower hupper
    omega
  split at h
  · cases h
    refine Or.inr (Or.inr ⟨by omega, rfl, fun b hlower hupper => secondOk_iff.mpr ?_⟩)
    simp only at hlower hupper
    omega
  · cases h

/-- The first byte of what is read, and what is read behind it. -/
theorem strictFrom_start {a : UInt8} {rest : Bytes}
    (h : strictFrom none (a :: rest) = some s) :
    ∃ t, strictFrom (utf8Start a).1 rest = some t ∧
      (a.toNat < 0x80 ∧ (utf8Start a).1 = none ∨ ¬ a.toNat < 0x80 ∧ (utf8Start a).1.isSome) := by
  rw [strictFrom, Option.bind_eq_some_iff] at h
  obtain ⟨next, hnext, hrest⟩ := h
  obtain ⟨t, ht, _⟩ := Option.map_eq_some_iff.mp hrest
  unfold utf8Strict at hnext
  simp only at hnext
  split at hnext
  · rename_i hvalid
    cases hnext
    refine ⟨t, ht, ?_⟩
    by_cases ha : a.toNat < 0x80
    · refine Or.inl ⟨ha, ?_⟩
      unfold utf8Start
      simp only [if_pos ha]
    · exact Or.inr ⟨ha, by simpa [ha] using hvalid⟩
  · cases hnext

theorem strictFrom_isUtf8 {bs : Bytes} (h : strictFrom none bs = some s) :
    isUtf8 bs = true := by
  induction hn : bs.length using Nat.strongRecOn generalizing bs s with
  | ind n ih =>
      cases bs with
      | nil => rfl
      | cons a rest =>
          rw [List.length_cons] at hn
          rw [isUtf8_cons]
          obtain ⟨t, ht, ⟨ha, hnone⟩ | ⟨ha, hsome⟩⟩ := strictFrom_start h
          · rw [if_pos ha]
            exact ih rest.length (by omega) (hnone ▸ ht) rfl
          · rw [if_neg ha]
            obtain ⟨p, hp⟩ := Option.isSome_iff_exists.mp hsome
            rw [hp] at ht
            obtain ⟨hlead, hneeded, hlower, hupper⟩ | ⟨hlead, hneeded, hsecond⟩ |
              ⟨hlead, hneeded, hsecond⟩ := utf8Start_pending hp
            · obtain ⟨b, behind, t', rfl, hb, hb', ht'⟩ := strictFrom_last hneeded ht
              have hbehind := ih behind.length (by simp at hn; omega) ht' rfl
              rw [utf8Behind_two hlead, hbehind, Bool.and_true]
              simp [isTail]
              omega
            · obtain ⟨b, behind, q, t', rfl, hb, hb', hq, hlower, hupper, ht'⟩ :=
                strictFrom_more (by omega) ht
              obtain ⟨c, behind, t', rfl, hc, hc', ht'⟩ := strictFrom_last (by omega) ht'
              have hbehind := ih behind.length (by simp at hn; omega) ht' rfl
              rw [utf8Behind_three hlead, hbehind, hsecond b hb hb', Bool.and_true, Bool.true_and]
              simp [isTail]
              omega
            · obtain ⟨b, behind, q, t', rfl, hb, hb', hq, hlower, hupper, ht'⟩ :=
                strictFrom_more (by omega) ht
              obtain ⟨c, behind, r, t', rfl, hc, hc', hr, hlower', hupper', ht'⟩ :=
                strictFrom_more (by omega) ht'
              obtain ⟨d, behind, t', rfl, hd, hd', ht'⟩ := strictFrom_last (by omega) ht'
              have hbehind := ih behind.length (by simp at hn; omega) ht' rfl
              rw [utf8Behind_four hlead, hbehind, hsecond b hb hb', Bool.and_true, Bool.true_and]
              simp [isTail]
              omega

/-- The decoder that stops at an error reads the well-formed bytes, and reads them as the replacing
one does. -/
theorem strictFrom_eq (bs : Bytes) :
    strictFrom none bs = if isUtf8 bs then some (decodeUtf8 bs) else none := by
  split
  · rename_i hutf8
    obtain ⟨cps, hcps, hbs⟩ := isUtf8_points hutf8
    have hchars := strictFrom_chars hcps []
    rw [hbs, decodeUtf8_chars hcps]
    simpa [strictFrom] using hchars
  · rename_i hutf8
    cases hs : strictFrom none bs with
    | none => rfl
    | some s => exact absurd (strictFrom_isUtf8 hs) hutf8

/-! ### Texts without unpaired surrogates -/

variable {c : UInt16}

/-- A text without unpaired surrogates starts with a code point. -/
theorem isWellFormed_cons {rest : JsString} (h : isWellFormed (c :: rest) = true) :
    ∃ cp behind, IsScalar cp ∧ c :: rest = utf16Of cp ++ behind ∧ isWellFormed behind = true := by
  obtain ⟨cps, hcps, hscalars⟩ := isWellFormed_iff.mp h
  cases cps with
  | nil => cases hcps
  | cons cp cps =>
      refine ⟨cp, cps.flatMap utf16Of, hscalars cp List.mem_cons_self, ?_, ?_⟩
      · rw [hcps, List.flatMap_cons]
      · exact isWellFormed_iff.mpr ⟨cps, rfl, fun d hd => hscalars d (List.mem_cons_of_mem _ hd)⟩

/-- What stands in front: a code unit that is no surrogate, or a pair of them. -/
theorem isWellFormed_inv {rest : JsString} (h : isWellFormed (c :: rest) = true) :
    (isHighSurrogate c = false ∧ isLowSurrogate c = false ∧ isWellFormed rest = true) ∨
    (isHighSurrogate c = true ∧ ∃ d behind, rest = d :: behind ∧ isLowSurrogate d = true ∧
      isWellFormed behind = true) := by
  obtain ⟨cp, behind, hcp, hsplit, hbehind⟩ := isWellFormed_cons h
  unfold IsScalar at hcp
  unfold utf16Of at hsplit
  split at hsplit
  · rename_i hsmall
    left
    obtain ⟨rfl, rfl⟩ := List.cons.inj hsplit
    have hunit : (UInt16.ofNat cp).toNat = cp := by
      rw [UInt16.toNat_ofNat', Nat.mod_eq_of_lt hsmall]
    simp only [isHighSurrogate, isLowSurrogate, hunit, Bool.and_eq_false_iff,
      decide_eq_false_iff_not]
    exact ⟨by omega, by omega, hbehind⟩
  · right
    obtain ⟨rfl, rfl⟩ := List.cons.inj hsplit
    refine ⟨?_, _, behind, rfl, ?_, hbehind⟩
    · simp only [isHighSurrogate, UInt16.toNat_ofNat', Bool.and_eq_true, decide_eq_true_eq]
      omega
    · simp only [isLowSurrogate, UInt16.toNat_ofNat', Bool.and_eq_true, decide_eq_true_eq]
      omega

/-- A code point in front of a text. -/
theorem isWellFormed_point {cp : Nat} (h : IsScalar cp) (rest : JsString) :
    isWellFormed (utf16Of cp ++ rest) = isWellFormed rest := by
  simp only [isWellFormed, scalarValues, codePoints_utf16Of h, List.mapM_cons]
  cases (codePoints rest).mapM id <;> rfl

theorem isWellFormed_pair {c d : UInt16} (hc : isHighSurrogate c = true)
    (hd : isLowSurrogate d = true) (rest : JsString) :
    isWellFormed (c :: d :: rest) = isWellFormed rest := by
  obtain ⟨hunits, hscalar⟩ := pairPoint_spec hc hd
  have hpoint' := isWellFormed_point hscalar rest
  rwa [hunits] at hpoint'

theorem isWellFormed_plain (hhigh : isHighSurrogate c = false)
    (hlow : isLowSurrogate c = false) (rest : JsString) :
    isWellFormed (c :: rest) = isWellFormed rest := by
  have hpoint : unitPoint c = some c.toNat := by simp [unitPoint, hhigh, hlow]
  obtain ⟨hunits, hscalar⟩ := unitPoint_eq_some hpoint
  have hpoint' := isWellFormed_point hscalar rest
  rwa [hunits] at hpoint'

/-- An ASCII character in front of a text. -/
theorem isWellFormed_ascii_cons (hc : c < 0x80) (rest : JsString) :
    isWellFormed (c :: rest) = isWellFormed rest := by
  have hlt : c.toNat < 0x80 := UInt16.lt_iff_toNat_lt.mp hc
  apply isWellFormed_plain
  · simp only [isHighSurrogate, Bool.and_eq_false_iff, decide_eq_false_iff_not]
    omega
  · simp only [isLowSurrogate, Bool.and_eq_false_iff, decide_eq_false_iff_not]
    omega

theorem isWellFormed_of_append {s t : JsString} (hs : isWellFormed s = true)
    (h : isWellFormed (s ++ t) = true) : isWellFormed t = true := by
  obtain ⟨cps, rfl, hcps⟩ := isWellFormed_iff.mp hs
  clear hs
  induction cps with
  | nil => exact h
  | cons cp cps ih =>
      rw [List.flatMap_cons, List.append_assoc, isWellFormed_point (hcps cp List.mem_cons_self)] at h
      exact ih (fun d hd => hcps d (List.mem_cons_of_mem _ hd)) h

/-! ### What decodes to a well-formed text -/

theorem hexValue_ascii {n : Nat} (h : hexValue c = some n) : c < 0x80 := by
  rw [UInt16.lt_iff_toNat_lt]
  unfold hexValue at h
  split at h
  · exact Nat.lt_of_le_of_lt (by assumption : _ ∧ _).2 (by decide)
  split at h
  · exact Nat.lt_of_le_of_lt (by assumption : _ ∧ _).2 (by decide)
  split at h
  · exact Nat.lt_of_le_of_lt (by assumption : _ ∧ _).2 (by decide)
  · cases h

theorem hexByte_ascii {high low : UInt16} {b : UInt8} (h : hexByte high low = some b) :
    high < 0x80 ∧ low < 0x80 := by
  simp only [hexByte, Option.bind_eq_bind, Option.bind_eq_some_iff] at h
  obtain ⟨_, hhigh, _, hlow, _⟩ := h
  exact ⟨hexValue_ascii hhigh, hexValue_ascii hlow⟩

theorem decodeFrom_append (h : ∀ c ∈ s, c ≠ 37) (rest : JsString) :
    decodeFrom none (s ++ rest) = (decodeFrom none rest).map (s ++ ·) := by
  induction s with
  | nil => cases hrest : decodeFrom none rest <;> simp [hrest]
  | cons c s ih =>
      rw [List.cons_append, decodeFrom_literal (h c List.mem_cons_self),
        ih fun d hd => h d (List.mem_cons_of_mem _ hd), Option.map_map]
      rfl

/-- No code point continues a sequence that lacks bytes. -/
theorem strictFrom_pending_char {p : Pending} {cp : Nat} (h : IsScalar cp) (rest : Bytes) :
    strictFrom (some p) (utf8Char cp ++ rest) = none := by
  have hlower := p.lower_ge
  have hupper := p.upper_le
  unfold IsScalar at h
  have hlead : ∀ n < 256, (n < 0x80 ∨ 0xC0 ≤ n) → ∀ bs, strictFrom (some p) (UInt8.ofNat n :: bs) = none := by
    intro n hn hout bs
    have hbyte : (UInt8.ofNat n).toNat = n := by
      rw [UInt8.toNat_ofNat', Nat.mod_eq_of_lt hn]
    rw [strictFrom, utf8Strict]
    simp only [hbyte]
    rw [if_neg (by omega), Option.bind_none]
  unfold utf8Char utf8Of
  split
  · exact hlead _ (by omega) (by omega) _
  split
  · exact hlead _ (by omega) (by omega) _
  split
  · exact hlead _ (by omega) (by omega) _
  · exact hlead _ (by omega) (by omega) _

/-- A byte of a sequence gives some text, or leaves bytes lacking. -/
theorem utf8Strict_gives {b : UInt8} {next : Option Pending × JsString}
    (h : utf8Strict pending b = some next) (hempty : next.2 = []) : next.1.isSome = true := by
  cases pending with
  | none =>
      simp only [utf8Strict] at h
      split at h
      · rename_i hvalid
        cases h
        rw [Bool.or_eq_true, decide_eq_true_eq] at hvalid
        obtain hascii | hsome := hvalid
        · simp [utf8Start, hascii] at hempty
        · exact hsome
      · cases h
  | some p =>
      simp only [utf8Strict] at h
      split at h
      · rename_i hin
        cases h
        simp only [utf8Step, if_pos hin] at hempty ⊢
        split at hempty
        · rename_i hmore
          simp [hmore]
        · unfold utf16Of at hempty
          split at hempty <;> cases hempty
      · cases h

theorem isWellFormed_low {rest : JsString} (hc : isLowSurrogate c = true) :
    isWellFormed (c :: rest) = false := by
  rw [Bool.eq_false_iff]
  intro h
  obtain ⟨_, hlow, _⟩ | ⟨hhigh, _⟩ := isWellFormed_inv h
  · rw [hc] at hlow
    cases hlow
  · simp only [isHighSurrogate, isLowSurrogate, Bool.and_eq_true, decide_eq_true_eq] at hc hhigh
    omega

theorem isWellFormed_high {rest : JsString} (hc : isHighSurrogate c = true)
    (h : isWellFormed (c :: rest) = true) :
    ∃ d behind, rest = d :: behind ∧ isLowSurrogate d = true ∧ isWellFormed behind = true := by
  obtain ⟨hhigh, _⟩ | ⟨_, hpair⟩ := isWellFormed_inv h
  · rw [hc] at hhigh
    cases hhigh
  · exact hpair

/-- A text of which a well-formed one is decoded is well formed: what is literal is kept, and what is
decoded starts with no low surrogate. -/
theorem decodeFrom_source {s decoded : JsString}
    (hpending : ∀ p, pending = some p → p.Completes) (h : decodeFrom pending s = some decoded) :
    (isWellFormed decoded = true → isWellFormed s = true) ∧
      ∀ c, isHighSurrogate c = true → isWellFormed (c :: decoded) = true →
        pending = none ∧ isWellFormed (c :: s) = true := by
  induction pending, s using decodeFrom.induct generalizing decoded with
  | case1 pending hsome =>
      rw [decodeFrom, if_pos hsome] at h
      cases h
  | case2 pending hnone =>
      rw [decodeFrom, if_neg hnone] at h
      cases h
      refine ⟨id, fun c hc hwell => ?_⟩
      obtain ⟨d, behind, hnil, _⟩ := isWellFormed_high hc hwell
      cases hnil
  | case3 pending high low rest ih =>
      simp only [decodeFrom, if_true, Option.bind_eq_bind, Option.bind_eq_some_iff,
        Option.pure_def, Option.some.injEq] at h
      obtain ⟨b, hbyte, next, hnext, tail, htail, hdecoded⟩ := h
      subst hdecoded
      have hsound : Sound next := by
        cases pending with
        | none => exact utf8Strict_start_sound hnext
        | some p => exact utf8Strict_continue_sound (hpending p rfl) hnext
      have hih := ih next hsound.1 htail
      obtain ⟨hhigh, hlow⟩ := hexByte_ascii hbyte
      constructor
      · intro hwell
        rw [isWellFormed_ascii_cons (by decide), isWellFormed_ascii_cons hhigh,
          isWellFormed_ascii_cons hlow]
        exact hih.1 (isWellFormed_of_append hsound.2 hwell)
      · intro c hc hwell
        cases htext : next.2 with
        | nil =>
            -- the bytes that still lack take the surrogate's place
            rw [htext, List.nil_append] at hwell
            have hnone := (hih.2 c hc hwell).1
            have hsome := utf8Strict_gives hnext htext
            rw [hnone] at hsome
            cases hsome
        | cons d text =>
            rw [htext, List.cons_append] at hwell
            obtain ⟨d', behind, heq, hd', _⟩ := isWellFormed_high hc hwell
            have hnot := hsound.2
            rw [htext, (List.cons.inj heq).1, isWellFormed_low hd'] at hnot
            cases hnot
  | case4 pending rest hshort =>
      rw [decodeFrom.eq_def] at h
      simp only [if_true] at h
      cases h
  | case5 pending c rest hc hsome =>
      rw [decodeFrom.eq_def] at h
      simp only [if_neg hc, if_pos hsome] at h
      cases h
  | case6 pending d rest hd hnone ih =>
      rw [Option.not_isSome_iff_eq_none] at hnone
      subst hnone
      rw [decodeFrom_literal hd, Option.map_eq_some_iff] at h
      obtain ⟨tail, htail, hdecoded⟩ := h
      subst hdecoded
      have hih := ih (fun p hp => by cases hp) htail
      constructor
      · intro hwell
        obtain ⟨hhigh, hlow, hrest⟩ | ⟨hhigh, _⟩ := isWellFormed_inv hwell
        · rw [isWellFormed_plain hhigh hlow]
          exact hih.1 hrest
        · exact (hih.2 d hhigh hwell).2
      · intro c hc hwell
        obtain ⟨d', behind, heq, hd', hbehind⟩ := isWellFormed_high hc hwell
        obtain ⟨rfl, rfl⟩ := List.cons.inj heq
        rw [isWellFormed_pair hc hd']
        exact ⟨rfl, hih.1 hbehind⟩

/-! ### What the replacing decoder writes -/

theorem utf8Start_sound (b : UInt8) : Sound (utf8Start b) := by
  by_cases hvalid : (b.toNat < 0x80 || (utf8Start b).1.isSome) = true
  · exact utf8Strict_start_sound (if_pos hvalid)
  · have hreplaced : utf8Start b = (none, [replacement]) := by
      unfold utf8Start at hvalid ⊢
      simp only at hvalid ⊢
      repeat' split
      all_goals simp_all
    rw [hreplaced]
    refine ⟨fun p hp => ?_, by decide⟩
    cases hp

theorem isWellFormed_replacement : isWellFormed [replacement] = true := by decide

theorem utf8Step_sound (h : ∀ p, pending = some p → p.Completes)
    (b : UInt8) : Sound (utf8Step pending b) := by
  cases pending with
  | none => exact utf8Start_sound b
  | some p =>
      by_cases hin : p.lower ≤ b.toNat ∧ b.toNat ≤ p.upper
      · exact utf8Strict_continue_sound (h p rfl) (if_pos hin)
      · have hstart := utf8Start_sound b
        unfold utf8Step
        simp only [if_neg hin]
        exact ⟨hstart.1, isWellFormed_append isWellFormed_replacement hstart.2⟩

/-- No decoded text has an unpaired surrogate. -/
theorem decodeUtf8_wellFormed (bs : Bytes) : isWellFormed (decodeUtf8 bs) = true := by
  have hrun : ∀ pending, (∀ p, pending = some p → p.Completes) →
      isWellFormed (utf8Run pending bs).2 = true := by
    induction bs with
    | nil => exact fun _ _ => isWellFormed_nil
    | cons b bs ih =>
        intro pending h
        have hstep := utf8Step_sound h b
        exact isWellFormed_append hstep.2 (ih _ hstep.1)
  refine isWellFormed_append (hrun none fun p hp => by cases hp) ?_
  cases (utf8Run none bs).1 with
  | none => rfl
  | some p => exact isWellFormed_replacement

/-! ### A text cut short -/

/-- Bytes behind a text that do not show. They only lengthen a truncated sequence at its end, or make
of it the U+FFFD by which a truncated sequence is replaced. -/
def Unseen (as bs : Bytes) : Prop :=
  bs = [] ∨ ∃ p, (utf8Run none as).1 = some p ∧
    ((utf8Run (some p) bs).2 = [] ∨ utf8Run (some p) bs = (none, [replacement]))

theorem utf16Of_ne_nil (cp : Nat) : utf16Of cp ≠ [] := by
  unfold utf16Of
  split
  · exact List.cons_ne_nil _ _
  · exact List.cons_ne_nil _ _

theorem utf8Start_shows {b : UInt8} (h : (utf8Start b).2 = []) : (utf8Start b).1 ≠ none := by
  intro hnone
  unfold utf8Start at h hnone
  dsimp only at h hnone
  split_ifs at h hnone

/-- A byte without output leaves a sequence pending. -/
theorem utf8Step_shows {s : Option Pending} {b : UInt8} (h : (utf8Step s b).2 = []) :
    (utf8Step s b).1 ≠ none := by
  cases s with
  | none => exact utf8Start_shows h
  | some p =>
      unfold utf8Step at h ⊢
      dsimp only at h ⊢
      split_ifs at h ⊢
      · exact Option.some_ne_none _
      · exact absurd h (utf16Of_ne_nil _)

theorem utf8Run_shows {s : Option Pending} {bs : Bytes} (h : s ≠ none ∨ bs ≠ []) :
    (utf8Run s bs).2 ++ utf8Finish (utf8Run s bs).1 ≠ [] := by
  induction bs generalizing s with
  | nil =>
      obtain ⟨p, rfl⟩ := Option.ne_none_iff_exists'.mp (h.resolve_right fun hnil => hnil rfl)
      exact List.cons_ne_nil _ _
  | cons b bs ih =>
      simp only [utf8Run, List.append_assoc]
      intro hnil
      obtain ⟨hstep, hrest⟩ := List.append_eq_nil_iff.mp hnil
      exact ih (Or.inl (utf8Step_shows hstep)) hrest

theorem utf8Run_pending (p : Pending) (bs : Bytes) :
    (utf8Run (some p) bs).2 ++ utf8Finish (utf8Run (some p) bs).1 ≠ [] :=
  utf8Run_shows (Or.inl (Option.some_ne_none p))

/-- A text decodes as its front does exactly when nothing behind the front shows. -/
theorem decodeUtf8_append_eq_iff {as bs : Bytes} :
    decodeUtf8 (as ++ bs) = decodeUtf8 as ↔ Unseen as bs := by
  simp only [decodeUtf8, utf8Run_append, List.append_assoc, List.append_cancel_left_eq, Unseen]
  cases hs : (utf8Run none as).1 with
  | none =>
      simp only [utf8Finish, reduceCtorEq, false_and, exists_false, or_false]
      constructor
      · intro hnil
        by_contra hne
        exact utf8Run_shows (Or.inr hne) hnil
      · rintro rfl
        rfl
  | some p =>
      have hshows := utf8Run_pending p bs
      have hempty : bs = [] → utf8Run (some p) bs = (some p, []) := by
        rintro rfl
        rfl
      rcases hrun : utf8Run (some p) bs with ⟨s, out⟩
      rw [hrun] at hshows hempty
      cases s with
      | none =>
          have hout : out ≠ [] := by simpa [utf8Finish] using hshows
          have hne : bs ≠ [] := fun hnil => by cases hempty hnil
          simp [utf8Finish, hrun, hout, hne]
      | some q =>
          have hout : bs = [] → out = [] := fun hnil => (Prod.mk.inj (hempty hnil)).2
          simpa [utf8Finish, hrun] using hout

/-- What does not show behind a text does not show behind more of it either. -/
theorem Unseen.rest {as bs cs : Bytes} (h : Unseen as (bs ++ cs)) : Unseen (as ++ bs) cs := by
  obtain hnil | ⟨p, hp, hrest⟩ := h
  · exact Or.inl (List.append_eq_nil_iff.mp hnil).2
  · have hfront : (utf8Run none (as ++ bs)).1 = (utf8Run (some p) bs).1 := by
      rw [utf8Run_append, hp]
    have hshows := utf8Run_pending p bs
    unfold Unseen
    rw [utf8Run_append] at hrest
    rw [hfront]
    rcases hrun : utf8Run (some p) bs with ⟨s, out⟩
    rw [hrun] at hrest hshows
    simp only [List.append_eq_nil_iff, Prod.mk.injEq, List.append_eq_singleton_iff] at hrest
    cases s with
    | none =>
        refine Or.inl ?_
        by_contra hne
        have hmore := utf8Run_shows (Or.inr hne : (none : Option Pending) ≠ none ∨ cs ≠ [])
        obtain ⟨hout, -⟩ | ⟨hend, ⟨hout, -⟩ | ⟨-, hout⟩⟩ := hrest
        · exact hshows (by simp [hout, utf8Finish])
        · exact hshows (by simp [hout, utf8Finish])
        · exact hmore (by simp [hout, hend, utf8Finish])
    | some q =>
        refine Or.inr ⟨q, rfl, ?_⟩
        obtain ⟨-, hout⟩ | ⟨hend, ⟨-, hout⟩ | ⟨-, hout⟩⟩ := hrest
        · exact Or.inl hout
        · exact Or.inr (Prod.ext hend hout)
        · exact absurd (by simp [hout, hend, utf8Finish]) (utf8Run_pending q cs)

end HermesNode
