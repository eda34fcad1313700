/-
Module: HermesNode.Buffer.UnitSearch
Purpose: The searches of the `buffer` binding in `ucs2`. They halve and double lengths and offsets as for
  code units, but step from byte to byte. So they answer with a unit exactly where the bytes of the
  needle stand nowhere in front of the units that a search by units would find, and where the byte they
  start at leaves none of these units behind.
Trusted boundary: human-reviewed spec (the units of a buffer are its whole pairs of bytes)
Main exports: UnitAnswers, ByteSearch, unit_search_iff
-/
import HermesNode.Buffer.Codecs

namespace HermesNode.Buffer

open Fs (toInt32)
open StringDecoder (makeUtf16String)
open Streams (ucs2Bytes)

/-! ### Searches by units -/

/-- The answer of a search for some code units, as a byte. It starts at the unit that holds the byte of
the offset. -/
def UnitAnswers (haystack : Bytes) (needle : JsString) (offset : Int) (isForward : Bool) (r : Int) :
    Prop :=
  ∃ found, r = position (found.map (2 * ·)) ∧
    Finds (Occurs (makeUtf16String haystack) needle) isForward
      ((startOf haystack.length offset isForward).map (· / 2)) found

/-- What a search in `ucs2` does: it looks for some bytes in others, from one of them on or from none. -/
structure ByteSearch where
  haystack : Bytes
  needle : Bytes
  start : Option Nat
deriving Repr, DecidableEq

/-- The search for a buffer. A needle of one byte is never found, and one of some pairs and a byte has
to fit with that byte. -/
def bufferSearch (haystack needle : Bytes) (offset : Int) (isForward : Bool) : ByteSearch :=
  if needle.length = 0 then ⟨haystack, [], some (clampOffset haystack.length offset).toNat⟩
  else if needle.length = 1 then ⟨haystack, [], none⟩
  else
    { haystack := haystack.take (haystack.length / 2 * 2)
      needle := needle.take (needle.length / 2 * 2)
      start := (startOf haystack.length offset isForward).bind fun s =>
        if haystack.length < needle.length ∨ isForward ∧ haystack.length < s + needle.length then none
        else some (s / 2 * 2) }

/-- The search for a string, in the whole pairs of bytes. Its offset may be inside a pair. -/
def stringSearch (haystack : Bytes) (s : JsString) (offset : Int) (isForward : Bool) : ByteSearch :=
  { haystack := haystack.take (haystack.length / 2 * 2)
    needle := ucs2Bytes s
    start :=
      if s = [] then some (clampOffset (haystack.length / 2 * 2) offset).toNat
      else startOf (haystack.length / 2 * 2) offset isForward }

/-- A search from `start` comes to a position. -/
def Reaches (isForward : Bool) (start : Option Nat) (j : Nat) : Prop :=
  ∃ s ∈ start, if isForward then s ≤ j else j ≤ s

/-- A search comes to `i` no later than to `j`. -/
def Ahead (isForward : Bool) (i j : Nat) : Prop := if isForward then i ≤ j else j ≤ i

/-- Some bytes lead to the units of a needle from the unit `start` on: the search comes to each of these
units, and to no place of the bytes before it comes to one of the units. -/
structure FindsWhole (isForward : Bool) (search : ByteSearch) (haystack needle : JsString)
    (start : Option Nat) : Prop where
  reached : ∀ k, Reaches isForward start k → Occurs haystack needle k →
    Reaches isForward search.start (2 * k)
  first : ∀ j, Reaches isForward search.start j → Occurs search.haystack search.needle j →
    ∃ k, Reaches isForward start k ∧ Occurs haystack needle k ∧ Ahead isForward (2 * k) j

/-! ### Positions that a search comes to -/

section

variable {P U : Nat → Prop} {isForward : Bool} {start unit : Option Nat}

theorem Reaches.ahead {i j : Nat} (h : Reaches isForward start i) (hij : Ahead isForward i j) :
    Reaches isForward start j := by
  obtain ⟨s, hs, hi⟩ := h
  refine ⟨s, hs, ?_⟩
  unfold Ahead at hij
  split
  · rename_i hforward
    rw [if_pos hforward] at hi hij
    omega
  · rename_i hbackward
    rw [if_neg hbackward] at hi hij
    omega

theorem Ahead.antisymm {i j : Nat} (hij : Ahead isForward i j) (hji : Ahead isForward j i) :
    i = j := by
  unfold Ahead at hij hji
  split at hij
  · rename_i hforward
    rw [if_pos hforward] at hji
    omega
  · rename_i hbackward
    rw [if_neg hbackward] at hji
    omega

theorem ahead_double {k k' : Nat} : Ahead isForward (2 * k) (2 * k') ↔ Ahead isForward k k' := by
  unfold Ahead
  split <;> omega

theorem finds_none_iff :
    Finds P isForward start none ↔ ∀ j, Reaches isForward start j → ¬ P j := by
  unfold Finds Reaches
  cases start with
  | none => simp
  | some s => cases isForward <;> simp [IsFirst, IsLast]

theorem finds_some_iff {i : Nat} :
    Finds P isForward start (some i) ↔
      Reaches isForward start i ∧ P i ∧ ∀ j, Reaches isForward start j → P j → Ahead isForward i j := by
  unfold Finds Reaches Ahead
  cases start with
  | none => simp
  | some s => cases isForward <;> simp [IsFirst, IsLast]

theorem position_injective : Function.Injective position := by
  intro a b h
  cases a with
  | none =>
      cases b with
      | none => rfl
      | some j => simp only [position] at h; omega
  | some i =>
      cases b with
      | none => simp only [position] at h; omega
      | some j => simp only [position] at h; exact congrArg some (by omega)

/-- Where the even positions stand for units, what a search by positions finds is what a search by
units finds exactly if the positions lead to the units. -/
theorem scaled_iff (heven : ∀ k, P (2 * k) ↔ U k) {found : Option Nat}
    (hfound : Finds P isForward start found) :
    (∃ whole, position found = position (whole.map (2 * ·)) ∧ Finds U isForward unit whole) ↔
      (∀ k, Reaches isForward unit k → U k → Reaches isForward start (2 * k)) ∧
        ∀ j, Reaches isForward start j → P j →
          ∃ k, Reaches isForward unit k ∧ U k ∧ Ahead isForward (2 * k) j := by
  constructor
  · rintro ⟨whole, hsame, hwhole⟩
    obtain rfl := position_injective hsame
    cases whole with
    | none =>
        rw [Option.map_none, finds_none_iff] at hfound
        rw [finds_none_iff] at hwhole
        exact ⟨fun k hk hU => absurd hU (hwhole k hk), fun j hj hP => absurd hP (hfound j hj)⟩
    | some k =>
        rw [Option.map_some, finds_some_iff] at hfound
        rw [finds_some_iff] at hwhole
        obtain ⟨hreach, -, hahead⟩ := hfound
        obtain ⟨hunit, hU, hbefore⟩ := hwhole
        refine ⟨fun k' hk' hU' => hreach.ahead (ahead_double.mpr (hbefore k' hk' hU')), ?_⟩
        exact fun j hj hP => ⟨k, hunit, hU, hahead j hj hP⟩
  · rintro ⟨hreached, hfirst⟩
    cases found with
    | none =>
        rw [finds_none_iff] at hfound
        refine ⟨none, rfl, finds_none_iff.mpr fun k hk hU => ?_⟩
        exact hfound (2 * k) (hreached k hk hU) ((heven k).mpr hU)
    | some i =>
        rw [finds_some_iff] at hfound
        obtain ⟨hreach, hP, hahead⟩ := hfound
        obtain ⟨k, hunit, hU, hk⟩ := hfirst i hreach hP
        -- The position found is the first one, and the search comes to the unit as well.
        have hback := hahead (2 * k) (hreached k hunit hU) ((heven k).mpr hU)
        obtain rfl := hk.antisymm hback
        refine ⟨some k, rfl, finds_some_iff.mpr ⟨hunit, hU, fun k' hk' hU' => ?_⟩⟩
        exact ahead_double.mp (hahead (2 * k') (hreached k' hk' hU') ((heven k').mpr hU'))

end

/-! ### Units and bytes -/

/-- The whole pairs of some bytes stand in each other at an even byte where the units do. -/
theorem occurs_units (haystack needle : JsString) (k : Nat) :
    Occurs (ucs2Bytes haystack) (ucs2Bytes needle) (2 * k) ↔ Occurs haystack needle k := by
  apply occurs_flatMap_iff
  · exact fun _ => rfl
  · exact Nat.two_pos
  · intro c d h
    have hc := c.toNat_lt
    have hd := d.toNat_lt
    simp only [List.cons.injEq, and_true] at h
    have hlow := congrArg UInt8.toNat h.1
    have hhigh := congrArg UInt8.toNat h.2
    rw [UInt8.toNat_ofNat', UInt8.toNat_ofNat'] at hlow hhigh
    apply UInt16.toNat_inj.mp
    omega

theorem makeUtf16String_length (data : Bytes) : (makeUtf16String data).length = data.length / 2 := by
  have hlength := congrArg List.length (ucs2Bytes_makeUtf16String data)
  rw [Fs.ucs2Bytes_length, List.length_take] at hlength
  omega

/-- An empty needle is found at its start. -/
theorem finds_empty {haystack : Bytes} {c : Nat} (h : c ≤ haystack.length) (isForward : Bool) :
    Finds (Occurs haystack []) isForward (some c) (some c) := by
  rw [finds_some_iff]
  refine ⟨⟨c, rfl, by simp⟩, occurs_nil.mpr h, ?_⟩
  rintro j ⟨s, hs, hj⟩ -
  cases hs
  exact hj

theorem clampOffset_bounds (length : Nat) (offset : Int) :
    0 ≤ clampOffset length offset ∧ clampOffset length offset ≤ length := by
  unfold clampOffset
  omega

/-! ### The callbacks search by bytes -/

theorem position_clampOffset (length : Nat) (offset : Int) :
    position (some (clampOffset length offset).toNat) = clampOffset length offset :=
  Int.toNat_of_nonneg (clampOffset_bounds length offset).1

/-- The searcher run on the whole pairs of both buffers. -/
theorem search_pairs {haystack needle : Bytes} (hmax : haystack.length ≤ kMaxLength)
    (hpair : 2 ≤ needle.length) (hle : needle.length ≤ haystack.length) {isForward : Bool} {s : Nat}
    (hfits : isForward = true → s + needle.length ≤ haystack.length) :
    ∃ found, (search isForward haystack (haystack.length / 2 * 2) needle (needle.length / 2 * 2)
        (s / 2 * 2)).map toInt32 = some (position found) ∧
      Finds (Occurs (haystack.take (haystack.length / 2 * 2)) (needle.take (needle.length / 2 * 2)))
        isForward (some (s / 2 * 2)) found := by
  obtain ⟨found, hsearch, hfound⟩ :=
    @search_spec haystack needle (haystack.length / 2 * 2) (needle.length / 2 * 2) (s / 2 * 2)
      isForward (by omega) (by omega) (by omega) (by omega)
      (fun hforward => by have hs := hfits hforward; omega)
  refine ⟨found, ?_, hfound⟩
  rw [hsearch, Option.map_some, toInt32_position]
  rintro i rfl
  have hin := hfound.passes.le
  rw [List.length_take] at hin
  omega

theorem indexOfBuffer_finds {haystack : Bytes} (hmax : haystack.length ≤ kMaxLength)
    (needle : Bytes) (offset : Int) (isForward : Bool) :
    ∃ found, indexOfBuffer haystack needle offset .ucs2 isForward = some (position found) ∧
      Finds (Occurs (bufferSearch haystack needle offset isForward).haystack
          (bufferSearch haystack needle offset isForward).needle) isForward
        (bufferSearch haystack needle offset isForward).start found := by
  unfold indexOfBuffer bufferSearch
  dsimp only
  by_cases hempty : needle.length = 0
  · have hbounds := clampOffset_bounds haystack.length offset
    simp only [if_pos hempty]
    refine ⟨_, ?_, finds_empty (by omega) isForward⟩
    rw [hempty, position_clampOffset, ← indexOfOffset_empty haystack.length offset isForward]
    rfl
  by_cases hbyte : needle.length = 1
  · simp only [if_neg hempty, if_pos hbyte, reduceIte]
    refine ⟨none, ?_, rfl⟩
    split
    · rfl
    split
    · rfl
    · rw [if_pos (by omega)]
      rfl
  -- The units stand in front of the last places of the whole pairs.
  have hin : ∀ j, Occurs (haystack.take (haystack.length / 2 * 2))
      (needle.take (needle.length / 2 * 2)) j →
      j + needle.length / 2 * 2 ≤ haystack.length / 2 * 2 := by
    intro j hj
    have hfits := hj.1
    rw [List.length_take, List.length_take] at hfits
    omega
  have hpair : 2 ≤ needle.length := by omega
  simp only [if_neg hempty, if_neg hbyte, reduceIte]
  obtain ⟨s, hstart, hs | ⟨hwide, hforward, hs⟩ | ⟨hwide, hbackward, hs⟩⟩ |
    ⟨hstart, hbackward, hs⟩ :=
      @indexOfOffset_cases haystack.length _ (Nat.pos_of_ne_zero hempty) offset isForward
  · rw [hstart, hs, Int.toNat_natCast, Option.bind_some]
    by_cases hwide : haystack.length < needle.length ∨
        isForward ∧ haystack.length < s + needle.length
    · rw [if_pos hwide]
      refine ⟨none, ?_, rfl⟩
      split
      · rfl
      · rw [if_pos (hwide.symm.imp_left fun h => ⟨h.1, by omega⟩)]
        rfl
    · rw [if_neg hwide]
      obtain ⟨hle, hroom⟩ := not_or.mp hwide
      have hfits : isForward = true → s + needle.length ≤ haystack.length :=
        fun hforward => Nat.le_of_not_lt fun hlt => hroom ⟨hforward, hlt⟩
      obtain ⟨found, hsearch, hfound⟩ := search_pairs hmax hpair (Nat.le_of_not_lt hle) hfits
      refine ⟨found, ?_, hfound⟩
      rw [if_neg (by omega), if_neg (not_or.mpr ⟨fun h => hroom ⟨h.1, by omega⟩, hle⟩),
        if_neg (by omega), hsearch]
  · rw [hstart, hs, Option.bind_some, if_pos (Or.inr (Int.le_refl _)),
      if_pos (Or.inr ⟨hforward, hwide⟩)]
    exact ⟨none, rfl, rfl⟩
  · -- Backward the last byte is as good a start as one behind the last place of the needle.
    subst hbackward
    rw [hstart, hs, Option.bind_some]
    by_cases hle : haystack.length < needle.length
    · rw [if_pos (Or.inl hle)]
      refine ⟨none, ?_, rfl⟩
      split
      · rfl
      · rw [if_pos (Or.inr hle)]
        rfl
    · have hlast : ((haystack.length : Int) - 1).toNat = haystack.length - 1 := by omega
      obtain ⟨found, hsearch, hfound⟩ :=
        @search_pairs _ _ hmax hpair (by omega) false (haystack.length - 1) (by simp)
      refine ⟨found, ?_, ?_⟩
      · rw [if_neg (by omega), hlast, if_neg (by simp; omega), if_neg (by omega), hsearch]
      · rw [if_neg (by simp; omega)]
        refine IsLast.congr (fun j hj => ?_) hfound
        have hj := hin j hj
        omega
  · rw [hstart, hs, Option.bind_none, if_pos (Or.inr (Int.le_refl _))]
    exact ⟨none, rfl, rfl⟩

theorem indexOfString_finds {haystack : Bytes} (hmax : haystack.length ≤ kMaxLength)
    (s : JsString) (offset : Int) (isForward : Bool) :
    ∃ found, indexOfString haystack s offset .ucs2 isForward = some (position found) ∧
      Finds (Occurs (stringSearch haystack s offset isForward).haystack
          (stringSearch haystack s offset isForward).needle) isForward
        (stringSearch haystack s offset isForward).start found := by
  obtain ⟨r, hr, hanswers⟩ := indexOfNeedle_answers hmax (ucs2Bytes s) offset .ucs2 isForward
  have hlength : (haystack.take (haystack.length / 2 * 2)).length = haystack.length / 2 * 2 := by
    rw [List.length_take]
    omega
  change Answers (haystack.take (haystack.length / 2 * 2)) (ucs2Bytes s) offset isForward r at hanswers
  unfold Answers at hanswers
  rw [hlength] at hanswers
  unfold indexOfString needleBytes stringSearch
  dsimp only
  rw [hr]
  by_cases hempty : s = []
  · subst hempty
    rw [if_pos (show ucs2Bytes [] = [] from rfl)] at hanswers
    rw [if_pos rfl]
    have hbounds := clampOffset_bounds (haystack.length / 2 * 2) offset
    refine ⟨_, ?_, finds_empty (by omega) isForward⟩
    rw [position_clampOffset, hanswers]
  · have hne : ucs2Bytes s ≠ [] := by
      intro hnil
      have hzero := Fs.ucs2Bytes_length s
      rw [hnil, List.length_nil] at hzero
      exact hempty (List.eq_nil_of_length_eq_zero (by omega))
    rw [if_neg hne] at hanswers
    rw [if_neg hempty]
    obtain ⟨found, rfl, hfound⟩ := hanswers
    exact ⟨found, rfl, hfound⟩

/-! ### The bytes stand for the units -/

theorem bufferSearch_units (haystack needle : Bytes) (offset : Int) (isForward : Bool) (k : Nat) :
    Occurs (bufferSearch haystack needle offset isForward).haystack
        (bufferSearch haystack needle offset isForward).needle (2 * k) ↔
      Occurs (makeUtf16String haystack) (makeUtf16String needle) k := by
  have hlength := makeUtf16String_length haystack
  unfold bufferSearch
  by_cases hshort : needle.length < 2
  · have hnil : makeUtf16String needle = [] := by
      apply List.eq_nil_of_length_eq_zero
      rw [makeUtf16String_length]
      omega
    rw [hnil, occurs_nil]
    split
    · rw [occurs_nil]
      dsimp only
      omega
    · rw [if_pos (by omega), occurs_nil]
      dsimp only
      omega
  · rw [if_neg (by omega), if_neg (by omega), ← occurs_units, ucs2Bytes_makeUtf16String,
      ucs2Bytes_makeUtf16String]

theorem stringSearch_units (haystack : Bytes) (s : JsString) (offset : Int) (isForward : Bool)
    (k : Nat) :
    Occurs (stringSearch haystack s offset isForward).haystack
        (stringSearch haystack s offset isForward).needle (2 * k) ↔
      Occurs (makeUtf16String haystack) s k := by
  rw [← occurs_units, ucs2Bytes_makeUtf16String]
  rfl

theorem unitAnswers_iff {haystack : Bytes} {needle : JsString} {offset : Int} {isForward : Bool}
    {search : ByteSearch} {found : Option Nat}
    (hunits : ∀ k, Occurs search.haystack search.needle (2 * k) ↔
      Occurs (makeUtf16String haystack) needle k)
    (hfound : Finds (Occurs search.haystack search.needle) isForward search.start found) :
    UnitAnswers haystack needle offset isForward (position found) ↔
      FindsWhole isForward search (makeUtf16String haystack) needle
        ((startOf haystack.length offset isForward).map (· / 2)) := by
  refine (scaled_iff hunits hfound).trans ⟨fun h => ⟨h.1, h.2⟩, fun h => ⟨h.reached, h.first⟩⟩

/-- A search in `ucs2` answers with whole units exactly if its bytes lead to them. -/
theorem unit_search_iff (haystack : Buf) (offset : Int) (isForward : Bool) :
    (∀ needle : Buf,
      (∃ r, indexOfBuffer haystack.bytes needle.bytes offset .ucs2 isForward = some r ∧
        UnitAnswers haystack.bytes (makeUtf16String needle.bytes) offset isForward r) ↔
      FindsWhole isForward (bufferSearch haystack.bytes needle.bytes offset isForward)
        (makeUtf16String haystack.bytes) (makeUtf16String needle.bytes)
        ((startOf haystack.bytes.length offset isForward).map (· / 2))) ∧
    ∀ s : JsString,
      (∃ r, indexOfString haystack.bytes s offset .ucs2 isForward = some r ∧
        UnitAnswers haystack.bytes s offset isForward r) ↔
      FindsWhole isForward (stringSearch haystack.bytes s offset isForward)
        (makeUtf16String haystack.bytes) s
        ((startOf haystack.bytes.length offset isForward).map (· / 2)) := by
  refine ⟨fun needle => ?_, fun s => ?_⟩
  · obtain ⟨found, hr, hfound⟩ :=
      indexOfBuffer_finds haystack.length_le needle.bytes offset isForward
    simp only [hr, Option.some.injEq, exists_eq_left']
    exact unitAnswers_iff (bufferSearch_units haystack.bytes needle.bytes offset isForward) hfound
  · obtain ⟨found, hr, hfound⟩ := indexOfString_finds haystack.length_le s offset isForward
    simp only [hr, Option.some.injEq, exists_eq_left']
    exact unitAnswers_iff (stringSearch_units haystack.bytes s offset isForward) hfound

/-- `Buffer.from([0x61, 0, 0x61, 0, 0, 0x61]).indexOf('\u6100', 0, 'ucs2')`: the bytes of the needle
stand at the odd byte 1 already, in front of the unit at byte 4. -/
theorem indexOfString_misaligned :
    indexOfString [0x61, 0, 0x61, 0, 0, 0x61] [0x6100] 0 .ucs2 true = some 1 ∧
      Finds (Occurs (makeUtf16String [0x61, 0, 0x61, 0, 0, 0x61]) [0x6100]) true (some 0) (some 2) ∧
      ¬ UnitAnswers [0x61, 0, 0x61, 0, 0, 0x61] [0x6100] 0 true 1 := by
  refine ⟨by decide, ⟨by decide, by decide, fun j _ hj => ?_⟩, ?_⟩
  · match j with
    | 0 => exact absurd hj (by decide)
    | 1 => exact absurd hj (by decide)
    | j + 2 => exact Nat.le_add_left 2 j
  · rintro ⟨found, hr, -⟩
    cases found with
    | none => simp [position] at hr
    | some k => simp only [position, Option.map_some] at hr; omega

end HermesNode.Buffer
