/-
Module: HermesNode.Buffer.Search
Purpose: `indexOfBuffer`, `indexOfNumber` and `indexOfString` of the `buffer` binding. The searchers
  compare windows of memory under bounds that their callers check, and have no value where a window
  leaves a buffer or an unsigned difference wraps around. In the encodings of single bytes they answer
  with the first position of the needle from the offset on, or with the last one up to it.
Trusted boundary: human-reviewed spec (transcribed from `lib/bindings/node_buffer.cpp`)
Main exports: Buf, memcmp, byte_search_exact
-/
import HermesNode.Lib.Occurrences
import HermesNode.Buffer.Base64
import HermesNode.Fs.Transfer

namespace HermesNode.Buffer

open Fs (toInt32 hexDecode)
open StringDecoder (Encoding)
open Streams (utf8Bytes latin1Bytes ucs2Bytes)

/-- `kMaxLength` on a 64-bit system. -/
def kMaxLength : Nat := 2 ^ 31 - 1

/-- The bytes of a Buffer. -/
structure Buf where
  bytes : Bytes
  length_le : bytes.length ≤ kMaxLength

/-! ### The searchers -/

/-- `a - b` of unsigned numbers. There is no value where it wraps around. -/
def sizeSub (a b : Nat) : Option Nat := if b ≤ a then some (a - b) else none

/-- `memcmp(a + i, b, n) == 0`. There is no value where the window leaves one of the buffers. -/
def memcmp (a : Bytes) (i : Nat) (b : Bytes) (n : Nat) : Option Bool := do
  let x ← readBytes a i n
  let y ← readBytes b 0 n
  pure (x == y)

/-- A pointer that `memchr` finds, as its distance from the start of the data. -/
def memchr (data : Bytes) (off n : Nat) (c : UInt8) : Option (Option Nat) :=
  (readBytes data off n).map fun window => (window.findIdx? (· == c)).map (off + ·)

def memchrForward (haystack : Bytes) (haystackLen : Nat) (needle : UInt8) (offset : Nat) :
    Option (Option Nat) :=
  if haystackLen ≤ offset then some none
  else (sizeSub haystackLen offset).bind fun n => memchr haystack offset n needle

/-- The loop of `memchrReverse`, `i` places from the start. -/
def memchrReverseLoop (haystack : Bytes) (needle : UInt8) : Nat → Option (Option Nat)
  | 0 => some none
  | i + 1 =>
      match haystack[i]? with
      | none => none
      | some c => if c = needle then some (some i) else memchrReverseLoop haystack needle i

def memchrReverse (haystack : Bytes) (needle : UInt8) (endOffset : Nat) : Option (Option Nat) :=
  memchrReverseLoop haystack needle (endOffset + 1)

/-- The loop of `searchForward` from `i` to `last`. -/
def forwardLoop (haystack needle : Bytes) (needleLen last : Nat) : Nat → Nat → Option Int
  | 0, _ => none
  | fuel + 1, i =>
      if i ≤ last then
        match memcmp haystack i needle needleLen with
        | none => none
        | some true => some i
        | some false => forwardLoop haystack needle needleLen last fuel (i + 1)
      else some (-1)

def searchForward (haystack : Bytes) (haystackLen : Nat) (needle : Bytes) (needleLen offset : Nat) :
    Option Int :=
  if needleLen = 0 then some offset
  else if haystackLen < needleLen then some (-1)
  else if haystackLen < offset + needleLen then some (-1)
  else (sizeSub haystackLen needleLen).bind fun last =>
    forwardLoop haystack needle needleLen last (last + 2) offset

/-- The loop of `searchReverse`, `i` places from the start. -/
def reverseLoop (haystack needle : Bytes) (needleLen : Nat) : Nat → Option Int
  | 0 => some (-1)
  | i + 1 =>
      match memcmp haystack i needle needleLen with
      | none => none
      | some true => some i
      | some false => reverseLoop haystack needle needleLen i

def searchReverse (haystack : Bytes) (haystackLen : Nat) (needle : Bytes) (needleLen offset : Nat) :
    Option Int :=
  if needleLen = 0 then some offset
  else if haystackLen < needleLen then some (-1)
  else (sizeSub haystackLen needleLen).bind fun last =>
    reverseLoop haystack needle needleLen (min offset last + 1)

/-- `indexOfOffset`. The sums stay far inside an `int64_t`: the callers clamp the offset to 32 bits. -/
def indexOfOffset (length : Nat) (offset needleLen : Int) (isForward : Bool) : Int :=
  let len : Int := length
  if offset < 0 then
    if 0 ≤ offset + len then len + offset
    else if isForward ∨ needleLen = 0 then 0
    else -1
  else
    if offset + needleLen ≤ len then offset
    else if needleLen = 0 then len
    else if isForward then -1
    else len - 1

/-! ### The callbacks -/

/-- `searchForward` or `searchReverse`. -/
def search (isForward : Bool) (haystack : Bytes) (haystackLen : Nat) (needle : Bytes)
    (needleLen offset : Nat) : Option Int :=
  if isForward then searchForward haystack haystackLen needle needleLen offset
  else searchReverse haystack haystackLen needle needleLen offset

def indexOfBuffer (haystack needle : Bytes) (offset : Int) (enc : Encoding) (isForward : Bool) :
    Option Int :=
  let optOffset := indexOfOffset haystack.length offset needle.length isForward
  if needle.length = 0 then some optOffset
  else if haystack.length = 0 ∨ optOffset ≤ -1 then some (-1)
  else
    let offset := optOffset.toNat
    if (isForward ∧ haystack.length < needle.length + offset) ∨ haystack.length < needle.length then
      some (-1)
    else if enc = .ucs2 then
      if haystack.length < 2 ∨ needle.length < 2 then some (-1)
      else
        let h16Len := haystack.length / 2
        let n16Len := needle.length / 2
        (search isForward haystack (h16Len * 2) needle (n16Len * 2) (offset / 2 * 2)).map toInt32
    else (search isForward haystack haystack.length needle needle.length offset).map toInt32

def indexOfNumber (buf : Bytes) (needle : UInt32) (offset : Int) (isForward : Bool) : Option Int :=
  let optOffset := indexOfOffset buf.length offset 1 isForward
  if optOffset ≤ -1 ∨ buf.length = 0 then some (-1)
  else
    let offset := optOffset.toNat
    let found :=
      if isForward then memchrForward buf buf.length (needle &&& 0xFF).toUInt8 offset
      else memchrReverse buf (needle &&& 0xFF).toUInt8 offset
    found.map fun pointer =>
      match pointer with
      | some pos => toInt32 pos
      | none => -1

/-- The bytes of a search string. -/
def needleBytes (s : JsString) : Encoding → Bytes
  | .ucs2 => ucs2Bytes s
  | .utf8 => utf8Bytes s
  | .latin1 | .ascii => latin1Bytes s
  | .hex => hexDecode (latin1Bytes s) ((latin1Bytes s).length / 2)
  | .base64 => (base64Decode false (latin1Bytes s)).2
  | .base64url => (base64Decode true (latin1Bytes s)).2
  | .buffer => utf8Bytes s

/-- `indexOfString` behind the conversion of the string. -/
def indexOfNeedle (buf needle : Bytes) (offset : Int) (enc : Encoding) (isForward : Bool) :
    Option Int :=
  let haystackLen := if enc = .ucs2 then buf.length / 2 * 2 else buf.length
  let optOffset := indexOfOffset haystackLen offset needle.length isForward
  if needle.length = 0 then some optOffset
  else if haystackLen = 0 ∨ optOffset ≤ -1 then some (-1)
  else
    let offset := optOffset.toNat
    if (isForward ∧ haystackLen < needle.length + offset) ∨ haystackLen < needle.length then
      some (-1)
    else (search isForward buf haystackLen needle needle.length offset).map toInt32

def indexOfString (buf : Bytes) (s : JsString) (offset : Int) (enc : Encoding) (isForward : Bool) :
    Option Int :=
  indexOfNeedle buf (needleBytes s enc) offset enc isForward

/-! ### What a search answers -/

/-- A position as a number; `-1` if there is none. -/
def position : Option Nat → Int
  | some i => i
  | none => -1

/-- The byte an offset stands for: a negative one counts from the end. Before the start a search
forward begins at the start and a search backward at no byte at all. -/
def startOf (length : Nat) (offset : Int) (isForward : Bool) : Option Nat :=
  if 0 ≤ offset then some offset.toNat
  else if 0 ≤ (length : Int) + offset then some ((length : Int) + offset).toNat
  else if isForward then some 0
  else none

/-- The first position from `start` on, or the last one up to it. -/
def Finds (P : Nat → Prop) (isForward : Bool) (start : Option Nat) (found : Option Nat) : Prop :=
  match start with
  | some start => if isForward then IsFirst P start found else IsLast P start found
  | none => found = none

/-- The offset clamped to `[0, length]`. -/
def clampOffset (length : Nat) (offset : Int) : Int :=
  max 0 (min (length : Int) (if offset < 0 then (length : Int) + offset else offset))

/-- The answer of a search for some bytes. -/
def Answers (haystack needle : Bytes) (offset : Int) (isForward : Bool) (r : Int) : Prop :=
  if needle = [] then r = clampOffset haystack.length offset
  else ∃ found, r = position found ∧
    Finds (Occurs haystack needle) isForward (startOf haystack.length offset isForward) found

/-! ### The searchers find -/

/-- The window of a comparison inside both buffers. -/
theorem memcmp_eq {a b : Bytes} {i n len : Nat} (hi : i + n ≤ len) (ha : len ≤ a.length)
    (hb : n ≤ b.length) : memcmp a i b n = some (decide (Occurs (a.take len) (b.take n) i)) := by
  have hread : readBytes a i n = some ((a.drop i).take n) := by
    unfold readBytes
    rw [if_pos (by omega)]
  have hneedle : readBytes b 0 n = some (b.take n) := by
    unfold readBytes
    rw [if_pos (by omega), List.drop_zero]
  have hn : (b.take n).length = n := by
    rw [List.length_take]
    omega
  have hocc : Occurs (a.take len) (b.take n) i ↔ (a.drop i).take n = b.take n := by
    rw [occurs_take (by omega)]
    unfold Occurs
    rw [hn]
    constructor
    · exact fun h => h.2
    · exact fun h => ⟨by omega, h⟩
  unfold memcmp
  rw [hread, hneedle]
  simp only [Option.bind_eq_bind, Option.bind_some, Option.pure_def, hocc, beq_eq_decide]

section

variable {P : Nat → Prop} [DecidablePred P] {haystack needle : Bytes} {needleLen last : Nat}

theorem forwardLoop_spec
    (hcmp : ∀ i, i ≤ last → memcmp haystack i needle needleLen = some (decide (P i)))
    (hlast : ∀ i, P i → i ≤ last) {fuel i : Nat} (hi : i ≤ last + 1) (hfuel : last + 2 - i ≤ fuel) :
    ∃ found, forwardLoop haystack needle needleLen last fuel i = some (position found) ∧
      IsFirst P i found := by
  induction fuel generalizing i with
  | zero => omega
  | succ fuel ih =>
      unfold forwardLoop
      by_cases hle : i ≤ last
      · rw [if_pos hle, hcmp i hle]
        by_cases hP : P i
        · exact ⟨some i, by simp [hP, position], Nat.le_refl i, hP, fun j hj _ => hj⟩
        · obtain ⟨found, hloop, hfirst⟩ := @ih (i + 1) (by omega) (by omega)
          refine ⟨found, by simpa [hP] using hloop, ?_⟩
          apply hfirst.congr
          intro j hPj
          have hne : j ≠ i := fun heq => hP (heq ▸ hPj)
          omega
      · refine ⟨none, by simp [hle, position], ?_⟩
        intro j hj hPj
        have hjl := hlast j hPj
        omega

theorem reverseLoop_spec {i : Nat}
    (hcmp : ∀ j, j ≤ i → memcmp haystack j needle needleLen = some (decide (P j))) :
    ∃ found, reverseLoop haystack needle needleLen (i + 1) = some (position found) ∧
      IsLast P i found := by
  induction i with
  | zero =>
      unfold reverseLoop
      rw [hcmp 0 (Nat.le_refl 0)]
      by_cases hP : P 0
      · exact ⟨some 0, by simp [hP, position], Nat.le_refl 0, hP, fun j hj _ => hj⟩
      · refine ⟨none, by simp [hP, reverseLoop, position], fun j hj hPj => hP ?_⟩
        rwa [Nat.le_zero.mp hj] at hPj
  | succ i ih =>
      unfold reverseLoop
      rw [hcmp (i + 1) (Nat.le_refl _)]
      by_cases hP : P (i + 1)
      · exact ⟨some (i + 1), by simp [hP, position], Nat.le_refl _, hP, fun j hj _ => hj⟩
      · obtain ⟨found, hloop, hlast⟩ := ih fun j hj => hcmp j (Nat.le_succ_of_le hj)
        refine ⟨found, by simpa [hP] using hloop, IsLast.congr (fun j hPj => ?_) hlast⟩
        have hne : j ≠ i + 1 := fun heq => hP (heq ▸ hPj)
        omega

end

variable {haystack needle : Bytes} {haystackLen needleLen offset : Nat}

theorem searchForward_spec (hpos : 0 < needleLen) (hneedle : needleLen ≤ needle.length)
    (hhaystack : haystackLen ≤ haystack.length) (hfits : offset + needleLen ≤ haystackLen) :
    ∃ found, searchForward haystack haystackLen needle needleLen offset = some (position found) ∧
      IsFirst (Occurs (haystack.take haystackLen) (needle.take needleLen)) offset found := by
  have hn : (needle.take needleLen).length = needleLen := by
    rw [List.length_take]
    omega
  have hlen : (haystack.take haystackLen).length = haystackLen := by
    rw [List.length_take]
    omega
  unfold searchForward sizeSub
  rw [if_neg (by omega), if_neg (by omega), if_neg (by omega), if_pos (by omega), Option.bind_some]
  apply forwardLoop_spec
  · intro i hi
    exact memcmp_eq (by omega) hhaystack hneedle
  · intro i hocc
    have hle := hocc.le
    omega
  · omega
  · omega

theorem searchReverse_spec (hpos : 0 < needleLen) (hneedle : needleLen ≤ needle.length)
    (hhaystack : haystackLen ≤ haystack.length) (hfits : needleLen ≤ haystackLen) :
    ∃ found, searchReverse haystack haystackLen needle needleLen offset = some (position found) ∧
      IsLast (Occurs (haystack.take haystackLen) (needle.take needleLen)) offset found := by
  have hn : (needle.take needleLen).length = needleLen := by
    rw [List.length_take]
    omega
  have hlen : (haystack.take haystackLen).length = haystackLen := by
    rw [List.length_take]
    omega
  unfold searchReverse sizeSub
  rw [if_neg (by omega), if_neg (by omega), if_pos (by omega), Option.bind_some]
  obtain ⟨found, hloop, hlast⟩ := @reverseLoop_spec
    (Occurs (haystack.take haystackLen) (needle.take needleLen)) _ haystack needle needleLen
    (min offset (haystackLen - needleLen))
    (fun j hj => memcmp_eq (by omega) hhaystack hneedle)
  refine ⟨found, hloop, IsLast.congr (fun j hocc => ?_) hlast⟩
  have hle := hocc.le
  omega

/-! ### The callbacks answer -/

variable {isForward : Bool}

theorem Finds.passes {P : Nat → Prop} {start : Option Nat} {i : Nat}
    (h : Finds P isForward start (some i)) : P i:= by
  unfold Finds at h
  split at h
  · split at h
    · exact h.2.1
    · exact h.2.1
  · cases h

/-- Nothing is found where nothing passes. -/
theorem finds_none {P : Nat → Prop} {start : Option Nat}
    (h : ∀ s ∈ start, ∀ j, P j → isForward = true ∧ j < s) : Finds P isForward start none:= by
  unfold Finds
  split
  · rename_i s
    split
    · intro j hj hP
      have hlt := (h s rfl j hP).2
      omega
    · rename_i hbackward
      exact fun j hj hP => hbackward (h s rfl j hP).1
  · rfl

/-- A position of a haystack is an `int32_t`. -/
theorem toInt32_position {found : Option Nat} (h : ∀ i, found = some i → i ≤ kMaxLength) :
    toInt32 (position found) = position found := by
  cases found with
  | none => rfl
  | some i =>
      have hle := h i rfl
      unfold kMaxLength at hle
      exact Fs.toInt32_of_lt (by omega)

theorem search_spec (hpos : 0 < needleLen) (hneedle : needleLen ≤ needle.length)
    (hhaystack : haystackLen ≤ haystack.length) (hle : needleLen ≤ haystackLen)
    (hfits : isForward = true → offset + needleLen ≤ haystackLen) :
    ∃ found, search isForward haystack haystackLen needle needleLen offset =
        some (position found) ∧
      Finds (Occurs (haystack.take haystackLen) (needle.take needleLen)) isForward (some offset)
        found := by
  cases isForward with
  | true => exact searchForward_spec hpos hneedle hhaystack (hfits rfl)
  | false => exact searchReverse_spec hpos hneedle hhaystack hle

/-- What `indexOfOffset` makes of the offset of a needle: the byte it stands for, unless the needle
does not fit behind that byte, or there is none. -/
theorem indexOfOffset_cases {length n : Nat} (hn : 0 < n) (offset : Int) (isForward : Bool) :
    (∃ s, startOf length offset isForward = some s ∧
      (indexOfOffset length offset n isForward = s ∨
        length < s + n ∧ isForward = true ∧ indexOfOffset length offset n isForward = -1 ∨
        length < s + n ∧ isForward = false ∧
          indexOfOffset length offset n isForward = (length : Int) - 1)) ∨
    startOf length offset isForward = none ∧ isForward = false ∧
      indexOfOffset length offset n isForward = -1 := by
  unfold startOf indexOfOffset
  dsimp only
  by_cases hnegative : offset < 0
  · rw [if_pos hnegative, if_neg (by omega)]
    by_cases hinside : 0 ≤ offset + (length : Int)
    · rw [if_pos hinside, if_pos (by omega)]
      exact Or.inl ⟨_, rfl, Or.inl (by omega)⟩
    · rw [if_neg hinside, if_neg (by omega)]
      cases isForward with
      | true => exact Or.inl ⟨0, rfl, Or.inl (by simp)⟩
      | false => exact Or.inr ⟨rfl, rfl, by simp; omega⟩
  · rw [if_neg hnegative, if_pos (by omega)]
    refine Or.inl ⟨_, rfl, ?_⟩
    by_cases hfits : offset + (n : Int) ≤ length
    · rw [if_pos hfits]
      exact Or.inl (by omega)
    · rw [if_neg hfits, if_neg (by omega)]
      cases isForward with
      | true => exact Or.inr (Or.inl ⟨by omega, rfl, rfl⟩)
      | false => exact Or.inr (Or.inr ⟨by omega, rfl, rfl⟩)

theorem indexOfOffset_empty (length : Nat) (offset : Int) (isForward : Bool) :
    indexOfOffset length offset 0 isForward = clampOffset length offset := by
  unfold indexOfOffset clampOffset
  dsimp only
  by_cases hnegative : offset < 0
  · rw [if_pos hnegative, if_pos hnegative]
    split
    · omega
    · rw [if_pos (Or.inr rfl)]
      omega
  · rw [if_neg hnegative, if_neg hnegative]
    split
    · omega
    · rw [if_pos rfl]
      omega

section

variable {P : Nat → Prop} {length n : Nat} {isForward : Bool}

/-- The checks in front of a searcher answer for it where the needle cannot be found. -/
theorem checks_find (hn : 0 < n) (hP : ∀ j, P j → j + n ≤ length) (offset : Int)
    (body : Nat → Option Int)
    (hbody : ∀ s, n ≤ length → (isForward = true → s + n ≤ length) →
      ∃ found, body s = some (position found) ∧ Finds P isForward (some s) found) :
    ∃ found,
      (if length = 0 ∨ indexOfOffset length offset n isForward ≤ -1 then some (-1)
        else if (isForward ∧ length < n + (indexOfOffset length offset n isForward).toNat) ∨
            length < n then some (-1)
        else body (indexOfOffset length offset n isForward).toNat) = some (position found) ∧
      Finds P isForward (startOf length offset isForward) found := by
  obtain ⟨s, hstart, hs | ⟨hwide, hforward, hs⟩ | ⟨hwide, hbackward, hs⟩⟩ |
    ⟨hstart, hbackward, hs⟩ := indexOfOffset_cases hn offset isForward
  · -- The searcher starts at the byte of the offset.
    rw [hstart, hs, Int.toNat_natCast]
    split
    · refine ⟨none, rfl, finds_none fun s' _ j hj => ?_⟩
      have hin := hP j hj
      omega
    split
    · rename_i _ hwide
      refine ⟨none, rfl, finds_none fun s' hs' j hj => ?_⟩
      cases hs'
      have hin := hP j hj
      obtain ⟨hforward, hwide⟩ | hwide := hwide
      · exact ⟨hforward, by omega⟩
      · omega
    · rename_i hwide
      refine hbody s (by omega) fun hforward => ?_
      have hle : ¬ length < n + s := fun hlt => hwide (Or.inl ⟨hforward, hlt⟩)
      omega
  · -- Behind the last place of the needle there is nothing to find forward,
    rw [hstart, hs, if_pos (Or.inr (Int.le_refl _))]
    refine ⟨none, rfl, finds_none fun s' hs' j hj => ⟨hforward, ?_⟩⟩
    have hin := hP j hj
    cases hs'
    omega
  · -- and backward the last byte is as good a start.
    rw [hstart, hs]
    subst hbackward
    by_cases hfits : n ≤ length
    · rw [if_neg (by omega), if_neg (by simp; omega)]
      obtain ⟨found, hfound, hlast⟩ := hbody ((length : Int) - 1).toNat hfits (by simp)
      refine ⟨found, hfound, IsLast.congr (fun j hj => ?_) hlast⟩
      have hin := hP j hj
      omega
    · have hfew : ∀ j, ¬ P j := fun j hj => by
        have hin := hP j hj
        omega
      refine ⟨none, ?_, fun j _ hj => hfew j hj⟩
      split
      · rfl
      · rw [if_pos (Or.inr (by omega))]
        rfl
  · rw [hstart, hs, if_pos (Or.inr (Int.le_refl _))]
    exact ⟨none, rfl, rfl⟩

end

/-- The part of a buffer that a search for a string looks at. -/
def searched (buf : Bytes) (enc : Encoding) : Bytes :=
  buf.take (if enc = .ucs2 then buf.length / 2 * 2 else buf.length)

theorem searched_length (buf : Bytes) (enc : Encoding) :
    (searched buf enc).length = if enc = .ucs2 then buf.length / 2 * 2 else buf.length := by
  unfold searched
  rw [List.length_take]
  split <;> omega

theorem searched_bytes {enc : Encoding} (buf : Bytes) (henc : enc ≠ .ucs2) :
    searched buf enc = buf := by
  unfold searched
  rw [if_neg henc, List.take_length]

theorem answers_empty {haystack : Bytes} {offset : Int} :
    Answers haystack [] offset isForward
    (indexOfOffset haystack.length offset ((0 : Nat) : Int) isForward):= by
  unfold Answers
  rw [if_pos rfl]
  exact indexOfOffset_empty haystack.length offset isForward

theorem answers_found {haystack needle : Bytes} {offset : Int} {found : Option Nat}
    (hne : needle ≠ []) (hfound : Finds (Occurs haystack needle) isForward
    (startOf haystack.length offset isForward) found) :
    Answers haystack needle offset isForward (position found) := by
  unfold Answers
  rw [if_neg hne]
  exact ⟨found, rfl, hfound⟩

/-- A searcher run on whole bytes, and its answer as an `int32_t`. -/
theorem search_bytes {haystack needle : Bytes} {len s : Nat} (hmax : haystack.length ≤ kMaxLength)
    (hlen : len ≤ haystack.length) (hne : needle ≠ []) (hle : needle.length ≤ len)
    (hfits : isForward = true → s + needle.length ≤ len) :
    ∃ found, (search isForward haystack len needle needle.length s).map toInt32 =
        some (position found) ∧
      Finds (Occurs (haystack.take len) needle) isForward (some s) found := by
  have hpos := List.length_pos_of_ne_nil hne
  obtain ⟨found, hsearch, hfound⟩ :=
    @search_spec haystack needle len needle.length s isForward hpos (Nat.le_refl _) hlen hle hfits
  rw [List.take_length] at hfound
  refine ⟨found, ?_, hfound⟩
  rw [hsearch, Option.map_some, toInt32_position]
  rintro i rfl
  have hin := hfound.passes.le
  rw [List.length_take] at hin
  omega

/-- A search for a string answers for the part of the buffer it looks at. -/
theorem indexOfNeedle_answers {buf : Bytes} (hmax : buf.length ≤ kMaxLength) (needle : Bytes)
    (offset : Int) (enc : Encoding) (isForward : Bool) :
    ∃ r, indexOfNeedle buf needle offset enc isForward = some r ∧
      Answers (searched buf enc) needle offset isForward r := by
  unfold indexOfNeedle
  dsimp only
  rw [← searched_length]
  by_cases hne : needle = []
  · subst hne
    exact ⟨_, if_pos rfl, answers_empty⟩
  · have hpos := List.length_pos_of_ne_nil hne
    rw [if_neg (Nat.ne_of_gt hpos)]
    have hlen : (searched buf enc).length ≤ buf.length := by
      rw [searched_length]
      split <;> omega
    have htake : buf.take (searched buf enc).length = searched buf enc := by
      rw [searched_length, searched]
    obtain ⟨found, hr, hfound⟩ := checks_find (P := Occurs (searched buf enc) needle) hpos
      (fun j hj => hj.1) offset
      (fun s => (search isForward buf (searched buf enc).length needle needle.length s).map toInt32)
      (fun s hle hfits => htake ▸ search_bytes hmax hlen hne hle hfits)
    exact ⟨position found, hr, answers_found hne hfound⟩

theorem indexOfBuffer_answers {haystack : Bytes} (hmax : haystack.length ≤ kMaxLength)
    (needle : Bytes) (offset : Int) {enc : Encoding} (henc : enc ≠ .ucs2) (isForward : Bool) :
    ∃ r, indexOfBuffer haystack needle offset enc isForward = some r ∧
      Answers haystack needle offset isForward r := by
  unfold indexOfBuffer
  dsimp only
  by_cases hne : needle = []
  · subst hne
    exact ⟨_, if_pos rfl, answers_empty⟩
  · have hpos := List.length_pos_of_ne_nil hne
    rw [if_neg (Nat.ne_of_gt hpos)]
    simp only [if_neg henc]
    have hbody : ∀ s, needle.length ≤ haystack.length →
        (isForward = true → s + needle.length ≤ haystack.length) →
        ∃ found, (search isForward haystack haystack.length needle needle.length s).map toInt32 =
            some (position found) ∧
          Finds (Occurs haystack needle) isForward (some s) found := by
      intro s hle hfits
      have hsearch := search_bytes hmax (Nat.le_refl _) hne hle hfits
      rwa [List.take_length] at hsearch
    obtain ⟨found, hr, hfound⟩ := checks_find hpos (fun j hj => hj.1) offset _ hbody
    exact ⟨position found, hr, answers_found hne hfound⟩

/-! ### Bytes -/

theorem memchrForward_spec {haystack : Bytes} {c : UInt8} {offset : Nat} :
    ∃ found, memchrForward haystack haystack.length c offset = some found ∧
      IsFirst (Occurs haystack [c]) offset found := by
  unfold memchrForward
  by_cases hle : haystack.length ≤ offset
  · rw [if_pos hle]
    refine ⟨none, rfl, fun j hj hocc => ?_⟩
    have hfits := hocc.1
    rw [List.length_singleton] at hfits
    omega
  · have hread : readBytes haystack offset (haystack.length - offset) =
        some (haystack.drop offset) := by
      unfold readBytes
      rw [if_pos (by omega), List.take_of_length_le (by simp)]
    rw [if_neg hle, sizeSub, if_pos (by omega), Option.bind_some, memchr, hread, Option.map_some]
    refine ⟨_, rfl, ?_⟩
    have hget : ∀ j, offset ≤ j → Occurs haystack [c] j →
        (haystack.drop offset)[j - offset]? = some c := by
      intro j hj hocc
      rw [List.getElem?_drop, Nat.add_sub_cancel' hj]
      exact occurs_singleton.mp hocc
    cases hfind : (haystack.drop offset).findIdx? (· == c) with
    | none =>
        intro j hj hocc
        rw [List.findIdx?_eq_none_iff] at hfind
        have hne := hfind c (List.mem_of_getElem? (hget j hj hocc))
        simp at hne
    | some k =>
        obtain ⟨hk, heq, hbefore⟩ := List.findIdx?_eq_some_iff_getElem.mp hfind
        refine ⟨Nat.le_add_right _ _, ?_, fun j hj hocc => ?_⟩
        · rw [occurs_singleton, ← List.getElem?_drop, List.getElem?_eq_getElem hk]
          exact congrArg some (eq_of_beq heq)
        · change offset + k ≤ j
          apply Nat.le_of_not_lt
          intro hlt
          obtain ⟨hj', heq'⟩ := List.getElem?_eq_some_iff.mp (hget j hj hocc)
          exact hbefore (j - offset) (by omega) (by rw [heq']; exact beq_self_eq_true c)

theorem memchrReverse_spec {haystack : Bytes} {c : UInt8} {offset : Nat}
    (h : offset < haystack.length) :
    ∃ found, memchrReverse haystack c offset = some found ∧
      IsLast (Occurs haystack [c]) offset found := by
  unfold memchrReverse
  induction offset with
  | zero =>
      unfold memchrReverseLoop
      by_cases hc : haystack[0]? = some c
      · rw [hc]
        exact ⟨some 0, if_pos rfl, Nat.le_refl 0, occurs_singleton.mpr hc, fun j hj _ => hj⟩
      · have hget := List.getElem?_eq_getElem h
        rw [hget] at hc ⊢
        refine ⟨none, if_neg fun heq => hc (congrArg some heq), fun j hj hocc => hc ?_⟩
        rw [← hget, ← Nat.le_zero.mp hj]
        exact occurs_singleton.mp hocc
  | succ offset ih =>
      unfold memchrReverseLoop
      by_cases hc : haystack[offset + 1]? = some c
      · rw [hc]
        exact ⟨some (offset + 1), if_pos rfl, Nat.le_refl _, occurs_singleton.mpr hc,
          fun j hj _ => hj⟩
      · have hget := List.getElem?_eq_getElem h
        obtain ⟨found, hloop, hlast⟩ := ih (by omega)
        rw [hget] at hc ⊢
        refine ⟨found, (if_neg fun heq => hc (congrArg some heq)).trans hloop,
          IsLast.congr (fun j hocc => ?_) hlast⟩
        have hne : j ≠ offset + 1 := by
          rintro rfl
          exact hc (hget ▸ occurs_singleton.mp hocc)
        omega

theorem value_mod (value : UInt32) : (value &&& 0xFF).toUInt8 = value.toUInt8 := by
  rw [UInt32.toUInt8_and]
  exact UInt8.and_neg_one

/-- The offset of a single byte is a byte of the buffer. -/
theorem indexOfOffset_lt {length : Nat} (hpos : 0 < length) (offset : Int) (isForward : Bool) :
    indexOfOffset length offset 1 isForward < length := by
  unfold indexOfOffset
  dsimp only
  split
  · split
    · omega
    · split <;> omega
  · split
    · omega
    · split
      · omega
      · split <;> omega

/-- The searchers for a byte, run inside the buffer. -/
theorem memchr_bytes {buf : Bytes} (hmax : buf.length ≤ kMaxLength) (c : UInt8) {s : Nat}
    (hs : s < buf.length) (isForward : Bool) :
    ∃ found,
      ((if isForward then memchrForward buf buf.length c s else memchrReverse buf c s).map
        fun pointer => match pointer with
          | some pos => toInt32 pos
          | none => -1) = some (position found) ∧
      Finds (Occurs buf [c]) isForward (some s) found := by
  have hmatch : ∀ found : Option Nat, (∀ i, found = some i → i ≤ kMaxLength) →
      (match found with
        | some pos => toInt32 pos
        | none => -1) = position found := by
    intro found h
    cases found with
    | none => rfl
    | some i => simpa only [position] using toInt32_position h
  have hinside : ∀ {found}, Finds (Occurs buf [c]) isForward (some s) found →
      ∀ i, found = some i → i ≤ kMaxLength := by
    rintro found hfound i rfl
    have hfits := hfound.passes.1
    omega
  cases isForward with
  | true =>
      obtain ⟨found, hchr, hfirst⟩ := @memchrForward_spec buf c s
      refine ⟨found, ?_, hfirst⟩
      rw [if_pos rfl, hchr, Option.map_some, hmatch found (hinside hfirst)]
  | false =>
      obtain ⟨found, hchr, hlast⟩ := memchrReverse_spec (c := c) hs
      refine ⟨found, ?_, hlast⟩
      rw [if_neg Bool.false_ne_true, hchr, Option.map_some, hmatch found (hinside hlast)]

theorem indexOfNumber_answers {buf : Bytes} (hmax : buf.length ≤ kMaxLength) (value : UInt32)
    (offset : Int) (isForward : Bool) :
    ∃ r, indexOfNumber buf value offset isForward = some r ∧
      Answers buf [value.toUInt8] offset isForward r := by
  have hne : [value.toUInt8] ≠ [] := List.cons_ne_nil _ _
  have hin : ∀ j, Occurs buf [value.toUInt8] j → j + 1 ≤ buf.length := fun j hj => hj.1
  unfold indexOfNumber
  dsimp only
  rw [value_mod]
  have hcases := @indexOfOffset_cases buf.length 1 Nat.one_pos offset isForward
  simp only [Int.natCast_one] at hcases
  by_cases hbefore : indexOfOffset buf.length offset 1 isForward ≤ -1 ∨ buf.length = 0
  · -- The checks answer for a byte that no place is left for.
    refine ⟨position none, if_pos hbefore, answers_found hne (finds_none fun s hs j hj => ?_)⟩
    have hj := hin j hj
    obtain ⟨s', hstart, hopt | ⟨hwide, hforward, hopt⟩ | ⟨hwide, hbackward, hopt⟩⟩ |
      ⟨hstart, hbackward, hopt⟩ := hcases
    · omega
    · rw [hstart] at hs
      cases hs
      exact ⟨hforward, by omega⟩
    · omega
    · rw [hstart] at hs
      cases hs
  · have hlt := indexOfOffset_lt (Nat.pos_of_ne_zero fun h => hbefore (Or.inr h)) offset isForward
    obtain ⟨s', hstart, hopt | ⟨hwide, hforward, hopt⟩ | ⟨hwide, hbackward, hopt⟩⟩ |
      ⟨hstart, hbackward, hopt⟩ := hcases
    · obtain ⟨found, hchr, hfound⟩ := memchr_bytes hmax value.toUInt8 (s := s') (by omega) isForward
      refine ⟨position found, (if_neg hbefore).trans ?_, answers_found hne (hstart ▸ hfound)⟩
      rw [← hchr, hopt, Int.toNat_natCast]
    · omega
    · -- Backward the search starts at the last byte instead.
      obtain ⟨found, hchr, hlast⟩ :=
        memchr_bytes hmax value.toUInt8 (s := buf.length - 1) (by omega) isForward
      refine ⟨position found, (if_neg hbefore).trans ?_, answers_found hne ?_⟩
      · rw [← hchr, hopt, show ((buf.length : Int) - 1).toNat = buf.length - 1 by omega]
      · subst hbackward
        rw [hstart]
        refine IsLast.congr (fun j hj => ?_) hlast
        have hj := hin j hj
        omega
    · omega

/-! ### Searches of bytes -/

/-- In every encoding but `ucs2` the callbacks answer for the bytes of the needle. -/
theorem byte_search_exact (haystack : Buf) {enc : Encoding} (henc : enc ≠ .ucs2) (offset : Int)
    (isForward : Bool) :
    (∀ needle : Buf, ∃ r,
      indexOfBuffer haystack.bytes needle.bytes offset enc isForward = some r ∧
        Answers haystack.bytes needle.bytes offset isForward r) ∧
    (∀ value : UInt32, ∃ r, indexOfNumber haystack.bytes value offset isForward = some r ∧
      Answers haystack.bytes [value.toUInt8] offset isForward r) ∧
    ∀ s : JsString, ∃ r, indexOfString haystack.bytes s offset enc isForward = some r ∧
      Answers haystack.bytes (needleBytes s enc) offset isForward r := by
  refine ⟨fun needle => ?_, fun value => ?_, fun s => ?_⟩
  · exact indexOfBuffer_answers haystack.length_le needle.bytes offset henc isForward
  · exact indexOfNumber_answers haystack.length_le value offset isForward
  · have hstring := indexOfNeedle_answers haystack.length_le (needleBytes s enc) offset enc isForward
    rwa [searched_bytes haystack.bytes henc] at hstring

/-- The last `61` of `61 62 61`, from behind its end. -/
theorem byte_search_exact_backward :
    Encoding.latin1 ≠ .ucs2 ∧
      ∃ r, indexOfString [0x61, 0x62, 0x61] [0x61] 7 .latin1 false = some r ∧
        Answers [0x61, 0x62, 0x61] (needleBytes [0x61] .latin1) 7 false r :=
  ⟨by decide, (byte_search_exact ⟨[0x61, 0x62, 0x61], by decide⟩ (by decide) 7 false).2.2 [0x61]⟩

example : indexOfString [0x61, 0x62, 0x61] [0x61] 7 .latin1 false = some 2 := by decide

end HermesNode.Buffer
