/-
Module: HermesNode.Encoding.EncodeInto
Purpose: `encodeInto` of the `encoding_binding`. It takes the UTF-8 of the whole string, walks over it by
  the lengths that lead bytes announce while they fit, copies what it has passed, and counts the code
  units of that copy. What is copied is the longest run of whole code points that fits, and the count is
  that of the code units they stand for.
Trusted boundary: human-reviewed spec (transcribed from `lib/bindings/node_encoding.cpp` and
  `utf16_length_from_utf8` of the vendored simdutf; the string getter of Node-API is as documented)
Main exports: sequenceLength, copyLoop, encodeInto_longest
-/
import HermesNode.Lib.Utf8
import HermesNode.Fs.Transfer
import HermesNode.Buffer.Fill

namespace HermesNode.Encoding

open Streams (utf8Bytes)
open Buffer (writeBytes)

/-! ### The binding -/

/-- The length that a lead byte announces. -/
def sequenceLength (b : UInt8) : Nat :=
  if b < 0x80 then 1
  else if b &&& 0xE0 = 0xC0 then 2
  else if b &&& 0xF0 = 0xE0 then 3
  else 4

/-- "Determine how many complete UTF-8 sequences fit in dest". -/
def copyLoop (fullUtf8 : Bytes) (destLen : Nat) : Nat → Nat → Nat → Option Nat
  | 0, _, _ => none
  | fuel + 1, i, written =>
      match fullUtf8[i]? with
      | none => some written
      | some b =>
          if written < destLen then
            let seqLen := sequenceLength b
            if destLen < written + seqLen then some written
            else copyLoop fullUtf8 destLen fuel (i + seqLen) (written + seqLen)
          else some written

/-- `utf16_length_from_utf8`: bytes that continue nothing, and those of four once more. -/
def utf16LengthFromUtf8 : Bytes → Nat
  | [] => 0
  | b :: bs =>
      (if isTail b then 0 else 1) + (if 0xF0 ≤ b then 1 else 0) + utf16LengthFromUtf8 bs

def countUtf16UnitsFromUtf8 (data : Bytes) : Nat := utf16LengthFromUtf8 data

/-- The destination, and the results `read` and `written`. -/
structure EncodeIntoResults where
  dest : Bytes
  read : UInt32
  written : UInt32
deriving Repr, DecidableEq

def encodeInto (src : JsString) (dest : Bytes) : Option EncodeIntoResults := do
  let fullUtf8 := utf8Bytes src
  let written ← copyLoop fullUtf8 dest.length (dest.length + 1) 0 0
  let copied ← readBytes fullUtf8 0 written
  let dest ← writeBytes dest 0 copied
  let charsRead := countUtf16UnitsFromUtf8 copied
  some { dest := dest, read := UInt32.ofNat charsRead, written := UInt32.ofNat written }

/-! ### What fits -/

/-- The UTF-8 of some code points; an unpaired surrogate becomes the replacement character. -/
def encodingOf (points : List (Option Nat)) : Bytes :=
  points.flatMap fun point => utf8Char (point.getD 0xFFFD)

/-- The first `k` code points are the longest run of whole ones that fits into `d` bytes. -/
structure Longest (points : List (Option Nat)) (d k : Nat) : Prop where
  le : k ≤ points.length
  fits : (encodingOf (points.take k)).length ≤ d
  longest : ∀ m ≤ points.length, (encodingOf (points.take m)).length ≤ d → m ≤ k

theorem utf8Bytes_eq (s : JsString) : utf8Bytes s = encodingOf (codePoints s) := rfl

theorem encodingOf_append (ps qs : List (Option Nat)) :
    encodingOf (ps ++ qs) = encodingOf ps ++ encodingOf qs := List.flatMap_append

theorem encodingOf_cons (point : Option Nat) (ps : List (Option Nat)) :
    encodingOf (point :: ps) = utf8Char (point.getD 0xFFFD) ++ encodingOf ps := List.flatMap_cons

/-- All are code points, or unpaired surrogates. -/
def Scalars (points : List (Option Nat)) : Prop :=
  ∀ point ∈ points, IsScalar (point.getD 0xFFFD)

theorem scalars_codePoints (s : JsString) : Scalars (codePoints s) := by
  intro point hpoint
  cases point with
  | none => exact Or.inr (by decide)
  | some cp => exact codePoints_scalar hpoint

/-! ### Lead bytes -/

theorem sequenceLength_eq (b : UInt8) : sequenceLength b =
    if b.toNat < 0x80 then 1
    else if 0xC0 ≤ b.toNat ∧ b.toNat < 0xE0 then 2
    else if 0xE0 ≤ b.toNat ∧ b.toNat < 0xF0 then 3
    else 4 :=
  StringDecoder.forall_bytes (p := fun b => sequenceLength b =
    if b.toNat < 0x80 then 1
    else if 0xC0 ≤ b.toNat ∧ b.toNat < 0xE0 then 2
    else if 0xE0 ≤ b.toNat ∧ b.toNat < 0xF0 then 3
    else 4) (by decide +kernel) b

theorem toNat_byte {n : Nat} (h : n < 256) : (UInt8.ofNat n).toNat = n := by
  rw [UInt8.toNat_ofNat', Nat.mod_eq_of_lt h]

/-- A continuation byte counts for nothing. -/
theorem utf16Length_tail (n : Nat) (bs : Bytes) :
    utf16LengthFromUtf8 (UInt8.ofNat (0x80 + n % 64) :: bs) = utf16LengthFromUtf8 bs := by
  have hsmall : ¬ (0xF0 : UInt8) ≤ UInt8.ofNat (0x80 + n % 64) := by
    rw [UInt8.le_iff_toNat_le, toNat_byte (by omega)]
    change ¬ 0xF0 ≤ _
    omega
  rw [utf16LengthFromUtf8, if_pos (Fs.isTail_ofNat n), if_neg hsmall, Nat.zero_add]

/-- A lead byte counts once, and that of four bytes twice. -/
theorem utf16Length_lead {n : Nat} (hn : n < 256) (hlead : n < 0x80 ∨ 0xC0 ≤ n) (bs : Bytes) :
    utf16LengthFromUtf8 (UInt8.ofNat n :: bs) =
      (if 0xF0 ≤ n then 2 else 1) + utf16LengthFromUtf8 bs := by
  have htail : ¬ isTail (UInt8.ofNat n) = true := by
    rw [Fs.isTail_iff, toNat_byte hn]
    omega
  have hge : (0xF0 : UInt8) ≤ UInt8.ofNat n ↔ 0xF0 ≤ n := by
    rw [UInt8.le_iff_toNat_le, toNat_byte hn]
    rfl
  rw [utf16LengthFromUtf8, if_neg htail]
  simp only [hge]
  split <;> rfl

/-- The first byte of a code point announces the length of the whole, which is counted as its code
units. -/
theorem utf8Char_lead {cp : Nat} (h : IsScalar cp) : ∃ b tails, utf8Char cp = b :: tails ∧
    sequenceLength b = (utf8Char cp).length ∧
    ∀ rest, utf16LengthFromUtf8 (utf8Char cp ++ rest) =
      (utf16Of cp).length + utf16LengthFromUtf8 rest := by
  unfold IsScalar at h
  unfold utf8Char utf8Of utf16Of
  split
  · rename_i hone
    refine ⟨_, _, rfl, ?_, fun rest => ?_⟩
    · rw [sequenceLength_eq, toNat_byte (by omega), if_pos hone]
      rfl
    · rw [if_pos (by omega)]
      exact (utf16Length_lead (by omega) (by omega) rest).trans (by rw [if_neg (by omega)]; rfl)
  split
  · refine ⟨_, _, rfl, ?_, fun rest => ?_⟩
    · rw [sequenceLength_eq, toNat_byte (by omega), if_neg (by omega), if_pos (by omega)]
      rfl
    · rw [if_pos (by omega)]
      simp only [List.map_cons, List.map_nil, List.cons_append, List.nil_append]
      rw [utf16Length_lead (by omega) (by omega), utf16Length_tail, if_neg (by omega)]
      rfl
  split
  · refine ⟨_, _, rfl, ?_, fun rest => ?_⟩
    · rw [sequenceLength_eq, toNat_byte (by omega), if_neg (by omega), if_neg (by omega),
        if_pos (by omega)]
      rfl
    · simp only [List.map_cons, List.map_nil, List.cons_append, List.nil_append]
      rw [utf16Length_lead (by omega) (by omega), utf16Length_tail, utf16Length_tail,
        if_neg (by omega)]
      rfl
  · refine ⟨_, _, rfl, ?_, fun rest => ?_⟩
    · rw [sequenceLength_eq, toNat_byte (by omega), if_neg (by omega), if_neg (by omega),
        if_neg (by omega)]
      rfl
    · simp only [List.map_cons, List.map_nil, List.cons_append, List.nil_append]
      rw [utf16Length_lead (by omega) (by omega), utf16Length_tail, utf16Length_tail,
        utf16Length_tail, if_pos (by omega)]
      rfl

/-! ### The loop -/

/-- The loop passes whole code points, and stops in front of the first that does not fit. -/
theorem copyLoop_spec {destLen : Nat} {points : List (Option Nat)} (hscalars : Scalars points)
    {passed : Bytes} (hpassed : passed.length ≤ destLen) {fuel : Nat}
    (hfuel : destLen - passed.length < fuel) :
    ∃ k ≤ points.length,
      copyLoop (passed ++ encodingOf points) destLen fuel passed.length passed.length =
        some (passed.length + (encodingOf (points.take k)).length) ∧
      passed.length + (encodingOf (points.take k)).length ≤ destLen ∧
      (k < points.length →
        destLen < passed.length + (encodingOf (points.take (k + 1))).length) := by
  induction points generalizing passed fuel with
  | nil =>
      refine ⟨0, Nat.le_refl _, ?_, by simpa [encodingOf] using hpassed, fun h => absurd h (by simp)⟩
      cases fuel with
      | zero => omega
      | succ fuel => simp [copyLoop, encodingOf]
  | cons point points ih =>
      cases fuel with
      | zero => omega
      | succ fuel =>
          obtain ⟨b, tails, hchar, hlength, _⟩ := utf8Char_lead (hscalars point List.mem_cons_self)
          have hpos : 0 < (utf8Char (point.getD 0xFFFD)).length := by
            rw [hchar]
            exact Nat.succ_pos _
          have hget : (passed ++ encodingOf (point :: points))[passed.length]? = some b := by
            rw [encodingOf_cons, hchar, List.getElem?_append_right (Nat.le_refl _), Nat.sub_self]
            rfl
          have hone : encodingOf ((point :: points).take 1) = utf8Char (point.getD 0xFFFD) := by
            rw [List.take_succ_cons, List.take_zero, encodingOf_cons]
            exact List.append_nil _
          rw [copyLoop, hget]
          simp only [hlength]
          by_cases hfits : passed.length + (utf8Char (point.getD 0xFFFD)).length ≤ destLen
          · rw [if_pos (by omega), if_neg (by omega)]
            have hrest : Scalars points := fun p hp => hscalars p (List.mem_cons_of_mem _ hp)
            have hlonger : (passed ++ utf8Char (point.getD 0xFFFD)).length =
                passed.length + (utf8Char (point.getD 0xFFFD)).length := List.length_append
            obtain ⟨k, hk, hloop, hle, hlongest⟩ := @ih hrest
              (passed ++ utf8Char (point.getD 0xFFFD)) (by omega) fuel (by omega)
            rw [List.append_assoc, ← encodingOf_cons, hlonger] at hloop
            have htake : ∀ m, passed.length + (encodingOf ((point :: points).take (m + 1))).length =
                passed.length + (utf8Char (point.getD 0xFFFD)).length +
                  (encodingOf (points.take m)).length := by
              intro m
              rw [List.take_succ_cons, encodingOf_cons, List.length_append, Nat.add_assoc]
            refine ⟨k + 1, Nat.succ_le_succ hk, ?_, ?_, fun hlt => ?_⟩
            · rw [htake, hloop]
            · rw [htake]
              omega
            · have hnext := hlongest (Nat.lt_of_succ_lt_succ hlt)
              rw [htake]
              omega
          · refine ⟨0, Nat.zero_le _, ?_, by simpa [encodingOf] using hpassed, fun _ => ?_⟩
            · rw [List.take_zero]
              split
              · rw [if_pos (by omega)]
                rfl
              · rfl
            · rw [Nat.zero_add, hone]
              omega

/-! ### Code units -/

/-- The code units that some code points stand for. -/
def unitsOf : List (Option Nat) → Nat
  | [] => 0
  | point :: points => (utf16Of (point.getD 0xFFFD)).length + unitsOf points

/-- What is counted in the copy is the code units of its code points. -/
theorem utf16Length_encodingOf {points : List (Option Nat)} (h : Scalars points) :
    utf16LengthFromUtf8 (encodingOf points) = unitsOf points := by
  induction points with
  | nil => rfl
  | cons point points ih =>
      obtain ⟨_, _, _, _, hunits⟩ := utf8Char_lead (h point List.mem_cons_self)
      rw [encodingOf_cons, hunits, ih fun p hp => h p (List.mem_cons_of_mem _ hp), unitsOf]

theorem unitPoint_units (c : UInt16) : (utf16Of ((unitPoint c).getD 0xFFFD)).length = 1 := by
  cases hpoint : unitPoint c with
  | none => decide
  | some cp =>
      rw [Option.getD_some, (unitPoint_eq_some hpoint).1]
      rfl

/-- The first code points of a string are those of its first code units. -/
theorem unitsOf_take (s : JsString) (k : Nat) :
    unitsOf ((codePoints s).take k) ≤ s.length ∧
      codePoints (s.take (unitsOf ((codePoints s).take k))) = (codePoints s).take k := by
  induction s using codePoints.induct generalizing k with
  | case1 => simp [codePoints, unitsOf]
  | case2 c =>
      cases k with
      | zero => simp [codePoints, unitsOf]
      | succ k => simp [codePoints, unitsOf, unitPoint_units]
  | case3 c d rest hpair ih =>
      cases k with
      | zero => simp [codePoints, unitsOf]
      | succ k =>
          obtain ⟨hle, htake⟩ := ih k
          rw [Bool.and_eq_true] at hpair
          have hunits := (pairPoint_spec hpair.1 hpair.2).1
          have hlength : (utf16Of ((some (0x10000 + (c.toNat - 0xD800) * 0x400 +
              (d.toNat - 0xDC00))).getD 0xFFFD)).length = 2 := by
            rw [Option.getD_some, hunits]
            rfl
          rw [codePoints, if_pos (by simpa using hpair), List.take_succ_cons, unitsOf, hlength,
            Nat.add_comm 2, List.take_succ_cons, List.take_succ_cons, codePoints,
            if_pos (by simpa using hpair), htake]
          refine ⟨?_, rfl⟩
          rw [List.length_cons, List.length_cons]
          omega
  | case4 c d rest hpair ih =>
      cases k with
      | zero => simp [codePoints, unitsOf]
      | succ k =>
          obtain ⟨hle, htake⟩ := ih k
          rw [codePoints, if_neg hpair, List.take_succ_cons, unitsOf, unitPoint_units,
            Nat.add_comm 1, List.take_succ_cons]
          refine ⟨by simpa using hle, ?_⟩
          have hstep : ∀ n, codePoints (c :: (d :: rest).take n) =
              unitPoint c :: codePoints ((d :: rest).take n) := by
            intro n
            cases n with
            | zero => rfl
            | succ n =>
                rw [List.take_succ_cons, codePoints.eq_def]
                simp only [if_neg hpair]
          rw [hstep, htake]

/-! ### The longest run -/

theorem encodingOf_take_le (points : List (Option Nat)) {m n : Nat} (h : m ≤ n) :
    (encodingOf (points.take m)).length ≤ (encodingOf (points.take n)).length := by
  have hprefix : points.take m <+: points.take n := List.take_prefix_take_left h
  obtain ⟨rest, hrest⟩ := hprefix
  rw [← hrest, encodingOf_append, List.length_append]
  exact Nat.le_add_right _ _

theorem encodingOf_take (points : List (Option Nat)) (k : Nat) :
    encodingOf points = encodingOf (points.take k) ++ encodingOf (points.drop k) := by
  rw [← encodingOf_append, List.take_append_drop]

/-- `encodeInto` writes the longest run of whole code points that fits, leaves the rest of the
destination, and reports the bytes it has written and the code units it has read. -/
theorem encodeInto_longest (src : Fs.Text) (dest : Bytes) :
    ∃ k results, encodeInto src.units dest = some results ∧
      Longest (codePoints src.units) dest.length k ∧
      results.dest = patch dest 0 (encodingOf ((codePoints src.units).take k)) ∧
      results.written.toNat = (encodingOf ((codePoints src.units).take k)).length ∧
      results.read.toNat ≤ src.units.length ∧
      codePoints (src.units.take results.read.toNat) = (codePoints src.units).take k := by
  obtain ⟨k, hk, hloop, hle, hlongest⟩ := @copyLoop_spec dest.length _
    (scalars_codePoints src.units) [] (Nat.zero_le _) (dest.length + 1) (by simp)
  simp only [List.nil_append, List.length_nil, Nat.zero_add] at hloop hle hlongest
  have hsplit : utf8Bytes src.units = encodingOf ((codePoints src.units).take k) ++
      encodingOf ((codePoints src.units).drop k) := encodingOf_take (codePoints src.units) k
  have hlength := congrArg List.length hsplit
  rw [List.length_append] at hlength
  have hread : readBytes (utf8Bytes src.units) 0
      (encodingOf ((codePoints src.units).take k)).length =
        some (encodingOf ((codePoints src.units).take k)) := by
    unfold readBytes
    rw [if_pos (by omega), List.drop_zero, hsplit, List.take_left']
    rfl
  have hwrite := @Buffer.writeBytes_eq dest (encodingOf ((codePoints src.units).take k)) 0 (by omega)
  have hscalars : Scalars ((codePoints src.units).take k) := fun p hp =>
    scalars_codePoints src.units p (List.mem_of_mem_take hp)
  obtain ⟨hunits, htake⟩ := unitsOf_take src.units k
  -- no count leaves a `uint32_t`
  have hshort := src.short
  have hbytes := Fs.utf8Bytes_length_le src.units
  unfold Fs.kStringMaxLength at hshort
  have hwritten : (UInt32.ofNat (encodingOf ((codePoints src.units).take k)).length).toNat =
      (encodingOf ((codePoints src.units).take k)).length := by
    rw [UInt32.toNat_ofNat', Nat.mod_eq_of_lt (by omega)]
  have hunits' : (UInt32.ofNat (unitsOf ((codePoints src.units).take k))).toNat =
      unitsOf ((codePoints src.units).take k) := by
    rw [UInt32.toNat_ofNat', Nat.mod_eq_of_lt (by omega)]
  refine ⟨k, ⟨patch dest 0 (encodingOf ((codePoints src.units).take k)),
    UInt32.ofNat (unitsOf ((codePoints src.units).take k)),
    UInt32.ofNat (encodingOf ((codePoints src.units).take k)).length⟩, ?_, ⟨hk, hle, ?_⟩, rfl,
    hwritten, ?_, ?_⟩
  · rw [encodeInto]
    simp only [utf8Bytes_eq, Option.bind_eq_bind] at hread ⊢
    rw [hloop, Option.bind_some, hread, Option.bind_some, hwrite, Option.bind_some,
      countUtf16UnitsFromUtf8, utf16Length_encodingOf hscalars]
  · intro m hm hfits
    apply Nat.le_of_not_lt
    intro hlt
    have hnext := hlongest (by omega)
    have hmono := encodingOf_take_le (codePoints src.units) (show k + 1 ≤ m from hlt)
    omega
  · rw [hunits']
    exact hunits
  · rw [hunits']
    exact htake

/-- An unpaired surrogate behind `a`, with room for three bytes: the `a` alone. -/
example : encodeInto [0x61, 0xD800] [0, 0, 0] = some ⟨[0x61, 0, 0], 1, 1⟩ := by decide

end HermesNode.Encoding
