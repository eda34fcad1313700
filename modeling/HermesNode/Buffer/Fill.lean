/-
Module: HermesNode.Buffer.Fill
Purpose: `fill` of the `buffer` binding. The first copy of the pattern is written into the range, then
  the range is doubled from itself while it is less than half full, and a last copy writes the rest. A
  call that returns an error code has written nothing; any other leaves the pattern repeated over the
  range, and the rest of the buffer as it was.
Trusted boundary: human-reviewed spec (transcribed from `lib/bindings/node_buffer.cpp`)
Main exports: FillValue, fill, fill_repeats
-/
import HermesNode.Lib.Patch
import HermesNode.Buffer.Search

namespace HermesNode.Buffer

open Fs (hexDecode)
open StringDecoder (Encoding)
open Streams (utf8Bytes latin1Bytes ucs2Bytes)

/-- A write of bytes at an offset. There is no value where it leaves the buffer. -/
def writeBytes (buf : Bytes) (off : Nat) (data : Bytes) : Option Bytes :=
  if off + data.length ≤ buf.length then some (patch buf off data) else none

/-- `memcpy(buf + dst, buf + src, n)`. -/
def memcpy (buf : Bytes) (dst src n : Nat) : Option Bytes :=
  (readBytes buf src n).bind (writeBytes buf dst)

/-! ### The binding -/

/-- The number, the buffer or the string to fill with. -/
inductive FillValue where
  | number (value : Int)
  | buffer (fillBuf : Bytes)
  | string (s : JsString)

/-- The loop that doubles what is there, with the place behind it. -/
def repeatLoop (start fillLen : Nat) : Nat → Bytes → Nat → Nat → Option (Bytes × Nat × Nat)
  | 0, _, _, _ => none
  | fuel + 1, buf, ptr, inThere => do
      let lacking ← sizeSub fillLen inThere
      if inThere < lacking then
        let buf ← memcpy buf ptr start inThere
        repeatLoop start fillLen fuel buf (ptr + inThere) (inThere * 2)
      else some (buf, ptr, inThere)

/-- "Repeat the pattern to fill the rest." -/
def repeatPattern (buf : Bytes) (start strLen fillLen : Nat) : Option Bytes :=
  if strLen < fillLen then do
    let (buf, ptr, inThere) ← repeatLoop start fillLen (fillLen + 1) buf (start + strLen) strLen
    if inThere < fillLen then
      let lacking ← sizeSub fillLen inThere
      memcpy buf ptr start lacking
    else some buf
  else some buf

/-- What `fill` returns, if that is not `undefined`, and the buffer it leaves. -/
abbrev FillResult := Option Int × Bytes

/-- A pattern that is copied from memory of its own. -/
def fillBytes (buf : Bytes) (start fillLen : Nat) (str : Bytes) : Option FillResult :=
  if str.length = 0 then some (some (-1), buf)
  else do
    let buf ← writeBytes buf start (str.take (min str.length fillLen))
    let buf ← repeatPattern buf start str.length fillLen
    some (none, buf)

/-- The `HEX` branch decodes into the buffer. -/
def fillHex (buf : Bytes) (start fillLen : Nat) (s : JsString) : Option FillResult := do
  let decoded := hexDecode (latin1Bytes s) fillLen
  let buf ← writeBytes buf start decoded
  if decoded.length = 0 then some (some (-1), buf)
  else
    let buf ← repeatPattern buf start decoded.length fillLen
    some (none, buf)

def fillBase64 (url : Bool) (buf : Bytes) (start fillLen : Nat) (s : JsString) :
    Option FillResult :=
  let decoded := base64Decode url (latin1Bytes s)
  if decoded.1 < 0 ∨ decoded.2.isEmpty then some (some (-1), buf)
  else fillBytes buf start fillLen decoded.2

def fillString (buf : Bytes) (start fillLen : Nat) (s : JsString) : Encoding → Option FillResult
  | .utf8 | .buffer => fillBytes buf start fillLen (utf8Bytes s)
  | .ucs2 => fillBytes buf start fillLen (ucs2Bytes s)
  | .latin1 | .ascii => fillBytes buf start fillLen (latin1Bytes s)
  | .hex => fillHex buf start fillLen s
  | .base64 => fillBase64 false buf start fillLen s
  | .base64url => fillBase64 true buf start fillLen s

def fill (buf : Bytes) (value : FillValue) (start stop : UInt32) (enc : Encoding) :
    Option FillResult :=
  let fillLen := (stop - start).toNat
  if stop < start ∨ buf.length < fillLen + start.toNat then some (some (-2), buf)
  else
    match value with
    | .buffer fillBuf => fillBytes buf start.toNat fillLen fillBuf
    | .number value => do
        let val := (UInt32.ofInt value &&& 0xFF).toUInt8
        let buf ← writeBytes buf start.toNat (List.replicate fillLen val)
        some (none, buf)
    | .string s => fillString buf start.toNat fillLen s enc

/-! ### The pattern -/

/-- The bytes a value stands for. There are none where a string of base64 digits does not decode. -/
def pattern : FillValue → Encoding → Bytes
  | .number value, _ => [UInt8.ofNat (value % 256).toNat]
  | .buffer fillBuf, _ => fillBuf
  | .string s, .utf8 | .string s, .buffer => utf8Bytes s
  | .string s, .ucs2 => ucs2Bytes s
  | .string s, .latin1 | .string s, .ascii => latin1Bytes s
  | .string s, .hex => hexDecode (latin1Bytes s) ((latin1Bytes s).length / 2)
  | .string s, .base64 =>
      if (base64Decode false (latin1Bytes s)).1 < 0 then []
      else (base64Decode false (latin1Bytes s)).2
  | .string s, .base64url =>
      if (base64Decode true (latin1Bytes s)).1 < 0 then []
      else (base64Decode true (latin1Bytes s)).2

/-- The range holds the pattern over and over, and nothing else has changed. -/
structure Filled (before after p : Bytes) (start stop : Nat) : Prop where
  length : after.length = before.length
  inside : ∀ i < stop - start, after[start + i]? = p[i % p.length]?
  outside : ∀ i, i < start ∨ stop ≤ i → after[i]? = before[i]?

/-! ### Doubling -/

theorem writeBytes_eq {buf data : Bytes} {off : Nat} (h : off + data.length ≤ buf.length) :
    writeBytes buf off data = some (patch buf off data) := if_pos h

section

variable {before p : Bytes} {start fillLen : Nat}

/-- A part of what is there, written behind it. -/
theorem memcpy_repeated (hp : p ≠ []) {inThere n : Nat} (hwhole : p.length ∣ inThere)
    (hn : n ≤ inThere) (hfits : start + (inThere + n) ≤ before.length) :
    memcpy (patch before start (repeated p inThere)) (start + inThere) start n =
      some (patch before start (repeated p (inThere + n))) := by
  have hlength := repeated_length hp inThere
  have hpatched : (patch before start (repeated p inThere)).length = before.length :=
    patch_length (by omega)
  have hread : readBytes (patch before start (repeated p inThere)) start n =
      some (repeated p n) := by
    unfold readBytes
    rw [if_pos (by omega), patch_window (by omega) (by omega), repeated_take hp hn]
  have hbehind := @patch_append _ before (repeated p inThere) (repeated p n) start (by omega)
  rw [hlength] at hbehind
  unfold memcpy
  rw [hread, Option.bind_some, writeBytes_eq (by rw [hpatched, repeated_length hp]; omega), hbehind,
    repeated_append hp hwhole]

/-- The loop ends with at least half of the range full of whole patterns. -/
theorem repeatLoop_spec (hp : p ≠ []) (hfits : start + fillLen ≤ before.length)
    {fuel inThere : Nat} (hpos : 0 < inThere) (hle : inThere ≤ fillLen)
    (hwhole : p.length ∣ inThere) (hfuel : fillLen - inThere < fuel) :
    ∃ there, p.length ∣ there ∧ there ≤ fillLen ∧ fillLen - there ≤ there ∧
      repeatLoop start fillLen fuel (patch before start (repeated p inThere)) (start + inThere)
        inThere = some (patch before start (repeated p there), start + there, there) := by
  induction fuel generalizing inThere with
  | zero => omega
  | succ fuel ih =>
      have hsub : sizeSub fillLen inThere = some (fillLen - inThere) := if_pos hle
      simp only [repeatLoop, hsub, Option.bind_eq_bind, Option.bind_some]
      by_cases hlt : inThere < fillLen - inThere
      · rw [if_pos hlt, memcpy_repeated hp hwhole (Nat.le_refl _) (by omega), Option.bind_some,
          ← Nat.mul_two, Nat.add_assoc, ← Nat.mul_two]
        exact ih (by omega) (by omega) (Nat.dvd_trans hwhole (Nat.dvd_mul_right _ _)) (by omega)
      · rw [if_neg hlt]
        exact ⟨inThere, hwhole, hle, by omega, rfl⟩

/-- Behind its first copy the pattern fills the range. -/
theorem repeatPattern_eq (hp : p ≠ []) (hfits : start + fillLen ≤ before.length) :
    repeatPattern (patch before start (repeated p (min p.length fillLen))) start p.length fillLen =
      some (patch before start (repeated p fillLen)) := by
  have hpos := List.length_pos_of_ne_nil hp
  unfold repeatPattern
  by_cases hlt : p.length < fillLen
  · rw [if_pos hlt, Nat.min_eq_left (by omega)]
    obtain ⟨there, hwhole, hle, hhalf, hloop⟩ := @repeatLoop_spec before p start fillLen hp hfits
      (fillLen + 1) p.length hpos (by omega) (Nat.dvd_refl _) (by omega)
    simp only [hloop, Option.bind_eq_bind, Option.bind_some]
    by_cases hrest : there < fillLen
    · have hsub : sizeSub fillLen there = some (fillLen - there) := if_pos hle
      rw [if_pos hrest, hsub, Option.bind_some, memcpy_repeated hp hwhole hhalf (by omega)]
      congr 3
      omega
    · rw [if_neg hrest, Nat.le_antisymm hle (Nat.le_of_not_lt hrest)]
  · rw [if_neg hlt, Nat.min_eq_right (by omega)]

theorem filled_patch (hp : p ≠ []) {stop : Nat} (hlen : start + fillLen = stop)
    (hstop : stop ≤ before.length) :
    Filled before (patch before start (repeated p fillLen)) p start stop := by
  have hlength := repeated_length hp fillLen
  refine ⟨patch_length (by omega), fun i hi => ?_, fun i hi => ?_⟩
  · rw [patch_getElem?_inside (by omega) (by omega), repeated_getElem? hp (by omega)]
  · exact patch_getElem?_outside (by omega) (by omega)

end

/-! ### The branches -/

/-- A branch fills the range with a pattern, or answers that there is nothing to fill with. -/
def FillsWith (before p : Bytes) (start fillLen : Nat) (result : Option FillResult) : Prop :=
  p ≠ [] ∧ result = some (none, patch before start (repeated p fillLen)) ∨
    (p = [] ∨ fillLen = 0) ∧ result = some (some (-1), before)

section

variable {before : Bytes} {start fillLen : Nat}

theorem fillBytes_fills (hfits : start + fillLen ≤ before.length) (str : Bytes) :
    FillsWith before str start fillLen (fillBytes before start fillLen str) := by
  unfold fillBytes
  by_cases hstr : str = []
  · subst hstr
    exact Or.inr ⟨Or.inl rfl, rfl⟩
  · have hpos := List.length_pos_of_ne_nil hstr
    have hfirst : str.take (min str.length fillLen) = repeated str (min str.length fillLen) :=
      (repeated_of_le hstr (Nat.min_le_left _ _)).symm
    have hwrite := @writeBytes_eq before (repeated str (min str.length fillLen)) start (by
      rw [repeated_length hstr]
      omega)
    refine Or.inl ⟨hstr, ?_⟩
    rw [if_neg (Nat.ne_of_gt hpos), hfirst, hwrite]
    simp only [Option.bind_eq_bind, Option.bind_some, repeatPattern_eq hstr hfits]

/-- A smaller limit on the pairs cuts what is decoded. -/
theorem hexDecode_take (src : Bytes) {m n : Nat} (h : src.length / 2 ≤ m ∨ n ≤ m) :
    hexDecode src n = (hexDecode src m).take n := by
  match src, n with
  | _, 0 => simp [hexDecode]
  | [], n + 1 => simp [hexDecode]
  | [_], n + 1 => simp [hexDecode]
  | high :: low :: rest, n + 1 =>
      cases m with
      | zero =>
          simp only [List.length_cons] at h
          omega
      | succ m =>
          have ih := @hexDecode_take rest m n (by
            simp only [List.length_cons] at h
            omega)
          unfold hexDecode
          split
          · rw [List.take_succ_cons, ih]
          · rfl

theorem fillHex_fills (hfits : start + fillLen ≤ before.length) (s : JsString) :
    FillsWith before (hexDecode (latin1Bytes s) ((latin1Bytes s).length / 2)) start fillLen
      (fillHex before start fillLen s) := by
  unfold fillHex
  rw [hexDecode_take (latin1Bytes s) (n := fillLen) (Or.inl (Nat.le_refl _))]
  generalize hexDecode (latin1Bytes s) ((latin1Bytes s).length / 2) = p
  simp only [Option.bind_eq_bind]
  rw [writeBytes_eq (by rw [List.length_take]; omega), Option.bind_some]
  by_cases hempty : (p.take fillLen).length = 0
  · rw [if_pos hempty, List.length_eq_zero_iff.mp hempty, patch_nil]
    rw [List.length_take] at hempty
    refine Or.inr ⟨?_, rfl⟩
    rw [← List.length_eq_zero_iff]
    omega
  · have hp : p ≠ [] := by
      rintro rfl
      simp at hempty
    have hfirst : p.take fillLen = repeated p (min p.length fillLen) := by
      rw [repeated_of_le hp (Nat.min_le_left _ _), Nat.min_comm]
      exact List.take_eq_take_min
    -- what was decoded is the pattern, or fills the range
    have hlength : ∀ buf, repeatPattern buf start (p.take fillLen).length fillLen =
        repeatPattern buf start p.length fillLen := by
      intro buf
      rw [List.length_take]
      by_cases hlt : p.length < fillLen
      · rw [Nat.min_eq_right (by omega)]
      · unfold repeatPattern
        rw [if_neg hlt, if_neg (by omega)]
    refine Or.inl ⟨hp, ?_⟩
    rw [if_neg hempty, hlength, hfirst, repeatPattern_eq hp hfits, Option.bind_some]

theorem fillBase64_fills (hfits : start + fillLen ≤ before.length) (url : Bool) (s : JsString) :
    FillsWith before
      (if (base64Decode url (latin1Bytes s)).1 < 0 then [] else (base64Decode url (latin1Bytes s)).2)
      start fillLen (fillBase64 url before start fillLen s) := by
  unfold fillBase64
  dsimp only
  by_cases herror : (base64Decode url (latin1Bytes s)).1 < 0
  · rw [if_pos herror, if_pos (Or.inl herror)]
    exact Or.inr ⟨Or.inl rfl, rfl⟩
  · rw [if_neg herror]
    by_cases hempty : (base64Decode url (latin1Bytes s)).2 = []
    · rw [if_pos (Or.inr (List.isEmpty_iff.mpr hempty)), hempty]
      exact Or.inr ⟨Or.inl rfl, rfl⟩
    · rw [if_neg (by simp [herror, hempty])]
      exact fillBytes_fills hfits _

theorem fillString_fills (hfits : start + fillLen ≤ before.length) (s : JsString)
    (enc : Encoding) : FillsWith before (pattern (.string s) enc) start fillLen
      (fillString before start fillLen s enc) := by
  cases enc with
  | utf8 => exact fillBytes_fills hfits _
  | buffer => exact fillBytes_fills hfits _
  | ucs2 => exact fillBytes_fills hfits _
  | latin1 => exact fillBytes_fills hfits _
  | ascii => exact fillBytes_fills hfits _
  | hex => exact fillHex_fills hfits s
  | base64 => exact fillBase64_fills hfits false s
  | base64url => exact fillBase64_fills hfits true s

end

/-! ### Fills -/

theorem repeated_singleton (b : UInt8) (n : Nat) : repeated [b] n = List.replicate n b := by
  induction n with
  | zero => rfl
  | succ n ih =>
      rw [repeated, ih, List.replicate_succ']
      simp [Nat.mod_one]

theorem value_byte (value : Int) :
    (UInt32.ofInt value &&& 0xFF).toUInt8 = UInt8.ofNat (value % 256).toNat := by
  rw [value_mod]
  apply UInt8.toNat_inj.mp
  rw [UInt32.toNat_toUInt8, UInt8.toNat_ofNat', UInt32.ofInt, UInt32.toNat_ofNat']
  omega

theorem fillNumber_fills {before : Bytes} {start fillLen : Nat}
    (hfits : start + fillLen ≤ before.length) (value : Int) :
    FillsWith before [UInt8.ofNat (value % 256).toNat] start fillLen
      ((writeBytes before start (List.replicate fillLen (UInt32.ofInt value &&& 0xFF).toUInt8)).bind
        fun buf => some (none, buf)) := by
  refine Or.inl ⟨List.cons_ne_nil _ _, ?_⟩
  rw [writeBytes_eq (by rw [List.length_replicate]; exact hfits), Option.bind_some, value_byte,
    repeated_singleton]

/-- A fill of a range inside the buffer. -/
theorem fill_fills {buf : Bytes} {start stop : UInt32} (hle : start ≤ stop)
    (hstop : stop.toNat ≤ buf.length) (value : FillValue) (enc : Encoding) :
    FillsWith buf (pattern value enc) start.toNat (stop.toNat - start.toNat)
      (fill buf value start stop enc) := by
  have hlen : (stop - start).toNat = stop.toNat - start.toNat := UInt32.toNat_sub_of_le _ _ hle
  have hle' : start.toNat ≤ stop.toNat := UInt32.le_iff_toNat_le.mp hle
  have hfits : start.toNat + (stop.toNat - start.toNat) ≤ buf.length := by omega
  have hrange : ¬ (stop < start ∨ buf.length < (stop - start).toNat + start.toNat) := by
    rw [UInt32.lt_iff_toNat_lt]
    omega
  unfold fill
  dsimp only
  rw [if_neg hrange, hlen]
  cases value with
  | number value => exact fillNumber_fills hfits value
  | buffer fillBuf => exact fillBytes_fills hfits fillBuf
  | string s => exact fillString_fills hfits s enc

/-- A fill stays inside the buffer. With an error code it has changed nothing, and reports a range
that is none of the buffer's, a pattern without bytes or an empty range. Otherwise the pattern is
repeated over the range. -/
theorem fill_repeats (buf : Buf) (value : FillValue) (start stop : UInt32) (enc : Encoding) :
    ∃ code after, fill buf.bytes value start stop enc = some (code, after) ∧
      (code ≠ none → after = buf.bytes ∧ (stop < start ∨ buf.bytes.length < stop.toNat ∨
        pattern value enc = [] ∨ start = stop)) ∧
      (start ≤ stop → stop.toNat ≤ buf.bytes.length → pattern value enc ≠ [] →
        Filled buf.bytes after (pattern value enc) start.toNat stop.toNat) := by
  by_cases hrange : start ≤ stop ∧ stop.toNat ≤ buf.bytes.length
  · have hle' : start.toNat ≤ stop.toNat := UInt32.le_iff_toNat_le.mp hrange.1
    obtain ⟨hp, hfill⟩ | ⟨hnone, hfill⟩ := fill_fills hrange.1 hrange.2 value enc
    · refine ⟨none, _, hfill, fun h => absurd rfl h, fun _ _ _ => ?_⟩
      exact filled_patch hp (by omega) hrange.2
    · have hsame : pattern value enc ≠ [] → start = stop := by
        intro hp
        obtain hempty | hlen := hnone
        · exact absurd hempty hp
        · exact UInt32.toNat_inj.mp (by omega)
      refine ⟨_, _, hfill, fun _ => ⟨rfl, ?_⟩, fun _ _ hp => ?_⟩
      · by_cases hp : pattern value enc = []
        · exact Or.inr (Or.inr (Or.inl hp))
        · exact Or.inr (Or.inr (Or.inr (hsame hp)))
      · obtain rfl := hsame hp
        exact ⟨rfl, fun i hi => absurd hi (by omega), fun _ _ => rfl⟩
  · have hbad : stop < start ∨ buf.bytes.length < (stop - start).toNat + start.toNat := by
      by_cases hle : start ≤ stop
      · have hlen := UInt32.toNat_sub_of_le stop start hle
        have hle' : start.toNat ≤ stop.toNat := UInt32.le_iff_toNat_le.mp hle
        have hstop : ¬ stop.toNat ≤ buf.bytes.length := fun h => hrange ⟨hle, h⟩
        omega
      · exact Or.inl (UInt32.not_le.mp hle)
    refine ⟨_, _, if_pos hbad, fun _ => ⟨rfl, ?_⟩, fun hle hstop => absurd ⟨hle, hstop⟩ hrange⟩
    by_cases hle : start ≤ stop
    · exact Or.inr (Or.inl (Nat.lt_of_not_le fun h => hrange ⟨hle, h⟩))
    · exact Or.inl (UInt32.not_le.mp hle)

/-- `ab` over five bytes of seven. -/
theorem fill_repeats_ab : ∃ code after,
    fill [0, 0, 0, 0, 0, 0, 0] (.string [97, 98]) 1 6 .utf8 = some (code, after) ∧
      Filled [0, 0, 0, 0, 0, 0, 0] after [97, 98] 1 6 := by
  obtain ⟨code, after, hfill, _, hfilled⟩ :=
    fill_repeats ⟨[0, 0, 0, 0, 0, 0, 0], by decide⟩ (.string [97, 98]) 1 6 .utf8
  exact ⟨code, after, hfill, hfilled (by decide) (by decide) (by decide)⟩

example : fill [0, 0, 0, 0, 0, 0, 0] (.string [97, 98]) 1 6 .utf8 =
    some (none, [0, 97, 98, 97, 98, 97, 0]) := by decide

end HermesNode.Buffer
