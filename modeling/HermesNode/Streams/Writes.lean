/-
Module: HermesNode.Streams.Writes
Purpose: Writing to a libuv stream. Each writer turns its argument into buffers for `uv_write` and
  counts bytes; beside them stands what the chunks of a call mean in their own encodings. The writers
  agree with that meaning exactly for calls that stay within UTF-8: `latin1`, `ascii` and the string
  chunks of a batch are sent as UTF-8 whatever their encoding, and the UCS-2 writer stores a
  terminator behind its memory.
Trusted boundary: human-reviewed spec (transcribed from `lib/bindings/libuv_stream_base.cpp`; the
  string getters of Node-API as documented; base64 decoding and the answers of `uv_write` are
  parameters)
Main exports: Chunk, Call, writes_faithful_iff
-/
import Mathlib.Data.List.Induction
import HermesNode.Lib.Uri
import HermesNode.StringDecoder.Decoder

namespace HermesNode.Streams

open StringDecoder (Encoding)

/-! ### Encodings -/

/-- UTF-8; an unpaired surrogate becomes the replacement character. -/
def utf8Bytes (s : JsString) : Bytes :=
  (codePoints s).flatMap fun point => (utf8Of (point.getD 0xFFFD)).map UInt8.ofNat

/-- One byte for each code unit. -/
def latin1Bytes (s : JsString) : Bytes := s.map UInt16.toUInt8

/-- Two bytes for each code unit, the low one first. -/
def ucs2Bytes (s : JsString) : Bytes :=
  s.flatMap fun c => [UInt8.ofNat (c.toNat % 256), UInt8.ofNat (c.toNat / 256)]

/-- Pairs of hexadecimal digits, as far as there are any. -/
def hexBytes : JsString → Bytes
  | high :: low :: rest =>
      match hexByte high low with
      | some b => b :: hexBytes rest
      | none => []
  | _ => []

/-- What a string means in an encoding; `base64` decodes both alphabets. -/
def bytesOf (base64 : JsString → Bytes) : Encoding → JsString → Bytes
  | .ascii, s | .latin1, s => latin1Bytes s
  | .ucs2, s => ucs2Bytes s
  | .hex, s => hexBytes s
  | .base64, s | .base64url, s => base64 s
  | .utf8, s | .buffer, s => utf8Bytes s

/-! ### Calls -/

/-- An element of a batch: a buffer, or a string with the encoding behind it. -/
inductive Chunk where
  | buffer (data : Bytes)
  | string (s : JsString) (encoding : Encoding)

inductive Call where
  | writeBuffer (data : Bytes)
  | writeUtf8String (s : JsString)
  | writeLatin1String (s : JsString)
  | writeAsciiString (s : JsString)
  | writeUcs2String (s : JsString)
  /-- `writev` with `allBuffers`. -/
  | writevBuffers (chunks : List Bytes)
  /-- `writev` with pairs of a chunk and its encoding. -/
  | writevPairs (chunks : List Chunk)

/-! ### Requests -/

/-- `napi_get_value_string_utf8` with room for `capacity` bytes: what is copied, and how many bytes
are stored with the terminator. -/
def getStringUtf8 (s : JsString) (capacity : Nat) : Bytes × Nat :=
  let copied := (utf8Bytes s).take (capacity - 1)
  (copied, copied.length + 1)

/-- The same for `napi_get_value_string_utf16` and code units. -/
def getStringUtf16 (s : JsString) (capacity : Nat) : JsString × Nat :=
  let copied := s.take (capacity - 1)
  (copied, copied.length + 1)

/-- `uv_buf_init`, whose length is an `unsigned int`. -/
def uvBufInit (base : Bytes) (len : Nat) : Bytes := base.take (len % 2 ^ 32)

/-- A request on its way to `uv_write`. -/
structure Request where
  bufs : List Bytes
  /-- What is added to `bytesWritten_` when the request is accepted. -/
  counted : Nat
  /-- Bytes stored behind the memory that was allocated. -/
  overrun : Nat

/-- A string in a buffer of its own: `malloc(strLen + 1)`. -/
def utf8Storage (s : JsString) : Request :=
  let strLen := (utf8Bytes s).length
  let allocated := strLen + 1
  let got := getStringUtf8 s (strLen + 1)
  { bufs := [uvBufInit got.1 got.1.length]
    counted := got.1.length
    overrun := got.2 - allocated }

def writeUtf8String (s : JsString) : Request := utf8Storage s

/-- "For now, use UTF-8." -/
def writeLatin1String (s : JsString) : Request := utf8Storage s

def writeAsciiString (s : JsString) : Request := writeLatin1String s

/-- `malloc(strLen * 2)`, with a capacity of `strLen + 1` code units. -/
def writeUcs2String (s : JsString) : Request :=
  let strLen := s.length
  let allocated := strLen * 2
  let got := getStringUtf16 s (strLen + 1)
  { bufs := [uvBufInit (ucs2Bytes got.1) (got.1.length * 2)]
    counted := got.1.length * 2
    overrun := got.2 * 2 - allocated }

/-- `doWrite` counts what `uv_buf_init` left. -/
def writeBuffer (data : Bytes) : Request :=
  let buf := uvBufInit data data.length
  { bufs := [buf], counted := buf.length, overrun := 0 }

def bufferStorage (data : Bytes) : Request :=
  { bufs := [uvBufInit data data.length], counted := data.length, overrun := 0 }

/-- One element of a batch. The encoding of a string is not read. -/
def chunkStorage : Chunk → Request
  | .buffer data => bufferStorage data
  | .string s _ => utf8Storage s

/-- The elements of a batch, in order. -/
def gather (requests : List Request) : Request :=
  { bufs := requests.flatMap (·.bufs)
    counted := (requests.map (·.counted)).sum
    overrun := (requests.map (·.overrun)).sum }

def Call.request : Call → Request
  | .writeBuffer data => HermesNode.Streams.writeBuffer data
  | .writeUtf8String s => HermesNode.Streams.writeUtf8String s
  | .writeLatin1String s => HermesNode.Streams.writeLatin1String s
  | .writeAsciiString s => HermesNode.Streams.writeAsciiString s
  | .writeUcs2String s => HermesNode.Streams.writeUcs2String s
  | .writevBuffers chunks => gather (chunks.map bufferStorage)
  | .writevPairs chunks => gather (chunks.map chunkStorage)

/-! ### Streams -/

def UV_EINVAL : Int := -22

structure Stream where
  /-- The state is `kInitialized`. -/
  initialized : Bool
  /-- The bytes handed to `uv_write` so far. -/
  wire : Bytes
  bytesWritten : Nat
  overrun : Nat
  /-- `streamBaseState[kLastWriteWasAsync]`. -/
  lastWriteWasAsync : Bool
  /-- `streamBaseState[kBytesWritten]`, an `int32_t`. -/
  lastBytesWritten : Int

/-- A call, with what `uv_write` answers to its request. -/
structure Event where
  call : Call
  answer : Int

def Stream.submit (s : Stream) (r : Request) (answer : Int) : Stream × Int :=
  if answer ≠ 0 then
    ({ s with
        overrun := s.overrun + r.overrun
        lastWriteWasAsync := false
        lastBytesWritten := 0 }, answer)
  else
    ({ s with
        wire := s.wire ++ r.bufs.flatten
        bytesWritten := s.bytesWritten + r.counted
        overrun := s.overrun + r.overrun
        lastWriteWasAsync := true
        lastBytesWritten := Int.bmod r.counted (2 ^ 32) }, 0)

def Stream.call (s : Stream) (e : Event) : Stream × Int :=
  if s.initialized then s.submit e.call.request e.answer else (s, UV_EINVAL)

def Stream.run (s : Stream) (events : List Event) : Stream :=
  events.foldl (fun s e => (s.call e).1) s

/-! ### What the calls mean -/

/-- The chunks of a call with their encodings. -/
def Call.chunks : Call → List Chunk
  | .writeBuffer data => [.buffer data]
  | .writeUtf8String s => [.string s .utf8]
  | .writeLatin1String s => [.string s .latin1]
  | .writeAsciiString s => [.string s .ascii]
  | .writeUcs2String s => [.string s .ucs2]
  | .writevBuffers chunks => chunks.map .buffer
  | .writevPairs chunks => chunks

def Chunk.payload (base64 : JsString → Bytes) : Chunk → Bytes
  | .buffer data => data
  | .string s encoding => bytesOf base64 encoding s

def Call.payload (base64 : JsString → Bytes) (c : Call) : Bytes :=
  c.chunks.flatMap (Chunk.payload base64)

/-- The bytes of the accepted requests, in call order. -/
def accepted (base64 : JsString → Bytes) (events : List Event) : Bytes :=
  events.flatMap fun e => if e.answer = 0 then e.call.payload base64 else []

/-- After some calls the wire and the count have grown by the bytes of the accepted requests, and
nothing was stored outside of the requests' memory. -/
structure Faithful (base64 : JsString → Bytes) (s : Stream) (events : List Event) : Prop where
  wire : (s.run events).wire = s.wire ++ accepted base64 events
  bytesWritten : (s.run events).bytesWritten = s.bytesWritten + (accepted base64 events).length
  overrun : (s.run events).overrun = s.overrun

/-- The bytes of a chunk when every string is sent as UTF-8. -/
def Chunk.raw : Chunk → Bytes
  | .buffer data => data
  | .string s _ => utf8Bytes s

/-- The calls that are carried out as they are meant. Nothing is asked of the bytes of a refused
request. -/
def Fits (base64 : JsString → Bytes) (e : Event) : Prop :=
  match e.call with
  | .writeUcs2String _ => False
  | .writeBuffer data => e.answer = 0 → data.length < 2 ^ 32
  | .writeUtf8String s => e.answer = 0 → (utf8Bytes s).length < 2 ^ 32
  | .writeLatin1String s | .writeAsciiString s =>
      e.answer = 0 → s.length < 2 ^ 32 ∧ ∀ c ∈ s, c < 0x80
  | .writevBuffers chunks => e.answer = 0 → ∀ data ∈ chunks, data.length < 2 ^ 32
  | .writevPairs chunks => e.answer = 0 → (∀ c ∈ chunks, c.raw.length < 2 ^ 32) ∧
      chunks.flatMap Chunk.raw = chunks.flatMap (Chunk.payload base64)

/-! ### UTF-8 and Latin-1 -/

theorem utf8Of_length (cp : Nat) : 1 ≤ (utf8Of cp).length ∧
    ((utf8Of cp).length = 1 → cp < 0x80 ∧ utf8Of cp = [cp]) := by
  unfold utf8Of
  split
  · rename_i h
    exact ⟨Nat.le_refl _, fun _ => ⟨h, rfl⟩⟩
  · split
    · simp
    · split
      · simp
      · simp

theorem unitPoint_small {c : UInt16} (h : (unitPoint c).getD 0xFFFD < 0x80) :
    c.toNat < 0x80 ∧ unitPoint c = some c.toNat := by
  unfold unitPoint at h ⊢
  split
  · rename_i hsurrogate
    rw [if_pos hsurrogate] at h
    exact absurd h (by decide)
  · rename_i hplain
    rw [if_neg hplain] at h
    exact ⟨h, rfl⟩

theorem unitPoint_ascii {c : UInt16} (h : c < 0x80) : unitPoint c = some c.toNat := by
  have hlt : c.toNat < 0x80 := UInt16.lt_iff_toNat_lt.mp h
  unfold unitPoint
  have hhigh : isHighSurrogate c = false := by
    simp only [isHighSurrogate, Bool.and_eq_false_iff, decide_eq_false_iff_not]
    omega
  have hlow : isLowSurrogate c = false := by
    simp only [isLowSurrogate, Bool.and_eq_false_iff, decide_eq_false_iff_not]
    omega
  simp [hhigh, hlow]

/-- UTF-8 is never shorter than the string, and as short only for ASCII. -/
theorem utf8Bytes_length (s : JsString) : s.length ≤ (utf8Bytes s).length ∧
    ((utf8Bytes s).length = s.length → ∀ c ∈ s, c < 0x80) := by
  have hunit : ∀ c : UInt16, (utf8Of ((unitPoint c).getD 0xFFFD)).length = 1 → c < 0x80 := by
    intro c h
    have hsmall := ((utf8Of_length _).2 h).1
    exact UInt16.lt_iff_toNat_lt.mpr (unitPoint_small hsmall).1
  induction s using codePoints.induct with
  | case1 => exact ⟨Nat.le_refl _, fun _ c hc => by cases hc⟩
  | case2 c =>
      have hbytes : (utf8Bytes [c]).length = (utf8Of ((unitPoint c).getD 0xFFFD)).length := by
        simp [utf8Bytes, codePoints]
      rw [hbytes]
      refine ⟨(utf8Of_length _).1, ?_⟩
      intro hone d hd
      rw [List.mem_singleton.mp hd]
      exact hunit c hone
  | case3 c d rest hpair ih =>
      -- a pair of surrogates takes four bytes
      have hbytes : (utf8Bytes (c :: d :: rest)).length = 4 + (utf8Bytes rest).length := by
        have hfour : ∀ cp, 0x10000 ≤ cp → (utf8Of cp).length = 4 := by
          intro cp hcp
          unfold utf8Of
          rw [if_neg (by omega), if_neg (by omega), if_neg (by omega)]
          rfl
        unfold utf8Bytes
        rw [codePoints, if_pos hpair, List.flatMap_cons, List.length_append, List.length_map,
          Option.getD_some, hfour _ (by omega)]
      rw [hbytes]
      simp only [List.length_cons]
      refine ⟨by omega, ?_⟩
      intro hsame
      omega
  | case4 c d rest hpair ih =>
      have hbytes : (utf8Bytes (c :: d :: rest)).length =
          (utf8Of ((unitPoint c).getD 0xFFFD)).length + (utf8Bytes (d :: rest)).length := by
        unfold utf8Bytes
        rw [codePoints, if_neg hpair, List.flatMap_cons, List.length_append, List.length_map]
      have hfirst := (utf8Of_length ((unitPoint c).getD 0xFFFD)).1
      have hlength : (c :: d :: rest).length = 1 + (d :: rest).length := by
        simp only [List.length_cons]
        omega
      rw [hbytes, hlength]
      refine ⟨by omega, ?_⟩
      intro hsame x hx
      cases List.mem_cons.mp hx with
      | inl hc =>
          rw [hc]
          exact hunit c (by omega)
      | inr hrest => exact ih.2 (by omega) x hrest

theorem utf8Bytes_ascii {s : JsString} (h : ∀ c ∈ s, c < 0x80) : utf8Bytes s = latin1Bytes s := by
  have hpoints : codePoints s = s.map fun c => some c.toNat := by
    induction s using codePoints.induct with
    | case1 => rfl
    | case2 c => simp [codePoints, unitPoint_ascii (h c (by simp))]
    | case3 c d rest hpair ih =>
        have hsmall := h c (by simp)
        have hhigh : 0xD800 ≤ c.toNat := by
          simp only [isHighSurrogate, Bool.and_eq_true, decide_eq_true_eq] at hpair
          exact hpair.1.1
        have hlt : c.toNat < 0x80 := UInt16.lt_iff_toNat_lt.mp hsmall
        omega
    | case4 c d rest hpair ih =>
        have hrest := ih fun x hx => h x (List.mem_cons_of_mem _ hx)
        rw [codePoints, if_neg hpair, hrest, unitPoint_ascii (h c (by simp))]
        rfl
  unfold utf8Bytes latin1Bytes
  rw [hpoints, List.flatMap_map]
  have hone : ∀ c ∈ s, (utf8Of ((some c.toNat).getD 0xFFFD)).map UInt8.ofNat = [c.toUInt8] := by
    intro c hc
    have hlt : c.toNat < 0x80 := UInt16.lt_iff_toNat_lt.mp (h c hc)
    unfold utf8Of
    rw [Option.getD_some, if_pos hlt]
    rfl
  rw [List.flatMap_congr hone]
  exact List.map_eq_flatMap.symm

/-- A string has the same bytes in UTF-8 and Latin-1 exactly when it is ASCII. -/
theorem utf8Bytes_eq_latin1_iff (s : JsString) :
    utf8Bytes s = latin1Bytes s ↔ ∀ c ∈ s, c < 0x80 := by
  constructor
  · intro h
    apply (utf8Bytes_length s).2
    rw [h]
    simp [latin1Bytes]
  · exact utf8Bytes_ascii

/-! ### What a call hands over -/

/-- A buffer as `uv_buf_init` cuts it. -/
def cut (data : Bytes) : Bytes := uvBufInit data data.length

theorem cut_length_le (data : Bytes) : (cut data).length ≤ data.length := by
  unfold cut uvBufInit
  rw [List.length_take]
  exact Nat.min_le_right _ _

theorem cut_eq {data : Bytes} (h : data.length < 2 ^ 32) : cut data = data := by
  unfold cut uvBufInit
  rw [Nat.mod_eq_of_lt h, List.take_length]

/-- Below 4 GiB nothing is cut, and from there on something is. -/
theorem length_of_cut {data : Bytes} (h : (cut data).length = data.length) :
    data.length < 2 ^ 32 := by
  unfold cut uvBufInit at h
  rw [List.length_take] at h
  have hmod := Nat.mod_lt data.length (show 0 < 2 ^ 32 by decide)
  omega

theorem cut_eq_iff {data : Bytes} : cut data = data ↔ data.length < 2 ^ 32 :=
  ⟨fun h => length_of_cut (congrArg List.length h), cut_eq⟩

theorem utf8Storage_eq (s : JsString) : utf8Storage s =
    { bufs := [cut (utf8Bytes s)], counted := (utf8Bytes s).length, overrun := 0 } := by
  unfold utf8Storage getStringUtf8 cut
  simp

/-- The terminator of the UCS-2 writer lies behind its memory. -/
theorem writeUcs2String_overrun (s : JsString) :
    (HermesNode.Streams.writeUcs2String s).overrun = 2 := by
  unfold HermesNode.Streams.writeUcs2String getStringUtf16
  simp
  omega

theorem chunkStorage_eq (c : Chunk) : chunkStorage c =
    { bufs := [cut c.raw], counted := c.raw.length, overrun := 0 } := by
  cases c with
  | buffer data => rfl
  | string s encoding => exact utf8Storage_eq s

theorem gather_chunks (chunks : List Chunk) : gather (chunks.map chunkStorage) =
    { bufs := chunks.map fun c => cut c.raw
      counted := (chunks.map fun c => c.raw.length).sum
      overrun := 0 } := by
  have hstorage : chunks.map chunkStorage = chunks.map fun c =>
      { bufs := [cut c.raw], counted := c.raw.length, overrun := 0 } :=
    List.map_congr_left fun c _ => chunkStorage_eq c
  unfold gather
  rw [hstorage, Request.mk.injEq]
  refine ⟨?_, ?_, ?_⟩
  · rw [List.flatMap_map]
    exact List.map_eq_flatMap.symm
  · rw [List.map_map]
    rfl
  · rw [List.map_map]
    simp [Function.comp_def]

/-- Cutting no more than some bytes in all, and none in all, cuts none of the pieces. -/
theorem cut_all {chunks : List Chunk}
    (h : (chunks.flatMap fun c => cut c.raw).length = (chunks.map fun c => c.raw.length).sum) :
    ∀ c ∈ chunks, c.raw.length < 2 ^ 32 := by
  have htotal : ∀ cs : List Chunk,
      (cs.flatMap fun c => cut c.raw).length ≤ (cs.map fun c => c.raw.length).sum := by
    intro cs
    induction cs with
    | nil => exact Nat.le_refl _
    | cons c cs ih =>
        have hc := cut_length_le c.raw
        simp only [List.flatMap_cons, List.length_append, List.map_cons, List.sum_cons]
        omega
  induction chunks with
  | nil =>
      intro c hc
      cases hc
  | cons c cs ih =>
      have hc := cut_length_le c.raw
      have hcs := htotal cs
      simp only [List.flatMap_cons, List.length_append, List.map_cons, List.sum_cons] at h
      intro d hd
      cases List.mem_cons.mp hd with
      | inl hsame =>
          rw [hsame]
          exact length_of_cut (by omega)
      | inr hrest => exact ih (by omega) d hrest

/-- A request that hands over the bytes of its call, counts them, and stays in its memory. -/
structure Carried (base64 : JsString → Bytes) (e : Event) : Prop where
  overrun : e.call.request.overrun = 0
  bytes : e.answer = 0 → e.call.request.bufs.flatten = e.call.payload base64
  counted : e.answer = 0 → e.call.request.counted = (e.call.payload base64).length

section

variable {base64 : JsString → Bytes}

/-- A string sent as UTF-8 carries `payload` when that is its UTF-8. -/
theorem utf8Storage_carries_iff (s : JsString) (payload : Bytes) :
    ((utf8Storage s).bufs.flatten = payload ∧ (utf8Storage s).counted = payload.length) ↔
      (utf8Bytes s).length < 2 ^ 32 ∧ utf8Bytes s = payload := by
  rw [utf8Storage_eq]
  simp only [List.flatten_cons, List.flatten_nil, List.append_nil]
  constructor
  · rintro ⟨hbytes, hcounted⟩
    have hshort : (utf8Bytes s).length < 2 ^ 32 := by
      apply length_of_cut
      rw [hbytes, hcounted]
    rw [cut_eq hshort] at hbytes
    exact ⟨hshort, hbytes⟩
  · rintro ⟨hshort, hbytes⟩
    rw [cut_eq hshort, hbytes]
    exact ⟨rfl, rfl⟩

/-- The same for a whole batch. -/
theorem gather_carries_iff (chunks : List Chunk) (payload : Bytes) :
    ((gather (chunks.map chunkStorage)).bufs.flatten = payload ∧
      (gather (chunks.map chunkStorage)).counted = payload.length) ↔
        (∀ c ∈ chunks, c.raw.length < 2 ^ 32) ∧ chunks.flatMap Chunk.raw = payload := by
  rw [gather_chunks]
  have hflatten : (chunks.map fun c => cut c.raw).flatten = chunks.flatMap fun c => cut c.raw :=
    List.flatMap_def.symm
  rw [hflatten]
  have huncut : (∀ c ∈ chunks, c.raw.length < 2 ^ 32) →
      (chunks.flatMap fun c => cut c.raw) = chunks.flatMap Chunk.raw := by
    intro hshort
    exact List.flatMap_congr fun c hc => cut_eq (hshort c hc)
  have hlength : (chunks.map fun c => c.raw.length).sum = (chunks.flatMap Chunk.raw).length := by
    rw [List.length_flatMap]
  constructor
  · rintro ⟨hbytes, hcounted⟩
    have hshort := @cut_all chunks (by rw [hbytes]; exact hcounted.symm)
    rw [huncut hshort] at hbytes
    exact ⟨hshort, hbytes⟩
  · rintro ⟨hshort, hbytes⟩
    rw [huncut hshort, hbytes]
    refine ⟨rfl, ?_⟩
    rw [← hbytes]
    exact hlength

/-- A call whose request stays in its memory is carried when an accepted one has the right bytes. -/
theorem carried_iff_of {e : Event} {fits : Prop} (hoverrun : e.call.request.overrun = 0)
    (hfits : (e.call.request.bufs.flatten = e.call.payload base64 ∧
      e.call.request.counted = (e.call.payload base64).length) ↔ fits) :
    Carried base64 e ↔ (e.answer = 0 → fits) := by
  constructor
  · intro h hanswer
    exact hfits.mp ⟨h.bytes hanswer, h.counted hanswer⟩
  · intro h
    exact ⟨hoverrun, fun hanswer => (hfits.mpr (h hanswer)).1,
      fun hanswer => (hfits.mpr (h hanswer)).2⟩

/-- A single string that is sent as UTF-8. -/
theorem carried_string_iff {e : Event} {s : JsString} (h : e.call.request = utf8Storage s) :
    Carried base64 e ↔ (e.answer = 0 →
      (utf8Bytes s).length < 2 ^ 32 ∧ utf8Bytes s = e.call.payload base64) := by
  apply carried_iff_of
  · rw [h, utf8Storage_eq]
  · rw [h]
    exact utf8Storage_carries_iff s _

theorem carried_batch_iff {e : Event} {chunks : List Chunk}
    (h : e.call.request = gather (chunks.map chunkStorage)) :
    Carried base64 e ↔ (e.answer = 0 → (∀ c ∈ chunks, c.raw.length < 2 ^ 32) ∧
      chunks.flatMap Chunk.raw = e.call.payload base64) := by
  apply carried_iff_of
  · rw [h, gather_chunks]
  · rw [h]
    exact gather_carries_iff chunks _

theorem carried_buffer_iff (data : Bytes) (answer : Int) :
    Carried base64 ⟨.writeBuffer data, answer⟩ ↔ (answer = 0 → data.length < 2 ^ 32) := by
  have hpayload : Call.payload base64 (.writeBuffer data) = data := by
    simp [Call.payload, Call.chunks, Chunk.payload]
  have hrequest : (Call.writeBuffer data).request =
      { bufs := [cut data], counted := (cut data).length, overrun := 0 } := rfl
  apply carried_iff_of
  · rw [hrequest]
  · rw [hrequest, hpayload]
    simp only [List.flatten_cons, List.flatten_nil, List.append_nil]
    constructor
    · intro h
      exact cut_eq_iff.mp h.1
    · intro hshort
      rw [cut_eq hshort]
      exact ⟨rfl, rfl⟩

theorem carried_latin1_iff {e : Event} {s : JsString} (h : e.call.request = utf8Storage s)
    (hpayload : e.call.payload base64 = latin1Bytes s) :
    Carried base64 e ↔ (e.answer = 0 → s.length < 2 ^ 32 ∧ ∀ c ∈ s, c < 0x80) := by
  have hboth : ((utf8Bytes s).length < 2 ^ 32 ∧ utf8Bytes s = latin1Bytes s) ↔
      (s.length < 2 ^ 32 ∧ ∀ c ∈ s, c < 0x80) := by
    rw [← utf8Bytes_eq_latin1_iff]
    constructor
    · rintro ⟨hshort, hsame⟩
      rw [hsame] at hshort
      exact ⟨by simpa [latin1Bytes] using hshort, hsame⟩
    · rintro ⟨hshort, hsame⟩
      rw [hsame]
      exact ⟨by simpa [latin1Bytes] using hshort, rfl⟩
  rw [carried_string_iff h, hpayload, hboth]

/-- The calls that hand over what they mean are the ones that fit. -/
theorem carried_iff (e : Event) : Carried base64 e ↔ Fits base64 e := by
  obtain ⟨call, answer⟩ := e
  cases call with
  | writeBuffer data => exact carried_buffer_iff data answer
  | writeUtf8String s =>
      have hpayload : Call.payload base64 (.writeUtf8String s) = utf8Bytes s := by
        simp [Call.payload, Call.chunks, Chunk.payload, bytesOf]
      rw [carried_string_iff rfl, hpayload]
      simp [Fits]
  | writeLatin1String s =>
      apply carried_latin1_iff rfl
      simp [Call.payload, Call.chunks, Chunk.payload, bytesOf]
  | writeAsciiString s =>
      apply carried_latin1_iff rfl
      simp [Call.payload, Call.chunks, Chunk.payload, bytesOf]
  | writeUcs2String s =>
      constructor
      · intro h
        have hoverrun := h.overrun
        rw [show (Call.writeUcs2String s).request = HermesNode.Streams.writeUcs2String s from rfl,
          writeUcs2String_overrun] at hoverrun
        cases hoverrun
      · intro h
        cases h
  | writevBuffers chunks =>
      have hrequest : (Call.writevBuffers chunks).request =
          gather ((chunks.map Chunk.buffer).map chunkStorage) := by
        rw [List.map_map]
        rfl
      have hpayload : (chunks.map Chunk.buffer).flatMap Chunk.raw =
          Call.payload base64 (.writevBuffers chunks) := by
        unfold Call.payload Call.chunks
        rw [List.flatMap_map, List.flatMap_map]
        rfl
      rw [carried_batch_iff hrequest, hpayload]
      simp [Fits, Chunk.raw]
  | writevPairs chunks => exact carried_batch_iff rfl

/-! ### Runs -/

theorem call_spec {s : Stream} (h : s.initialized = true) (e : Event) :
    (s.call e).1.initialized = true ∧
      (s.call e).1.wire =
        s.wire ++ (if e.answer = 0 then e.call.request.bufs.flatten else []) ∧
      (s.call e).1.bytesWritten =
        s.bytesWritten + (if e.answer = 0 then e.call.request.counted else 0) ∧
      (s.call e).1.overrun = s.overrun + e.call.request.overrun := by
  unfold Stream.call Stream.submit
  rw [if_pos h]
  by_cases hanswer : e.answer = 0
  · simp [hanswer, h]
  · simp [hanswer, h]

theorem run_initialized {s : Stream} (h : s.initialized = true) (events : List Event) :
    (s.run events).initialized = true := by
  induction events generalizing s with
  | nil => exact h
  | cons e events ih => exact ih (call_spec h e).1

theorem run_append (s : Stream) (before after : List Event) :
    s.run (before ++ after) = (s.run before).run after := List.foldl_append

theorem accepted_append (before after : List Event) :
    accepted base64 (before ++ after) = accepted base64 before ++ accepted base64 after :=
  List.flatMap_append

/-- Behind a faithful run, a call leaves the run faithful exactly when it is carried. -/
theorem faithful_snoc_iff {s : Stream} (h : s.initialized = true) {events : List Event}
    (hfaithful : Faithful base64 s events) (e : Event) :
    Faithful base64 s (events ++ [e]) ↔ Carried base64 e := by
  obtain ⟨_, hwire, hbytes, hoverrun⟩ := call_spec (run_initialized h events) e
  have hrun : s.run (events ++ [e]) = ((s.run events).call e).1 := run_append s events [e]
  have haccepted : accepted base64 (events ++ [e]) =
      accepted base64 events ++ if e.answer = 0 then e.call.payload base64 else [] := by
    rw [accepted_append]
    simp [accepted]
  rw [hfaithful.wire] at hwire
  rw [hfaithful.bytesWritten] at hbytes
  rw [hfaithful.overrun] at hoverrun
  constructor
  · intro hnext
    have hwire' := hnext.wire
    have hbytes' := hnext.bytesWritten
    have hoverrun' := hnext.overrun
    rw [hrun, hwire, haccepted, List.append_assoc, List.append_cancel_left_eq,
      List.append_cancel_left_eq] at hwire'
    rw [hrun, hbytes, haccepted, List.length_append] at hbytes'
    rw [hrun, hoverrun] at hoverrun'
    constructor
    · omega
    · intro hanswer
      rw [if_pos hanswer, if_pos hanswer] at hwire'
      exact hwire'
    · intro hanswer
      rw [if_pos hanswer, if_pos hanswer] at hbytes'
      omega
  · intro hcarried
    constructor
    · rw [hrun, hwire, haccepted, List.append_assoc]
      by_cases hanswer : e.answer = 0
      · rw [if_pos hanswer, if_pos hanswer, hcarried.bytes hanswer]
      · rw [if_neg hanswer, if_neg hanswer]
    · rw [hrun, hbytes, haccepted, List.length_append]
      by_cases hanswer : e.answer = 0
      · rw [if_pos hanswer, if_pos hanswer, hcarried.counted hanswer]
        omega
      · rw [if_neg hanswer, if_neg hanswer]
        rfl
    · rw [hrun, hoverrun, hcarried.overrun]
      omega

theorem faithful_nil (s : Stream) : Faithful base64 s [] := by
  constructor
  · simp [Stream.run, accepted]
  · simp [Stream.run, accepted]
  · rfl

/-- Calls that all fit leave every state of a run faithful. -/
theorem faithful_of_fits {s : Stream} (h : s.initialized = true) {events : List Event}
    (hfits : ∀ e ∈ events, Fits base64 e) : Faithful base64 s events := by
  induction events using List.reverseRecOn with
  | nil => exact faithful_nil s
  | append_singleton events e ih =>
      have hbefore := ih fun d hd => hfits d (List.mem_append_left _ hd)
      apply (faithful_snoc_iff h hbefore e).mpr
      exact (carried_iff e).mpr (hfits e (by simp))

theorem accepted_chunks {events : List Event} (h : ∀ e ∈ events, e.answer = 0) :
    accepted base64 events =
      (events.flatMap fun e => e.call.chunks).flatMap (Chunk.payload base64) := by
  unfold accepted
  rw [List.flatMap_assoc]
  apply List.flatMap_congr
  intro e he
  rw [if_pos (h e he)]
  rfl

/-- How accepted chunks are grouped into calls makes no difference, as long as the calls fit. -/
theorem grouping_irrelevant {s : Stream} (h : s.initialized = true) {events events' : List Event}
    (hfits : ∀ e ∈ events, Fits base64 e) (hfits' : ∀ e ∈ events', Fits base64 e)
    (hanswers : ∀ e ∈ events, e.answer = 0) (hanswers' : ∀ e ∈ events', e.answer = 0)
    (hchunks : (events.flatMap fun e => e.call.chunks) = events'.flatMap fun e => e.call.chunks) :
    (s.run events).wire = (s.run events').wire ∧
      (s.run events).bytesWritten = (s.run events').bytesWritten := by
  have hfaithful := faithful_of_fits h hfits
  have hfaithful' := faithful_of_fits h hfits'
  rw [hfaithful.wire, hfaithful.bytesWritten, hfaithful'.wire, hfaithful'.bytesWritten,
    accepted_chunks hanswers, accepted_chunks hanswers', hchunks]
  exact ⟨rfl, rfl⟩

end

/-- For every sequence of calls on an initialized stream and all answers of `uv_write`: in every state
of the run the wire has the bytes of the accepted requests, in call order and each string in its own
encoding, the count is their number, and nothing was stored outside of the memory of a request,
exactly when every call fits. -/
theorem writes_faithful_iff (base64 : JsString → Bytes) (s : Stream) (h : s.initialized = true)
    (events : List Event) :
    (∀ before after, events = before ++ after → Faithful base64 s before) ↔
      ∀ e ∈ events, Fits base64 e := by
  constructor
  · intro hall e he
    obtain ⟨before, after, rfl⟩ := List.append_of_mem he
    have hbefore := hall before (e :: after) rfl
    have hnext := hall (before ++ [e]) after (by simp)
    exact (carried_iff e).mp ((faithful_snoc_iff h hbefore e).mp hnext)
  · intro hfits before after hevents
    apply faithful_of_fits h
    intro e he
    apply hfits
    rw [hevents]
    exact List.mem_append_left _ he

/-- A new stream. -/
def newStream : Stream :=
  { initialized := true, wire := [], bytesWritten := 0, overrun := 0, lastWriteWasAsync := false
    lastBytesWritten := 0 }

/-- A buffer, a batch of UTF-8 and hex that is refused, and an ASCII string. -/
theorem plain_writes_faithful :
    Faithful (fun _ => []) newStream
      [⟨.writeBuffer [1, 2], 0⟩, ⟨.writevPairs [.string [0x61] .utf8, .string [0x61] .hex], -32⟩,
        ⟨.writeAsciiString [0x62], 0⟩] := by
  apply (writes_faithful_iff (fun _ => []) newStream rfl _).mpr ?_ _ [] (List.append_nil _).symm
  intro e he
  simp only [List.mem_cons, List.not_mem_nil, or_false] at he
  rcases he with rfl | rfl | rfl
  · simp [Fits]
  · simp [Fits]
  · simp [Fits]

theorem split_write : (newStream.run [⟨.writeBuffer [1], 0⟩, ⟨.writeBuffer [2], 0⟩]).wire =
    (newStream.run [⟨.writevBuffers [[1], [2]], 0⟩]).wire := by
  apply And.left
  apply @grouping_irrelevant (fun _ => []) _ rfl
  · simp [Fits]
  · simp [Fits]
  · simp
  · simp
  · rfl

/-- `é` in Latin-1 is one byte and goes out as two; in a batch too, where `hex` goes out as its
digits; and writing one UCS-2 character stores a terminator behind the memory for it. -/
theorem writes_go_wrong :
    ¬ Faithful (fun _ => []) newStream [⟨.writeLatin1String [0xE9], 0⟩] ∧
      ¬ Faithful (fun _ => []) newStream
        [⟨.writevPairs [.string [0xE9] .latin1, .string [0x34, 0x31] .hex], 0⟩] ∧
      ¬ Faithful (fun _ => []) newStream [⟨.writeUcs2String [0x61], 0⟩] := by
  refine ⟨?_, ?_, ?_⟩
  · intro h
    exact absurd h.wire (by decide)
  · intro h
    exact absurd h.wire (by decide)
  · intro h
    exact absurd h.overrun (by decide)

end HermesNode.Streams
