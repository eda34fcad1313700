/-
Module: HermesNode.Bindings.ByteExtents
Purpose: The bytes a binding reads when it is given an ArrayBufferView. Four bindings turn a view
  into a pointer and a length on their own. Two of them take the number of elements of a typed array
  for its number of bytes, so their extent is the view's only where an element is one byte.
Trusted boundary: human-reviewed spec (transcribed from `lib/bindings/node_buffer.cpp`,
  `node_string_decoder.cpp`, `node_encoding.cpp` and `node_zlib.cpp`); the engine's queries are
  parameters
Main exports: ArrayBufferView, Napi, byte_extents_iff
-/
import HermesNode.Lib.Buffer

namespace HermesNode.Bindings

/-! ### Views -/

/-- `napi_typedarray_type`. -/
inductive TypedArrayType where
  | int8
  | uint8
  | uint8Clamped
  | int16
  | uint16
  | int32
  | uint32
  | float32
  | float64
  | bigint64
  | biguint64
deriving Repr, DecidableEq

/-- `BYTES_PER_ELEMENT`. -/
def TypedArrayType.bytesPerElement : TypedArrayType → Nat
  | .int8 | .uint8 | .uint8Clamped => 1
  | .int16 | .uint16 => 2
  | .int32 | .uint32 | .float32 => 4
  | .float64 | .bigint64 | .biguint64 => 8

inductive ViewKind where
  | typedArray (type : TypedArrayType)
  | dataView
deriving Repr, DecidableEq

/-- The bytes one unit of a view's length stands for. -/
def ViewKind.unit : ViewKind → Nat
  | .typedArray type => type.bytesPerElement
  | .dataView => 1

/-- A view of an ArrayBuffer. Its length is in elements for a typed array and in bytes for a
DataView. -/
structure ArrayBufferView where
  buffer : Bytes
  kind : ViewKind
  byteOffset : Nat
  length : Nat
  aligned : byteOffset % kind.unit = 0
  fits : byteOffset + length * kind.unit ≤ buffer.length

def ArrayBufferView.byteLength (v : ArrayBufferView) : Nat := v.length * v.kind.unit

/-! ### The engine's queries -/

/-- A pointer into the buffer of the view a query is about, or `nullptr`. -/
abbrev Pointer := Option Nat

structure TypedArrayInfo where
  type : TypedArrayType
  length : Nat
  data : Pointer
  byteOffset : Nat
deriving Repr, DecidableEq

structure DataViewInfo where
  byteLength : Nat
  data : Pointer
  byteOffset : Nat
deriving Repr, DecidableEq

structure BufInfo where
  data : Pointer
  length : Nat
deriving Repr, DecidableEq

/-- The queries of a view, and of the buffer below it. A query that does not return `napi_ok` has no
answer. -/
structure Napi where
  /-- `napi_get_typedarray_info`. -/
  getTypedarrayInfo : ArrayBufferView → Option TypedArrayInfo
  /-- `napi_get_dataview_info`. -/
  getDataviewInfo : ArrayBufferView → Option DataViewInfo
  /-- `napi_get_buffer_info`. -/
  getBufferInfo : ArrayBufferView → Option BufInfo
  /-- `napi_get_arraybuffer_info` of the buffer. -/
  getArraybufferInfo : ArrayBufferView → Option BufInfo

/-- The pointer is the first byte of the view, where it has one. -/
def ArrayBufferView.Starts (v : ArrayBufferView) (data : Pointer) : Prop :=
  0 < v.byteLength → data = some v.byteOffset

/-- What the queries are documented to report: the length of a typed array in elements, the other
lengths in bytes. Which views `napi_get_buffer_info` takes for a buffer is left open. -/
structure Napi.Documented (napi : Napi) : Prop where
  typedArray : ∀ v type, v.kind = .typedArray type → ∃ data, v.Starts data ∧
    napi.getTypedarrayInfo v = some ⟨type, v.length, data, v.byteOffset⟩
  noTypedArray : ∀ v, v.kind = .dataView → napi.getTypedarrayInfo v = none
  dataView : ∀ v, v.kind = .dataView → ∃ data, v.Starts data ∧
    napi.getDataviewInfo v = some ⟨v.byteLength, data, v.byteOffset⟩
  buffer : ∀ v info, napi.getBufferInfo v = some info →
    v.Starts info.data ∧ info.length = v.byteLength

/-! ### The bindings -/

/-- The view as a typed array of `typedLength` bytes, else as a DataView. -/
def viewInfo (typedLength : TypedArrayInfo → Nat) (napi : Napi) (v : ArrayBufferView) :
    Option BufInfo :=
  match napi.getTypedarrayInfo v with
  | some info => some ⟨info.data, typedLength info⟩
  | none => (napi.getDataviewInfo v).map fun info => ⟨info.data, info.byteLength⟩

/-- `getBufInfo` of `node_buffer.cpp`. -/
def getBufInfo : Napi → ArrayBufferView → Option BufInfo := viewInfo fun info => info.length

/-- The input of the decode callback of `node_string_decoder.cpp`. -/
def decodeInput : Napi → ArrayBufferView → Option BufInfo := viewInfo fun info => info.length

/-- The element size as `node_encoding.cpp` and `node_zlib.cpp` compute it. -/
def typedArrayElementSize : TypedArrayType → Nat
  | .uint16 | .int16 => 2
  | .uint32 | .int32 | .float32 => 4
  | .float64 | .bigint64 | .biguint64 => 8
  | _ => 1

/-- `getBufferData` of `node_encoding.cpp`, of a view. -/
def getBufferData : Napi → ArrayBufferView → Option BufInfo :=
  viewInfo fun info => info.length * typedArrayElementSize info.type

/-- The pointer of a view whose own query reported none: computed from the buffer. -/
def dataOrBuffer (napi : Napi) (v : ArrayBufferView) (data : Pointer) (length byteOffset : Nat) :
    Pointer :=
  if data = none ∧ 0 < length then
    match napi.getArraybufferInfo v with
    | some info =>
        match info.data with
        | some start => if byteOffset < info.length then some (start + byteOffset) else none
        | none => none
    | none => none
  else data

/-- `getArrayBufferViewBytes` of `node_zlib.cpp`. -/
def getArrayBufferViewBytes (napi : Napi) (v : ArrayBufferView) : Option BufInfo :=
  match napi.getBufferInfo v with
  | some info => some info
  | none =>
      match napi.getTypedarrayInfo v with
      | some info =>
          some ⟨dataOrBuffer napi v info.data info.length info.byteOffset,
            info.length * typedArrayElementSize info.type⟩
      | none =>
          (napi.getDataviewInfo v).map fun info =>
            ⟨dataOrBuffer napi v info.data info.byteLength info.byteOffset, info.byteLength⟩

/-! ### Extents -/

/-- The binding works on the bytes from `byteOffset` to `byteOffset + byteLength` of the buffer and
on no others. -/
def Covers (v : ArrayBufferView) (info : Option BufInfo) : Prop :=
  ∃ data, v.Starts data ∧ info = some ⟨data, v.byteLength⟩

theorem typedArrayElementSize_eq (type : TypedArrayType) :
    typedArrayElementSize type = type.bytesPerElement := by
  cases type <;> rfl

theorem ViewKind.unit_pos (kind : ViewKind) : 0 < kind.unit := by
  cases kind with
  | typedArray type => cases type <;> decide
  | dataView => decide

/-- A pointer that was reported is kept. -/
theorem dataOrBuffer_starts (napi : Napi) (v : ArrayBufferView) {data : Pointer}
    (hstarts : v.Starts data) (length byteOffset : Nat) :
    v.Starts (dataOrBuffer napi v data length byteOffset) := by
  intro hpos
  have hdata := hstarts hpos
  rw [dataOrBuffer, if_neg (by simp [hdata]), hdata]

section

variable {napi : Napi} (h : napi.Documented) (v : ArrayBufferView)

include h

/-- A binding that asks for a typed array first covers the view exactly when it computes the byte
length. -/
theorem viewInfo_covers_iff (typedLength : TypedArrayInfo → Nat) :
    Covers v (viewInfo typedLength napi v) ↔
      ∀ info, napi.getTypedarrayInfo v = some info → typedLength info = v.byteLength := by
  cases hkind : v.kind with
  | typedArray type =>
      obtain ⟨data, hstarts, hinfo⟩ := h.typedArray v type hkind
      simp only [viewInfo, hinfo, Covers, Option.some.injEq, BufInfo.mk.injEq, forall_eq']
      constructor
      · rintro ⟨_, _, _, hlength⟩
        exact hlength
      · intro hlength
        exact ⟨data, hstarts, rfl, hlength⟩
  | dataView =>
      obtain ⟨data, hstarts, hinfo⟩ := h.dataView v hkind
      have hnone := h.noTypedArray v hkind
      simp only [viewInfo, hnone, hinfo, Option.map_some, reduceCtorEq, false_implies, implies_true,
        iff_true]
      exact ⟨data, hstarts, rfl⟩

/-- The number of elements is the number of bytes where an element is one byte. -/
theorem elements_cover_iff :
    Covers v (viewInfo (fun info => info.length) napi v) ↔ v.kind.unit = 1 ∨ v.length = 0 := by
  rw [viewInfo_covers_iff h]
  cases hkind : v.kind with
  | typedArray type =>
      obtain ⟨data, _, hinfo⟩ := h.typedArray v type hkind
      simp only [hinfo, Option.some.injEq, forall_eq', ArrayBufferView.byteLength, hkind]
      have hunit := ViewKind.unit_pos (.typedArray type)
      constructor
      · intro heq
        rcases Nat.eq_zero_or_pos v.length with hzero | hpos
        · exact Or.inr hzero
        · exact Or.inl (Nat.eq_of_mul_eq_mul_left hpos (by omega))
      · rintro (hone | hzero)
        · rw [hone, Nat.mul_one]
        · rw [hzero, Nat.zero_mul]
  | dataView =>
      have hnone := h.noTypedArray v hkind
      simp [hnone, ViewKind.unit]

theorem getBufferData_covers : Covers v (getBufferData napi v) := by
  apply (viewInfo_covers_iff h v _).mpr
  intro info hinfo
  cases hkind : v.kind with
  | typedArray type =>
      obtain ⟨data, _, hreported⟩ := h.typedArray v type hkind
      rw [hreported] at hinfo
      cases hinfo
      simp only [typedArrayElementSize_eq, ArrayBufferView.byteLength, hkind, ViewKind.unit]
  | dataView =>
      rw [h.noTypedArray v hkind] at hinfo
      cases hinfo

theorem getArrayBufferViewBytes_covers : Covers v (getArrayBufferViewBytes napi v) := by
  unfold getArrayBufferViewBytes
  cases hbuffer : napi.getBufferInfo v with
  | some info =>
      obtain ⟨hstarts, hlength⟩ := h.buffer v info hbuffer
      exact ⟨info.data, hstarts, by rw [← hlength]⟩
  | none =>
      cases hkind : v.kind with
      | typedArray type =>
          obtain ⟨data, hstarts, hinfo⟩ := h.typedArray v type hkind
          simp only [hinfo, typedArrayElementSize_eq]
          refine ⟨_, dataOrBuffer_starts napi v hstarts v.length v.byteOffset, ?_⟩
          simp only [ArrayBufferView.byteLength, hkind, ViewKind.unit]
      | dataView =>
          obtain ⟨data, hstarts, hinfo⟩ := h.dataView v hkind
          simp only [h.noTypedArray v hkind, hinfo, Option.map_some]
          exact ⟨_, dataOrBuffer_starts napi v hstarts v.byteLength v.byteOffset, rfl⟩

end

/-- The four bindings work on the same bytes. -/
structure OneExtent (napi : Napi) (v : ArrayBufferView) : Prop where
  getBufInfo : Covers v (getBufInfo napi v)
  decodeInput : Covers v (decodeInput napi v)
  getBufferData : Covers v (getBufferData napi v)
  getArrayBufferViewBytes : Covers v (getArrayBufferViewBytes napi v)

/-- For every view, the four bindings work on exactly its bytes when an element is one byte or there
is none, and only then. -/
theorem byte_extents_iff (napi : Napi) (h : napi.Documented) (v : ArrayBufferView) :
    OneExtent napi v ↔ v.kind.unit = 1 ∨ v.length = 0 := by
  constructor
  · intro hall
    exact (elements_cover_iff h v).mp hall.getBufInfo
  · intro hbytes
    exact ⟨(elements_cover_iff h v).mpr hbytes, (elements_cover_iff h v).mpr hbytes,
      getBufferData_covers h v, getArrayBufferViewBytes_covers h v⟩

/-- An engine that reports what is documented, and takes the byte arrays for buffers. -/
def plainNapi : Napi where
  getTypedarrayInfo v :=
    match v.kind with
    | .typedArray type => some ⟨type, v.length, some v.byteOffset, v.byteOffset⟩
    | .dataView => none
  getDataviewInfo v :=
    match v.kind with
    | .typedArray _ => none
    | .dataView => some ⟨v.byteLength, some v.byteOffset, v.byteOffset⟩
  getBufferInfo v :=
    match v.kind with
    | .typedArray .uint8 => some ⟨some v.byteOffset, v.byteLength⟩
    | _ => none
  getArraybufferInfo v := some ⟨some 0, v.buffer.length⟩

theorem plainNapi_documented : plainNapi.Documented where
  typedArray v type hkind := ⟨some v.byteOffset, fun _ => rfl, by simp [plainNapi, hkind]⟩
  noTypedArray v hkind := by simp [plainNapi, hkind]
  dataView v hkind := ⟨some v.byteOffset, fun _ => rfl, by simp [plainNapi, hkind]⟩
  buffer v info hinfo := by
    unfold plainNapi at hinfo
    simp only at hinfo
    split at hinfo
    · cases hinfo
      exact ⟨fun _ => rfl, rfl⟩
    · cases hinfo

/-- Four bytes of a buffer as bytes. -/
def byteArray : ArrayBufferView where
  buffer := [1, 2, 3, 4, 5, 6]
  kind := .typedArray .uint8
  byteOffset := 2
  length := 4
  aligned := by decide
  fits := by decide

theorem byteArray_one_extent : OneExtent plainNapi byteArray :=
  (byte_extents_iff plainNapi plainNapi_documented byteArray).mpr (Or.inl rfl)

/-- The same four bytes as two numbers. -/
def wordArray : ArrayBufferView where
  buffer := [1, 2, 3, 4, 5, 6]
  kind := .typedArray .uint16
  byteOffset := 2
  length := 2
  aligned := by decide
  fits := by decide

/-- `getBufInfo` and the decode callback stop after two bytes of the four. -/
theorem wordArray_cut_short :
    plainNapi.Documented ∧ getBufInfo plainNapi wordArray = some ⟨some 2, 2⟩ ∧
      decodeInput plainNapi wordArray = some ⟨some 2, 2⟩ ∧ wordArray.byteLength = 4 ∧
      ¬ OneExtent plainNapi wordArray := by
  refine ⟨plainNapi_documented, rfl, rfl, rfl, ?_⟩
  intro hall
  obtain ⟨data, _, hinfo⟩ := hall.getBufInfo
  cases hinfo

end HermesNode.Bindings
