/-
Module: HermesNode.Bindings.Crypto
Purpose: The bytes `timingSafeEqual` compares and `Hash` and `Hmac` digest. The binding asks for a
  typed array and takes the number of its elements for the number of its bytes, and
  `timingSafeEqual` does not look at the status, so that anything else counts as no bytes at all.
Trusted boundary: human-reviewed spec (transcribed from `lib/bindings/node_crypto.cpp` and
  `libjs/shims/crypto.js`); the engine's queries are parameters
Main exports: Argument, Argument.content, crypto_bytes_iff
-/
import HermesNode.Bindings.ByteExtents
import HermesNode.Lib.Unicode
import Mathlib.Data.List.TakeDrop

namespace HermesNode.Bindings

/-! ### Arguments -/

inductive Argument where
  | view (v : ArrayBufferView)
  | arrayBuffer (bytes : Bytes)
  | string (text : JsString)
  | other

def ArrayBufferView.bytes (v : ArrayBufferView) : Bytes :=
  (v.buffer.drop v.byteOffset).take v.byteLength

/-- The bytes of a data argument. -/
def Argument.content : Argument → Option Bytes
  | .view v => some v.bytes
  | .arrayBuffer bytes => some bytes
  | _ => none

/-- The number of elements of a typed array; anything else has none. -/
def Argument.elements : Argument → Nat
  | .view v =>
      match v.kind with
      | .typedArray _ => v.length
      | .dataView => 0
  | _ => 0

/-- `napi_get_typedarray_info`. -/
def typedArrayInfo (napi : Napi) : Argument → Option TypedArrayInfo
  | .view v => napi.getTypedarrayInfo v
  | _ => none

/-- What `length` bytes from a pointer into the argument's buffer on are. -/
def Argument.window (arg : Argument) (data : Pointer) (length : Nat) : Bytes :=
  match arg, data with
  | .view v, some start => (v.buffer.drop start).take length
  | _, _ => []

/-! ### The binding -/

inductive ErrorClass where
  | error
  | typeError
  | rangeError
deriving Repr, DecidableEq

structure CryptoError where
  kind : ErrorClass
  code : Option String
  message : String
deriving Repr, DecidableEq

/-- The loop over the bytes, without an early exit. -/
def accumulate (a b : Bytes) : UInt8 :=
  (a.zip b).foldl (fun result pair => result ||| (pair.1 ^^^ pair.2)) 0

/-- The output variables stay as they were initialized where the query fails. -/
def timingSafeEqual (napi : Napi) (argv : List Argument) : Except CryptoError Bool :=
  match argv with
  | a :: b :: _ =>
      let (lenA, dataA) := ((typedArrayInfo napi a).map fun info => (info.length, info.data)).getD (0, none)
      let (lenB, dataB) := ((typedArrayInfo napi b).map fun info => (info.length, info.data)).getD (0, none)
      if lenA ≠ lenB then
        .error ⟨.rangeError, some "ERR_CRYPTO_TIMING_SAFE_EQUAL_LENGTH",
          "Input buffers must have the same byte length"⟩
      else .ok (accumulate (a.window dataA lenA) (b.window dataB lenA) == 0)
  | _ => .error ⟨.error, none, "two arguments required"⟩

inductive Algorithm where
  | md5
  | sha1
  | sha224
  | sha256
deriving Repr, DecidableEq

/-- `strcmp` compares up to the first NUL. -/
def parseAlgorithm (name : Bytes) : Option Algorithm :=
  let name := name.takeWhile (· != 0)
  if name = ascii "md5" then some .md5
  else if name = ascii "sha1" then some .sha1
  else if name = ascii "sha224" then some .sha224
  else if name = ascii "sha256" then some .sha256
  else none

/-- A digest in progress: what `ph_init_hmac` was given, and what every `ph_update` was given. -/
structure HashContext where
  algo : Algorithm
  key : Option Bytes
  fed : Bytes
  finalized : Bool
deriving Repr, DecidableEq

def hashUpdate (napi : Napi) (hctx : HashContext) (data : Argument) :
    Except CryptoError HashContext :=
  if hctx.finalized then .error ⟨.error, none, "Digest already called"⟩
  else
    match typedArrayInfo napi data with
    | none => .error ⟨.typeError, none, "data must be a Buffer or Uint8Array"⟩
    | some info =>
        if info.data = none then .error ⟨.typeError, none, "data must be a Buffer or Uint8Array"⟩
        else .ok { hctx with fed := hctx.fed ++ data.window info.data info.length }

/-- The name is read into a buffer of 32 bytes. -/
def hmacInit (napi : Napi) (name : Bytes) (key : Argument) : Except CryptoError HashContext :=
  match parseAlgorithm (name.take 31) with
  | none => .error ⟨.error, none, "Unknown message digest"⟩
  | some algo =>
      match typedArrayInfo napi key with
      | none => .error ⟨.typeError, none, "key must be a Buffer or Uint8Array"⟩
      | some info => .ok ⟨algo, some (key.window info.data info.length), [], false⟩

def hashNew (name : Bytes) : Except CryptoError HashContext :=
  match parseAlgorithm (name.take 31) with
  | none => .error ⟨.error, none, "Unknown message digest"⟩
  | some algo => .ok ⟨algo, none, [], false⟩

/-! ### The classes -/

/-- A `Hash` or an `Hmac`: the native context and `_finalized`. -/
structure Digest where
  native : HashContext
  finalized : Bool
deriving Repr, DecidableEq

section

-- `Buffer.from` of a string.
variable (bufferFrom : JsString → ArrayBufferView)

def toBuffer : Argument → Argument
  | .string text => .view (bufferFrom text)
  | arg => arg

def createHash (name : Bytes) : Except CryptoError Digest := (hashNew name).map (⟨·, false⟩)

def createHmac (napi : Napi) (name : Bytes) (key : Argument) : Except CryptoError Digest :=
  (hmacInit napi name (toBuffer bufferFrom key)).map (⟨·, false⟩)

/-- `Hash.prototype.update` and `Hmac.prototype.update`. -/
def update (napi : Napi) (h : Digest) (data : Argument) : Except CryptoError Digest :=
  if h.finalized then .error ⟨.error, none, "Digest already called"⟩
  else (hashUpdate napi h.native (toBuffer bufferFrom data)).map ({ h with native := · })

/-- One call after the other. -/
def updates (napi : Napi) : Digest → List Argument → Except CryptoError Digest
  | h, [] => .ok h
  | h, data :: rest =>
      match update bufferFrom napi h data with
      | .error e => .error e
      | .ok h => updates napi h rest

end

/-! ### What the query says about an argument -/

section

variable {napi : Napi} (h : napi.Documented)

include h

/-- The query answers for typed arrays only, with their elements and the bytes as many as these. -/
theorem typedArrayInfo_cases (arg : Argument) :
    (typedArrayInfo napi arg = none ∧ arg.elements = 0) ∨
      ∃ v type info, arg = .view v ∧ v.kind = .typedArray type ∧
        typedArrayInfo napi arg = some info ∧ info.length = arg.elements ∧ arg.elements = v.length ∧
        arg.window info.data info.length = v.bytes.take v.length := by
  cases arg with
  | view v =>
      cases hkind : v.kind with
      | typedArray type =>
          obtain ⟨data, hstarts, hinfo⟩ := h.typedArray v type hkind
          have helements : (Argument.view v).elements = v.length := by simp [Argument.elements, hkind]
          refine Or.inr ⟨v, type, _, rfl, hkind, hinfo, helements.symm, helements, ?_⟩
          have hunit := ViewKind.unit_pos v.kind
          rcases Nat.eq_zero_or_pos v.length with hzero | hpos
          · cases data with
            | none => simp [Argument.window, hzero]
            | some start => simp [Argument.window, hzero]
          · have hbytes : 0 < v.byteLength := Nat.mul_pos hpos hunit
            have hle : v.length ≤ v.byteLength := Nat.le_mul_of_pos_right _ hunit
            rw [hstarts hbytes]
            simp only [Argument.window, ArrayBufferView.bytes, List.take_take, Nat.min_eq_left hle]
      | dataView =>
          exact Or.inl ⟨h.noTypedArray v hkind, by simp [Argument.elements, hkind]⟩
  | arrayBuffer bytes => exact Or.inl ⟨rfl, rfl⟩
  | string text => exact Or.inl ⟨rfl, rfl⟩
  | other => exact Or.inl ⟨rfl, rfl⟩

/-- The bytes of an argument that the binding gets to see. -/
def Argument.seen (arg : Argument) : Bytes := (arg.content.getD []).take arg.elements

theorem lookup_eq (arg : Argument) :
    ∃ data, ((typedArrayInfo napi arg).map fun info => (info.length, info.data)).getD (0, none) =
      (arg.elements, data) ∧ arg.window data arg.elements = arg.seen := by
  obtain ⟨hnone, hzero⟩ | ⟨v, type, info, rfl, -, hinfo, hlength, helements, hwindow⟩ :=
    typedArrayInfo_cases h arg
  · refine ⟨none, by rw [hnone, hzero]; rfl, ?_⟩
    rw [Argument.seen, hzero]
    cases arg <;> rfl
  · refine ⟨info.data, by rw [hinfo, ← hlength]; rfl, ?_⟩
    rw [← hlength, hwindow, Argument.seen, helements]
    rfl

end

/-! ### The comparison -/

theorem accumulate_eq_zero_iff {a b : Bytes} (h : a.length = b.length) :
    accumulate a b = 0 ↔ a = b := by
  have hfold : ∀ (a b : Bytes) (r : UInt8), a.length = b.length →
      ((a.zip b).foldl (fun result pair => result ||| (pair.1 ^^^ pair.2)) r = 0 ↔
        r = 0 ∧ a = b) := by
    intro a
    induction a with
    | nil =>
        intro b r hlength
        rw [List.eq_nil_of_length_eq_zero hlength.symm]
        simp
    | cons x a ih =>
        intro b r hlength
        cases b with
        | nil => cases hlength
        | cons y b =>
            rw [List.zip_cons_cons, List.foldl_cons, ih b _ (Nat.succ.inj hlength)]
            simp [and_assoc]
  simpa [accumulate] using hfold a b 0 h

theorem ArrayBufferView.bytes_length (v : ArrayBufferView) : v.bytes.length = v.byteLength := by
  have hfits := v.fits
  unfold ArrayBufferView.bytes ArrayBufferView.byteLength
  rw [List.length_take, List.length_drop]
  omega

theorem length_le_byteLength (v : ArrayBufferView) : v.length ≤ v.byteLength :=
  Nat.le_mul_of_pos_right _ (ViewKind.unit_pos v.kind)

theorem seen_length (arg : Argument) : arg.seen.length = arg.elements := by
  cases arg with
  | view v =>
      have hle := length_le_byteLength v
      cases hkind : v.kind with
      | typedArray type =>
          simp [Argument.seen, Argument.elements, Argument.content, hkind, v.bytes_length, hle]
      | dataView => simp [Argument.seen, Argument.elements, hkind]
  | arrayBuffer bytes => rfl
  | string text => rfl
  | other => rfl

/-- What `timingSafeEqual` does is decided by the element counts and the bytes they reach. -/
theorem timingSafeEqual_eq {napi : Napi} (h : napi.Documented) (a b : Argument) :
    timingSafeEqual napi [a, b] =
      if a.elements ≠ b.elements then
        .error ⟨.rangeError, some "ERR_CRYPTO_TIMING_SAFE_EQUAL_LENGTH",
          "Input buffers must have the same byte length"⟩
      else .ok (decide (a.seen = b.seen)) := by
  obtain ⟨dataA, hlookupA, hwindowA⟩ := lookup_eq h a
  obtain ⟨dataB, hlookupB, hwindowB⟩ := lookup_eq h b
  simp only [timingSafeEqual, hlookupA, hlookupB]
  by_cases hcount : a.elements = b.elements
  · have hlength : a.seen.length = b.seen.length := by rw [seen_length, seen_length, hcount]
    rw [hwindowA, hcount, hwindowB, if_neg (by simp), if_neg (by simp)]
    congr 1
    rw [Bool.eq_iff_iff, beq_iff_eq, decide_eq_true_iff]
    exact accumulate_eq_zero_iff hlength
  · rw [if_pos hcount, if_pos hcount]

/-- The comparison is one of byte contents: true for equal ones, an exception where the lengths
differ or something has no bytes. -/
def ComparesBytes (a b : Argument) (outcome : Except CryptoError Bool) : Prop :=
  match a.content, b.content with
  | some x, some y =>
      (outcome = .ok true ↔ x = y) ∧ (x.length ≠ y.length → ∃ e, outcome = .error e)
  | _, _ => ∃ e, outcome = .error e

/-- Element counts and the bytes they reach tell the arguments apart as their contents do. -/
def ElementsTell (a b : Argument) : Prop :=
  match a.content, b.content with
  | some x, some y =>
      (x = y → a.elements = b.elements) ∧
      (x ≠ y → a.elements ≠ b.elements ∨ (x.length = y.length ∧ a.seen ≠ b.seen))
  | _, _ => a.elements ≠ b.elements

theorem timingSafeEqual_comparesBytes_iff {napi : Napi} (h : napi.Documented) (a b : Argument) :
    ComparesBytes a b (timingSafeEqual napi [a, b]) ↔ ElementsTell a b := by
  rw [timingSafeEqual_eq h]
  by_cases hcount : a.elements = b.elements
  · have hseen : a.content = b.content → a.seen = b.seen := by
      intro hcontent
      rw [Argument.seen, Argument.seen, hcontent, hcount]
    rw [if_neg (not_not.mpr hcount)]
    unfold ComparesBytes ElementsTell
    cases ha : a.content with
    | none => simp [hcount]
    | some x =>
        cases hb : b.content with
        | none => simp [hcount]
        | some y =>
            rw [ha, hb, Option.some.injEq] at hseen
            simp only [Except.ok.injEq, decide_eq_true_eq, reduceCtorEq, exists_false, hcount,
              implies_true, ne_eq, not_true_eq_false, false_or, true_and]
            tauto
  · rw [if_pos hcount]
    unfold ComparesBytes ElementsTell
    cases ha : a.content with
    | none => simp [hcount]
    | some x =>
        cases hb : b.content with
        | none => simp [hcount]
        | some y => simp [hcount]

/-! ### What a digest is fed -/

/-- A typed array whose elements are bytes, or that has none. -/
def Argument.IsByteArray (arg : Argument) : Prop :=
  ∃ v type, arg = .view v ∧ v.kind = .typedArray type ∧ (v.kind.unit = 1 ∨ v.length = 0)

/-- The query gives a pointer. An engine may have none for an empty array. -/
def HasPointer (napi : Napi) (arg : Argument) : Prop :=
  ∃ info, typedArrayInfo napi arg = some info ∧ info.data ≠ none

theorem seen_prefix (arg : Argument) : arg.seen <+: arg.content.getD [] := List.take_prefix _ _

/-- All bytes are seen exactly of a byte array, among the arguments the query answers for. -/
theorem seen_eq_content_iff {napi : Napi} (h : napi.Documented) {arg : Argument}
    (hanswer : typedArrayInfo napi arg ≠ none) :
    arg.seen = arg.content.getD [] ↔ arg.IsByteArray := by
  obtain ⟨hnone, -⟩ | ⟨v, type, info, rfl, hkind, -, -, helements, -⟩ := typedArrayInfo_cases h arg
  · exact absurd hnone hanswer
  · have hlength : (Argument.view v).seen = v.bytes ↔ v.byteLength ≤ v.length := by
      rw [Argument.seen, helements, Argument.content, Option.getD_some, List.take_eq_self_iff,
        v.bytes_length]
    rw [Argument.content, Option.getD_some, hlength]
    have hle := length_le_byteLength v
    unfold ArrayBufferView.byteLength at hle ⊢
    constructor
    · intro hbytes
      refine ⟨v, type, rfl, hkind, ?_⟩
      rcases Nat.eq_zero_or_pos v.length with hzero | hpos
      · exact Or.inr hzero
      · exact Or.inl (Nat.eq_of_mul_eq_mul_left hpos (by omega))
    · rintro ⟨w, _, heq, -, hunit⟩
      cases heq
      rcases hunit with hone | hzero
      · rw [hone, Nat.mul_one]
      · rw [hzero, Nat.zero_mul]

section

variable {napi : Napi} (h : napi.Documented) (bufferFrom : JsString → ArrayBufferView)

include h

/-- One call feeds what is seen of its argument, or throws. -/
theorem update_ok_iff {native : HashContext} (hopen : native.finalized = false) {arg : Argument}
    (hcontent : arg.content ≠ none) {next : Digest} :
    update bufferFrom napi ⟨native, false⟩ arg = .ok next ↔
      HasPointer napi arg ∧ next = ⟨{ native with fed := native.fed ++ arg.seen }, false⟩ := by
  have hbuffer : toBuffer bufferFrom arg = arg := by
    cases arg with
    | string text => exact absurd rfl hcontent
    | _ => rfl
  unfold update hashUpdate HasPointer
  rw [hbuffer]
  obtain ⟨hnone, -⟩ | ⟨v, type, info, rfl, -, hinfo, hlength, helements, hwindow⟩ :=
    typedArrayInfo_cases h arg
  · simp [hopen, hnone, Except.map]
  · have hseen : (Argument.view v).window info.data info.length = (Argument.view v).seen := by
      rw [hwindow, Argument.seen, helements]
      rfl
    by_cases hdata : info.data = none
    · simp [hopen, hinfo, hdata, Except.map]
    · simp [hopen, hinfo, hdata, hseen, Except.map, eq_comm]

/-- A sequence of calls feeds what is seen of each argument, in order. -/
theorem updates_ok_iff {native : HashContext} (hopen : native.finalized = false)
    {args : List Argument} (hcontent : ∀ arg ∈ args, arg.content ≠ none) {next : Digest} :
    updates bufferFrom napi ⟨native, false⟩ args = .ok next ↔
      (∀ arg ∈ args, HasPointer napi arg) ∧
        next = ⟨{ native with fed := native.fed ++ args.flatMap Argument.seen }, false⟩ := by
  induction args generalizing native with
  | nil => simp [updates, eq_comm]
  | cons arg args ih =>
      have harg := hcontent arg List.mem_cons_self
      have hrest : ∀ data ∈ args, data.content ≠ none := fun data hdata =>
        hcontent data (List.mem_cons_of_mem _ hdata)
      rw [updates]
      cases hstep : update bufferFrom napi ⟨native, false⟩ arg with
      | error e =>
          have hpointer : ¬ HasPointer napi arg := fun hpointer => by
            have hok := (update_ok_iff h bufferFrom hopen harg).mpr ⟨hpointer, rfl⟩
            rw [hstep] at hok
            cases hok
          simp [hpointer]
      | ok mid =>
          obtain ⟨hpointer, rfl⟩ := (update_ok_iff h bufferFrom hopen harg).mp hstep
          have hfed : { native with fed := native.fed ++ arg.seen }.finalized = false := hopen
          simp only
          rw [ih hfed hrest]
          simp [hpointer]

end

/-- Parts that make up the same whole as what they are parts of are all whole. -/
theorem flatMap_prefix_eq_iff {α : Type} {f g : α → Bytes} (hfront : ∀ a, f a <+: g a)
    (xs : List α) : xs.flatMap f = xs.flatMap g ↔ ∀ a ∈ xs, f a = g a := by
  have hle : ∀ ys : List α, (ys.flatMap f).length ≤ (ys.flatMap g).length := by
    intro ys
    induction ys with
    | nil => simp
    | cons y ys ih =>
        have hy := (hfront y).length_le
        simp only [List.flatMap_cons, List.length_append]
        omega
  induction xs with
  | nil => simp
  | cons x xs ih =>
      rw [List.flatMap_cons, List.flatMap_cons, List.forall_mem_cons]
      constructor
      · intro heq
        have hx := (hfront x).length_le
        have hxs := hle xs
        have hlength := congrArg List.length heq
        rw [List.length_append, List.length_append] at hlength
        have hparts := List.append_inj heq (by omega)
        exact ⟨hparts.1, ih.mp hparts.2⟩
      · rintro ⟨hx, hxs⟩
        rw [hx, ih.mpr hxs]

theorem createHmac_iff {napi : Napi} (h : napi.Documented)
    (bufferFrom : JsString → ArrayBufferView) {name bytes : Bytes} {algo : Algorithm}
    (hname : parseAlgorithm (name.take 31) = some algo) {key : Argument}
    (hkey : key.content = some bytes) :
    createHmac bufferFrom napi name key = .ok ⟨⟨algo, some bytes, [], false⟩, false⟩ ↔
      key.IsByteArray := by
  have hbuffer : toBuffer bufferFrom key = key := by
    cases key with
    | string text => cases hkey
    | _ => rfl
  unfold createHmac hmacInit
  rw [hbuffer, hname]
  obtain ⟨hnone, -⟩ | ⟨v, type, info, rfl, hkind, hinfo, hlength, helements, hwindow⟩ :=
    typedArrayInfo_cases h key
  · have hno : ¬ key.IsByteArray := by
      rintro ⟨v, type, rfl, hkind, -⟩
      obtain ⟨data, -, hinfo⟩ := h.typedArray v type hkind
      rw [typedArrayInfo, hinfo] at hnone
      cases hnone
    simp [hnone, hno, Except.map]
  · have hseen : (Argument.view v).window info.data info.length = (Argument.view v).seen := by
      rw [hwindow, Argument.seen, helements]
      rfl
    rw [← seen_eq_content_iff h (by rw [hinfo]; simp), hkey]
    simp [hinfo, hseen, Except.map]

/-- **The bytes a digest and a comparison see.** The element counts must tell two arguments of
`timingSafeEqual` apart as their bytes do, and everything a digest is given must be an array of
bytes. -/
theorem crypto_bytes_iff {napi : Napi} (h : napi.Documented)
    (bufferFrom : JsString → ArrayBufferView) :
    (∀ a b, ComparesBytes a b (timingSafeEqual napi [a, b]) ↔ ElementsTell a b) ∧
    (∀ (algo : Algorithm) (key : Option Bytes) (args : List Argument),
      (∀ arg ∈ args, arg.content ≠ none) →
      (updates bufferFrom napi ⟨⟨algo, key, [], false⟩, false⟩ args =
          .ok ⟨⟨algo, key, args.flatMap fun arg => arg.content.getD [], false⟩, false⟩ ↔
        ∀ arg ∈ args, arg.IsByteArray ∧ HasPointer napi arg)) ∧
    (∀ (name bytes : Bytes) (algo : Algorithm) (key : Argument),
      parseAlgorithm (name.take 31) = some algo → key.content = some bytes →
      (createHmac bufferFrom napi name key = .ok ⟨⟨algo, some bytes, [], false⟩, false⟩ ↔
        key.IsByteArray)) := by
  refine ⟨timingSafeEqual_comparesBytes_iff h, ?_, fun name bytes algo key hname hkey =>
    createHmac_iff h bufferFrom hname hkey⟩
  intro algo key args hcontent
  rw [updates_ok_iff h bufferFrom rfl hcontent, forall₂_and, and_comm]
  simp only [List.nil_append, Digest.mk.injEq, HashContext.mk.injEq, true_and, and_true]
  rw [eq_comm, flatMap_prefix_eq_iff seen_prefix]
  refine and_congr_left fun hpointer => forall₂_congr fun arg harg => ?_
  obtain ⟨info, hinfo, -⟩ := hpointer arg harg
  exact seen_eq_content_iff h (by rw [hinfo]; simp)

theorem byteArray_isByteArray : (Argument.view byteArray).IsByteArray :=
  ⟨byteArray, .uint8, rfl, rfl, Or.inl rfl⟩

theorem byteArray_digested :
    ComparesBytes (.view byteArray) (.view byteArray)
      (timingSafeEqual plainNapi [.view byteArray, .view byteArray]) ∧
    updates (fun _ => byteArray) plainNapi ⟨⟨.sha1, none, [], false⟩, false⟩ [.view byteArray] =
      .ok ⟨⟨.sha1, none, [3, 4, 5, 6], false⟩, false⟩ ∧
    createHmac (fun _ => byteArray) plainNapi (ascii "sha1") (.view byteArray) =
      .ok ⟨⟨.sha1, some [3, 4, 5, 6], [], false⟩, false⟩ := by
  obtain ⟨hequal, hupdates, hkey⟩ := crypto_bytes_iff plainNapi_documented fun _ => byteArray
  refine ⟨(hequal _ _).mpr ⟨fun _ => rfl, fun hne => absurd rfl hne⟩, ?_, ?_⟩
  · exact (hupdates .sha1 none [.view byteArray] (by simp [Argument.content])).mpr
      (by simpa using ⟨byteArray_isByteArray, _, rfl, by simp⟩)
  · exact (hkey (ascii "sha1") [3, 4, 5, 6] .sha1 (.view byteArray) (by decide) rfl).mpr
      byteArray_isByteArray

/-- A DataView of one byte. -/
def oneByteView (b : UInt8) : ArrayBufferView where
  buffer := [b]
  kind := .dataView
  byteOffset := 0
  length := 1
  aligned := rfl
  fits := Nat.le_refl 1

/-- Two DataViews of different bytes compare equal. -/
theorem timingSafeEqual_dataView :
    ¬ ∀ (napi : Napi), napi.Documented → ∀ a b, ComparesBytes a b (timingSafeEqual napi [a, b]) := by
  intro h
  have hcompares := h plainNapi plainNapi_documented (.view (oneByteView 1)) (.view (oneByteView 2))
  have hequal : timingSafeEqual plainNapi [.view (oneByteView 1), .view (oneByteView 2)] =
      .ok true := by decide
  have hbytes : (oneByteView 1).bytes = (oneByteView 2).bytes := hcompares.1.mp hequal
  revert hbytes
  decide

end HermesNode.Bindings
