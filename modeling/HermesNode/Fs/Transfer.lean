/-
Module: HermesNode.Fs.Transfer
Purpose: What the read and write calls of the `fs` binding hand to libuv. Each of them computes the
  same range of bytes on its own, from a typed array query, an offset checked elsewhere or a string.
  Beside them stands what the arguments mean. The two agree exactly where every view is a typed array
  whose elements are bytes, but for a last one that is cut short, where an offset fits an `int32_t`
  and where the UTF-8 of a string is a prefix of its bytes; the two variants of a call agree exactly
  where libuv is given a buffer at all.
Trusted boundary: human-reviewed spec (transcribed from `lib/bindings/node_file.cpp`,
  `libjs-node/internal/fs/utils.js` and `uv_fs_read` and `uv_fs_write` of libuv; the typed array query
  of Node-API is a parameter, allocation succeeds)
Main exports: View, Range, moves_iff
-/
import HermesNode.Bindings.ByteExtents
import HermesNode.Fs.Encodings
import HermesNode.Lib.Gather

namespace HermesNode.Fs

open Bindings (TypedArrayType ViewKind)
open Streams (utf8Bytes)

/-! ### Views -/

/-- The bytes at the addresses of the process. -/
abbrev Memory := Int → UInt8

/-- The addresses of `length` bytes. -/
def run (start : Int) : Nat → List Int
  | 0 => []
  | length + 1 => start :: run (start + 1) length

/-- A view of some ArrayBuffer; its length is in elements for a typed array. -/
structure View where
  kind : ViewKind
  byteOffset : Nat
  length : Nat
deriving Repr, DecidableEq

def View.byteLength (v : View) : Nat := v.length * v.kind.unit

def View.isTypedArray (v : View) : Bool :=
  match v.kind with
  | .typedArray _ => true
  | .dataView => false

/-- The bytes of a view whose buffer is at an address. -/
def View.addresses (v : View) (buffer : Int) : List Int :=
  run (buffer + (v.byteOffset : Int)) v.byteLength

/-- The locals `length` and `data` of a typed array query. -/
structure Queried where
  length : Nat
  data : Int
deriving Repr, DecidableEq

/-- `napi_get_typedarray_info` of a view whose buffer is at an address. There is no value where it does
not return `napi_ok`. -/
abbrev GetTypedarrayInfo := View → Int → Option Queried

/-- The query reports elements and fails on a DataView. An empty view may have no data. -/
structure GetTypedarrayInfo.Documented (info : GetTypedarrayInfo) : Prop where
  typedArray : ∀ v buffer, v.isTypedArray = true → ∃ data,
    (0 < v.byteLength → data = buffer + (v.byteOffset : Int)) ∧ info v buffer = some ⟨v.length, data⟩
  dataView : ∀ v buffer, v.isTypedArray = false → info v buffer = none

/-! ### Ranges of a view -/

/-- The part of a view that a read or a write is about, as it passed the checks. -/
structure Range (v : View) where
  offset : Nat
  length : Nat
  inside : offset + length ≤ v.byteLength
  int32 : length < 2 ^ 31

/-! ### Calls -/

/-- `(1 << 29) - 24`, the longest string. -/
def kStringMaxLength : Nat := 2 ^ 29 - 24

/-- A string the engine can hold. -/
structure Text where
  units : JsString
  short : units.length ≤ kStringMaxLength

/-- A position argument. `napi_get_value_int64` fails on a BigInt. -/
inductive Position where
  | null
  | number (n : Int)
  | bigint (n : Int)
deriving Repr, DecidableEq

/-- `getInt64(env, val, -1)`. -/
def Position.toInt64 : Position → Int
  | .number n => n
  | .null | .bigint _ => -1

/-- A call of the binding; `ctx` tells whether a context object is passed for errors. -/
inductive Call where
  | read (fd : Int) (view : View) (range : Range view) (position : Position)
  | writeBuffer (fd : Int) (view : View) (range : Range view) (position : Position) (ctx : Bool)
  | writeString (fd : Int) (text : Text) (position : Position) (encoding : Option String)
      (ctx : Bool)
  | readBuffers (fd : Int) (views : List View) (position : Position)
  | writeBuffers (fd : Int) (views : List View) (position : Position) (ctx : Bool)

/-! ### What is handed to libuv -/

/-- The bottom 32 bits as an `int32_t`. -/
def toInt32 (n : Int) : Int := (n + 2 ^ 31) % 2 ^ 32 - 2 ^ 31

structure UvBuf where
  base : Int
  len : Nat
deriving Repr, DecidableEq

/-- `uv_buf_init` behind `static_cast<unsigned int>`. -/
def uvBufInit (base : Int) (len : Int) : UvBuf := ⟨base, (len % 2 ^ 32).toNat⟩

def UvBuf.addresses (b : UvBuf) : List Int := run b.base b.len

inductive Direction where
  | read
  | write
deriving Repr, DecidableEq

/-- The arguments of `uv_fs_read` or `uv_fs_write`. -/
structure UvCall where
  direction : Direction
  fd : Int
  bufs : List UvBuf
  position : Int

def UvCall.extent (c : UvCall) : List Int := c.bufs.flatMap UvBuf.addresses

inductive Variant where
  | sync
  | async
deriving Repr, DecidableEq

/-- Where things are: the buffer of each view, and the bytes of a `std::string` (`str`, or
`wrap->writeData`); and what the locals of each query hold when it stores nothing. -/
structure Surroundings where
  buffer : Nat → Int
  storage : Variant → Int
  held : Nat → Queried

instance : Inhabited Surroundings := ⟨⟨fun _ => 0, fun _ => 0, fun _ => ⟨0, 0⟩⟩⟩

/-- The surroundings of the views behind the first. -/
def Surroundings.tail (s : Surroundings) : Surroundings :=
  { s with buffer := fun i => s.buffer (i + 1), held := fun i => s.held (i + 1) }

/-- The locals behind the query of the first view. -/
def query (info : GetTypedarrayInfo) (s : Surroundings) (v : View) : Queried :=
  (info v (s.buffer 0)).getD (s.held 0)

/-- `bufData + offset` and `length` of `fsRead` and `fsWriteBuffer`. -/
def rangeBuf (info : GetTypedarrayInfo) (s : Surroundings) (v : View) (r : Range v) : UvBuf :=
  uvBufInit ((query info s v).data + toInt32 r.offset) (toInt32 r.length)

/-- The loop of `fsReadBuffers` and `fsWriteBuffers`. -/
def viewBufs (info : GetTypedarrayInfo) : Surroundings → List View → List UvBuf
  | _, [] => []
  | s, v :: views =>
      uvBufInit (query info s v).data (query info s v).length :: viewBufs info s.tail views

/-- The memory libuv finds, and its arguments. The encoding of a string is not read. -/
def Call.prepare (info : GetTypedarrayInfo) (s : Surroundings) (variant : Variant) (memory : Memory) :
    Call → Memory × UvCall
  | .read fd v r position => (memory, ⟨.read, fd, [rangeBuf info s v r], position.toInt64⟩)
  | .writeBuffer fd v r position _ =>
      (memory, ⟨.write, fd, [rangeBuf info s v r], position.toInt64⟩)
  | .writeString fd text position _ _ =>
      let bytes := utf8Bytes text.units
      (scatter memory (run (s.storage variant) bytes.length) bytes,
        ⟨.write, fd, [uvBufInit (s.storage variant) bytes.length], position.toInt64⟩)
  | .readBuffers fd views position => (memory, ⟨.read, fd, viewBufs info s views, position.toInt64⟩)
  | .writeBuffers fd views position _ =>
      (memory, ⟨.write, fd, viewBufs info s views, position.toInt64⟩)

/-! ### libuv -/

/-- What the system call answers: the most bytes it moves, or an error. -/
inductive Answer where
  | moved (most : Nat)
  | error (errno : Int) (negative : errno < 0)

/-- What reading a file from a position on would give. -/
abbrev Files := Int → Int → Bytes

structure Effect where
  /-- `req->result`. -/
  result : Int
  memory : Memory
  /-- The bytes read from the file, or written to it. -/
  moved : Bytes

def UvCall.work (c : UvCall) (memory : Memory) (files : Files) : Answer → Effect
  | .error errno _ => ⟨errno, memory, []⟩
  | .moved most =>
      match c.direction with
      | .read =>
          let bytes := (files c.fd c.position).take (min most c.extent.length)
          ⟨bytes.length, scatter memory c.extent bytes, bytes⟩
      | .write =>
          let bytes := gather memory (c.extent.take most)
          ⟨bytes.length, memory, bytes⟩

def UV_EINVAL : Int := -22

/-- Without a callback: the work is done, and its result returned as an `int`. -/
def UvCall.now (c : UvCall) (memory : Memory) (files : Files) (answer : Answer) : Effect :=
  if c.bufs = [] then ⟨UV_EINVAL, memory, []⟩
  else
    let effect := c.work memory files answer
    { effect with result := toInt32 effect.result }

/-- With a callback: what starting returns. -/
def UvCall.start (c : UvCall) : Int := if c.bufs = [] then UV_EINVAL else 0

/-! ### How a call ends -/

/-- A number for JavaScript, or an error. -/
abbrev Report := Except Int Int

inductive SyncEnd where
  | returned (n : Int)
  | threw (errno : Int)
  /-- `setCtxError`, and 0 is returned. -/
  | told (errno : Int)
deriving Repr, DecidableEq

def syncEnd (ctx : Bool) (result : Int) : SyncEnd :=
  if result < 0 ∧ ctx = true then .told result
  else if result < 0 then .threw result
  else .returned result

/-- The caller in `fs.js` throws what the context object was told. -/
def SyncEnd.report : SyncEnd → Report
  | .returned n => .ok n
  | .threw errno | .told errno => .error errno

/-- `fsAfterAsync` of a request with an integer result. -/
def fsAfterAsync (req_result : Int) : Report :=
  let result := toInt32 req_result
  if result < 0 then .error result else .ok result

structure Outcome where
  /-- There is none where the callback is never called. -/
  report : Option Report
  memory : Memory
  moved : Bytes

def Call.ctx : Call → Bool
  | .read .. | .readBuffers .. => false
  | .writeBuffer _ _ _ _ ctx | .writeString _ _ _ _ ctx | .writeBuffers _ _ _ ctx => ctx

/-- What the views' memory is after libuv has seen some memory: a write leaves it as it was. -/
def UvCall.leaves (c : UvCall) (memory : Memory) (effect : Effect) : Memory :=
  match c.direction with
  | .read => effect.memory
  | .write => memory

section

variable (info : GetTypedarrayInfo) (s : Surroundings) (memory : Memory) (files : Files)
  (answer : Answer) (call : Call)

def Call.sync : Outcome :=
  let (seen, c) := call.prepare info s .sync memory
  let effect := c.now seen files answer
  ⟨some (syncEnd call.ctx effect.result).report, c.leaves memory effect, effect.moved⟩

/-- The result of starting the request is not looked at. -/
def Call.async : Outcome :=
  let (seen, c) := call.prepare info s .async memory
  if c.start = 0 then
    let effect := c.work seen files answer
    ⟨some (fsAfterAsync effect.result), c.leaves memory effect, effect.moved⟩
  else ⟨none, memory, []⟩

end

/-! ### What the arguments mean -/

/-- The bytes from `offset` to `offset + length` of a view. -/
def Range.addresses {v : View} (r : Range v) (buffer : Int) : List Int :=
  ((v.addresses buffer).drop r.offset).take r.length

/-- The bytes of the views, in order. -/
def viewAddresses : Surroundings → List View → List Int
  | _, [] => []
  | s, v :: views => v.addresses (s.buffer 0) ++ viewAddresses s.tail views

/-- What was read went to these addresses, in order, and nothing else was changed. -/
def Outcome.FillsIn (o : Outcome) (memory : Memory) (addresses : List Int) : Prop :=
  o.moved.length ≤ addresses.length ∧ o.memory = scatter memory addresses o.moved

/-- The call has moved a prefix of the bytes it is about. Nothing is asked for an encoding that
`Buffer.from` does not know. -/
def Call.Moves (simdutf : Base64ToBinary) (maxLength : Nat) (s : Surroundings) (memory : Memory)
    (o : Outcome) : Call → Prop
  | .read _ _ r _ => o.FillsIn memory (r.addresses (s.buffer 0))
  | .readBuffers _ views _ => o.FillsIn memory (viewAddresses s views)
  | .writeBuffer _ _ r _ _ => o.moved <+: gather memory (r.addresses (s.buffer 0))
  | .writeBuffers _ views _ _ => o.moved <+: gather memory (viewAddresses s views)
  | .writeString _ text _ encoding _ =>
      ∀ bytes, fromString simdutf maxLength text.units encoding = some bytes → o.moved <+: bytes

/-- Wherever things are, whatever the files hold and whatever libuv answers, the call moves the bytes
it is about and its two variants agree. -/
def Call.Meets (info : GetTypedarrayInfo) (simdutf : Base64ToBinary) (maxLength : Nat) (call : Call) :
    Prop :=
  ∀ s memory files answer,
    call.Moves simdutf maxLength s memory (call.sync info s memory files answer) ∧
      call.async info s memory files answer = call.sync info s memory files answer

/-! ### When it does -/

/-- The bytes of a view that the vector calls take: one for each element. -/
def View.taken (v : View) : Nat := v.length % 2 ^ 32

/-- Every view is a typed array, and nothing is taken behind one that is not taken whole. -/
def WholeButLast : List View → Prop
  | [] => True
  | v :: views => v.isTypedArray = true ∧
      ((v.taken = v.byteLength ∧ WholeButLast views) ∨
        ∀ u ∈ views, u.isTypedArray = true ∧ u.taken = 0)

def Call.Fits : Call → Prop
  | .read _ v r _ | .writeBuffer _ v r _ _ =>
      r.length = 0 ∨ (v.isTypedArray = true ∧ r.offset < 2 ^ 31)
  | .readBuffers _ views _ | .writeBuffers _ views _ _ => views ≠ [] ∧ WholeButLast views
  | .writeString _ text _ encoding _ => ∀ ops, opsOf encoding = some ops → Utf8Fits ops text.units

/-! ### Runs of addresses -/

@[simp] theorem run_length (start : Int) (n : Nat) : (run start n).length = n := by
  induction n generalizing start with
  | zero => rfl
  | succ n ih => rw [run, List.length_cons, ih]

theorem run_add (start : Int) (m n : Nat) :
    run start (m + n) = run start m ++ run (start + (m : Int)) n := by
  induction m generalizing start with
  | zero => simp [run]
  | succ m ih =>
      have hstart : start + 1 + (m : Int) = start + ((m + 1 : Nat) : Int) := by omega
      rw [Nat.add_right_comm, run, run, ih, hstart]
      rfl

theorem mem_run {start i : Int} {n : Nat} (h : i ∈ run start n) :
    start ≤ i ∧ i < start + (n : Int) := by
  induction n generalizing start with
  | zero => cases h
  | succ n ih =>
      rcases List.mem_cons.mp h with rfl | h
      · omega
      · have hrest := ih h
        omega

theorem run_nodup (start : Int) (n : Nat) : (run start n).Nodup := by
  induction n generalizing start with
  | zero => exact List.nodup_nil
  | succ n ih =>
      apply List.nodup_cons.mpr
      refine ⟨?_, ih _⟩
      intro h
      have hstart := (mem_run h).1
      omega

theorem run_part (start : Int) {n offset length : Nat} (h : offset + length ≤ n) :
    ((run start n).drop offset).take length = run (start + (offset : Int)) length := by
  obtain ⟨more, rfl⟩ := Nat.exists_eq_add_of_le h
  rw [Nat.add_assoc, run_add, run_add _ length more,
    List.drop_left' (run_length start offset), List.take_left' (run_length _ length)]

theorem run_prefix_iff {start start' : Int} {n : Nat} :
    run start n <+: run start' n ↔ n = 0 ∨ start = start' := by
  constructor
  · intro h
    cases n with
    | zero => exact Or.inl rfl
    | succ n =>
        rw [run, run] at h
        exact Or.inr (List.cons_prefix_cons.mp h).1
  · rintro (rfl | rfl)
    · exact List.prefix_refl _
    · exact List.prefix_refl _

/-! ### Moving -/

instance nontrivial_byte : Nontrivial UInt8 := ⟨⟨0, 1, by decide⟩⟩

theorem toInt32_of_lt {n : Nat} (h : n < 2 ^ 31) : toInt32 n = n := by
  unfold toInt32
  omega

theorem syncEnd_report (ctx : Bool) (result : Int) :
    (syncEnd ctx (toInt32 result)).report = fsAfterAsync result := by
  unfold syncEnd fsAfterAsync
  by_cases hnegative : toInt32 result < 0
  · cases ctx <;> simp [hnegative, SyncEnd.report]
  · simp [hnegative, SyncEnd.report]

theorem now_moved {c : UvCall} (hbufs : c.bufs ≠ []) (memory : Memory) (files : Files)
    (answer : Answer) : (c.now memory files answer).moved = (c.work memory files answer).moved ∧
      (c.now memory files answer).memory = (c.work memory files answer).memory ∧
      (c.now memory files answer).result = toInt32 (c.work memory files answer).result := by
  unfold UvCall.now
  rw [if_neg hbufs]
  exact ⟨rfl, rfl, rfl⟩

/-- A read fills in addresses, whatever it finds, exactly when its extent is a prefix of them. -/
theorem reads_iff {c : UvCall} (hread : c.direction = .read) {addresses : List Int} :
    (∀ memory files answer, (c.work memory files answer).moved.length ≤ addresses.length ∧
      (c.work memory files answer).memory =
        scatter memory addresses (c.work memory files answer).moved) ↔
      c.extent <+: addresses := by
  rw [← @scatter_prefix_iff Int UInt8]
  constructor
  · intro h memory values hvalues
    have hmoves := h memory (fun _ _ => values) (.moved values.length)
    simp only [UvCall.work, hread] at hmoves
    rw [Nat.min_eq_left hvalues, List.take_length] at hmoves
    exact hmoves
  · intro h memory files answer
    cases answer with
    | error errno negative => exact ⟨Nat.zero_le _, (scatter_nil _ _).symm⟩
    | moved most =>
        simp only [UvCall.work, hread]
        apply h
        rw [List.length_take]
        omega

/-- A write moves a prefix of what addresses hold, whatever that is, exactly when its extent is a
prefix of them. -/
theorem writes_iff {c : UvCall} (hwrite : c.direction = .write) {addresses : List Int} :
    (∀ memory files answer, (c.work memory files answer).moved <+: gather memory addresses) ↔
      c.extent <+: addresses := by
  rw [← @gather_prefix_iff Int UInt8]
  constructor
  · intro h memory
    have hmoves := h memory (fun _ _ => []) (.moved c.extent.length)
    simp only [UvCall.work, hwrite, List.take_length] at hmoves
    exact hmoves
  · intro h memory files answer
    cases answer with
    | error errno negative => exact List.nil_prefix
    | moved most =>
        simp only [UvCall.work, hwrite]
        rw [gather_take]
        exact (List.take_prefix _ _).trans (h memory)

/-! ### Extents -/

theorem uvBufInit_addresses (base : Int) (n : Nat) :
    (uvBufInit base n).addresses = run base (n % 2 ^ 32) := by
  have hlen : ((n : Int) % 2 ^ 32).toNat = n % 2 ^ 32 := by omega
  unfold uvBufInit UvBuf.addresses
  rw [hlen]

theorem View.taken_le (v : View) : v.taken ≤ v.byteLength := by
  have hunit := Bindings.ViewKind.unit_pos v.kind
  have hmul := Nat.le_mul_of_pos_right v.length hunit
  have hmod := Nat.mod_le v.length (2 ^ 32)
  unfold View.taken View.byteLength
  omega

section

variable {info : GetTypedarrayInfo} (hinfo : info.Documented)

/-- The addresses that the loop takes. -/
def viewExtent (info : GetTypedarrayInfo) (s : Surroundings) (views : List View) : List Int :=
  (viewBufs info s views).flatMap UvBuf.addresses

theorem viewExtent_cons (s : Surroundings) (v : View) (views : List View) :
    viewExtent info s (v :: views) =
      (uvBufInit (query info s v).data (query info s v).length).addresses ++
        viewExtent info s.tail views := rfl

include hinfo

theorem query_dataView (s : Surroundings) {v : View} (hv : v.isTypedArray = false) :
    query info s v = s.held 0 := by
  rw [query, hinfo.dataView v _ hv, Option.getD_none]

theorem query_typedArray (s : Surroundings) {v : View} (hv : v.isTypedArray = true) :
    (query info s v).length = v.length ∧
      (0 < v.byteLength → (query info s v).data = s.buffer 0 + (v.byteOffset : Int)) := by
  obtain ⟨data, hdata, hanswer⟩ := hinfo.typedArray v (s.buffer 0) hv
  rw [query, hanswer, Option.getD_some]
  exact ⟨rfl, hdata⟩

/-- Of a typed array the loop takes as many bytes as there are elements. -/
theorem viewBuf_typedArray (s : Surroundings) {v : View} (hv : v.isTypedArray = true) :
    (uvBufInit (query info s v).data (query info s v).length).addresses =
      run (s.buffer 0 + (v.byteOffset : Int)) v.taken := by
  obtain ⟨hlength, hdata⟩ := query_typedArray hinfo s hv
  rw [uvBufInit_addresses, hlength]
  change run _ v.taken = _
  rcases Nat.eq_zero_or_pos v.taken with hzero | hpos
  · rw [hzero]
    rfl
  · have htaken := v.taken_le
    rw [hdata (by omega)]

theorem viewExtent_nil (s : Surroundings) {views : List View}
    (h : ∀ u ∈ views, u.isTypedArray = true ∧ u.taken = 0) : viewExtent info s views = [] := by
  induction views generalizing s with
  | nil => rfl
  | cons v views ih =>
      obtain ⟨hv, hzero⟩ := h v List.mem_cons_self
      rw [viewExtent_cons, viewBuf_typedArray hinfo s hv, hzero,
        ih s.tail fun u hu => h u (List.mem_cons_of_mem _ hu)]
      rfl

variable {s : Surroundings}

/-- Where every query that fails leaves some length behind, only empty typed arrays take nothing. -/
theorem of_viewExtent_nil {views : List View} (hheld : ∀ k, (s.held k).length = 1)
    (h : viewExtent info s views = []) :
    ∀ u ∈ views, u.isTypedArray = true ∧ u.taken = 0 := by
  induction views generalizing s with
  | nil => exact fun u hu => (List.not_mem_nil hu).elim
  | cons v views ih =>
      rw [viewExtent_cons] at h
      obtain ⟨hfirst, hrest⟩ := List.append_eq_nil_iff.mp h
      have hv : v.isTypedArray = true := by
        cases hkind : v.isTypedArray with
        | true => rfl
        | false =>
            rw [query_dataView hinfo s hkind, hheld 0] at hfirst
            cases hfirst
      rw [viewBuf_typedArray hinfo s hv] at hfirst
      have hzero := congrArg List.length hfirst
      rw [run_length] at hzero
      intro u hu
      rcases List.mem_cons.mp hu with rfl | hu
      · exact ⟨hv, hzero⟩
      · exact ih (fun k => hheld (k + 1)) hrest u hu

theorem viewExtent_ge {low : Int} (hlow : ∀ k, low ≤ s.buffer k ∧ low ≤ (s.held k).data)
    (views : List View) :
    ∀ a ∈ viewExtent info s views, low ≤ a := by
  induction views generalizing s with
  | nil => exact fun a ha => (List.not_mem_nil ha).elim
  | cons v views ih =>
      intro a ha
      have hbase := hlow 0
      rw [viewExtent_cons] at ha
      rcases List.mem_append.mp ha with ha | ha
      · cases hv : v.isTypedArray with
        | true =>
            rw [viewBuf_typedArray hinfo s hv] at ha
            have hstart := (mem_run ha).1
            omega
        | false =>
            rw [query_dataView hinfo s hv] at ha
            have hstart := (mem_run ha).1
            change (s.held 0).data ≤ a at hstart
            omega
      · exact ih (fun k => hlow (k + 1)) a ha

omit hinfo in
theorem viewAddresses_ge {low : Int} (hlow : ∀ k, low ≤ s.buffer k)
    (views : List View) : ∀ a ∈ viewAddresses s views, low ≤ a:= by
  induction views generalizing s with
  | nil => exact fun a ha => (List.not_mem_nil ha).elim
  | cons v views ih =>
      intro a ha
      have hbase := hlow 0
      rcases List.mem_append.mp ha with ha | ha
      · have hstart := (mem_run ha).1
        omega
      · exact ih (fun k => hlow (k + 1)) a ha

/-- Wherever the buffers are, the loop takes a prefix of the views' bytes: where all but a last view
are taken whole. -/
theorem viewExtent_prefix {views : List View} (h : WholeButLast views) (s : Surroundings) :
    viewExtent info s views <+: viewAddresses s views := by
  induction views generalizing s with
  | nil => exact List.prefix_refl _
  | cons v views ih =>
      obtain ⟨hv, hrest⟩ := h
      rw [viewExtent_cons, viewBuf_typedArray hinfo s hv, viewAddresses]
      rcases hrest with ⟨hwhole, hrest⟩ | hempty
      · rw [hwhole]
        exact (List.prefix_append_right_inj _).mpr (ih hrest s.tail)
      · obtain ⟨more, hmore⟩ := Nat.exists_eq_add_of_le v.taken_le
        rw [viewExtent_nil hinfo s.tail hempty, List.append_nil, View.addresses, hmore, run_add,
          List.append_assoc]
        exact List.prefix_append _ _

/-- A first view that is a DataView is taken from wherever the locals point. -/
theorem isTypedArray_of_prefix {v : View} {views : List View}
    (h : ∀ s, viewExtent info s (v :: views) <+: viewAddresses s (v :: views)) :
    v.isTypedArray = true := by
  cases hv : v.isTypedArray with
  | true => rfl
  | false =>
      have hprefix := h ⟨fun _ => 0, fun _ => 0, fun _ => ⟨1, -1⟩⟩
      rw [viewExtent_cons, query_dataView hinfo _ hv] at hprefix
      have hmem := hprefix.subset (List.mem_append_left _ (List.mem_singleton_self (-1)))
      have hge := @viewAddresses_ge ⟨fun _ => 0, fun _ => 0, fun _ => ⟨1, -1⟩⟩ 0
        (fun _ => Int.le_refl 0) _ _ hmem
      omega

/-- Behind a view that is cut short nothing may be taken: the next buffer may be anywhere. -/
theorem prefix_then_empty {v : View} {views : List View} (hv : v.isTypedArray = true)
    (hcut : v.taken < v.byteLength)
    (h : ∀ s, viewExtent info s (v :: views) <+: viewAddresses s (v :: views)) :
    ∀ u ∈ views, u.isTypedArray = true ∧ u.taken = 0 := by
  obtain ⟨more, hmore⟩ := Nat.exists_eq_add_of_lt hcut
  let stop : Int := (v.byteOffset : Int) + (v.taken : Int)
  let s : Surroundings :=
    { buffer := fun k => if k = 0 then 0 else stop + 1
      storage := fun _ => 0
      held := fun _ => ⟨1, stop + 1⟩ }
  have hprefix := h s
  rw [viewExtent_cons, viewBuf_typedArray hinfo s hv, viewAddresses, View.addresses, hmore,
    Nat.add_assoc, run_add, List.append_assoc, List.prefix_append_right_inj] at hprefix
  have hbeyond := @viewExtent_ge info hinfo s.tail (stop + 1)
    (fun k => ⟨Int.le_refl _, Int.le_refl _⟩) views
  apply of_viewExtent_nil hinfo (s := s.tail) fun k => rfl
  cases htaken : viewExtent info s.tail views with
  | nil => rfl
  | cons a as =>
      rw [htaken] at hprefix hbeyond
      have hhead := (List.cons_prefix_cons.mp hprefix).1
      have hge := hbeyond a List.mem_cons_self
      have hzero : s.buffer 0 = 0 := rfl
      rw [hzero] at hhead
      omega

theorem wholeButLast_iff (views : List View) :
    (∀ s, viewExtent info s views <+: viewAddresses s views) ↔ WholeButLast views := by
  constructor
  · intro h
    induction views with
    | nil => trivial
    | cons v views ih =>
        have hv := isTypedArray_of_prefix hinfo h
        refine ⟨hv, ?_⟩
        by_cases hwhole : v.taken = v.byteLength
        · refine Or.inl ⟨hwhole, ih ?_⟩
          intro s
          have hprefix := h
            { s with
              buffer := fun k => Nat.casesOn k 0 s.buffer
              held := fun k => Nat.casesOn k ⟨0, 0⟩ s.held }
          rw [viewExtent_cons, viewBuf_typedArray hinfo _ hv, viewAddresses, View.addresses,
            hwhole] at hprefix
          exact (List.prefix_append_right_inj _).mp hprefix
        · have htaken := v.taken_le
          exact Or.inr (prefix_then_empty hinfo hv (by omega) h)
  · exact fun h s => viewExtent_prefix hinfo h s

end

/-! ### Ranges -/

theorem Range.addresses_eq {v : View} (r : Range v) (buffer : Int) :
    r.addresses buffer = run (buffer + (v.byteOffset : Int) + (r.offset : Int)) r.length :=
  run_part _ r.inside

theorem rangeBuf_addresses (info : GetTypedarrayInfo) (s : Surroundings) (v : View) (r : Range v) :
    (rangeBuf info s v r).addresses =
      run ((query info s v).data + toInt32 r.offset) r.length := by
  have hint32 := r.int32
  unfold rangeBuf
  rw [toInt32_of_lt hint32, uvBufInit_addresses, Nat.mod_eq_of_lt (by omega)]

/-- A range is taken from its view where the view is a typed array and the offset an `int32_t`. -/
theorem range_iff {info : GetTypedarrayInfo} (hinfo : info.Documented) {v : View} (r : Range v) :
    (∀ s, (rangeBuf info s v r).addresses <+: r.addresses (s.buffer 0)) ↔
      r.length = 0 ∨ (v.isTypedArray = true ∧ r.offset < 2 ^ 31) := by
  have hinside := r.inside
  constructor
  · intro h
    rcases Nat.eq_zero_or_pos r.length with hzero | hpos
    · exact Or.inl hzero
    · have hstart : ∀ s : Surroundings, (query info s v).data + toInt32 r.offset =
          s.buffer 0 + (v.byteOffset : Int) + (r.offset : Int) := by
        intro s
        have hprefix := h s
        rw [rangeBuf_addresses, r.addresses_eq, run_prefix_iff] at hprefix
        rcases hprefix with hzero | hsame
        · omega
        · exact hsame
      cases hv : v.isTypedArray with
      | true =>
          refine Or.inr ⟨rfl, ?_⟩
          have hsame := hstart default
          rw [(query_typedArray hinfo _ hv).2 (by omega)] at hsame
          unfold toInt32 at hsame
          omega
      | false =>
          -- the locals may point elsewhere
          have hone := hstart ⟨fun _ => 0, fun _ => 0, fun _ => ⟨0, 0⟩⟩
          have htwo := hstart ⟨fun _ => 0, fun _ => 0, fun _ => ⟨0, 1⟩⟩
          rw [query_dataView hinfo _ hv] at hone htwo
          dsimp only at hone htwo
          omega
  · intro h s
    rw [rangeBuf_addresses, r.addresses_eq, run_prefix_iff]
    rcases Nat.eq_zero_or_pos r.length with hzero | hpos
    · exact Or.inl hzero
    · rcases h with hzero | ⟨hv, hoffset⟩
      · exact Or.inl hzero
      · rw [(query_typedArray hinfo s hv).2 (by omega), toInt32_of_lt hoffset]
        exact Or.inr rfl

/-! ### Calls -/

section

variable {info : GetTypedarrayInfo} {simdutf : Base64ToBinary} {maxLength : Nat} {call : Call}
  {c : Surroundings → UvCall}

/-- Both variants hand the same to libuv. -/
def Hands (info : GetTypedarrayInfo) (call : Call) (c : Surroundings → UvCall) : Prop :=
  ∀ s variant memory, call.prepare info s variant memory = (memory, c s)

theorem Hands.sync (h : Hands info call c) (hbufs : (c s).bufs ≠ []) (memory : Memory)
    (files : Files) (answer : Answer) :
    call.sync info s memory files answer =
      ⟨some (fsAfterAsync ((c s).work memory files answer).result), (c s).leaves memory
    ((c s).work memory files answer), ((c s).work memory files answer).moved⟩:= by
  obtain ⟨hmoved, hmemory, hresult⟩ := now_moved hbufs memory files answer
  unfold Call.sync
  rw [h s .sync memory]
  dsimp only
  rw [hmoved, hresult, syncEnd_report]
  unfold UvCall.leaves
  rw [hmemory]

/-- The variants agree where libuv is given a buffer: without one the callback is never called. -/
theorem Hands.agree_iff (h : Hands info call c) (memory : Memory) (files : Files)
    (answer : Answer) :
    call.async info s memory files answer = call.sync info s memory files answer ↔ (c s).bufs ≠ []:= by
  constructor
  · intro hsame hnone
    have hreport := congrArg Outcome.report hsame
    unfold Call.async Call.sync UvCall.start at hreport
    rw [h s .async memory, h s .sync memory] at hreport
    dsimp only at hreport
    rw [if_pos hnone, if_neg (by decide)] at hreport
    cases hreport
  · intro hbufs
    rw [h.sync hbufs]
    unfold Call.async UvCall.start
    rw [h s .async memory]
    dsimp only
    rw [if_neg hbufs, if_pos rfl]

theorem Hands.meets_iff (h : Hands info call c) {addresses : Surroundings → List Int}
    (hmoves : ∀ s, (c s).bufs ≠ [] → ((∀ memory files answer, call.Moves simdutf maxLength s memory
      (call.sync info s memory files answer)) ↔ (c s).extent <+: addresses s)) :
    call.Meets info simdutf maxLength ↔
      (∀ s, (c s).bufs ≠ []) ∧ ∀ s, (c s).extent <+: addresses s := by
  constructor
  · intro hmeets
    have hbufs : ∀ s, (c s).bufs ≠ [] := fun s =>
      (h.agree_iff (fun _ => 0) (fun _ _ => []) (.moved 0)).mp (hmeets s _ _ _).2
    refine ⟨hbufs, fun s => (hmoves s (hbufs s)).mp ?_⟩
    intro memory files answer
    exact (hmeets s memory files answer).1
  · rintro ⟨hbufs, hextent⟩ s memory files answer
    exact ⟨(hmoves s (hbufs s)).mpr (hextent s) memory files answer,
      (h.agree_iff memory files answer).mpr (hbufs s)⟩

theorem Hands.reads (h : Hands info call c) (hread : ∀ s, (c s).direction = .read)
    {addresses : Surroundings → List Int}
    (hmeans : ∀ s memory o, call.Moves simdutf maxLength s memory o ↔
      o.FillsIn memory (addresses s)) :
    call.Meets info simdutf maxLength ↔
      (∀ s, (c s).bufs ≠ []) ∧ ∀ s, (c s).extent <+: addresses s := by
  apply h.meets_iff
  intro s hbufs
  rw [← reads_iff (hread s)]
  apply forall_congr'
  intro memory
  apply forall_congr'
  intro files
  apply forall_congr'
  intro answer
  rw [hmeans, h.sync hbufs]
  simp only [Outcome.FillsIn, UvCall.leaves, hread s]

theorem Hands.writes (h : Hands info call c) (hwrite : ∀ s, (c s).direction = .write)
    {addresses : Surroundings → List Int}
    (hmeans : ∀ s memory o, call.Moves simdutf maxLength s memory o ↔
      o.moved <+: gather memory (addresses s)) :
    call.Meets info simdutf maxLength ↔
      (∀ s, (c s).bufs ≠ []) ∧ ∀ s, (c s).extent <+: addresses s := by
  apply h.meets_iff
  intro s hbufs
  rw [← writes_iff (hwrite s)]
  apply forall_congr'
  intro memory
  apply forall_congr'
  intro files
  apply forall_congr'
  intro answer
  rw [hmeans, h.sync hbufs]

theorem viewBufs_ne_nil_iff (s : Surroundings) (views : List View) :
    viewBufs info s views ≠ [] ↔ views ≠ [] := by
  cases views with
  | nil => simp [viewBufs]
  | cons v views => simp [viewBufs]

theorem single_extent (d : Direction) (fd : Int) (buf : UvBuf) (position : Int) :
    (UvCall.mk d fd [buf] position).extent = buf.addresses :=
  List.flatMap_singleton _ _

/-- The result of writing a string and the bytes written: a prefix of its UTF-8, of any length. -/
def sent (text : Text) : Answer → Int × Bytes
  | .moved most =>
      (((utf8Bytes text.units).take most).length, (utf8Bytes text.units).take most)
  | .error errno _ => (errno, [])

theorem writeString_work {fd : Int} {text : Text} {position : Position} {encoding : Option String}
    {ctx : Bool} {variant : Variant} {memory : Memory} {prepared : Memory × UvCall}
    (h : (Call.writeString fd text position encoding ctx).prepare info s variant memory = prepared)
    (files : Files) (answer : Answer) :
    prepared.2.bufs ≠ [] ∧ (∀ effect, prepared.2.leaves memory effect = memory) ∧
    (prepared.2.work prepared.1 files answer).result = (sent text answer).1 ∧
    (prepared.2.work prepared.1 files answer).moved = (sent text answer).2:= by
  have hshort := text.short
  have hlong := utf8Bytes_length_le text.units
  unfold kStringMaxLength at hshort
  simp only [Call.prepare] at h
  subst h
  refine ⟨List.cons_ne_nil _ _, fun _ => rfl, ?_⟩
  cases answer with
  | error errno negative => exact ⟨rfl, rfl⟩
  | moved most =>
      have hstored : gather (scatter memory (run (s.storage variant) (utf8Bytes text.units).length)
          (utf8Bytes text.units)) ((run (s.storage variant) (utf8Bytes text.units).length).take most)
          = (utf8Bytes text.units).take most := by
        rw [gather_take, gather_scatter _ (run_nodup _ _) (run_length _ _).symm]
      simp only [UvCall.work, sent]
      rw [single_extent, uvBufInit_addresses, Nat.mod_eq_of_lt (by omega), hstored]
      exact ⟨rfl, rfl⟩

theorem writeString_outcome (fd : Int) (text : Text) (position : Position)
    (encoding : Option String) (ctx : Bool) (s : Surroundings) (memory : Memory) (files : Files)
    (answer : Answer) :
    let call := Call.writeString fd text position encoding ctx
    call.sync info s memory files answer =
        ⟨some (fsAfterAsync (sent text answer).1), memory, (sent text answer).2⟩ ∧
      call.async info s memory files answer =
        ⟨some (fsAfterAsync (sent text answer).1), memory, (sent text answer).2⟩ := by
  constructor
  · unfold Call.sync
    generalize hprepared :
      (Call.writeString fd text position encoding ctx).prepare info s .sync memory = prepared
    obtain ⟨hbufs, hleaves, hresult, hmoved⟩ := writeString_work hprepared files answer
    obtain ⟨hnowMoved, _, hnowResult⟩ := now_moved hbufs prepared.1 files answer
    dsimp only
    rw [hnowResult, syncEnd_report, hleaves, hnowMoved, hresult, hmoved]
  · unfold Call.async UvCall.start
    generalize hprepared :
      (Call.writeString fd text position encoding ctx).prepare info s .async memory = prepared
    obtain ⟨hbufs, hleaves, hresult, hmoved⟩ := writeString_work hprepared files answer
    dsimp only
    rw [if_neg hbufs, if_pos rfl, hleaves, hresult, hmoved]

theorem writeString_iff (hbounded : simdutf.Bounded) (fd : Int) (text : Text) (position : Position)
    (encoding : Option String) (ctx : Bool) :
    (Call.writeString fd text position encoding ctx).Meets info simdutf maxLength ↔
      ∀ ops, opsOf encoding = some ops → Utf8Fits ops text.units := by
  constructor
  · intro hmeets ops hops
    have hmoves := (hmeets default (fun _ => 0) (fun _ _ => [])
      (.moved (utf8Bytes text.units).length)).1
    rw [(writeString_outcome fd text position encoding ctx _ _ _ _).1] at hmoves
    apply (utf8_prefix_iff maxLength text.units hbounded ops).mp
    have hprefix := hmoves _ (by rw [fromString, hops, Option.map_some])
    simp only [sent, List.take_length] at hprefix
    exact hprefix
  · intro hfits s memory files answer
    obtain ⟨hsync, hasync⟩ :=
      @writeString_outcome info fd text position encoding ctx s memory files answer
    rw [hsync, hasync]
    refine ⟨?_, rfl⟩
    intro bytes hbytes
    obtain ⟨ops, hops, rfl⟩ := Option.map_eq_some_iff.mp hbytes
    have hprefix := (utf8_prefix_iff maxLength text.units hbounded ops).mpr (hfits ops hops)
    cases answer with
    | error errno negative => exact List.nil_prefix
    | moved most => exact (List.take_prefix _ _).trans hprefix

theorem read_iff (hinfo : info.Documented) (fd : Int) (v : View) (r : Range v)
    (position : Position) : (Call.read fd v r position).Meets info simdutf maxLength ↔
      r.length = 0 ∨ (v.isTypedArray = true ∧ r.offset < 2 ^ 31) := by
  have hreads := @Hands.reads info simdutf maxLength (.read fd v r position)
    (fun s => ⟨.read, fd, [rangeBuf info s v r], position.toInt64⟩) (fun _ _ _ => rfl)
    (fun _ => rfl) (fun s => r.addresses (s.buffer 0)) (fun _ _ _ => Iff.rfl)
  simp only [single_extent] at hreads
  rw [hreads, range_iff hinfo r]
  exact and_iff_right fun _ => List.cons_ne_nil _ _

theorem writeBuffer_iff (hinfo : info.Documented) (fd : Int) (v : View) (r : Range v)
    (position : Position) (ctx : Bool) :
    (Call.writeBuffer fd v r position ctx).Meets info simdutf maxLength ↔
      r.length = 0 ∨ (v.isTypedArray = true ∧ r.offset < 2 ^ 31) := by
  have hwrites := @Hands.writes info simdutf maxLength (.writeBuffer fd v r position ctx)
    (fun s => ⟨.write, fd, [rangeBuf info s v r], position.toInt64⟩) (fun _ _ _ => rfl)
    (fun _ => rfl) (fun s => r.addresses (s.buffer 0)) (fun _ _ _ => Iff.rfl)
  simp only [single_extent] at hwrites
  rw [hwrites, range_iff hinfo r]
  exact and_iff_right fun _ => List.cons_ne_nil _ _

theorem readBuffers_iff (hinfo : info.Documented) (fd : Int) (views : List View)
    (position : Position) : (Call.readBuffers fd views position).Meets info simdutf maxLength ↔
      views ≠ [] ∧ WholeButLast views := by
  rw [@Hands.reads info simdutf maxLength (.readBuffers fd views position)
    (fun s => ⟨.read, fd, viewBufs info s views, position.toInt64⟩) (fun _ _ _ => rfl)
    (fun _ => rfl) (fun s => viewAddresses s views) (fun _ _ _ => Iff.rfl)]
  simp only [viewBufs_ne_nil_iff, forall_const]
  exact and_congr_right fun _ => wholeButLast_iff hinfo views

theorem writeBuffers_iff (hinfo : info.Documented) (fd : Int) (views : List View)
    (position : Position) (ctx : Bool) :
    (Call.writeBuffers fd views position ctx).Meets info simdutf maxLength ↔
      views ≠ [] ∧ WholeButLast views := by
  rw [@Hands.writes info simdutf maxLength (.writeBuffers fd views position ctx)
    (fun s => ⟨.write, fd, viewBufs info s views, position.toInt64⟩) (fun _ _ _ => rfl)
    (fun _ => rfl) (fun s => viewAddresses s views) (fun _ _ _ => Iff.rfl)]
  simp only [viewBufs_ne_nil_iff, forall_const]
  exact and_congr_right fun _ => wholeButLast_iff hinfo views

end

/-- For every call, the bytes it is about are moved in every state, by both variants, exactly when its
arguments fit. -/
theorem moves_iff (info : GetTypedarrayInfo) (hinfo : info.Documented) (simdutf : Base64ToBinary)
    (hbounded : simdutf.Bounded) (maxLength : Nat) (call : Call) :
    call.Meets info simdutf maxLength ↔ call.Fits := by
  cases call with
  | read fd v r position => exact read_iff hinfo fd v r position
  | writeBuffer fd v r position ctx => exact writeBuffer_iff hinfo fd v r position ctx
  | writeString fd text position encoding ctx =>
      exact writeString_iff hbounded fd text position encoding ctx
  | readBuffers fd views position => exact readBuffers_iff hinfo fd views position
  | writeBuffers fd views position ctx => exact writeBuffers_iff hinfo fd views position ctx

/-- An engine as documented. -/
def plainQuery : GetTypedarrayInfo := fun v buffer =>
  if v.isTypedArray then some ⟨v.length, buffer + (v.byteOffset : Int)⟩ else none

theorem plainQuery_documented : plainQuery.Documented where
  typedArray v buffer hv := ⟨_, fun _ => rfl, by rw [plainQuery, if_pos hv]⟩
  dataView v buffer hv := by rw [plainQuery, if_neg (by simp [hv])]

/-- A decoder for calls that decode nothing. -/
def noBase64 : Base64ToBinary := fun _ _ => none

theorem noBase64_bounded : noBase64.Bounded := fun _ _ _ h => by cases h

/-- Four bytes, then two 16-bit numbers. -/
def bytesThenWords : List View := [⟨.typedArray .uint8, 3, 4⟩, ⟨.typedArray .uint16, 2, 2⟩]

/-- The numbers are cut short, but nothing comes behind them. -/
theorem bytesThenWords_meet :
    (Call.writeBuffers 1 bytesThenWords .null true).Meets plainQuery noBase64 4096 :=
  (moves_iff plainQuery plainQuery_documented noBase64 noBase64_bounded 4096 _).mpr
    ⟨by decide, rfl, Or.inl ⟨rfl, rfl, Or.inr (by simp)⟩⟩

/-- The string `é`. -/
def eAcute : Text := ⟨[0xE9], by decide⟩

/-- As `latin1`, `é` is the byte `E9`, but `C3 A9` is written. With the numbers in front, their second
half is skipped. An empty list of views is an error in one variant and never answered in the other. -/
theorem latin1_written_as_utf8 :
    plainQuery.Documented ∧ noBase64.Bounded ∧
    fromString noBase64 4096 eAcute.units (some "latin1") = some [0xE9] ∧
    (∀ s memory files, ((Call.writeString 1 eAcute .null (some "latin1") true).sync plainQuery s memory
      files (.moved 2)).moved = [0xC3, 0xA9]) ∧
    ¬ (Call.writeString 1 eAcute .null (some "latin1") true).Meets plainQuery noBase64 4096 ∧
    ¬ (Call.writeBuffers 1 bytesThenWords.reverse .null true).Meets plainQuery noBase64 4096 ∧
    ∀ s memory files answer, ((Call.readBuffers 1 [] .null).sync plainQuery s memory files
      answer).report = some (.error UV_EINVAL) ∧
      ((Call.readBuffers 1 [] .null).async plainQuery s memory files answer).report = none := by
  have hops : opsOf (some "latin1") = some .latin1 := by decide +kernel
  refine ⟨plainQuery_documented, noBase64_bounded, ?_, ?_, ?_, ?_, ?_⟩
  · rw [fromString, hops]
    decide
  · intro s memory files
    rw [(writeString_outcome 1 eAcute .null (some "latin1") true s memory files (.moved 2)).1]
    change (sent eAcute (.moved 2)).2 = _
    decide
  · rw [writeString_iff noBase64_bounded]
    intro hfits
    exact absurd (hfits .latin1 hops 0xE9 (by decide)) (by decide)
  · rw [writeBuffers_iff plainQuery_documented]
    rintro ⟨_, _, ⟨hwhole, _⟩ | hempty⟩
    · cases hwhole
    · cases (hempty _ List.mem_cons_self).2
  · intro s memory files answer
    exact ⟨rfl, rfl⟩

end HermesNode.Fs
