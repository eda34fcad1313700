/-
Module: HermesNode.Http.Execute
Purpose: `Parser::execute` of `node_http_parser.cpp` over llhttp's interface in `api.c`. The generated
  state machine of llhttp is a parameter: it makes callbacks, returns a code and leaves a stop
  position. `execute` reports that position for a parse error, but the length of the data for every
  pause, so what a CONNECT or Upgrade message is followed by in its packet counts as parsed. An error
  that llhttp returns without looking at the data is placed where an earlier buffer was.
Trusted boundary: human-reviewed spec (transcribed from `lib/bindings/node_http_parser.cpp` and
  `llhttp/src/api.c`); the state machine of `llhttp.c`
Main exports: Errno, Machine, calls_faithful_iff
-/
import HermesNode.Http.Parser

namespace HermesNode.Http

/-- The largest Buffer. -/
def kMaxLength : Nat := 2 ^ 31 - 1

/-- The codes of llhttp that `execute` tells apart. -/
inductive Errno where
  | ok
  | paused
  | pausedUpgrade
  | failed (name : String)
deriving Repr, DecidableEq

def Errno.isFailure : Errno → Bool
  | .failed _ => true
  | _ => false

/-- What a run of the state machine leaves: the callbacks it made, the code it returns, and
`parser->error`, which a callback can have set while the machine ran on. `pos` counts the bytes of the
data before the position it stopped at, and `marked` says that `error_pos` points there. -/
structure Ran (σ : Type) where
  state : σ
  callbacks : List Callback
  code : Errno
  error : Errno
  reason : String
  pos : Nat
  marked : Bool

/-- The generated state machine. -/
structure Machine (σ : Type) where
  init : Int → Int → σ
  run : σ → Bytes → Ran σ
  finish : σ → Ran σ

/-- Where the machine stops lies in the data it was given, and an error sets `error_pos` to it.
`llhttp_finish` has no data and leaves `error_pos` alone. -/
structure Machine.Lawful {σ : Type} (M : Machine σ) : Prop where
  run_pos : ∀ s data, (M.run s data).pos ≤ data.length
  run_marked : ∀ s data, (M.run s data).code.isFailure = true → (M.run s data).marked = true
  finish_pos : ∀ s, (M.finish s).pos = 0
  finish_marked : ∀ s, (M.finish s).marked = false

/-- The parser object around `llhttp_t`. -/
structure HttpParser (σ : Type) where
  fields : Parser := {}
  machine : σ
  error : Errno := .ok
  reason : String := ""
  /-- The address in `error_pos`. -/
  errorPos : Nat := 0

/-- What `execute` returns to JavaScript; undefined while an exception is pending. -/
inductive Reply where
  | undefined
  | parseError (bytesParsed : Nat) (code : Errno) (reason : String)
  | number (nread : Nat)
deriving Repr, DecidableEq

/-- `static_cast<uint32_t>` -/
def toUint32 (n : Int) : Nat := (n % 2 ^ 32).toNat

/-- What `execute` is given: a Buffer of at most `kMaxLength` bytes at an address, which is null for
the end of the input and may be for an empty Buffer. -/
structure Piece where
  bytes : Bytes
  address : Nat
  fits : bytes.length ≤ kMaxLength
  null : address = 0 → bytes = []

/-- The end of the input. -/
def Piece.finish : Piece := ⟨[], 0, Nat.zero_le _, fun _ => rfl⟩

section

variable {σ : Type}

namespace HttpParser

/-- `llhttp_pause` -/
def pause (h : HttpParser σ) : HttpParser σ :=
  if h.error ≠ .ok then h else { h with error := .paused, reason := "Paused" }

/-- `llhttp_resume_after_upgrade` -/
def resumeAfterUpgrade (h : HttpParser σ) : HttpParser σ :=
  if h.error ≠ .pausedUpgrade then h else { h with error := .ok }

/-- `Parser::resume`: `llhttp_resume` and `llhttp_resume_after_upgrade`. -/
def resume (h : HttpParser σ) : HttpParser σ :=
  resumeAfterUpgrade (if h.error ≠ .paused then h else { h with error := .ok })

/-- The parser where nothing ran. -/
def idle (h : HttpParser σ) (code : Errno) : Ran σ :=
  { state := h.machine, callbacks := [], code, error := h.error, reason := h.reason
    pos := 0, marked := false }

end HttpParser

variable (M : Machine σ)

/-- `llhttp_execute`: a lingering error is returned before anything is parsed. -/
def llhttpExecute (h : HttpParser σ) (data : Bytes) : Ran σ :=
  if h.error ≠ .ok then h.idle h.error else M.run h.machine data

/-- `llhttp_finish` -/
def llhttpFinish (h : HttpParser σ) : Ran σ :=
  if h.error ≠ .ok then h.idle .ok else M.finish h.machine

/-- What llhttp does in a call of `execute`. -/
def ranOf (h : HttpParser σ) (data : Piece) : Ran σ :=
  if data.address = 0 then llhttpFinish M h else llhttpExecute M h data.bytes

/-- The fields of the parser behind the callbacks of a run. -/
def fieldsBehind (h : HttpParser σ) (ran : Ran σ) : Parser :=
  ran.callbacks.foldl (fun p c => (p.on c).parser) { h.fields with gotException := false }

/-- `Parser::execute`. -/
def execute (h : HttpParser σ) (data : Piece) : HttpParser σ × Reply :=
  let ran := ranOf M h data
  let fields := fieldsBehind h ran
  let errorPos := if ran.marked then data.address + ran.pos else h.errorPos
  let nread : Int :=
    if ran.code.isFailure then (errorPos : Int) - data.address else data.bytes.length
  let h : HttpParser σ :=
    { fields, machine := ran.state, error := ran.error, reason := ran.reason, errorPos }
  let resumed : Errno × HttpParser σ :=
    if ran.code = .pausedUpgrade then (.ok, h.resumeAfterUpgrade) else (ran.code, h)
  let code := resumed.1
  let h :=
    if fields.pendingPause then
      { resumed.2 with fields := { fields with pendingPause := false } }.pause
    else resumed.2
  (h,
    if fields.gotException then .undefined
    else if code.isFailure then .parseError (toUint32 nread) code h.reason
    else .number (toUint32 nread))

/-- What JavaScript does with a parser. -/
inductive Op where
  | initializeParser (type : Int) (maxHeaderSize : Nat) (lenientFlags : Int)
  | execute (piece : Piece)
  | finish
  | pause
  | resume

/-- A call of `execute` with what llhttp did in it, and with `error_pos` as it was before. -/
structure Call (σ : Type) where
  data : Piece
  errorPos : Nat
  ran : Ran σ
  threw : Bool
  reply : Reply

/-- One call of `execute`. -/
def callOf (h : HttpParser σ) (data : Piece) : Call σ :=
  { data, errorPos := h.errorPos, ran := ranOf M h data
    threw := (fieldsBehind h (ranOf M h data)).gotException, reply := (execute M h data).2 }

/-- The calls of `execute` in a session. -/
def calls (h : HttpParser σ) : List Op → List (Call σ)
  | [] => []
  | op :: ops =>
      match op with
      | .initializeParser type maxHeaderSize lenientFlags =>
          calls
            { fields := h.fields.initializeParser maxHeaderSize
              machine := M.init type lenientFlags } ops
      | .execute piece => callOf M h piece :: calls (execute M h piece).1 ops
      | .finish => callOf M h .finish :: calls (execute M h .finish).1 ops
      | .pause => calls h.pause ops
      | .resume => calls h.resume ops

/-! ### What a call should report -/

namespace Call

/-- The bytes llhttp consumed: all of them unless it stopped. -/
def consumed (call : Call σ) : Nat :=
  if call.ran.code = .ok then call.data.bytes.length else call.ran.pos

/-- The number is that of the bytes consumed, so that the data sliced from there is what llhttp left;
a parse error is reported where it is. -/
def Faithful (call : Call σ) : Prop :=
  match call.reply with
  | .undefined => True
  | .parseError bytesParsed _ _ => bytesParsed = call.ran.pos
  | .number nread =>
      nread = call.consumed ∧ call.data.bytes.drop nread = call.data.bytes.drop call.consumed

/-- llhttp paused, or stopped for an upgrade, before the end of the data. -/
def Cut (call : Call σ) : Prop :=
  call.threw = false ∧ (call.ran.code = .paused ∨ call.ran.code = .pausedUpgrade) ∧
    call.ran.pos < call.data.bytes.length

/-- llhttp returned an error without looking at the data, and `error_pos` was elsewhere. -/
def Stale (call : Call σ) : Prop :=
  call.threw = false ∧ call.ran.code.isFailure = true ∧ call.ran.marked = false ∧
    toUint32 ((call.errorPos : Int) - call.data.address) ≠ 0

end Call

theorem toUint32_of_le {n : Nat} (h : n ≤ kMaxLength) : toUint32 n = n := by
  unfold kMaxLength at h
  unfold toUint32
  omega

variable {M}

theorem ranOf_pos (hM : M.Lawful) (h : HttpParser σ) (data : Piece) :
    (ranOf M h data).pos ≤ data.bytes.length := by
  unfold ranOf llhttpFinish llhttpExecute
  split
  · split
    · exact Nat.zero_le _
    · rw [hM.finish_pos]
      exact Nat.zero_le _
  · split
    · exact Nat.zero_le _
    · exact hM.run_pos _ _

/-- An error that leaves `error_pos` alone has looked at no data. -/
theorem ranOf_unmarked (hM : M.Lawful) (h : HttpParser σ) {data : Piece}
    (hfailed : (ranOf M h data).code.isFailure = true) (hmarked : (ranOf M h data).marked = false) :
    (ranOf M h data).pos = 0 := by
  unfold ranOf llhttpFinish llhttpExecute at hfailed hmarked ⊢
  by_cases haddress : data.address = 0
  · rw [if_pos haddress]
    split
    · rfl
    · exact hM.finish_pos _
  · rw [if_neg haddress] at hfailed hmarked ⊢
    by_cases herror : h.error ≠ .ok
    · rw [if_pos herror]
      rfl
    · rw [if_neg herror] at hfailed hmarked
      rw [hM.run_marked _ _ hfailed] at hmarked
      cases hmarked

/-- The reply of a call in terms of what llhttp did. -/
theorem execute_reply (h : HttpParser σ) (data : Piece) :
    ((callOf M h data).threw = true ∧ (callOf M h data).reply = .undefined) ∨
      ((callOf M h data).threw = false ∧ (∃ name, (callOf M h data).ran.code = .failed name) ∧
        ∃ code reason, (callOf M h data).reply =
          .parseError (toUint32 (((if (callOf M h data).ran.marked then
            data.address + (callOf M h data).ran.pos else h.errorPos : Nat) : Int) - data.address))
            code reason) ∨
      ((callOf M h data).threw = false ∧ (callOf M h data).ran.code.isFailure = false ∧
        (callOf M h data).reply = .number (toUint32 data.bytes.length)) := by
  unfold callOf execute
  dsimp only
  cases hthrew : (fieldsBehind h (ranOf M h data)).gotException with
  | true =>
      rw [if_pos rfl]
      exact Or.inl ⟨rfl, rfl⟩
  | false =>
      rw [if_neg Bool.false_ne_true]
      cases hcode : (ranOf M h data).code with
      | failed name =>
          refine Or.inr (Or.inl ⟨rfl, ⟨name, rfl⟩, Errno.failed name, ?_⟩)
          simp [Errno.isFailure]
      | ok => exact Or.inr (Or.inr ⟨rfl, rfl, by simp [Errno.isFailure]⟩)
      | paused => exact Or.inr (Or.inr ⟨rfl, rfl, by simp [Errno.isFailure]⟩)
      | pausedUpgrade => exact Or.inr (Or.inr ⟨rfl, rfl, by simp [Errno.isFailure]⟩)

/-- One call reports what llhttp consumed unless the data was cut or the error is an old one. -/
theorem callOf_faithful_iff (hM : M.Lawful) (h : HttpParser σ) (data : Piece) :
    (callOf M h data).Faithful ↔ ¬ (callOf M h data).Cut ∧ ¬ (callOf M h data).Stale := by
  have hpos : (callOf M h data).ran.pos ≤ data.bytes.length := ranOf_pos hM h data
  have hdata : (callOf M h data).data = data := rfl
  unfold Call.Faithful Call.Cut Call.Stale
  rcases execute_reply (M := M) h data with hthrew | hfailed | hnumber
  · rw [hthrew.1, hthrew.2]
    simp
  · obtain ⟨hthrew, ⟨name, hcode⟩, code, reason, hreply⟩ := hfailed
    have hfailure : (callOf M h data).ran.code.isFailure = true := by
      rw [hcode]
      rfl
    have hbefore : (callOf M h data).errorPos = h.errorPos := rfl
    rw [hreply, hthrew, hcode]
    cases hmarked : (callOf M h data).ran.marked with
    | true =>
        have hplace : toUint32 (callOf M h data).ran.pos = (callOf M h data).ran.pos :=
          toUint32_of_le (Nat.le_trans hpos data.fits)
        simp [hplace]
    | false =>
        have hzero : (callOf M h data).ran.pos = 0 := ranOf_unmarked hM h hfailure hmarked
        simp [hzero, hdata, hbefore, Errno.isFailure]
  · obtain ⟨hthrew, hcode, hreply⟩ := hnumber
    rw [hthrew, hreply, hdata, hcode]
    simp only [toUint32_of_le data.fits, Call.consumed, hdata, true_and, Bool.false_eq_true,
      false_and, not_false_iff, and_true]
    cases hran : (callOf M h data).ran.code with
    | ok => simp
    | failed name =>
        rw [hran] at hcode
        cases hcode
    | paused | pausedUpgrade =>
        simp only [reduceCtorEq, if_false, or_false, false_or, true_and, Nat.not_lt]
        constructor
        · intro hfaithful
          exact Nat.le_of_eq hfaithful.1
        · intro hend
          have heq := Nat.le_antisymm hend hpos
          exact ⟨heq, by rw [← heq]⟩

/-- A session reports every byte it parsed, and no other, exactly when no call of it stops at a pause
or an upgrade before the end of its data, nor returns an error that an earlier call left. -/
theorem calls_faithful_iff (hM : M.Lawful) (h : HttpParser σ) (ops : List Op) :
    (∀ call ∈ calls M h ops, call.Faithful) ↔
      ∀ call ∈ calls M h ops, ¬ call.Cut ∧ ¬ call.Stale := by
  induction ops generalizing h with
  | nil => simp [calls]
  | cons op ops ih =>
      cases op with
      | initializeParser type maxHeaderSize lenientFlags => exact ih _
      | pause => exact ih _
      | resume => exact ih _
      | execute piece =>
          simp only [calls, List.forall_mem_cons]
          exact and_congr (callOf_faithful_iff hM h piece) (ih _)
      | finish =>
          simp only [calls, List.forall_mem_cons]
          exact and_congr (callOf_faithful_iff hM h .finish) (ih _)

end

/-! ### Three requests -/

/-- A CONNECT request, with the first two bytes for the tunnel in its packet. -/
def connectPacket : Bytes := ascii "CONNECT a:1 HTTP/1.1\r\n\r\nhi"

def getPacket : Bytes := ascii "GET / HTTP/1.1\r\nHost: a\r\n\r\n"

/-- llhttp on the two packets and on another one: both requests end at their empty line, where the
CONNECT stops the machine, and the other is refused at its first byte. -/
def requests : Machine Unit where
  init _ _ := ()
  run _ data :=
    if data = connectPacket then
      { state := ()
        callbacks :=
          [.messageBegin 7 (.returned 0), .url (ascii "a:1"),
            .headersComplete ⟨true, 1, 1, 5, 0, true, true⟩ (.returned 0),
            .messageComplete (.returned 0)]
        code := .pausedUpgrade, error := .pausedUpgrade, reason := "Pause on CONNECT/Upgrade"
        pos := connectPacket.length - 2, marked := true }
    else if data = getPacket then
      { state := ()
        callbacks :=
          [.messageBegin 7 (.returned 0), .url (ascii "/"), .headerField (ascii "Host"),
            .headerValue (ascii "a"),
            .headersComplete ⟨true, 1, 1, 1, 0, false, true⟩ (.returned 0),
            .messageComplete (.returned 0)]
        code := .ok, error := .ok, reason := "", pos := 0, marked := false }
    else
      { state := (), callbacks := [], code := .failed "HPE_INVALID_METHOD"
        error := .failed "HPE_INVALID_METHOD", reason := "Invalid method encountered"
        pos := 0, marked := true }
  finish _ :=
    { state := (), callbacks := [], code := .ok, error := .ok, reason := "", pos := 0, marked := false }

theorem requests_lawful : requests.Lawful where
  run_pos s data := by
    simp only [requests]
    split
    · rename_i hdata
      rw [hdata]
      exact Nat.sub_le _ _
    · split
      · exact Nat.zero_le _
      · exact Nat.zero_le _
  run_marked s data hfailed := by
    simp only [requests] at hfailed ⊢
    split
    · rfl
    · rename_i hconnect
      rw [if_neg hconnect] at hfailed
      split
      · rename_i hget
        rw [if_pos hget] at hfailed
        cases hfailed
      · rfl
  finish_pos _ := rfl
  finish_marked _ := rfl

theorem getPacket_faithful :
    requests.Lawful ∧
      ∀ call ∈ calls requests { machine := () }
        [.execute ⟨getPacket, 64, by decide, by decide⟩, .finish], call.Faithful := by
  refine ⟨requests_lawful, (calls_faithful_iff requests_lawful _ _).mpr ?_⟩
  intro call hcall
  have hcode : call.ran.code = .ok := by
    simp only [calls, List.mem_cons, List.not_mem_nil, or_false] at hcall
    rcases hcall with rfl | rfl
    · decide
    · decide
  unfold Call.Cut Call.Stale
  simp [hcode, Errno.isFailure]

/-- The tunnel's bytes are counted as parsed: llhttp stops after 24 bytes and 26 are reported. And a
packet that comes behind a refused one is reported to be wrong 100 bytes in, far behind its end. -/
theorem bytes_misreported :
    requests.Lawful ∧
      (∃ call ∈ calls requests { machine := () } [.execute ⟨connectPacket, 64, by decide, by decide⟩],
        call.consumed = 24 ∧ call.reply = .number 26 ∧ ¬ call.Faithful) ∧
      ∃ call ∈ calls requests { machine := () }
          [.execute ⟨ascii "?", 164, by decide, by decide⟩,
            .execute ⟨getPacket, 64, by decide, by decide⟩],
        call.data.bytes.length = 27 ∧
          call.reply = .parseError 100 (.failed "HPE_INVALID_METHOD") "Invalid method encountered" ∧
          ¬ call.Faithful := by
  refine ⟨requests_lawful, ⟨_, List.mem_singleton.mpr rfl, ?_, ?_, ?_⟩,
    ⟨_, List.mem_cons_of_mem _ (List.mem_singleton.mpr rfl), ?_, ?_, ?_⟩⟩
  · decide
  · decide
  · rintro ⟨hnumber, _⟩
    revert hnumber
    decide
  · decide
  · decide
  · intro hfaithful
    have hplace : (100 : Nat) = 0 := hfaithful
    cases hplace

end HermesNode.Http
