/-
Module: HermesNode.Http.Parser
Purpose: The `Parser` of `node_http_parser.cpp` below its JavaScript object: what each llhttp callback
  does to the buffered header fields and what it hands to JavaScript. llhttp itself is the source of
  the callbacks; a callback that returns non-zero stops it. The parser object and its callbacks are
  there, as they are between `init` and `close`.
Trusted boundary: human-reviewed spec (transcribed from `lib/bindings/node_http_parser.cpp`)
Main exports: Parser, Callback, headers_bounded
-/
import HermesNode.Lib.Buffer
import Mathlib.Logic.Function.Basic

namespace HermesNode.Http

/-- Header fields buffered before they are flushed through `kOnHeaders`. -/
def kMaxHeaderFieldsCount : Nat := 32

def kDefaultMaxHttpHeaderSize : Nat := 80 * 1024

def kMaxChunkExtensionsSize : Nat := 16384

abbrev Header := Bytes × Bytes

/-- What llhttp has parsed of the start line when the headers are complete. -/
structure Head where
  request : Bool
  httpMajor : Nat
  httpMinor : Nat
  method : Nat
  statusCode : Nat
  upgrade : Bool
  shouldKeepAlive : Bool
deriving Repr, DecidableEq

/-- How a JavaScript callback ends. `kOnHeadersComplete` returns an action. -/
inductive Answer where
  | returned (action : Int)
  | threw
deriving Repr, DecidableEq

/-- A callback of llhttp, with what the JavaScript callback it leads to answers. -/
inductive Callback where
  | messageBegin (now : Nat) (answer : Answer)
  | url (at_ : Bytes)
  | status (at_ : Bytes)
  | headerField (at_ : Bytes)
  | headerValue (at_ : Bytes)
  | headersComplete (head : Head) (answer : Answer)
  | body (at_ : Bytes) (answer : Answer)
  | chunkHeader
  | chunkExtension (length : Nat)
  | chunkComplete
  | messageComplete (answer : Answer)
deriving Repr, DecidableEq

/-- A call into JavaScript with its arguments. Method and URL are passed for a request, the status
for a response; the headers are undefined when they went through `kOnHeaders` before. -/
inductive Delivery where
  | onMessageBegin
  | onHeaders (headers : List Header) (url : Bytes)
  | onHeadersComplete (versionMajor versionMinor : Nat) (headers : Option (List Header))
      (methodAndUrl : Option (Nat × Bytes)) (codeAndMessage : Option (Nat × Bytes))
      (upgrade shouldKeepAlive : Bool)
  | onBody (chunk : Bytes)
  | onMessageComplete
deriving Repr, DecidableEq

/-- The fields of the class that its callbacks read and write. `fields` and `values` are the two
arrays of `kMaxHeaderFieldsCount` strings. -/
structure Parser where
  maxHttpHeaderSize : Nat := kDefaultMaxHttpHeaderSize
  headerNread : Nat := 0
  url : Bytes := []
  statusMessage : Bytes := []
  fields : Nat → Bytes := fun _ => []
  values : Nat → Bytes := fun _ => []
  numFields : Nat := 0
  numValues : Nat := 0
  haveFlushed : Bool := false
  gotException : Bool := false
  headersCompleted : Bool := false
  chunkExtensionNread : Nat := 0
  pendingPause : Bool := false
  lastMessageStart : Nat := 0

/-- What a callback returns to llhttp. -/
inductive Code where
  | ok
  | skipBody
  | user (reason : String)
deriving Repr, DecidableEq

/-- A callback's effect: the parser, the calls it made into JavaScript and what it returned. -/
structure Effect where
  parser : Parser
  deliveries : List Delivery
  code : Code

namespace Parser

/-- `parser.initialize(type, maxHeaderSize, lenientFlags)`, without llhttp's own state. -/
def initializeParser (p : Parser) (maxHeaderSize : Nat) : Parser :=
  { p with
    maxHttpHeaderSize := maxHeaderSize, headerNread := 0, url := [], statusMessage := []
    numFields := 0, numValues := 0, haveFlushed := false, gotException := false
    headersCompleted := false, chunkExtensionNread := 0, pendingPause := false }

/-- The complete pairs in the buffer: `numValues_ < numFields_ ? numValues_ : numFields_` of them. -/
def pairs (p : Parser) : List Header :=
  (List.range (min p.numValues p.numFields)).map fun i => (p.fields i, p.values i)

/-- Flush accumulated headers to JavaScript via `kOnHeaders`. -/
def flush (p : Parser) : Parser × Delivery :=
  ({ p with url := [], numFields := 0, numValues := 0, haveFlushed := true },
    .onHeaders p.pairs p.url)

/-- Count header bytes; the message is refused when there are too many. -/
def trackHeader (p : Parser) (length : Nat) (next : Parser → Effect) : Effect :=
  let p := { p with headerNread := p.headerNread + length }
  if p.maxHttpHeaderSize ≤ p.headerNread then ⟨p, [], .user "HPE_HEADER_OVERFLOW"⟩ else next p

/-- Append to the field that is being read, starting a new one when none is. -/
def onHeaderField (p : Parser) (at_ : Bytes) : Effect :=
  p.trackHeader at_.length fun p =>
    let started : Parser × List Delivery :=
      if p.numFields = p.numValues then
        let p := { p with numFields := p.numFields + 1 }
        let flushed : Parser × List Delivery :=
          if kMaxHeaderFieldsCount < p.numFields then
            ({ p.flush.1 with numFields := 1, numValues := 0 }, [p.flush.2])
          else (p, [])
        let p := flushed.1
        (if p.numFields ≤ kMaxHeaderFieldsCount then
            { p with fields := Function.update p.fields (p.numFields - 1) [] }
          else p, flushed.2)
      else (p, [])
    let p := started.1
    ⟨if p.numFields ≤ kMaxHeaderFieldsCount then
        { p with fields := Function.update p.fields (p.numFields - 1)
                  (p.fields (p.numFields - 1) ++ at_) }
      else p, started.2, .ok⟩

/-- Append to the value that is being read, starting the value of the last field when none is. -/
def onHeaderValue (p : Parser) (at_ : Bytes) : Effect :=
  p.trackHeader at_.length fun p =>
    let p :=
      if p.numValues ≠ p.numFields then
        let p := { p with numValues := p.numValues + 1 }
        if p.numValues ≤ kMaxHeaderFieldsCount then
          { p with values := Function.update p.values (p.numValues - 1) [] }
        else p
      else p
    ⟨if p.numValues ≤ kMaxHeaderFieldsCount then
        { p with values := Function.update p.values (p.numValues - 1)
                  (p.values (p.numValues - 1) ++ at_) }
      else p, [], .ok⟩

/-- What a callback does with an exception of the JavaScript callback it called. -/
def answered (p : Parser) (deliveries : List Delivery) (answer : Answer) : Effect :=
  match answer with
  | .returned _ => ⟨p, deliveries, .ok⟩
  | .threw => ⟨{ p with gotException := true }, deliveries, .user "exception"⟩

def onMessageBegin (p : Parser) (now : Nat) (answer : Answer) : Effect :=
  answered
    { p with
      headerNread := 0, url := [], statusMessage := [], numFields := 0, numValues := 0
      haveFlushed := false, headersCompleted := false, chunkExtensionNread := 0
      lastMessageStart := now }
    [.onMessageBegin] answer

/-- Hand the headers over: the rest of them through `kOnHeaders` when some went that way before,
else all of them as an argument of `kOnHeadersComplete`. -/
def onHeadersComplete (p : Parser) (head : Head) (answer : Answer) : Effect :=
  let p := { p with headersCompleted := true }
  let flushed : Parser × List Delivery :=
    if p.haveFlushed then (p.flush.1, [p.flush.2]) else (p, [])
  let p := flushed.1
  let headers := if p.haveFlushed then none else some p.pairs
  let complete := Delivery.onHeadersComplete head.httpMajor head.httpMinor headers
    (if head.request then some (head.method, p.url) else none)
    (if head.request then none else some (head.statusCode, p.statusMessage))
    head.upgrade head.shouldKeepAlive
  let deliveries := flushed.2 ++ [complete]
  match answer with
  | .threw => ⟨{ p with gotException := true }, deliveries, .user "exception"⟩
  | .returned action =>
      if action = 1 then ⟨p, deliveries, .skipBody⟩
      else if action = 2 then ⟨{ p with pendingPause := true }, deliveries, .ok⟩
      else ⟨p, deliveries, .ok⟩

def onMessageComplete (p : Parser) (answer : Answer) : Effect :=
  let p := { p with lastMessageStart := 0 }
  -- flush any trailing headers
  let flushed : Parser × List Delivery :=
    if 0 < p.numFields then (p.flush.1, [p.flush.2]) else (p, [])
  answered flushed.1 (flushed.2 ++ [.onMessageComplete]) answer

def onChunkExtension (p : Parser) (length : Nat) : Effect :=
  let p := { p with chunkExtensionNread := p.chunkExtensionNread + length }
  if kMaxChunkExtensionsSize < p.chunkExtensionNread then
    ⟨p, [], .user "HPE_CHUNK_EXTENSIONS_OVERFLOW"⟩
  else ⟨p, [], .ok⟩

/-- The callback table of `initSettings`. -/
def on (p : Parser) : Callback → Effect
  | .messageBegin now answer => p.onMessageBegin now answer
  | .url at_ => p.trackHeader at_.length fun p => ⟨{ p with url := p.url ++ at_ }, [], .ok⟩
  | .status at_ =>
      p.trackHeader at_.length fun p =>
        ⟨{ p with statusMessage := p.statusMessage ++ at_ }, [], .ok⟩
  | .headerField at_ => p.onHeaderField at_
  | .headerValue at_ => p.onHeaderValue at_
  | .headersComplete head answer => p.onHeadersComplete head answer
  | .body at_ answer => answered p [.onBody at_] answer
  | .chunkHeader => ⟨p, [], .ok⟩
  | .chunkExtension length => p.onChunkExtension length
  | .chunkComplete => ⟨p, [], .ok⟩
  | .messageComplete answer => p.onMessageComplete answer

end Parser

/-- The arrays are filled from the front, each value behind its field. -/
structure Bounded (p : Parser) : Prop where
  values : p.numValues ≤ p.numFields
  fields : p.numFields ≤ p.numValues + 1
  room : p.numFields ≤ kMaxHeaderFieldsCount

variable {p : Parser}

theorem bounded_of_empty (hfields : p.numFields = 0) (hvalues : p.numValues = 0) : Bounded p := by
  constructor
  all_goals omega

theorem Bounded.answered (h : Bounded p) (deliveries : List Delivery) (answer : Answer) :
    Bounded (Parser.answered p deliveries answer).parser := by
  cases answer with
  | returned action => exact h
  | threw => exact ⟨h.values, h.fields, h.room⟩

theorem Bounded.on (h : Bounded p) (c : Callback) : Bounded (p.on c).parser := by
  have hmax : 1 ≤ kMaxHeaderFieldsCount := by decide
  have hkept := h
  obtain ⟨hvalues, hfields, hroom⟩ := h
  cases c with
  | messageBegin now answer => exact (bounded_of_empty rfl rfl).answered _ _
  | body at_ answer => exact hkept.answered _ _
  | chunkHeader | chunkComplete => exact hkept
  | url at_ | status at_ | chunkExtension length =>
      simp only [Parser.on, Parser.trackHeader, Parser.onChunkExtension]
      split
      · exact ⟨hvalues, hfields, hroom⟩
      · exact ⟨hvalues, hfields, hroom⟩
  | headerField at_ =>
      simp only [Parser.on, Parser.onHeaderField, Parser.trackHeader, Parser.flush]
      split_ifs
      all_goals
        constructor
        all_goals
          dsimp only at *
          omega
  | headerValue at_ =>
      simp only [Parser.on, Parser.onHeaderValue, Parser.trackHeader]
      split_ifs
      all_goals
        constructor
        all_goals
          dsimp only at *
          omega
  | headersComplete head answer =>
      simp only [Parser.on, Parser.onHeadersComplete]
      cases p.haveFlushed with
      | true =>
          cases answer with
          | threw => exact bounded_of_empty rfl rfl
          | returned action =>
              simp only [if_true]
              split_ifs
              all_goals exact bounded_of_empty rfl rfl
      | false =>
          cases answer with
          | threw => exact ⟨hvalues, hfields, hroom⟩
          | returned action =>
              simp only [Bool.false_eq_true, if_false]
              split_ifs
              all_goals exact ⟨hvalues, hfields, hroom⟩
  | messageComplete answer =>
      have hkept' : Bounded { p with lastMessageStart := 0 } := ⟨hvalues, hfields, hroom⟩
      simp only [Parser.on, Parser.onMessageComplete]
      split
      · exact (bounded_of_empty rfl rfl).answered _ _
      · exact hkept'.answered _ _

/-- Whatever llhttp calls in whatever order and however it cuts the spans, the counts stay inside the
arrays. -/
theorem headers_bounded (p : Parser) (maxHeaderSize : Nat) (cs : List Callback) :
    Bounded (cs.foldl (fun p c => (p.on c).parser) (p.initializeParser maxHeaderSize)) := by
  have hall : ∀ p : Parser, Bounded p → Bounded (cs.foldl (fun p c => (p.on c).parser) p) := by
    induction cs with
    | nil => exact fun p h => h
    | cons c cs ih => exact fun p h => ih _ (h.on c)
  exact hall _ (bounded_of_empty rfl rfl)

end HermesNode.Http
