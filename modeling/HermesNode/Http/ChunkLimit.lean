/-
Module: HermesNode.Http.ChunkLimit
Purpose: When a chunked message is refused for its chunk extensions. llhttp reports the names and
  values of a chunk's extensions in pieces and then the chunk's header; `sOnChunkExtension` counts the
  bytes of all of them from the start of the message, since `sOnChunkHeader` leaves the counter alone.
  So the limit falls on the message: one chunk too long is always reported, and many short ones are
  reported as well once they add up.
Trusted boundary: none
Main exports: stops, Made, chunkLimit_iff
-/
import HermesNode.Http.Parser
import Mathlib.Algebra.Order.BigOperators.Group.List
import Mathlib.Algebra.Order.Group.Nat

namespace HermesNode.Http

def overflowReason : String := "HPE_CHUNK_EXTENSIONS_OVERFLOW"

/-- The reason of the first callback that makes llhttp stop. -/
def stops (p : Parser) : List Callback → Option String
  | [] => none
  | c :: cs =>
      match (p.on c).code with
      | .user reason => some reason
      | .ok | .skipBody => stops (p.on c).parser cs

/-- llhttp made these callbacks: there is none behind one that stopped it. -/
def Made (p : Parser) : List Callback → Prop
  | [] => True
  | c :: cs => ((∃ reason, (p.on c).code = .user reason) → cs = []) ∧ Made (p.on c).parser cs

def Callback.isMessageBegin : Callback → Bool
  | .messageBegin _ _ => true
  | _ => false

/-- The extension bytes a callback reports. -/
def Callback.extensionBytes : Callback → Nat
  | .chunkExtension length => length
  | _ => 0

/-- The extension bytes of each chunk, the one being read last. The header of a chunk follows its
extensions. -/
def chunkExtensions : List Callback → List Nat
  | [] => [0]
  | c :: cs =>
      match c with
      | .chunkHeader => 0 :: chunkExtensions cs
      | _ => (chunkExtensions cs).modifyHead (c.extensionBytes + ·)

/-- A chunk as llhttp reports it: its extensions in pieces, its header, its data in pieces. -/
structure Chunk where
  extensions : List Nat
  body : List (Bytes × Answer)
deriving Repr, DecidableEq

def Chunk.callbacks (chunk : Chunk) : List Callback :=
  chunk.extensions.map Callback.chunkExtension ++ .chunkHeader ::
    (chunk.body.map fun piece => Callback.body piece.1 piece.2) ++ [.chunkComplete]

/-! ### The chunks of a message -/

theorem chunkExtensions_ne_nil (cs : List Callback) : chunkExtensions cs ≠ [] := by
  induction cs with
  | nil => simp [chunkExtensions]
  | cons c cs ih => cases c <;> simp [chunkExtensions, ih]

theorem chunkExtensions_cons {c : Callback} (hheader : c ≠ .chunkHeader) (cs : List Callback) :
    chunkExtensions (c :: cs) = (chunkExtensions cs).modifyHead (c.extensionBytes + ·) := by
  cases c with
  | chunkHeader => exact absurd rfl hheader
  | _ => rfl

@[simp]
theorem modifyHead_zero_add (sizes : List Nat) : sizes.modifyHead (0 + ·) = sizes := by
  cases sizes <;> simp

theorem modifyHead_add (m n : Nat) (sizes : List Nat) :
    (sizes.modifyHead (n + ·)).modifyHead (m + ·) = sizes.modifyHead (m + n + ·) := by
  cases sizes <;> simp [Nat.add_assoc]

theorem sum_modifyHead_add (n : Nat) {sizes : List Nat} (hne : sizes ≠ []) :
    (sizes.modifyHead (n + ·)).sum = n + sizes.sum := by
  cases sizes with
  | nil => exact absurd rfl hne
  | cons size sizes => simp [Nat.add_assoc]

/-- A callback that reports no extension and no header belongs to the chunk being read. -/
theorem chunkExtensions_skip {c : Callback} (hheader : c ≠ .chunkHeader)
    (hext : c.extensionBytes = 0) (cs : List Callback) :
    chunkExtensions (c :: cs) = chunkExtensions cs := by
  rw [chunkExtensions_cons hheader, hext, modifyHead_zero_add]

theorem chunkExtensions_sum (cs : List Callback) :
    (chunkExtensions cs).sum = (cs.map Callback.extensionBytes).sum := by
  induction cs with
  | nil => rfl
  | cons c cs ih =>
      rw [List.map_cons, List.sum_cons, ← ih]
      by_cases hheader : c = .chunkHeader
      · subst hheader
        simp [chunkExtensions, Callback.extensionBytes]
      · rw [chunkExtensions_cons hheader, sum_modifyHead_add _ (chunkExtensions_ne_nil cs)]

theorem chunkExtensions_pieces (pieces : List Nat) (cs : List Callback) :
    chunkExtensions (pieces.map Callback.chunkExtension ++ cs) =
      (chunkExtensions cs).modifyHead (pieces.sum + ·) := by
  induction pieces with
  | nil => exact (modifyHead_zero_add _).symm
  | cons piece pieces ih =>
      rw [List.map_cons, List.cons_append, chunkExtensions_cons (by simp), ih, modifyHead_add,
        List.sum_cons]
      rfl

theorem chunkExtensions_body (body : List (Bytes × Answer)) (cs : List Callback) :
    chunkExtensions ((body.map fun piece => Callback.body piece.1 piece.2) ++ cs) =
      chunkExtensions cs := by
  induction body with
  | nil => rfl
  | cons piece body ih =>
      rw [List.map_cons, List.cons_append, chunkExtensions_skip (by simp) rfl, ih]

/-- However the extensions of the chunks are cut into pieces, `chunkExtensions` has their totals. -/
theorem chunkExtensions_chunks (chunks : List Chunk) :
    chunkExtensions (chunks.flatMap Chunk.callbacks) =
      chunks.map (fun chunk => chunk.extensions.sum) ++ [0] := by
  induction chunks with
  | nil => rfl
  | cons chunk chunks ih =>
      have hheader : ∀ cs, chunkExtensions (.chunkHeader :: cs) = 0 :: chunkExtensions cs :=
        fun _ => rfl
      rw [List.flatMap_cons, Chunk.callbacks]
      simp only [List.append_assoc, List.cons_append, List.nil_append]
      rw [chunkExtensions_pieces, hheader, chunkExtensions_body,
        chunkExtensions_skip (by simp) rfl, ih]
      simp

/-! ### What is counted -/

theorem trackHeader_counter (p : Parser) (length : Nat) (next : Parser → Effect)
    (hnext : ∀ q, (next q).parser.chunkExtensionNread = q.chunkExtensionNread) :
    (p.trackHeader length next).parser.chunkExtensionNread = p.chunkExtensionNread := by
  unfold Parser.trackHeader
  dsimp only
  split
  · rfl
  · rw [hnext]

theorem trackHeader_reason (p : Parser) (length : Nat) (next : Parser → Effect)
    (hnext : ∀ q, (next q).code = .ok) :
    (p.trackHeader length next).code ≠ .user overflowReason := by
  unfold Parser.trackHeader
  dsimp only
  split
  · simp [overflowReason]
  · simp [hnext]

theorem answered_counter (p : Parser) (deliveries : List Delivery) (answer : Answer) :
    (Parser.answered p deliveries answer).parser.chunkExtensionNread = p.chunkExtensionNread := by
  cases answer with
  | returned action => rfl
  | threw => rfl

theorem answered_reason (p : Parser) (deliveries : List Delivery) (answer : Answer) :
    (Parser.answered p deliveries answer).code ≠ .user overflowReason := by
  cases answer with
  | returned action => simp [Parser.answered]
  | threw => simp [Parser.answered, overflowReason]

theorem onHeaderField_counter (p : Parser) (at_ : Bytes) :
    (p.onHeaderField at_).parser.chunkExtensionNread = p.chunkExtensionNread := by
  apply trackHeader_counter
  intro q
  dsimp only
  repeat' split
  all_goals rfl

theorem onHeaderValue_counter (p : Parser) (at_ : Bytes) :
    (p.onHeaderValue at_).parser.chunkExtensionNread = p.chunkExtensionNread := by
  apply trackHeader_counter
  intro q
  dsimp only
  repeat' split
  all_goals rfl

theorem onHeadersComplete_counter (p : Parser) (head : Head) (answer : Answer) :
    (p.onHeadersComplete head answer).parser.chunkExtensionNread = p.chunkExtensionNread := by
  unfold Parser.onHeadersComplete
  dsimp only
  repeat' split
  all_goals rfl

theorem onHeadersComplete_reason (p : Parser) (head : Head) (answer : Answer) :
    (p.onHeadersComplete head answer).code ≠ .user overflowReason := by
  unfold Parser.onHeadersComplete
  dsimp only
  repeat' split
  all_goals simp [overflowReason]

/-- A callback adds the extension bytes it reports; only the start of a message resets the
counter. -/
theorem on_counter (p : Parser) {c : Callback} (hbegin : c.isMessageBegin = false) :
    (p.on c).parser.chunkExtensionNread = p.chunkExtensionNread + c.extensionBytes := by
  cases c with
  | messageBegin now answer => cases hbegin
  | url at_ => exact trackHeader_counter _ _ _ fun _ => rfl
  | status at_ => exact trackHeader_counter _ _ _ fun _ => rfl
  | headerField at_ => exact onHeaderField_counter p at_
  | headerValue at_ => exact onHeaderValue_counter p at_
  | headersComplete head answer => exact onHeadersComplete_counter p head answer
  | body at_ answer => exact answered_counter _ _ _
  | chunkHeader => rfl
  | chunkExtension length =>
      simp only [Parser.on, Parser.onChunkExtension, Callback.extensionBytes]
      split <;> rfl
  | chunkComplete => rfl
  | messageComplete answer =>
      simp only [Parser.on, Parser.onMessageComplete, answered_counter, Callback.extensionBytes]
      split <;> rfl

/-- Only an extension is refused as one too many, and only once the counter passes the limit. -/
theorem on_reason (p : Parser) (c : Callback) :
    (p.on c).code = .user overflowReason ↔
      kMaxChunkExtensionsSize < p.chunkExtensionNread + c.extensionBytes ∧
        ∃ length, c = .chunkExtension length := by
  have hnever : (∀ length, c ≠ .chunkExtension length) →
      (p.on c).code ≠ .user overflowReason := by
    intro hother
    cases c with
    | messageBegin now answer => exact answered_reason _ _ _
    | url at_ => exact trackHeader_reason _ _ _ fun _ => rfl
    | status at_ => exact trackHeader_reason _ _ _ fun _ => rfl
    | headerField at_ => exact trackHeader_reason _ _ _ fun _ => rfl
    | headerValue at_ => exact trackHeader_reason _ _ _ fun _ => rfl
    | headersComplete head answer => exact onHeadersComplete_reason p head answer
    | body at_ answer => exact answered_reason _ _ _
    | chunkHeader => simp [Parser.on]
    | chunkExtension length => exact absurd rfl (hother length)
    | chunkComplete => simp [Parser.on]
    | messageComplete answer => exact answered_reason _ _ _
  by_cases hext : ∃ length, c = .chunkExtension length
  · obtain ⟨length, rfl⟩ := hext
    simp only [Parser.on, Parser.onChunkExtension, Callback.extensionBytes]
    split
    · simp [overflowReason, *]
    · simp [*]
  · refine iff_of_false (hnever fun length heq => hext ⟨length, heq⟩) ?_
    intro h
    exact hext h.2

/-- Within a message llhttp is told of an overflow exactly when the extensions of all its chunks
together pass the limit. -/
theorem stops_iff_overflow {p : Parser} {cs : List Callback}
    (hone : ∀ c ∈ cs, c.isMessageBegin = false) (hmade : Made p cs)
    (hcount : p.chunkExtensionNread ≤ kMaxChunkExtensionsSize) :
    stops p cs = some overflowReason ↔
      kMaxChunkExtensionsSize < p.chunkExtensionNread + (cs.map Callback.extensionBytes).sum := by
  induction cs generalizing p with
  | nil =>
      refine iff_of_false (by simp [stops]) ?_
      simpa using hcount
  | cons c cs ih =>
      have hstep := on_counter p (hone c (by simp))
      have hreason := on_reason p c
      rw [List.map_cons, List.sum_cons, ← Nat.add_assoc]
      unfold stops
      cases hcode : (p.on c).code with
      | user reason =>
          -- nothing follows a callback that stops llhttp
          have hlast : cs = [] := hmade.1 ⟨reason, hcode⟩
          subst hlast
          simp only [Option.some.injEq, List.map_nil, List.sum_nil, Nat.add_zero]
          rw [hcode, Code.user.injEq] at hreason
          rw [hreason, and_iff_left_iff_imp]
          intro hover
          cases c with
          | chunkExtension length => exact ⟨length, rfl⟩
          | _ => exact absurd hover (Nat.not_lt.mpr (by simpa [Callback.extensionBytes] using hcount))
      | ok | skipBody =>
          have hwithin : p.chunkExtensionNread + c.extensionBytes ≤ kMaxChunkExtensionsSize := by
            rw [hcode] at hreason
            by_contra hover
            refine absurd (hreason.mpr ⟨Nat.lt_of_not_le hover, ?_⟩) (by simp)
            cases c with
            | chunkExtension length => exact ⟨length, rfl⟩
            | _ => exact absurd hcount (by simpa [Callback.extensionBytes] using hover)
          have hrest := ih (fun d hd => hone d (List.mem_cons_of_mem _ hd)) hmade.2
            (by rw [hstep]; exact hwithin)
          rw [hstep] at hrest
          exact hrest

/-! ### The limit per chunk -/

/-- The limit is one on each chunk: no message without an excessive chunk is refused for its
extensions, and every message with one is. -/
def LimitPerChunk (p : Parser) (cs : List Callback) : Prop :=
  ((∀ size ∈ chunkExtensions cs, size ≤ kMaxChunkExtensionsSize) → stops p cs ≠ some overflowReason) ∧
    ((∃ size ∈ chunkExtensions cs, kMaxChunkExtensionsSize < size) →
      stops p cs = some overflowReason)

/-- Whatever the parser did before a message began, and however the message is cut into callbacks:
the limit is one per chunk exactly when the extensions of all chunks stay within it together, or
those of some chunk alone do not. -/
theorem chunkLimit_iff {p : Parser} {now : Nat} {answer : Answer} {cs : List Callback}
    (hone : ∀ c ∈ cs, c.isMessageBegin = false) (hmade : Made p (.messageBegin now answer :: cs)) :
    LimitPerChunk p (.messageBegin now answer :: cs) ↔
      (chunkExtensions cs).sum ≤ kMaxChunkExtensionsSize ∨
        ∃ size ∈ chunkExtensions cs, kMaxChunkExtensionsSize < size := by
  have hsizes : chunkExtensions (.messageBegin now answer :: cs) = chunkExtensions cs :=
    chunkExtensions_skip (by simp) rfl cs
  have hreported : stops p (.messageBegin now answer :: cs) = some overflowReason ↔
      kMaxChunkExtensionsSize < (chunkExtensions cs).sum := by
    rw [chunkExtensions_sum]
    unfold stops
    cases hcode : (p.on (.messageBegin now answer)).code with
    | user reason =>
        have hlast : cs = [] := hmade.1 ⟨reason, hcode⟩
        subst hlast
        refine iff_of_false ?_ (by simp)
        have hother : (p.on (.messageBegin now answer)).code ≠ .user overflowReason :=
          answered_reason _ _ _
        simpa [hcode] using hother
    | ok | skipBody =>
        have hreset : (p.on (.messageBegin now answer)).parser.chunkExtensionNread = 0 :=
          answered_counter _ _ _
        have hrest := stops_iff_overflow hone hmade.2 (by rw [hreset]; exact Nat.zero_le _)
        rw [hreset, Nat.zero_add] at hrest
        exact hrest
  unfold LimitPerChunk
  rw [hsizes, ne_eq, hreported, Nat.not_lt]
  by_cases hover : ∃ size ∈ chunkExtensions cs, kMaxChunkExtensionsSize < size
  · obtain ⟨size, hsize, hlong⟩ := hover
    refine iff_of_true ⟨?_, fun _ => Nat.lt_of_lt_of_le hlong (List.le_sum_of_mem hsize)⟩
      (Or.inr ⟨size, hsize, hlong⟩)
    intro hwithin
    exact absurd (hwithin size hsize) (Nat.not_le.mpr hlong)
  · have hwithin : ∀ size ∈ chunkExtensions cs, size ≤ kMaxChunkExtensionsSize := by
      intro size hsize
      exact Nat.not_lt.mp fun hlong => hover ⟨size, hsize, hlong⟩
    constructor
    · intro h
      exact Or.inl (h.1 hwithin)
    · intro h
      refine ⟨fun _ => h.resolve_right hover, fun hlong => absurd hlong hover⟩

/-- A message of two chunks, each of them with extensions in two pieces. -/
def twoChunks (piece : Nat) : List Callback :=
  [⟨[piece, piece], [([104, 105], .returned 0)]⟩, ⟨[piece, piece], []⟩].flatMap Chunk.callbacks

theorem twoChunks_sizes (piece : Nat) :
    chunkExtensions (twoChunks piece) = [piece + piece, piece + piece, 0] := by
  rw [twoChunks, chunkExtensions_chunks]
  simp

theorem twoChunks_one (piece : Nat) : ∀ c ∈ twoChunks piece, c.isMessageBegin = false := by
  simp [twoChunks, Chunk.callbacks, Callback.isMessageBegin]

/-- With pieces of 4096 bytes the two chunks together just fill the limit. -/
theorem twoChunks_within :
    LimitPerChunk {} (.messageBegin 7 (.returned 0) :: twoChunks 4096) := by
  refine (chunkLimit_iff (twoChunks_one 4096) ?_).mpr (Or.inl ?_)
  · simp [Made, twoChunks, Chunk.callbacks, Parser.on, Parser.onMessageBegin, Parser.answered,
      Parser.onChunkExtension, kMaxChunkExtensionsSize]
  · simp [twoChunks_sizes, kMaxChunkExtensionsSize]

/-- Two chunks of 16000 bytes of extensions each are refused, although the limit is 16384. -/
theorem chunkLimit_not_per_chunk :
    ∃ cs, (∀ c ∈ cs, c.isMessageBegin = false) ∧
      (∀ size ∈ chunkExtensions cs, size ≤ kMaxChunkExtensionsSize) ∧
      stops {} (.messageBegin 7 (.returned 0) :: cs) = some overflowReason := by
  refine ⟨twoChunks 8000, twoChunks_one 8000, ?_, ?_⟩
  · simp [twoChunks_sizes, kMaxChunkExtensionsSize]
  · simp [stops, twoChunks, Chunk.callbacks, Parser.on, Parser.onMessageBegin, Parser.answered,
      Parser.onChunkExtension, kMaxChunkExtensionsSize, overflowReason]

end HermesNode.Http
