/-
Module: HermesNode.Bindings.SpawnSyncLaws
Purpose: What a run of `spawnSync` should come to, computed from the options, libuv's answers and its
  callbacks alone, and what the runner keeps in every callback: its fields, its blocks and what it asks
  of libuv are what that computation says.
Trusted boundary: none
Main exports: Course, course, expected, Ledger, Inv.step
-/
import HermesNode.Bindings.SpawnSync

namespace HermesNode.SpawnSync

/-! ### What a run should come to -/

/-- The bytes an event delivers on a pipe. -/
def Event.bytesOn (i : Nat) : Event → Bytes
  | .read j bytes _ => if i = j then bytes else []
  | _ => []

/-- The bytes libuv delivers on a pipe, one event after the other. -/
def delivered (i : Nat) (events : List Event) : Bytes := events.flatMap (Event.bytesOn i)

structure Course where
  /-- The handles that libuv initializes. -/
  opened : List Handle := []
  heard : Nat → Bytes := fun _ => []
  totalRead : Nat := 0
  /-- The status and the signal the child exits with. -/
  exit : Option (Int × Int) := none
  /-- There was a reason to kill the child. -/
  killed : Bool := false
  signals : List Int := []
  runnerErrors : List Int := []
  pipeErrors : List Int := []
  /-- A read passed the limit, and the runner had no error before. -/
  overflowed : Bool := false

namespace Course

def fail (code : Int) (c : Course) : Course := { c with runnerErrors := c.runnerErrors ++ [code] }

/-- The result of a request, which is an error of a pipe or none. -/
def result (status : Int) (c : Course) : Course :=
  if status < 0 then { c with pipeErrors := c.pipeErrors ++ [status] } else c

/-- The child is sent its signal, and the stronger one where that fails. -/
def signal (options : Options) (killResult : Int) (c : Course) : Course :=
  let c := { c with signals := c.signals ++ [options.killSignal] }
  if killResult < 0 ∧ killResult ≠ UV_ESRCH then
    { c.fail killResult with signals := c.signals ++ [SIGKILL] }
  else c

/-- The first time there is a reason, a child that has not exited is killed. -/
def kill (options : Options) (killResult : Int) (c : Course) : Course :=
  if c.killed then c
  else if c.exit.isSome then { c with killed := true }
  else { c with killed := true }.signal options killResult

def hear (i : Nat) (bytes : Bytes) (c : Course) : Course :=
  { c with
    heard := fun j => c.heard j ++ if j = i then bytes else []
    totalRead := c.totalRead + bytes.length }

def next (options : Options) (c : Course) : Event → Course
  | .read i bytes killResult =>
      let c := c.hear i bytes
      if options.maxBuffer.exceeded c.totalRead then
        ({ c with overflowed := c.overflowed || c.runnerErrors.isEmpty }.fail UV_ENOBUFS).kill options
          killResult
      else c
  | .eof _ _ => c
  | .readError _ _ error => c.result error
  | .writeDone _ status => c.result status
  | .shutdownDone _ status => c.result (if status = UV_ENOTCONN then 0 else status)
  | .exit exitStatus termSignal => { c with exit := some (exitStatus, termSignal) }
  | .timeout killResult => (c.fail UV_ETIMEDOUT).kill options killResult

end Course

/-- The pipes that are initialized: those before the first one that fails. -/
def openedPipes (answers : Answers) (stdio : List (Option PipeOptions)) (indices : List Nat) :
    List Nat :=
  (indices.filter fun i => (stdio.getD i none).isSome).takeWhile fun i => 0 ≤ answers.pipeInit i

/-- The first error of a call that is made for every pipe. -/
def firstError (code : Nat → PipeOptions → Int) (stdio : List (Option PipeOptions))
    (indices : List Nat) : List Int :=
  ((indices.filterMap fun i => (stdio.getD i none).map (code i)).find? (· < 0)).toList

/-- The answer to the first request of a pipe that fails. -/
def PipeOptions.startError (answers : Answers) (i : Nat) (p : PipeOptions) : Int :=
  if p.readable ∧ 0 < p.inputLength ∧ answers.write i < 0 then answers.write i
  else if p.readable ∧ answers.shutdown i < 0 then answers.shutdown i
  else if p.writable ∧ answers.readStart i < 0 then answers.readStart i
  else 0

namespace Course

/-- The options are parsed. -/
def parsed (options : Options) : Course :=
  { runnerErrors := if options.stdio.isNone then [UV_EINVAL] else [] }

def initializePipes (answers : Answers) (stdio : List (Option PipeOptions)) (indices : List Nat)
    (c : Course) : Course :=
  { c with
    opened := c.opened ++ (openedPipes answers stdio indices).map .pipe
    pipeErrors := c.pipeErrors ++ firstError (fun i _ => answers.pipeInit i) stdio indices }

def startTimer (options : Options) (answers : Answers) (c : Course) : Course :=
  if c.runnerErrors = [] ∧ 0 < options.timeout then
    if answers.timerInit < 0 then c.fail answers.timerInit
    else
      let c : Course := { c with opened := c.opened ++ [.timer] }
      if answers.timerStart < 0 then c.fail answers.timerStart else c
  else c

def startPipes (answers : Answers) (stdio : List (Option PipeOptions)) (indices : List Nat)
    (c : Course) : Course :=
  { c with pipeErrors := c.pipeErrors ++ firstError (PipeOptions.startError answers) stdio indices }

def spawn (answers : Answers) (stdio : List (Option PipeOptions)) (indices : List Nat) (c : Course) :
    Course :=
  if c.runnerErrors = [] ∧ c.pipeErrors = [] then
    let c : Course := { c with opened := c.opened ++ [.process] }
    if answers.spawn < 0 then c.fail answers.spawn else c.startPipes answers stdio indices
  else c

end Course

/-- Before the loop is run. -/
def beginning (options : Options) (answers : Answers) : Course :=
  if answers.loopInit < 0 then (Course.parsed options).fail answers.loopInit
  else
    let stdio := options.stdio.getD []
    let indices := List.range stdio.length
    (((Course.parsed options).initializePipes answers stdio indices).startTimer options answers).spawn
      answers stdio indices

def course (options : Options) (answers : Answers) (events : List Event) : Course :=
  events.foldl (Course.next options) (beginning options answers)

/-- The result that is due. -/
def expected (options : Options) (answers : Answers) (events : List Event) : Result :=
  let c := course options answers events
  { error := (c.runnerErrors ++ c.pipeErrors).head?
    status := c.exit.bind fun e => if e.2 ≤ 0 then some e.1 else none
    signal := c.exit.bind fun e => if 0 < e.2 then some e.2 else none
    output := c.exit.map fun _ =>
      (options.stdio.getD []).mapIdx fun i pipe =>
        pipe.bind fun p => if p.writable then some (delivered i events) else none }

/-! ### Laws of the course -/

theorem kill_keeps (options : Options) (killResult : Int) (c : Course) :
    (c.kill options killResult).opened = c.opened ∧ (c.kill options killResult).heard = c.heard := by
  unfold Course.kill Course.signal
  dsimp only
  split_ifs <;> exact ⟨rfl, rfl⟩

theorem result_keeps (status : Int) (c : Course) :
    (c.result status).opened = c.opened ∧ (c.result status).heard = c.heard := by
  unfold Course.result
  split <;> exact ⟨rfl, rfl⟩

/-- A callback opens nothing, and what is heard on a pipe is what it delivers there. -/
theorem next_keeps (options : Options) (c : Course) (e : Event) :
    (c.next options e).opened = c.opened ∧
      ∀ i, (c.next options e).heard i = c.heard i ++ e.bytesOn i := by
  cases e with
  | read j bytes killResult =>
      unfold Course.next
      dsimp only
      split
      · rw [(kill_keeps _ _ _).1, (kill_keeps _ _ _).2]
        exact ⟨rfl, fun _ => rfl⟩
      · exact ⟨rfl, fun _ => rfl⟩
  | eof | exit => exact ⟨rfl, fun _ => (List.append_nil _).symm⟩
  | readError | writeDone | shutdownDone =>
      rw [Course.next, (result_keeps _ _).1, (result_keeps _ _).2]
      exact ⟨rfl, fun _ => (List.append_nil _).symm⟩
  | timeout =>
      rw [Course.next, (kill_keeps _ _ _).1, (kill_keeps _ _ _).2]
      exact ⟨rfl, fun _ => (List.append_nil _).symm⟩

theorem foldl_keeps (options : Options) (events : List Event) (c : Course) :
    (events.foldl (Course.next options) c).opened = c.opened ∧
      ∀ i, (events.foldl (Course.next options) c).heard i = c.heard i ++ delivered i events := by
  induction events generalizing c with
  | nil => exact ⟨rfl, fun _ => (List.append_nil _).symm⟩
  | cons e events ih =>
      rcases next_keeps options c e with ⟨hopened, hheard⟩
      rcases ih (c.next options e) with ⟨hopened', hheard'⟩
      refine ⟨hopened'.trans hopened, fun i => ?_⟩
      have hcons : delivered i (e :: events) = e.bytesOn i ++ delivered i events := List.flatMap_cons
      rw [List.foldl_cons, hheard', hheard, hcons, List.append_assoc]

/-- No child is killed twice, and the limit is the first error of the runner where a read passed it
first, or where it was from the beginning. -/
structure Course.Sound (options : Options) (first : Option Int) (c : Course) : Prop where
  unkilled : c.killed = false → c.signals = []
  signals : c.signals = [] ∨ c.signals = [options.killSignal] ∨
    c.signals = [options.killSignal, SIGKILL]
  overflow : c.runnerErrors.head? = some UV_ENOBUFS ↔ c.overflowed = true ∨ first = some UV_ENOBUFS

namespace Course.Sound

variable {options : Options} {first : Option Int} {c : Course}

theorem fail (h : c.Sound options first) {code : Int}
    (hcode : c.runnerErrors = [] → code ≠ UV_ENOBUFS) : (c.fail code).Sound options first := by
  refine { h with overflow := ?_ }
  rw [Course.fail, ← h.overflow]
  cases herrors : c.runnerErrors with
  | nil => simpa using hcode herrors
  | cons e errors => rfl

theorem result (h : c.Sound options first) (status : Int) : (c.result status).Sound options first := by
  unfold Course.result
  split
  · exact { h with }
  · exact h

theorem kill (h : c.Sound options first) (hfailed : c.runnerErrors ≠ []) (killResult : Int) :
    (c.kill options killResult).Sound options first := by
  unfold Course.kill
  split
  · exact h
  · rename_i hkilled
    have hnone := h.unkilled (Bool.eq_false_iff.mpr hkilled)
    split
    · exact { h with unkilled := fun hfalse => Bool.noConfusion hfalse }
    · unfold Course.signal
      dsimp only
      rw [hnone]
      split
      · have hfail := @fail _ _ _ h killResult fun hnil => absurd hnil hfailed
        exact { hfail with
          unkilled := fun hfalse => Bool.noConfusion hfalse
          signals := .inr (.inr rfl) }
      · exact { h with
          unkilled := fun hfalse => Bool.noConfusion hfalse
          signals := .inr (.inl rfl) }

theorem fail_ne_nil (code : Int) : (c.fail code).runnerErrors ≠ [] := by simp [Course.fail]

theorem next (h : c.Sound options first) (e : Event) : (c.next options e).Sound options first := by
  cases e with
  | read i bytes killResult =>
      have hheard : (c.hear i bytes).Sound options first := { h with }
      unfold Course.next
      dsimp only
      split
      · have hover : (Course.fail UV_ENOBUFS { c.hear i bytes with
            overflowed := (c.hear i bytes).overflowed || (c.hear i bytes).runnerErrors.isEmpty }).Sound
            options first := by
          refine { hheard with overflow := ?_ }
          have hoverflow := h.overflow
          cases herrors : c.runnerErrors with
          | nil => simp [Course.fail, Course.hear, herrors]
          | cons e errors => simpa [Course.fail, Course.hear, herrors] using hoverflow
        exact hover.kill (fail_ne_nil _) killResult
      · exact hheard
  | eof => exact h
  | readError | writeDone | shutdownDone => exact h.result _
  | exit => exact { h with }
  | timeout killResult => exact (h.fail fun _ => by decide).kill (fail_ne_nil _) killResult

theorem foldl (h : c.Sound options first) (events : List Event) :
    (events.foldl (Course.next options) c).Sound options first := by
  induction events generalizing c with
  | nil => exact h
  | cons e events ih => exact ih (h.next e)

end Course.Sound

/-! ### What a log amounts to -/

def Event.isExit : Event → Bool
  | .exit _ _ => true
  | _ => false

/-- The accounts of a log. -/
structure Ledger where
  callbacks : List Event := []
  closed : Handle → Nat := fun _ => 0
  /-- A target reached beyond its block. -/
  overrun : Bool := false
  signals : List Int := []
  exited : Bool := false
  /-- A signal was sent behind the exit callback. -/
  lateSignal : Bool := false

def Ledger.add (a : Ledger) : Act → Ledger
  | .callback e => { a with callbacks := a.callbacks ++ [e], exited := a.exited || e.isExit }
  | .closed handle => { a with closed := fun h => if h = handle then a.closed h + 1 else a.closed h }
  | .target target =>
      { a with overrun := a.overrun || decide (kOutputBufferSize < target.offset + target.length) }
  | .signalled signal =>
      { a with signals := a.signals ++ [signal], lateSignal := a.lateSignal || a.exited }

def account (log : List Act) : Ledger := log.foldl Ledger.add {}

theorem account_append (log : List Act) (act : Act) :
    account (log ++ [act]) = (account log).add act :=
  List.foldl_append

/-! ### The blocks of a pipe -/

/-- A block of its size, whose bytes up to `used` are in use. -/
structure OutputBuffer.Sound (b : OutputBuffer) : Prop where
  size : b.data.length = kOutputBufferSize
  used : b.used ≤ kOutputBufferSize

def StdioPipe.Sound (p : StdioPipe) : Prop := ∀ b ∈ p.fullOutputs ++ p.lastOutput.toList, b.Sound

theorem OutputBuffer.fresh_sound : OutputBuffer.fresh.Sound :=
  ⟨List.length_replicate, Nat.zero_le _⟩

/-- A read target is in its block. -/
theorem OutputBuffer.onAlloc_le {b : OutputBuffer} (h : b.Sound) :
    b.onAlloc.offset + b.onAlloc.length ≤ kOutputBufferSize := by
  unfold onAlloc
  have hused := h.used
  split
  · exact Nat.zero_le _
  · dsimp only
    omega

/-- Bytes that fit are the next ones of the block. -/
theorem OutputBuffer.read_sound {b : OutputBuffer} {bytes : Bytes} (h : b.Sound)
    (hfit : bytes.length ≤ b.onAlloc.length) :
    ((b.write b.onAlloc.offset bytes).onRead bytes.length).Sound ∧
      ((b.write b.onAlloc.offset bytes).onRead bytes.length).data.take (b.used + bytes.length) =
        b.data.take b.used ++ bytes := by
  unfold onAlloc at hfit ⊢
  have hsize := h.size
  have hused := h.used
  split at hfit
  · rename_i hfull
    rw [if_pos hfull]
    cases List.length_eq_zero_iff.mp (Nat.le_zero.mp hfit)
    have hsame : (b.write 0 []).onRead 0 = b := by simp [write, onRead]
    rw [List.length_nil, Nat.add_zero, List.append_nil, hsame]
    exact ⟨h, rfl⟩
  · rename_i hroom
    rw [if_neg hroom]
    dsimp only at hfit ⊢
    refine ⟨⟨?_, ?_⟩, ?_⟩
    · simp only [write, onRead, List.length_append, List.length_take, List.length_drop]
      omega
    · simp only [write, onRead]
      omega
    · have hlength : (b.data.take b.used ++ bytes).length = b.used + bytes.length := by
        simp only [List.length_append, List.length_take]
        omega
      simp only [write, onRead]
      rw [← hlength, List.take_left]

theorem StdioPipe.onAlloc_spec {p : StdioPipe} (h : p.Sound) :
    p.onAlloc.Sound ∧ p.onAlloc.copyOutput = p.copyOutput ∧
      ∃ block, p.onAlloc.lastOutput = some block := by
  unfold onAlloc
  cases hlast : p.lastOutput with
  | none =>
      refine ⟨?_, ?_, _, rfl⟩
      · intro b hb
        simp only [Option.toList_some, List.mem_append, List.mem_singleton] at hb
        rcases hb with hb | rfl
        · exact h b (List.mem_append_left _ hb)
        · exact OutputBuffer.fresh_sound
      · simp [copyOutput, hlast, OutputBuffer.fresh]
  | some block =>
      dsimp only
      split
      · refine ⟨?_, ?_, _, rfl⟩
        · intro b hb
          simp only [Option.toList_some, List.mem_append, List.mem_singleton] at hb
          rcases hb with (hb | rfl) | rfl
          · exact h b (List.mem_append_left _ hb)
          · exact h b (by simp [hlast])
          · exact OutputBuffer.fresh_sound
        · simp [copyOutput, hlast, OutputBuffer.fresh]
      · exact ⟨h, rfl, block, hlast⟩

/-- Only the blocks change. -/
theorem StdioPipe.onAlloc_same (p : StdioPipe) :
    p.onAlloc.toPipeOptions = p.toPipeOptions ∧ p.onAlloc.initialized = p.initialized := by
  unfold onAlloc
  split
  · exact ⟨rfl, rfl⟩
  · split <;> exact ⟨rfl, rfl⟩

/-! ### The fields of the runner -/

/-- The handle is initialized and not closed. -/
def Runner.isOpen (s : Runner) : Handle → Bool
  | .pipe i => (s.pipe? i).any (·.initialized)
  | .timer => s.timerInitialized && !s.timerClosed
  | .process => s.processInitialized && !s.processClosing

/-- How far the runner has come with closing its handles. -/
inductive Phase where
  | running
  | timerClosed
  | closed
deriving DecidableEq, Repr

/-- After some callbacks, the runner and its log agree with the course. -/
structure Agrees (options : Options) (phase : Phase) (past : List Event) (s : Runner) (c : Course)
    (a : Ledger) : Prop where
  callbacks : a.callbacks = past
  kept : s.stdioPipes.map (Option.map StdioPipe.toPipeOptions) = options.stdio.getD []
  pipes : ∀ i p, s.pipe? i = some p → p.Sound ∧ p.copyOutput = c.heard i
  targets : a.overrun = false
  handles : ∀ h, c.opened.count h = a.closed h + (s.isOpen h).toNat
  timerClosed : s.timerClosed = (decide (phase ≠ .running) && s.timerInitialized)
  swept : phase = .closed → ∀ h, s.isOpen h = false
  child : s.spawned = true → s.processInitialized = true
  killed : s.killed = c.killed
  signals : a.signals = c.signals
  exit : (s.exitStatus, s.termSignal) = c.exit.getD (-1, -1)
  exitStatus : ∀ e ∈ c.exit, 0 ≤ e.1
  exited : a.exited = c.exit.isSome
  quiet : a.lateSignal = false
  error : s.error = c.runnerErrors.headD 0
  errorSet : 0 ∉ c.runnerErrors
  pipeError : s.pipeError = c.pipeErrors.headD 0
  pipeErrorSet : 0 ∉ c.pipeErrors
  total : s.bufferedOutputSize = c.totalRead

def Inv (options : Options) (phase : Phase) (past : List Event) (s : Runner) (c : Course) : Prop :=
  Agrees options phase past s c (account s.log)

variable {options : Options} {phase : Phase} {past : List Event} {s t : Runner} {c : Course}

theorem Inv.emit {act : Act} (h : Agrees options phase past s c ((account s.log).add act)) :
    Inv options phase past (s.emit act) c := by
  unfold Inv Runner.emit
  rw [account_append]
  exact { h with }

theorem Inv.called (h : Inv options phase past s c) {e : Event} (he : e.isExit = false) :
    Inv options phase (past ++ [e]) (s.emit (.callback e)) c := by
  refine Inv.emit { h with callbacks := congrArg (· ++ [e]) h.callbacks, exited := ?_ }
  rw [Ledger.add, he, Bool.or_false]
  exact h.exited

/-- The first of some errors stays the first. -/
theorem headD_append {errors : List Int} (h : 0 ∉ errors) (code : Int) :
    (errors ++ [code]).headD 0 = if errors.headD 0 = 0 then code else errors.headD 0 := by
  cases errors with
  | nil => rfl
  | cons e errors =>
      have hne : e ≠ 0 := fun he => h (he ▸ List.mem_cons_self)
      simp [hne]

theorem headD_eq_zero {errors : List Int} (h : 0 ∉ errors) : errors.headD 0 = 0 ↔ errors = [] := by
  cases errors with
  | nil => simp
  | cons e errors =>
      have hne : e ≠ 0 := fun he => h (he ▸ List.mem_cons_self)
      simp [hne]

theorem not_mem_snoc {errors : List Int} (h : 0 ∉ errors) {code : Int} (hcode : code ≠ 0) :
    0 ∉ errors ++ [code] := by
  rw [List.mem_append, List.mem_singleton]
  exact fun hor => hor.elim h (Ne.symm hcode)

theorem Inv.setError (h : Inv options phase past s c) {code : Int} (hcode : code ≠ 0) :
    Inv options phase past (s.setError code) (c.fail code) := by
  refine { h with error := ?_, errorSet := not_mem_snoc h.errorSet hcode }
  change (if s.error = 0 then code else s.error) = _
  rw [Course.fail, headD_append h.errorSet, ← h.error]

theorem Inv.result (h : Inv options phase past s c) (status : Int) :
    Inv options phase past (if status < 0 then s.setPipeError status else s) (c.result status) := by
  unfold Course.result
  split
  · rename_i hstatus
    refine { h with
      pipeError := ?_, pipeErrorSet := not_mem_snoc h.pipeErrorSet (Int.ne_of_lt hstatus) }
    change (if s.pipeError = 0 then status else s.pipeError) = _
    rw [headD_append h.pipeErrorSet, ← h.pipeError]
  · exact h

theorem Inv.target (h : Inv options phase past s c) {target : ReadTarget}
    (htarget : target.offset + target.length ≤ kOutputBufferSize) :
    Inv options phase past (s.emit (.target target)) c := by
  refine Inv.emit { h with targets := ?_ }
  rw [Ledger.add, h.targets, Bool.false_or]
  exact decide_eq_false (Nat.not_lt.mpr htarget)

/-! ### A change of one pipe -/

section

variable {i : Nat} {p p' : StdioPipe} (hp : s.pipe? i = some p)

include hp

theorem getElem?_of_pipe? : s.stdioPipes[i]? = some (some p) := by
  rw [Runner.pipe?, List.getD_eq_getElem?_getD] at hp
  cases hget : s.stdioPipes[i]? with
  | none =>
      rw [hget] at hp
      cases hp
  | some entry =>
      rw [hget] at hp
      exact congrArg some hp

theorem pipe?_setPipe (j : Nat) :
    (s.setPipe i p').pipe? j = if j = i then some p' else s.pipe? j := by
  have hlt := (List.getElem?_eq_some_iff.mp (getElem?_of_pipe? hp)).1
  unfold Runner.pipe? Runner.setPipe
  rw [List.getD_eq_getElem?_getD, List.getD_eq_getElem?_getD]
  dsimp only
  rw [List.getElem?_set]
  by_cases hij : i = j
  · subst hij
    rw [if_pos rfl, if_pos rfl, if_pos hlt]
    rfl
  · rw [if_neg hij, if_neg (Ne.symm hij)]

theorem isOpen_setPipe (handle : Handle) :
    (s.setPipe i p').isOpen handle =
      if handle = .pipe i then p'.initialized else s.isOpen handle := by
  cases handle with
  | pipe j =>
      simp only [Runner.isOpen, pipe?_setPipe hp, Handle.pipe.injEq]
      split <;> rfl
  | timer => rfl
  | process => rfl

theorem kept_setPipe (hoptions : p'.toPipeOptions = p.toPipeOptions) :
    (s.setPipe i p').stdioPipes.map (Option.map StdioPipe.toPipeOptions) =
      s.stdioPipes.map (Option.map StdioPipe.toPipeOptions) := by
  have hentry := getElem?_of_pipe? hp
  have hlt := (List.getElem?_eq_some_iff.mp hentry).1
  refine List.ext_getElem? fun j => ?_
  unfold Runner.setPipe
  rw [List.getElem?_map, List.getElem?_map, List.getElem?_set]
  by_cases hij : i = j
  · subst hij
    rw [if_pos rfl, if_pos hlt, hentry]
    exact congrArg (fun o => some (some o)) hoptions
  · rw [if_neg hij]

theorem isOpen_setPipe_same (hinitialized : p'.initialized = p.initialized) (handle : Handle) :
    (s.setPipe i p').isOpen handle = s.isOpen handle := by
  rw [isOpen_setPipe hp]
  split
  · rename_i hpipe
    rw [hpipe, hinitialized, Runner.isOpen, hp]
    rfl
  · rfl

/-- A change that is none of the handle, and perhaps one of the blocks. -/
theorem Inv.setPipe (h : Inv options phase past s c) (hoptions : p'.toPipeOptions = p.toPipeOptions)
    (hinitialized : p'.initialized = p.initialized) (hsound : p'.Sound) {bytes : Bytes}
    (hcopy : p'.copyOutput = p.copyOutput ++ bytes) :
    Inv options phase past (s.setPipe i p')
      { c with heard := (c.hear i bytes).heard } := by
  refine { h with
    kept := (kept_setPipe hp hoptions).trans h.kept
    pipes := ?_, handles := ?_, swept := ?_ }
  · intro j q hq
    rw [pipe?_setPipe hp] at hq
    dsimp only [Course.hear]
    split at hq
    · rename_i hji
      cases hq
      subst hji
      rw [if_pos rfl, hcopy, (h.pipes j p hp).2]
      exact ⟨hsound, rfl⟩
    · rename_i hji
      rw [if_neg hji, List.append_nil]
      exact h.pipes j q hq
  · intro handle
    rw [isOpen_setPipe_same hp hinitialized]
    exact h.handles handle
  · intro hswept handle
    rw [isOpen_setPipe_same hp hinitialized]
    exact h.swept hswept handle

/-- A change that keeps the blocks too. -/
theorem Inv.setPipe_same (h : Inv options phase past s c) (hoptions : p'.toPipeOptions = p.toPipeOptions)
    (hinitialized : p'.initialized = p.initialized) (hsound : p'.Sound)
    (hcopy : p'.copyOutput = p.copyOutput) : Inv options phase past (s.setPipe i p') c := by
  have hset := h.setPipe hp hoptions hinitialized hsound (hcopy.trans (List.append_nil _).symm)
  simpa [Course.hear] using hset

end

theorem closed_handles {handle : Handle} (h : Inv options phase past s c)
    (hopen : s.isOpen handle = true) (hclosed : t.isOpen handle = false)
    (hothers : ∀ other, other ≠ handle → t.isOpen other = s.isOpen other) (other : Handle) :
    c.opened.count other =
      ((account s.log).add (.closed handle)).closed other + (t.isOpen other).toNat := by
  have hother := h.handles other
  change _ = (if other = handle then (account s.log).closed other + 1
    else (account s.log).closed other) + _
  split
  · rename_i heq
    subst heq
    rw [hclosed]
    rw [hopen] at hother
    exact hother
  · rename_i hne
    rw [hothers other hne]
    exact hother

theorem Inv.closePipe (h : Inv options phase past s c) (i : Nat) :
    Inv options phase past (s.closePipe i) c := by
  unfold Runner.closePipe
  split
  · exact h
  · rename_i p hp
    split
    · rename_i hinitialized
      have hopen : s.isOpen (.pipe i) = true := by
        rw [Runner.isOpen, hp]
        exact hinitialized
      have hclosed : (s.setPipe i { p with initialized := false, reading := false }).isOpen (.pipe i)
          = false := by rw [isOpen_setPipe hp, if_pos rfl]
      have hhandles := closed_handles h hopen hclosed fun other hne => by
        rw [isOpen_setPipe hp, if_neg hne]
      refine Inv.emit { h with kept := ?_, pipes := ?_, handles := hhandles, swept := ?_ }
      · refine (kept_setPipe hp ?_).trans h.kept
        rfl
      · intro j q hq
        rw [pipe?_setPipe hp] at hq
        split at hq
        · rename_i hji
          cases hq
          subst hji
          exact h.pipes j p hp
        · exact h.pipes j q hq
      · intro hswept
        rw [h.swept hswept] at hopen
        cases hopen
    · exact h

theorem Inv.closePipes (h : Inv options phase past s c) : Inv options phase past s.closePipes c := by
  unfold Runner.closePipes
  generalize List.range s.stdioPipes.length = indices
  induction indices generalizing s with
  | nil => exact h
  | cons i indices ih => exact ih (h.closePipe i)

/-! ### The signals -/

theorem Inv.exitStatus_neg_iff (h : Inv options phase past s c) :
    s.exitStatus < 0 ↔ c.exit.isSome = false := by
  have hexit : s.exitStatus = (c.exit.getD (-1, -1)).1 := congrArg Prod.fst h.exit
  have hstatus := h.exitStatus
  rw [hexit]
  cases hc : c.exit with
  | none => decide
  | some e =>
      rw [hc] at hstatus
      exact iff_of_false (Int.not_lt.mpr (hstatus e rfl)) (by simp)

theorem Inv.signalled (h : Inv options phase past s c) (hrunning : c.exit.isSome = false)
    (signal : Int) :
    Inv options phase past (s.emit (.signalled signal)) { c with signals := c.signals ++ [signal] } := by
  refine Inv.emit { h with signals := congrArg (· ++ [signal]) h.signals, quiet := ?_ }
  rw [Ledger.add, h.exited, hrunning, Bool.or_false]
  exact h.quiet

theorem Inv.kill (h : Inv options phase past s c) (killResult : Int) :
    Inv options phase past (s.kill options killResult) (c.kill options killResult) := by
  unfold Runner.kill Course.kill
  rw [h.killed]
  split
  · exact h
  · have hstart : Inv options phase past { s with killed := true } { c with killed := true } :=
      { h with killed := rfl }
    refine Inv.closePipes ?_
    unfold Runner.signal
    by_cases hexit : c.exit.isSome = true
    · have hgone : ¬s.exitStatus < 0 := by
        rw [h.exitStatus_neg_iff, hexit]
        exact Bool.noConfusion
      rw [if_neg hgone, if_pos hexit]
      exact hstart
    · have hrunning := Bool.eq_false_iff.mpr hexit
      rw [if_pos (h.exitStatus_neg_iff.mpr hrunning), if_neg hexit]
      have hfirst := hstart.signalled hrunning options.killSignal
      unfold Course.signal
      dsimp only
      split
      · rename_i hfailed
        have hcode : killResult ≠ 0 := by omega
        exact (hfirst.setError hcode).signalled hrunning SIGKILL
      · exact hfirst

/-! ### The bytes -/

theorem StdioPipe.read_spec {p : StdioPipe} {block : OutputBuffer} {bytes : Bytes} (h : p.Sound)
    (hblock : p.lastOutput = some block) (hfit : bytes.length ≤ block.onAlloc.length) :
    let read := (block.write block.onAlloc.offset bytes).onRead bytes.length
    let p' := { p with lastOutput := some read }
    p'.Sound ∧ p'.copyOutput = p.copyOutput ++ bytes := by
  have hread := OutputBuffer.read_sound (h block (by simp [hblock])) hfit
  dsimp only
  refine ⟨?_, ?_⟩
  · intro b hb
    rcases List.mem_append.mp hb with hb | hb
    · exact h b (List.mem_append_left _ hb)
    · cases List.mem_singleton.mp hb
      exact hread.1
  · simp only [copyOutput, hblock, Option.toList_some, List.map_append, List.map_cons, List.map_nil,
      List.flatten_append, List.flatten_cons, List.flatten_nil, List.append_nil, List.append_assoc]
    exact congrArg _ hread.2

/-! ### The callbacks -/

variable {i : Nat} {p : StdioPipe}

theorem Inv.onRead (h : Inv options phase past s c) (hp : s.pipe? i = some p) {bytes : Bytes}
    {killResult : Int} (ht : onRead options s i p bytes killResult = some t) :
    Inv options phase past t (c.next options (.read i bytes killResult)) := by
  rcases h.pipes i p hp with ⟨hsound, -⟩
  rcases StdioPipe.onAlloc_spec hsound with ⟨hsound', hcopy, block, hblock⟩
  rcases p.onAlloc_same with ⟨hoptions, hinitialized⟩
  unfold SpawnSync.onRead at ht
  rw [hblock] at ht
  dsimp only at ht
  split at ht
  · rename_i hfit
    cases ht
    rcases StdioPipe.read_spec hsound' hblock hfit with ⟨hread, hcopy'⟩
    rw [hcopy] at hcopy'
    let read := (block.write block.onAlloc.offset bytes).onRead bytes.length
    have hset : Inv options phase past
        ((s.setPipe i { p.onAlloc with lastOutput := some read }).emit (.target block.onAlloc))
        { c with heard := (c.hear i bytes).heard } := by
      refine (h.setPipe hp ?_ ?_ hread hcopy').target
        (OutputBuffer.onAlloc_le (hsound' block (by simp [hblock])))
      · exact hoptions
      · exact hinitialized
    unfold Runner.incrementBufferSizeAndCheckOverflow Course.next
    dsimp only
    generalize hs : Runner.emit _ _ = s' at hset ⊢
    have htotal : s'.bufferedOutputSize + bytes.length = (c.hear i bytes).totalRead :=
      congrArg (· + bytes.length) hset.total
    have hheard : Inv options phase past
        { s' with bufferedOutputSize := (c.hear i bytes).totalRead } (c.hear i bytes) :=
      { hset with total := rfl }
    rw [htotal]
    split
    · have hover : Inv options phase past
          { s' with bufferedOutputSize := (c.hear i bytes).totalRead }
          { c.hear i bytes with
            overflowed := (c.hear i bytes).overflowed || (c.hear i bytes).runnerErrors.isEmpty } :=
        { hheard with }
      exact (hover.setError (show UV_ENOBUFS ≠ 0 by decide)).kill killResult
    · exact hheard
  · cases ht

theorem Inv.allocUnread (h : Inv options phase past s c) (hp : s.pipe? i = some p) (allocated : Bool) :
    Inv options phase past (allocUnread s i p allocated) c := by
  rcases h.pipes i p hp with ⟨hsound, -⟩
  unfold SpawnSync.allocUnread
  split
  · rcases StdioPipe.onAlloc_spec hsound with ⟨hsound', hcopy, block, hblock⟩
    rcases p.onAlloc_same with ⟨hoptions, hinitialized⟩
    rw [hblock]
    have hset : Inv options phase past (s.setPipe i { p.onAlloc with reading := false }) c :=
      h.setPipe_same hp hoptions hinitialized hsound' hcopy
    exact hset.target (OutputBuffer.onAlloc_le (hsound' block (by simp [hblock])))
  · exact h.setPipe_same hp rfl rfl hsound rfl

/-- The exit callback, which comes while the process handle is open. -/
theorem Inv.exitCb (h : Inv options phase past s c) (hinitialized : s.processInitialized = true)
    (hopen : s.processClosing = false) {exitStatus : Int} (hstatus : 0 ≤ exitStatus)
    (termSignal : Int) :
    Inv options phase (past ++ [.exit exitStatus termSignal])
      ((s.emit (.callback (.exit exitStatus termSignal))).exitCb exitStatus termSignal)
      { c with exit := some (exitStatus, termSignal) } := by
  unfold Runner.exitCb Runner.onExit
  rw [if_neg (Int.not_lt.mpr hstatus)]
  have hprocess : s.isOpen .process = true := by simp [Runner.isOpen, hinitialized, hopen]
  unfold Inv
  change Agrees options phase _ _ _
    (account ((s.log ++ [.callback (.exit exitStatus termSignal)]) ++ [.closed .process]))
  rw [account_append, account_append]
  have hhandles := closed_handles (t := { s with processClosing := true, exitStatus, termSignal }) h
    hprocess (by simp [Runner.isOpen]) fun other hne => by
      cases other with
      | pipe i => rfl
      | timer => rfl
      | process => exact absurd rfl hne
  refine { h with
    callbacks := congrArg (· ++ _) h.callbacks
    handles := hhandles
    swept := fun hswept => ?_
    exit := rfl
    exitStatus := ?_
    exited := Bool.or_true _ }
  · rw [h.swept hswept] at hprocess
    cases hprocess
  · intro e he
    cases he
    exact hstatus

theorem Inv.step {e : Event} (h : Inv options phase past s c) (ht : callback options s e = some t) :
    Inv options phase (past ++ [e]) t (c.next options e) := by
  cases e with
  | read i bytes killResult =>
      obtain ⟨p, hp, ht⟩ := Option.bind_eq_some_iff.mp ht
      split at ht
      · exact (h.called rfl).onRead hp ht
      · cases ht
  | eof i allocated =>
      obtain ⟨p, hp, ht⟩ := Option.bind_eq_some_iff.mp ht
      split at ht
      · cases ht
        exact (h.called rfl).allocUnread hp allocated
      · cases ht
  | readError i allocated error =>
      obtain ⟨p, hp, ht⟩ := Option.bind_eq_some_iff.mp ht
      split at ht
      · rename_i herror
        cases ht
        have hresult := ((h.called rfl).allocUnread hp allocated).result error
        rwa [if_pos herror.2.1] at hresult
      · cases ht
  | writeDone i status =>
      obtain ⟨p, hp, ht⟩ := Option.bind_eq_some_iff.mp ht
      split at ht
      · cases ht
        have hset := @Inv.setPipe_same _ _ _ _ _ i p { p with writing := false } hp
          (@Inv.called _ _ _ _ _ h (.writeDone i status) rfl) rfl rfl (h.pipes i p hp).1 rfl
        exact hset.result _
      · cases ht
  | shutdownDone i status =>
      obtain ⟨p, hp, ht⟩ := Option.bind_eq_some_iff.mp ht
      split at ht
      · cases ht
        have hset := @Inv.setPipe_same _ _ _ _ _ i p { p with shutting := false } hp
          (@Inv.called _ _ _ _ _ h (.shutdownDone i status) rfl) rfl rfl (h.pipes i p hp).1 rfl
        exact hset.result _
      · cases ht
  | exit exitStatus termSignal =>
      simp only [callback, SpawnSync.step] at ht
      split at ht
      · rename_i hguard
        cases ht
        exact h.exitCb (h.child hguard.1) (Bool.eq_false_iff.mpr hguard.2.1) hguard.2.2 termSignal
      · cases ht
  | timeout killResult =>
      simp only [callback, SpawnSync.step] at ht
      split at ht
      · cases ht
        have hset : Inv options phase _ { s.emit (.callback (.timeout killResult)) with
          timerStarted := false } c := { @Inv.called _ _ _ _ _ h (.timeout killResult) rfl with }
        exact (hset.setError (by decide)).kill killResult
      · cases ht

end HermesNode.SpawnSync
