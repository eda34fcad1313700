/-
Module: HermesNode.Bindings.SpawnSync
Purpose: The runner of `spawnSync`: a child process with its pipes and its timer on a loop of its own,
  from the options to the result. The answers of libuv are given, and so is the order of its callbacks.
  The callbacks, and what the runner asks of libuv between them, are kept in a log.
Trusted boundary: human-reviewed spec (transcribed from `lib/bindings/node_spawn_sync.cpp`; a callback
  of libuv comes only while its request or handle is active, `uv_close` ends the reading of a pipe, the
  exit callback comes once and with a status that is not negative, and `uv_spawn` initializes the
  process handle even where it fails)
Main exports: OutputBuffer, StdioPipe, Options, Answers
-/
import HermesNode.Lib.Buffer
import HermesNode.Lib.Machine

namespace HermesNode.SpawnSync

/-! ### Constants -/

def kOutputBufferSize : Nat := 65536

def UV_ESRCH : Int := -3

def UV_EINVAL : Int := -22

def UV_ENOBUFS : Int := -105

def UV_ENOTCONN : Int := -107

def UV_EOF : Int := -4095

def UV_ETIMEDOUT : Int := -110

def SIGKILL : Int := 9

/-- A number of JavaScript. -/
inductive Double where
  | finite (value : Rat)
  | infinite (negative : Bool)
  | nan
deriving DecidableEq, Repr

/-- The comparison of `incrementBufferSizeAndCheckOverflow`. A size is below 2^53, and exact as a
double. -/
def Double.exceeded (maxBuffer : Double) (size : Nat) : Bool :=
  match maxBuffer with
  | finite value => decide (0 < value ∧ value < size)
  | infinite _ | nan => false

/-! ### The blocks and the pipes -/

structure OutputBuffer where
  data : Bytes
  used : Nat
deriving DecidableEq

/-- The part of a block that libuv reads into. -/
structure ReadTarget where
  offset : Nat
  length : Nat
deriving DecidableEq, Repr

namespace OutputBuffer

def fresh : OutputBuffer := ⟨List.replicate kOutputBufferSize 0, 0⟩

def available (b : OutputBuffer) : Nat := kOutputBufferSize - b.used

def onAlloc (b : OutputBuffer) : ReadTarget :=
  if b.used = kOutputBufferSize then ⟨0, 0⟩ else ⟨b.used, kOutputBufferSize - b.used⟩

/-- Bytes are stored in the block. -/
def write (b : OutputBuffer) (offset : Nat) (bytes : Bytes) : OutputBuffer :=
  { b with data := b.data.take offset ++ bytes ++ b.data.drop (offset + bytes.length) }

def onRead (b : OutputBuffer) (nread : Nat) : OutputBuffer := { b with used := b.used + nread }

end OutputBuffer

/-- An entry of `stdio` that is a pipe. -/
structure PipeOptions where
  /-- The child reads from it. -/
  readable : Bool
  /-- The child writes to it. -/
  writable : Bool
  /-- The length of `inputBuf_`. -/
  inputLength : Nat
deriving DecidableEq, Repr

structure StdioPipe extends PipeOptions where
  initialized : Bool := false
  /-- The blocks before `lastOutput_`. -/
  fullOutputs : List OutputBuffer := []
  lastOutput : Option OutputBuffer := none
  /-- libuv reads from the pipe. -/
  reading : Bool := false
  /-- The write request is active. -/
  writing : Bool := false
  /-- The shutdown request is active. -/
  shutting : Bool := false
deriving DecidableEq

namespace StdioPipe

/-- `onAlloc` up to the block that is read into. -/
def onAlloc (p : StdioPipe) : StdioPipe :=
  match p.lastOutput with
  | none => { p with lastOutput := some .fresh }
  | some block =>
      if block.available = 0 then
        { p with fullOutputs := p.fullOutputs ++ [block], lastOutput := some .fresh }
      else p

def copyOutput (p : StdioPipe) : Bytes :=
  ((p.fullOutputs ++ p.lastOutput.toList).map fun b => b.data.take b.used).flatten

end StdioPipe

/-! ### The runner -/

structure Options where
  /-- `none` where the option is no array; a pipe, or something else, for each entry. -/
  stdio : Option (List (Option PipeOptions))
  timeout : Nat
  maxBuffer : Double
  killSignal : Int

/-- The answers of libuv to the calls of `run`. -/
structure Answers where
  loopInit : Int
  pipeInit : Nat → Int
  timerInit : Int
  timerStart : Int
  spawn : Int
  write : Nat → Int
  shutdown : Nat → Int
  readStart : Nat → Int

inductive Handle where
  | pipe (i : Nat)
  | timer
  | process
deriving DecidableEq, Repr

/-- A callback of libuv. -/
inductive Event where
  /-- libuv asks for a target and reads into it; with what `uv_process_kill` would answer. -/
  | read (i : Nat) (bytes : Bytes) (killResult : Int)
  /-- The end of a pipe, with or without asking for a target. -/
  | eof (i : Nat) (allocated : Bool)
  | readError (i : Nat) (allocated : Bool) (error : Int)
  | writeDone (i : Nat) (status : Int)
  | shutdownDone (i : Nat) (status : Int)
  | exit (exitStatus termSignal : Int)
  | timeout (killResult : Int)
deriving DecidableEq, Repr

/-- An entry of the log. -/
inductive Act where
  | callback (event : Event)
  /-- `uv_close`. -/
  | closed (handle : Handle)
  | target (target : ReadTarget)
  /-- `uv_process_kill`. -/
  | signalled (signal : Int)
deriving DecidableEq, Repr

structure Runner where
  stdioPipes : List (Option StdioPipe)
  exitStatus : Int := -1
  termSignal : Int := -1
  error : Int := 0
  pipeError : Int := 0
  killed : Bool := false
  bufferedOutputSize : Nat := 0
  timerInitialized : Bool := false
  timerStarted : Bool := false
  timerClosed : Bool := false
  spawned : Bool := false
  /-- The type of the process handle is `UV_PROCESS`. -/
  processInitialized : Bool := false
  processClosing : Bool := false
  log : List Act := []

namespace Runner

def emit (s : Runner) (act : Act) : Runner := { s with log := s.log ++ [act] }

def pipe? (s : Runner) (i : Nat) : Option StdioPipe := s.stdioPipes.getD i none

def setPipe (s : Runner) (i : Nat) (p : StdioPipe) : Runner :=
  { s with stdioPipes := s.stdioPipes.set i (some p) }

def setError (s : Runner) (error : Int) : Runner :=
  { s with error := if s.error = 0 then error else s.error }

def setPipeError (s : Runner) (error : Int) : Runner :=
  { s with pipeError := if s.pipeError = 0 then error else s.pipeError }

def getError (s : Runner) : Int := if s.error ≠ 0 then s.error else s.pipeError

/-- `StdioPipe::close`. -/
def closePipe (s : Runner) (i : Nat) : Runner :=
  match s.pipe? i with
  | none => s
  | some p =>
      if p.initialized then
        (s.setPipe i { p with initialized := false, reading := false }).emit (.closed (.pipe i))
      else s

def closePipes (s : Runner) : Runner := (List.range s.stdioPipes.length).foldl closePipe s

/-- The child is sent its signal, unless it has exited, and the stronger one where that fails. -/
def signal (options : Options) (killResult : Int) (s : Runner) : Runner :=
  if s.exitStatus < 0 then
    if killResult < 0 ∧ killResult ≠ UV_ESRCH then
      ((s.emit (.signalled options.killSignal)).setError killResult).emit (.signalled SIGKILL)
    else s.emit (.signalled options.killSignal)
  else s

/-- `kill`, with the answer of `uv_process_kill`. -/
def kill (options : Options) (killResult : Int) (s : Runner) : Runner :=
  if s.killed then s
  else ({ s with killed := true }.signal options killResult).closePipes

def incrementBufferSizeAndCheckOverflow (options : Options) (length : Nat) (killResult : Int)
    (s : Runner) : Runner :=
  let s := { s with bufferedOutputSize := s.bufferedOutputSize + length }
  if options.maxBuffer.exceeded s.bufferedOutputSize then
    (s.setError UV_ENOBUFS).kill options killResult
  else s

def onExit (s : Runner) (exitStatus termSignal : Int) : Runner :=
  if exitStatus < 0 then s.setError (exitStatus.bmod (2 ^ 32))
  else { s with exitStatus, termSignal }

def exitCb (s : Runner) (exitStatus termSignal : Int) : Runner :=
  ({ s with processClosing := true }.emit (.closed .process)).onExit exitStatus termSignal

def killTimerCb (options : Options) (killResult : Int) (s : Runner) : Runner :=
  (s.setError UV_ETIMEDOUT).kill options killResult

end Runner

/-! ### Before the loop -/

/-- The runner of parsed options. -/
def parsed (options : Options) : Runner :=
  match options.stdio with
  | none => ({ stdioPipes := [] } : Runner).setError UV_EINVAL
  | some stdio => { stdioPipes := stdio.map (Option.map fun p => { toPipeOptions := p }) }

def initializePipes (answers : Answers) (s : Runner) : List Nat → Runner
  | [] => s
  | i :: is =>
      match s.pipe? i with
      | none => initializePipes answers s is
      | some p =>
          if answers.pipeInit i < 0 then s.setPipeError (answers.pipeInit i)
          else
            initializePipes answers (s.setPipe i { p with initialized := true }) is

def startTimer (options : Options) (answers : Answers) (s : Runner) : Runner :=
  if s.error = 0 ∧ 0 < options.timeout then
    if answers.timerInit < 0 then s.setError answers.timerInit
    else
      let s := { s with timerInitialized := true }
      if answers.timerStart < 0 then s.setError answers.timerStart
      else { s with timerStarted := true }
  else s

/-- `StdioPipe::start`, with its error. -/
def StdioPipe.start (answers : Answers) (i : Nat) (p : StdioPipe) : StdioPipe × Int :=
  if p.readable ∧ 0 < p.inputLength ∧ answers.write i < 0 then (p, answers.write i)
  else
    let p := if p.readable ∧ 0 < p.inputLength then { p with writing := true } else p
    if p.readable ∧ answers.shutdown i < 0 then (p, answers.shutdown i)
    else
      let p := if p.readable then { p with shutting := true } else p
      if p.writable ∧ answers.readStart i < 0 then (p, answers.readStart i)
      else (if p.writable then { p with reading := true } else p, 0)

def startPipes (answers : Answers) (s : Runner) : List Nat → Runner
  | [] => s
  | i :: is =>
      match s.pipe? i with
      | none => startPipes answers s is
      | some p =>
          let (p, r) := p.start answers i
          if r < 0 then (s.setPipe i p).setPipeError r
          else startPipes answers (s.setPipe i p) is

def spawn (answers : Answers) (s : Runner) : Runner :=
  if s.error = 0 ∧ s.pipeError = 0 then
    let s := { s with processInitialized := true }
    if answers.spawn < 0 then s.setError answers.spawn
    else startPipes answers { s with spawned := true } (List.range s.stdioPipes.length)
  else s

/-! ### The callbacks -/

/-- A target that nothing is read into. -/
def allocUnread (s : Runner) (i : Nat) (p : StdioPipe) (allocated : Bool) : Runner :=
  if allocated then
    match p.onAlloc.lastOutput with
    | none => s
    | some block => (s.setPipe i { p.onAlloc with reading := false }).emit (.target block.onAlloc)
  else s.setPipe i { p with reading := false }

/-- `StdioPipe::onRead` of bytes. -/
def onRead (options : Options) (s : Runner) (i : Nat) (p : StdioPipe) (bytes : Bytes)
    (killResult : Int) : Option Runner :=
  match p.onAlloc.lastOutput with
  | none => none
  | some block =>
      if bytes.length ≤ block.onAlloc.length then
        let read := (block.write block.onAlloc.offset bytes).onRead bytes.length
        let s := s.setPipe i { p.onAlloc with lastOutput := some read }
        some ((s.emit (.target block.onAlloc)).incrementBufferSizeAndCheckOverflow options
          bytes.length killResult)
      else none

def step (options : Options) (s : Runner) : Event → Option Runner
  | .read i bytes killResult =>
      (s.pipe? i).bind fun p => if p.reading then onRead options s i p bytes killResult else none
  | .eof i allocated =>
      -- libuv stops reading
      (s.pipe? i).bind fun p => if p.reading then some (allocUnread s i p allocated) else none
  | .readError i allocated error =>
      -- `onRead` stops reading
      (s.pipe? i).bind fun p =>
        if p.reading ∧ error < 0 ∧ error ≠ UV_EOF then
          some ((allocUnread s i p allocated).setPipeError error)
        else none
  | .writeDone i status =>
      (s.pipe? i).bind fun p =>
        if p.writing then
          let s := s.setPipe i { p with writing := false }
          some (if status < 0 then s.setPipeError status else s)
        else none
  | .shutdownDone i status =>
      (s.pipe? i).bind fun p =>
        if p.shutting then
          let s := s.setPipe i { p with shutting := false }
          -- `shutdownCb`
          let status := if status = UV_ENOTCONN then 0 else status
          some (if status < 0 then s.setPipeError status else s)
        else none
  | .exit exitStatus termSignal =>
      if s.spawned ∧ ¬s.processClosing ∧ 0 ≤ exitStatus then some (s.exitCb exitStatus termSignal)
      else none
  | .timeout killResult =>
      if s.timerStarted then some ({ s with timerStarted := false }.killTimerCb options killResult)
      else none

/-- libuv calls back. -/
def callback (options : Options) (s : Runner) (e : Event) : Option Runner :=
  step options (s.emit (.callback e)) e

/-! ### The run -/

/-- All handles are closed. -/
def closeHandles (s : Runner) : Runner :=
  let s := s.closePipes
  let s :=
    if s.timerInitialized then { s with timerStarted := false, timerClosed := true }.emit (.closed .timer)
    else s
  if s.processInitialized ∧ ¬s.processClosing then
    { s with processClosing := true }.emit (.closed .process)
  else s

/-- `run` up to the loop. -/
def prepare (options : Options) (answers : Answers) : Runner :=
  let s := parsed options
  let s := initializePipes answers s (List.range s.stdioPipes.length)
  spawn answers (startTimer options answers s)

/-- `run`, with the callbacks of the loop and those of the second `uv_run`. There are none where the
loop is not made, and none of the first kind where it is not run. -/
def run (options : Options) (answers : Answers) (events late : List Event) : Option Runner :=
  if answers.loopInit < 0 then
    runEvents (fun _ _ => none) ((parsed options).setError answers.loopInit) (events ++ late)
  else
    let s := prepare options answers
    let s := runEvents (if s.spawned then callback options else fun _ _ => none) s events
    s.bind fun s => runEvents (callback options) (closeHandles s) late

/-- The result, with the number of the signal for its name. -/
structure Result where
  error : Option Int
  status : Option Int
  signal : Option Int
  output : Option (List (Option Bytes))
deriving DecidableEq, Repr

def buildResult (s : Runner) : Result where
  error := if s.getError ≠ 0 then some s.getError else none
  status := if 0 ≤ s.exitStatus ∧ s.termSignal ≤ 0 then some s.exitStatus else none
  signal := if 0 < s.termSignal then some s.termSignal else none
  output :=
    if 0 ≤ s.exitStatus then
      some (s.stdioPipes.map fun pipe =>
        pipe.bind fun p => if p.writable then some p.copyOutput else none)
    else none

end HermesNode.SpawnSync
