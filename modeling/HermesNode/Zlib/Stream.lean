/-
Module: HermesNode.Zlib.Stream
Purpose: `CompressionStream`: a compression context, the flags around it, the asynchronous writes queued
  on it, and the native frames that wait for user code to return, which may call the stream again
  from the process callback or from `onerror`.
Trusted boundary: human-reviewed spec (a completion is called from the event loop with no other
  frame of the stream on the stack; only a cancelled one may be called in between)
Main exports: Kind, Frame, Stream, Action
-/
import HermesNode.Lib.Machine

namespace HermesNode.Zlib

/-- The context a stream wraps. -/
inductive Kind where
  | zlib
  | brotli
  | zstd
  deriving DecidableEq, Repr

/-- `Init` of these contexts makes them anew; the one of zlib only sets fields. -/
def Kind.initResets : Kind → Bool
  | .zlib => false
  | .brotli | .zstd => true

/-- A native frame below running user code. -/
inductive Frame where
  /-- The completion of a write, in its process callback. -/
  | callback
  /-- `EmitError`, in `onerror`, called from the completion of a write or not. -/
  | onerror (completes : Bool)
  deriving DecidableEq, Repr

def Frame.isError : Frame → Bool
  | .callback => false
  | .onerror _ => true

structure Stream where
  initDone : Bool
  writeInProgress : Bool
  pendingClose : Bool
  closed : Bool
  /-- Asynchronous writes that were queued and have not completed. -/
  outstanding : Nat
  stack : List Frame
  /-- The context was closed. -/
  contextClosed : Bool
  /-- A close was requested during a write and the context was not closed since. -/
  owed : Bool
  /-- The context was closed, or reset, under an outstanding write. -/
  closedBusy : Bool
  resetBusy : Bool
  /-- A close requested during a write took effect a second time. -/
  closedTwice : Bool
  /-- A write was started on a closed context. -/
  wroteClosed : Bool
  deriving DecidableEq, Repr

def Stream.new : Stream where
  initDone := false
  writeInProgress := false
  pendingClose := false
  closed := false
  outstanding := 0
  stack := []
  contextClosed := false
  owed := false
  closedBusy := false
  resetBusy := false
  closedTwice := false
  wroteClosed := false

/-- How an operation of the context ended: the error, with whether `onerror` is a function. -/
inductive Outcome where
  | ok
  | error (handled : Bool)
  deriving DecidableEq, Repr

inductive Action where
  | init (outcome : Outcome)
  | write
  | writeSync (outcome : Outcome)
  | close
  | reset (outcome : Outcome)
  /-- The completion of an outstanding write. -/
  | complete (outcome : Outcome)
  | cancelled
  /-- The user code above the topmost frame returns. -/
  | resume
  deriving DecidableEq, Repr

/-- `ctx_.Close()` and `closed_ = true`. -/
def Stream.closeContext (s : Stream) : Stream :=
  { s with
    closed := true
    contextClosed := true
    owed := false
    closedBusy := s.closedBusy || s.outstanding != 0 }

/-- `if (pending_close_)`, at the end of a completion and of `EmitError`. -/
def Stream.carryOut (s : Stream) : Stream :=
  if s.pendingClose then
    { s.closeContext with pendingClose := false, closedTwice := s.closedTwice || !s.owed }
  else s

/-- `ctx_.ResetStream()`. -/
def Stream.resetContext (s : Stream) : Stream :=
  { s with resetBusy := s.resetBusy || s.outstanding != 0 }

/-- `EmitError` up to the call of `onerror`; without a handler it returns. -/
def Stream.emitError (s : Stream) (handled completes : Bool) : Stream :=
  if handled then { s with stack := .onerror completes :: s.stack }
  else if completes then s.carryOut
  else s

/-- An error that is not one of a completion. -/
def Stream.report (s : Stream) : Outcome → Stream
  | .ok => s
  | .error handled => s.emitError handled false

def Stream.init (kind : Kind) (s : Stream) (outcome : Outcome) : Stream :=
  let s : Stream := { s with initDone := true }
  if kind.initResets then s.resetContext.report outcome else s

/-- `Write<true>`; a stream that is not initialized or closed throws. -/
def Stream.write (s : Stream) : Stream :=
  if !s.initDone || s.closed then s
  else
    { s with
      writeInProgress := true
      outstanding := s.outstanding + 1
      wroteClosed := s.wroteClosed || s.contextClosed }

/-- `Write<false>`. -/
def Stream.writeSync (s : Stream) (outcome : Outcome) : Stream :=
  if !s.initDone || s.closed then s
  else Stream.report { s with wroteClosed := s.wroteClosed || s.contextClosed } outcome

def Stream.doClose (s : Stream) : Stream :=
  if s.writeInProgress then { s with pendingClose := true, owed := true } else s.closeContext

def Stream.doReset (s : Stream) (outcome : Outcome) : Stream := s.resetContext.report outcome

/-- A write leaves the thread pool; its completion starts. -/
def Stream.completing (s : Stream) : Stream :=
  { s with writeInProgress := false, outstanding := s.outstanding - 1 }

def Stream.complete (s : Stream) : Outcome → Stream
  | .ok => { s.completing with stack := .callback :: s.stack }
  | .error handled => s.completing.emitError handled true

/-- What the topmost frame does behind its call of user code. -/
def Stream.resume (s : Stream) : Frame → Stream
  | .callback => s.carryOut
  -- A completion carries a close out again behind `EmitError`, which left none pending.
  | .onerror completes =>
      if completes then (Stream.carryOut { s with writeInProgress := false }).carryOut
      else Stream.carryOut { s with writeInProgress := false }

def Stream.step (kind : Kind) (s : Stream) : Action → Option Stream
  | .init outcome => some (s.init kind outcome)
  | .write => some s.write
  | .writeSync outcome => some (s.writeSync outcome)
  | .close => some s.doClose
  | .reset outcome => some (s.doReset outcome)
  | .complete outcome =>
      if s.stack.isEmpty && 0 < s.outstanding then some (s.complete outcome) else none
  | .cancelled => if 0 < s.outstanding then some s.completing.closeContext else none
  | .resume =>
      match s.stack with
      | [] => none
      | frame :: rest => some (Stream.resume { s with stack := rest } frame)

end HermesNode.Zlib
