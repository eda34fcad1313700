/-
Module: HermesNode.EventLoop.Loop
Purpose: `UvEventLoop`: the task queue under its mutex, the wake-up outside of it, the references that
  keep the loop alive, and `close`. Every mutex section and every libuv call is one step, taken by any
  thread in any order; the thread that owns the loop also takes the steps of `uv_run`, of the tasks
  it runs and of `close`.
Trusted boundary: human-reviewed spec (libuv: a closed async handle has no callback, a reference is a
  flag, `uv_loop_close` succeeds when no request is active)
Main exports: Entry, Call, Phase, Loop
-/
import HermesNode.Lib.Machine

namespace HermesNode.EventLoop

/-- A `TaskEntry`, by the order of the `post_task` calls that allocated them. -/
abbrev Entry := Nat

/-- Where a thread is in a call of the host interface. -/
inductive Call where
  /-- About to lock the mutex in `updateAsyncRef`. -/
  | update (thenSend : Bool)
  /-- About to `uv_ref` or `uv_unref` the async handle. -/
  | apply (alive thenSend : Bool)
  /-- About to `uv_async_send`. -/
  | send
  /-- About to `uv_queue_work`, the mutex released. -/
  | queueWork
  deriving DecidableEq, Repr

/-- `post_task` sends the wake-up behind `updateAsyncRef`; `ref_loop` and `unref_loop` return. -/
def Call.after (thenSend : Bool) : Option Call := if thenSend then some .send else none

/-- The call pushed a task and has yet to send the wake-up. -/
def Call.owesSend : Call → Bool
  | .update thenSend => thenSend
  | .apply _ thenSend => thenSend
  | .send => true
  | .queueWork => false

/-- Where the thread that owns the loop is. -/
inductive Phase where
  /-- In no operation on the queue. -/
  | idle
  /-- `uv_run` took the wake-up and called `onAsync`; the queue is yet to be stolen. -/
  | entered
  /-- `drainTasks` runs a task, with more behind it. -/
  | running (task : Entry) (rest : List Entry) (closing : Bool)
  /-- `close` set the flag. -/
  | flagged
  /-- `close` closed the async handle and runs the loop. -/
  | shut
  /-- `close` drained the queue, closes the other handles and runs the loop. -/
  | drained
  /-- `close` returned. -/
  | returned
  deriving DecidableEq, Repr

/-- The tasks that were stolen and have not started. -/
def Phase.rest : Phase → List Entry
  | .running _ rest _ => rest
  | _ => []

/-- The phases in which code outside of the loop runs on its thread: scripts, tasks, the callbacks of
other handles, and the teardown of the runtime after `close`. -/
def Phase.outside : Phase → Bool
  | .entered | .flagged => false
  | _ => true

/-- The async handle. -/
structure Async where
  referenced : Bool
  pending : Bool
  deriving DecidableEq, Repr

structure Loop (Thread : Type) where
  /-- `taskHead`, the last one pushed first. -/
  tasks : List Entry
  loopRefs : Nat
  closed : Bool
  /-- `none` once closed. -/
  async : Option Async
  /-- Active requests of the loop. -/
  work : Nat
  /-- `uv_loop_close` succeeded. -/
  loopClosed : Bool
  phase : Phase
  calls : Thread → Option Call
  /-- How many `post_task` calls there were, and what became of them. -/
  posts : Nat
  pushed : List Entry
  rejected : List Entry
  executed : List (Entry × Thread)
  /-- A closed handle or loop was used. -/
  sentClosed : Bool
  queuedClosed : Bool

inductive Action (Thread : Type) where
  /-- The mutex section of `post_task`. -/
  | postTask (thread : Thread)
  /-- The mutex section of `post_work`. -/
  | postWork (thread : Thread)
  | refLoop
  | unrefLoop
  /-- The next step of the call a thread is in. -/
  | proceed (thread : Thread)
  /-- `uv_run` finishes a request. -/
  | workDone
  /-- `uv_run` takes a wake-up. -/
  | wake
  /-- `close` is called. -/
  | close
  /-- The next step of `drainTasks` or `close`. -/
  | advance
  deriving DecidableEq, Repr

variable {Thread : Type} [DecidableEq Thread]

/-- The state after `init`. -/
def Loop.init : Loop Thread where
  tasks := []
  loopRefs := 0
  closed := false
  async := some ⟨false, false⟩
  work := 0
  loopClosed := false
  phase := .idle
  calls := fun _ => none
  posts := 0
  pushed := []
  rejected := []
  executed := []
  sentClosed := false
  queuedClosed := false

def Loop.setCall (s : Loop Thread) (thread : Thread) (c : Option Call) : Loop Thread :=
  { s with calls := fun t => if t = thread then c else s.calls t }

/-- A thread may call the host: it is in no such call, and the loop's thread runs outside code. -/
def Loop.mayCall (loopThread : Thread) (s : Loop Thread) (thread : Thread) : Bool :=
  (s.calls thread).isNone && (thread != loopThread || s.phase.outside)

def Loop.postTask (loopThread : Thread) (s : Loop Thread) (thread : Thread) : Loop Thread :=
  if s.closed then { s with posts := s.posts + 1, rejected := s.rejected ++ [s.posts] }
  else
    Loop.setCall
      { s with
        tasks := s.posts :: s.tasks
        posts := s.posts + 1
        pushed := s.pushed ++ [s.posts] }
      thread (some (if thread = loopThread then .update true else .send))

/-- After `close` the work is reported as cancelled. -/
def Loop.postWork (s : Loop Thread) (thread : Thread) : Loop Thread :=
  if s.closed then s else s.setCall thread (some .queueWork)

def Loop.refLoop (loopThread : Thread) (s : Loop Thread) : Loop Thread :=
  Loop.setCall { s with loopRefs := s.loopRefs + 1 } loopThread (some (.update false))

def Loop.unrefLoop (loopThread : Thread) (s : Loop Thread) : Loop Thread :=
  Loop.setCall { s with loopRefs := s.loopRefs - 1 } loopThread (some (.update false))

/-- `uv_async_send`. -/
def Loop.asyncSend (s : Loop Thread) : Loop Thread :=
  match s.async with
  | none => { s with sentClosed := true }
  | some handle => { s with async := some { handle with pending := true } }

/-- `uv_queue_work`. -/
def Loop.queueWork (s : Loop Thread) : Loop Thread :=
  if s.loopClosed then { s with queuedClosed := true } else { s with work := s.work + 1 }

/-- The next step of a call. -/
def Loop.proceed (s : Loop Thread) (thread : Thread) : Call → Loop Thread
  | .update thenSend =>
      s.setCall thread
        (if s.closed then Call.after thenSend
        else some (.apply (!s.tasks.isEmpty || 0 < s.loopRefs) thenSend))
  | .apply alive thenSend =>
      Loop.setCall { s with async := s.async.map fun handle => { handle with referenced := alive } }
        thread (Call.after thenSend)
  | .send => s.asyncSend.setCall thread none
  | .queueWork => s.queueWork.setCall thread none

/-- `drainTasks` starts the next of the tasks it stole, or behind the last one re-evaluates whether
the loop has to stay alive. -/
def Loop.runNext (loopThread : Thread) (s : Loop Thread) (closing : Bool) : List Entry →
    Loop Thread
  | [] =>
      Loop.setCall { s with phase := if closing then .drained else .idle } loopThread
        (some (.update false))
  | task :: rest =>
      { s with
        phase := .running task rest closing
        executed := s.executed ++ [(task, loopThread)] }

/-- `drainTasks` steals the list and turns it around; an empty one leaves it at once. -/
def Loop.steal (loopThread : Thread) (s : Loop Thread) (closing : Bool) : Loop Thread :=
  if s.tasks.isEmpty then { s with phase := if closing then .drained else .idle }
  else Loop.runNext loopThread { s with tasks := [] } closing s.tasks.reverse

def Loop.advance (loopThread : Thread) (s : Loop Thread) : Option (Loop Thread) :=
  match s.phase with
  | .idle | .returned => none
  | .entered => some (s.steal loopThread false)
  | .running _ rest closing => some (s.runNext loopThread closing rest)
  | .flagged => some { s with async := none, phase := .shut }
  | .shut => some (s.steal loopThread true)
  | .drained => some { s with phase := .returned, loopClosed := s.work == 0 }

def Loop.step (loopThread : Thread) (s : Loop Thread) : Action Thread → Option (Loop Thread)
  | .postTask thread =>
      if s.mayCall loopThread thread then some (s.postTask loopThread thread) else none
  | .postWork thread => if s.mayCall loopThread thread then some (s.postWork thread) else none
  | .refLoop => if s.mayCall loopThread loopThread then some (s.refLoop loopThread) else none
  | .unrefLoop =>
      -- `assert(loopRefs > 0)`
      if s.mayCall loopThread loopThread && 0 < s.loopRefs then some (s.unrefLoop loopThread)
      else none
  | .proceed thread => (s.calls thread).map (s.proceed thread)
  | .workDone =>
      if (s.calls loopThread).isNone && (s.phase == .idle || s.phase == .shut || s.phase == .drained)
          && 0 < s.work then
        some { s with work := s.work - 1 }
      else none
  | .wake =>
      match s.async with
      | none => none
      | some handle =>
          if (s.calls loopThread).isNone && s.phase == .idle && handle.pending then
            some { s with async := some { handle with pending := false }, phase := .entered }
          else none
  | .close =>
      if (s.calls loopThread).isNone && s.phase == .idle then
        some { s with closed := true, phase := .flagged }
      else none
  | .advance => if (s.calls loopThread).isNone then s.advance loopThread else none

end HermesNode.EventLoop
