/-
Module: HermesNode.Inspector.Bridge
Purpose: The two queues between the main thread and the inspector thread. The agent of the main
  thread pushes outbound messages and wakes the inspector loop; the server of the inspector thread
  pushes inbound commands, wakes the main loop and interrupts the main runtime. Each of the two
  threads starts and stops in an order of its own. One step is one section under a mutex, one access
  to a flag or one `uv_async_send` of either thread, or a callback of JavaScript that does none of
  these.
Trusted boundary: human-reviewed spec (transcribed from `lib/inspector/inspector_bridge.cpp`,
  `lib/runtime/hermes_node_runtime.cpp` and `libjs/shims/inspector-server.js`; libuv as documented:
  an async handle remembers that it was signalled until its callback runs, and may only be signalled
  between its init and its close; `handleCommand` of the agent does not run the program, and the
  agent calls its message callback on the main thread)
Main exports: State, Event, step, first
-/
import HermesNode.Lib.Machine
import HermesNode.Lib.Mailbox

namespace HermesNode.Inspector

/-! ### Threads -/

/-- Where the main thread is. -/
inductive MainPhase where
  /-- The agent exists and the inspector thread does not. -/
  | starting
  /-- It waits on `readyCv`. -/
  | waiting
  | running
  /-- It has signalled `shutdownAsync`, where it may. -/
  | signalled
  | unflagged
  | agentless
  | joined
  | closed
deriving DecidableEq, Repr

/-- Where the inspector thread is. -/
inductive InspectorPhase where
  | absent
  | booting
  /-- `inspectorAsync` is there and `shutdownAsync` is not. -/
  | half
  | bound
  | registered
  | looping
  /-- Its servers are closed, or it failed, and its loop runs out. -/
  | stopping
  | unflagged
  | unsignalled
  | closed
  | exited
deriving DecidableEq, Repr

/-- The main thread has begun to shut down. -/
def MainPhase.shutsDown : MainPhase → Bool
  | .starting | .waiting | .running => false
  | .signalled | .unflagged | .agentless | .joined | .closed => true

/-- The agent may call its message callback. -/
def MainPhase.agentActs : MainPhase → Bool
  | .starting | .running | .joined | .closed => true
  | .waiting | .signalled | .unflagged | .agentless => false

/-- The main runtime may run code, and so take an interrupt. -/
def MainPhase.runsCode : MainPhase → Bool
  | .running | .joined | .closed => true
  | .starting | .waiting | .signalled | .unflagged | .agentless => false

/-- The inspector loop may run callbacks. -/
def InspectorPhase.loops : InspectorPhase → Bool
  | .looping | .stopping => true
  | .absent | .booting | .half | .bound | .registered | .unflagged | .unsignalled | .closed
  | .exited => false

/-- `runHermesNode` of the inspector can still fail before its loop runs. -/
def InspectorPhase.canFail : InspectorPhase → Bool
  | .booting | .bound | .registered => true
  | .absent | .half | .looping | .stopping | .unflagged | .unsignalled | .closed | .exited => false

/-- The loop of the inspector has been closed. -/
def InspectorPhase.isOver : InspectorPhase → Bool
  | .closed | .exited => true
  | .absent | .booting | .half | .bound | .registered | .looping | .stopping | .unflagged
  | .unsignalled => false

/-! ### The server -/

abbrev Message := String
abbrev Client := Nat

structure Server where
  /-- The client, and whether its `readyState` is OPEN. -/
  activeWs : Option (Client × Bool)
  pendingMessages : List Message
  /-- What was sent to clients. -/
  sent : List (Client × Message)
deriving DecidableEq, Repr

namespace Server

/-- The callback that the server registers. -/
def messageCallback (v : Server) (message : Message) : Server :=
  match v.activeWs with
  | some (client, true) => { v with sent := v.sent ++ [(client, message)] }
  | _ => { v with pendingMessages := v.pendingMessages ++ [message] }

/-- The connection handler. -/
def connection (v : Server) (client : Client) : Server :=
  match v.activeWs with
  | some _ => v
  | none =>
      { activeWs := some (client, true)
        pendingMessages := []
        sent := v.sent ++ v.pendingMessages.map (client, ·) }

/-- The socket of the active client leaves the state OPEN. -/
def closing (v : Server) : Server :=
  { v with activeWs := v.activeWs.map fun ws => (ws.1, false) }

/-- The handlers of 'close' and of 'error'. -/
def close (v : Server) (client : Client) : Server :=
  match v.activeWs with
  | some (active, _) => if active = client then { v with activeWs := none } else v
  | none => v

/-- The shutdown callback. -/
def shutdown (v : Server) : Server := { v with activeWs := none }

end Server

/-! ### The state of both threads -/

structure State where
  main : MainPhase
  inspector : InspectorPhase
  /-- From the server of the inspector to the agent; `asyncHandle` of `InspectorState` wakes. -/
  inbound : Mailbox Message
  /-- From the agent to the server; `inspectorAsync` wakes. -/
  outbound : Mailbox Message
  /-- `asyncActive` of `InspectorState`. -/
  asyncActive : Bool
  inspectorAsyncActive : Bool
  shutdownAsync : WakeHandle
  canSendShutdown : Bool
  ready : Bool
  /-- `agent` of `InspectorState` is not null. -/
  agent : Bool
  /-- `messageCallbackRef` is set. -/
  callback : Bool
  /-- `sendToMain` has `triggerInboundDrain` still to call. -/
  triggering : Bool
  /-- The drains queued with `triggerInterrupt_TS`. -/
  interrupts : Nat
  server : Server
  /-- The commands given before the main thread shut down. -/
  before : List Message
  /-- The signals to `shutdownAsync` when it was not open. -/
  strays : Nat
deriving DecidableEq, Repr

def first : State where
  main := .starting
  inspector := .absent
  inbound := .empty (.opened false)
  outbound := .empty .absent
  asyncActive := true
  inspectorAsyncActive := false
  shutdownAsync := .absent
  canSendShutdown := false
  ready := false
  agent := true
  callback := false
  triggering := false
  interrupts := 0
  server := { activeWs := none, pendingMessages := [], sent := [] }
  before := []
  strays := 0

inductive Event where
  -- the main thread
  | launch
  | proceed
  /-- The first section of the agent's message callback. -/
  | messageCallback (message : Message)
  | loadInspectorAsyncActive
  | sendInspectorAsync
  /-- `onInspectorAsync` is called. -/
  | onInspectorAsync
  /-- The callback of an interrupt is called. -/
  | onInterrupt
  | swapInbound
  | handleCommand
  | signalShutdown
  | clearAsyncActive
  | clearAgent
  | join
  | closeAsyncHandle
  -- the inspector thread
  | initInspectorAsync
  | initShutdownAsync
  | setMessageCallback
  | runLoop
  /-- The inspector runtime fails before its loop. -/
  | fail
  | notifyReady
  /-- `onOutboundAsync` is called. -/
  | onOutboundAsync
  | swapOutbound
  | callMessageCallback
  | connection (client : Client)
  /-- The socket of the active client leaves the state OPEN. -/
  | closing
  /-- 'close' or 'error' of a client. -/
  | close (client : Client)
  | sendToMain (command : Message)
  | loadAsyncActive
  | sendAsyncHandle
  | triggerInboundDrain
  | onShutdownAsync
  | clearInspectorAsyncActive
  | clearCanSendShutdown
  | closeLoop
  | threadEnds
deriving DecidableEq, Repr

namespace State

/-- The main thread is in no callback of the bridge. -/
def mainFree (s : State) : Bool := s.inbound.free && s.outbound.sending == .idle

/-- The inspector thread is in no callback of the bridge. -/
def inspectorFree (s : State) : Bool :=
  s.outbound.free && s.inbound.sending == .idle && !s.triggering

/-! ### Effects -/

/-- The section of the main thread under `shutdownMutex`. -/
def signalShutdown (s : State) : State :=
  { s with
    main := .signalled
    before := s.inbound.given
    shutdownAsync := if s.canSendShutdown then s.shutdownAsync.signal else s.shutdownAsync
    strays := if s.canSendShutdown then s.strays + s.shutdownAsync.astray else s.strays }

end State

/-! ### Steps -/

/-- Where the two threads have to be for an event. -/
def enabled (s : State) : Event → Bool
  | .launch => s.main == .starting && s.mainFree
  | .proceed => s.main == .waiting && s.ready
  | .messageCallback _ => s.main.agentActs && !s.inbound.woken && s.outbound.sending == .idle
  | .loadInspectorAsyncActive => s.outbound.sending == .pushed
  | .sendInspectorAsync => s.outbound.sending.isLoaded
  | .onInspectorAsync => s.main == .running && s.mainFree && s.inbound.handle == .opened true
  | .onInterrupt => s.main.runsCode && s.mainFree && decide (0 < s.interrupts)
  | .swapInbound => s.inbound.woken
  | .handleCommand =>
      !s.inbound.woken && !s.inbound.taken.isEmpty && s.outbound.sending == .idle
  | .signalShutdown => s.main == .running && s.mainFree
  | .clearAsyncActive => s.main == .signalled
  | .clearAgent => s.main == .unflagged
  | .join => s.main == .agentless && s.inspector == .exited
  | .closeAsyncHandle => s.main == .joined && s.mainFree
  | .initInspectorAsync => s.inspector == .booting
  | .initShutdownAsync => s.inspector == .half
  | .setMessageCallback => s.inspector == .bound
  | .runLoop => s.inspector == .registered
  | .fail => s.inspector.canFail
  | .notifyReady => s.inspector == .looping && s.inspectorFree
  | .onOutboundAsync =>
      s.inspector.loops && s.inspectorFree && s.outbound.handle == .opened true
  | .swapOutbound => s.outbound.woken
  | .callMessageCallback => !s.outbound.woken && !s.outbound.taken.isEmpty
  | .connection _ => s.inspector == .looping && s.inspectorFree
  | .closing | .close _ => s.inspector.loops && s.inspectorFree
  | .sendToMain _ => s.inspector.loops && s.inspectorFree
  | .loadAsyncActive => s.inbound.sending == .pushed
  | .sendAsyncHandle => s.inbound.sending.isLoaded
  | .triggerInboundDrain => s.inbound.sending == .idle && s.triggering
  | .onShutdownAsync =>
      s.inspector == .looping && s.inspectorFree && s.shutdownAsync == .opened true
  | .clearInspectorAsyncActive =>
      -- the `uv_run` before it has called back for a handle that was signalled
      s.inspector == .stopping && s.inspectorFree && s.outbound.handle != .opened true
  | .clearCanSendShutdown => s.inspector == .unflagged
  | .closeLoop => s.inspector == .unsignalled
  | .threadEnds => s.inspector == .closed

def after (s : State) : Event → State
  | .launch => { s with main := .waiting, inspector := .booting }
  | .proceed => { s with main := .running }
  | .messageCallback message => { s with outbound := s.outbound.push message }
  | .loadInspectorAsyncActive =>
      { s with outbound := s.outbound.load s.inspectorAsyncActive }
  | .sendInspectorAsync => { s with outbound := s.outbound.signal }
  | .onInspectorAsync => { s with inbound := s.inbound.wake }
  | .onInterrupt => { s with interrupts := s.interrupts - 1, inbound := s.inbound.interrupt }
  | .swapInbound => { s with inbound := s.inbound.swap true }
  | .handleCommand => { s with inbound := s.inbound.hand s.agent }
  | .signalShutdown => s.signalShutdown
  | .clearAsyncActive => { s with main := .unflagged, asyncActive := false }
  | .clearAgent => { s with main := .agentless, agent := false }
  | .join => { s with main := .joined }
  | .closeAsyncHandle => { s with main := .closed, inbound := s.inbound.shut }
  | .initInspectorAsync =>
      { s with inspector := .half, outbound := s.outbound.opened, inspectorAsyncActive := true }
  | .initShutdownAsync =>
      { s with inspector := .bound, shutdownAsync := .opened false, canSendShutdown := true }
  | .setMessageCallback => { s with inspector := .registered, callback := true }
  | .runLoop => { s with inspector := .looping }
  | .fail => { s with inspector := .stopping }
  | .notifyReady => { s with ready := true }
  | .onOutboundAsync => { s with outbound := s.outbound.wake }
  | .swapOutbound => { s with outbound := s.outbound.swap s.callback }
  | .callMessageCallback =>
      { s with
        outbound := s.outbound.hand true
        server := s.outbound.taken.head?.elim s.server s.server.messageCallback }
  | .connection client => { s with server := s.server.connection client }
  | .closing => { s with server := s.server.closing }
  | .close client => { s with server := s.server.close client }
  | .sendToMain command => { s with inbound := s.inbound.push command, triggering := true }
  | .loadAsyncActive => { s with inbound := s.inbound.load s.asyncActive }
  | .sendAsyncHandle => { s with inbound := s.inbound.signal }
  | .triggerInboundDrain => { s with triggering := false, interrupts := s.interrupts + 1 }
  | .onShutdownAsync =>
      { s with
        inspector := .stopping
        shutdownAsync := s.shutdownAsync.consume
        server := s.server.shutdown }
  | .clearInspectorAsyncActive =>
      { s with inspector := .unflagged, inspectorAsyncActive := false }
  | .clearCanSendShutdown => { s with inspector := .unsignalled, canSendShutdown := false }
  | .closeLoop =>
      { s with
        inspector := .closed
        outbound := s.outbound.shut
        shutdownAsync := s.shutdownAsync.shut }
  | .threadEnds => { s with inspector := .exited, ready := true }

def step (s : State) (e : Event) : Option State :=
  if enabled s e then some (after s e) else none

theorem step_cases {s t : State} {e : Event} (h : step s e = some t) :
    enabled s e = true ∧ after s e = t := by
  rw [step] at h
  split at h
  · rename_i hen
    exact ⟨hen, Option.some.inj h⟩
  · cases h

/-! ### What the bridge promises -/

structure Lawful (s : State) : Prop where
  /-- The agent gets every command once, in the order of the calls of `sendToMain`. -/
  commands_in_order : s.main.shutsDown = false →
    s.inbound.given = s.inbound.handed ++ s.inbound.taken ++ s.inbound.queue
  /-- A command that waits before the shutdown has a drain on its way. -/
  commands_awake : s.main.shutsDown = false → s.inbound.queue ≠ [] →
    s.inbound.handle = .opened true ∨ s.inbound.woken = true ∨ s.inbound.sending = .pushed ∨
      s.inbound.sending = .loaded true
  /-- The agent got the commands that were given before the shutdown, and no others. -/
  commands_settled : s.main.shutsDown = true → s.inbound.handed = s.before
  /-- The callback gets every message once, in the order of the pushes. -/
  messages_in_order :
    s.outbound.given = s.outbound.handed ++ s.outbound.taken ++ s.outbound.queue
  /-- A message that waits for a registered callback has a wake-up on its way. -/
  messages_awake : s.callback = true → s.outbound.queue ≠ [] →
    s.outbound.handle = .opened true ∨ s.outbound.woken = true ∨
      s.outbound.sending = .pushed ∨ s.outbound.sending = .loaded true
  /-- The callback got every message before the inspector ended. -/
  messages_settled : s.inspector.isOver = true → s.outbound.handed = s.outbound.given
  /-- What the callback got was sent on in the same order, or is kept for the next client. -/
  sent_in_order :
    s.outbound.handed = s.server.sent.map Prod.snd ++ s.server.pendingMessages
  /-- Nothing is kept from a client that is connected. -/
  client_up_to_date :
    ∀ client, s.server.activeWs = some (client, true) → s.server.pendingMessages = []
  /-- No handle was signalled before its init or behind its close. -/
  no_stray_signal : s.inbound.strays = 0 ∧ s.outbound.strays = 0 ∧ s.strays = 0

/-- No message waits when the callback is registered or when the inspector loop is closed, none comes
behind that, and no command waits when the main thread shuts down. -/
def careful (s : State) : Event → Bool
  | .messageCallback _ => !s.inspector.isOver
  | .setMessageCallback | .closeLoop => s.outbound.queue.isEmpty
  | .signalShutdown => s.inbound.queue.isEmpty
  | _ => true

def Careful (s : State) (e : Event) : Prop := careful s e = true

instance (s : State) (e : Event) : Decidable (Careful s e) :=
  inferInstanceAs (Decidable (_ = _))

end HermesNode.Inspector
