/-
Module: HermesNode.Bindings.HandleWrap
Purpose: One libuv handle, its wrap and the JavaScript object, from construction to the end of the
  environment. Methods and `close` reach the wrap through the object, libuv through the handle; the
  final loop close closes what is still open without telling the wrap, and the finalizers run after
  it. As long as nothing reaches a wrap behind that, the handle is closed once, the wrap deleted once
  and behind it, and the first close callback called once.
Trusted boundary: human-reviewed spec (transcribed from `lib/bindings/handle_wrap_base.cpp`, the
  constructors and finalizer of `lib/bindings/node_process_wrap.cpp`, `UvEventLoop::close` and the
  closing queue of libuv; `napi_unwrap` fails after `napi_remove_wrap`, and finalizers run at the
  latest when the environment ends)
Main exports: Wrap, step, handle_runs_lawful
-/
import HermesNode.Lib.Machine

namespace HermesNode.HandleWrap

/-! ### States -/

/-- `HandleWrapBase::State`. -/
inductive WrapState where
  | kInitialized
  | kClosing
  | kClosed
deriving DecidableEq, Repr

/-- Which constructor made the object: `Process` wraps it before there is a handle. -/
inductive Kind where
  | initialized
  | process
deriving DecidableEq, Repr

/-- The callback `uv_close` was given. -/
inductive CloseCb where
  | uvCloseCb
  /-- The closure in `pointerCb`. -/
  | collected
  | null
deriving DecidableEq, Repr

/-- The handle as libuv sees it. -/
inductive Uv where
  | absent
  | opened
  | closing (cb : CloseCb)
  | closed
deriving DecidableEq, Repr

structure Wrap where
  kind : Kind
  state : WrapState
  /-- `handle_` is set. -/
  handle : Bool
  selfRef : Bool
  /-- The close call whose callback is kept. -/
  closeCbRef : Option Nat
  /-- The JavaScript object still leads to the wrap. -/
  wrapped : Bool
  uv : Uv
  /-- `uvCloseCb` waits for the close callback to return. -/
  inCallback : Bool
  /-- The final loop close has walked over the handles. -/
  walked : Bool
  /-- `rtState->loop` is set. -/
  loop : Bool
  env : Bool
  /-- Close calls so far, which number them. -/
  closeCalls : Nat
  /-- The first `close` that did something, with its callback if it had one. -/
  first : Option (Option Nat)
  /-- The close calls whose callbacks were called. -/
  called : List Nat
  uvCloses : Nat
  /-- Operations started after `uv_close`. -/
  lateOps : Nat
  deletes : Nat
  /-- Deletions before libuv was done with the handle. -/
  earlyDeletes : Nat
  /-- The final loop close closed the handle. -/
  forced : Bool
deriving DecidableEq

/-- A constructor that calls `init`. -/
def constructed : Wrap where
  kind := .initialized
  state := .kInitialized
  handle := true
  selfRef := true
  closeCbRef := none
  wrapped := true
  uv := .opened
  inCallback := false
  walked := false
  loop := true
  env := true
  closeCalls := 0
  first := none
  called := []
  uvCloses := 0
  lateOps := 0
  deletes := 0
  earlyDeletes := 0
  forced := false

/-- `new Process()`: the wrap is there, the handle comes with `spawn`. -/
def constructedProcess : Wrap :=
  { constructed with
    kind := .process, state := .kClosed, handle := false, selfRef := false, uv := .absent }

/-- An object made while the loop is in use or, by the last callbacks, behind its final walk. -/
def construct (kind : Kind) (walked : Bool) : Wrap :=
  match kind with
  | .initialized => { constructed with walked }
  | .process => { constructedProcess with walked }

namespace Wrap

/-! ### libuv -/

def isClosing (w : Wrap) : Bool :=
  match w.uv with
  | .absent | .opened => false
  | .closing _ | .closed => true

/-- `uv_close`, which asserts that it is the first on its handle. -/
def uvClose (w : Wrap) (cb : CloseCb) : Wrap :=
  { w with
    uvCloses := w.uvCloses + 1
    uv := if w.isClosing then w.uv else .closing cb }

/-- Any other operation on the handle. -/
def operate (w : Wrap) : Wrap :=
  if w.isClosing then { w with lateOps := w.lateOps + 1 } else w

/-! ### HandleWrapBase -/

def delete (w : Wrap) : Wrap :=
  { w with
    deletes := w.deletes + 1
    earlyDeletes := match w.uv with
      | .absent | .closed => w.earlyDeletes
      | .opened | .closing _ => w.earlyDeletes + 1 }

/-- `init`; the object of a `Process` is wrapped already, and keeps its finalizer. -/
def init (w : Wrap) : Wrap :=
  { w with handle := true, state := .kInitialized, selfRef := true }

def doClose (w : Wrap) (closeCallback : Option Nat) : Wrap :=
  if w.state ≠ .kInitialized then w
  else
    { w with
      state := .kClosing
      closeCbRef := closeCallback.or w.closeCbRef
      wrapped := w.wrapped && !w.selfRef }.uvClose .uvCloseCb

/-- The end of `uvCloseCb`: both references go, and the wrap. -/
def release (w : Wrap) : Wrap :=
  { w with selfRef := false, closeCbRef := none, inCallback := false }.delete

/-- `uvCloseCb` up to the call of the close callback. -/
def uvCloseCb (w : Wrap) : Wrap :=
  let closed := { w with state := .kClosed }
  match w.closeCbRef with
  | some call => { closed with called := w.called ++ [call], inCallback := true }
  | none => closed.release

/-- The finalizer `init` gives. -/
def pointerCb (w : Wrap) : Wrap :=
  if w.state = .kInitialized ∧ w.handle = true then
    if w.isClosing = false ∧ w.loop = true then
      { w with state := .kClosing }.uvClose .collected
    else { w with state := .kClosed }.delete
  else if w.state = .kClosed then w.delete
  else w

/-- The finalizer of `Process`. -/
def processFinalizer (w : Wrap) : Wrap :=
  if w.state = .kClosed then w.delete else w.doClose none

def finalize (w : Wrap) : Wrap :=
  if w.wrapped then
    match w.kind with
    | .initialized => { w with wrapped := false }.pointerCb
    | .process => { w with wrapped := false }.processFinalizer
  else w

end Wrap

/-! ### Steps -/

inductive Event where
  /-- A method that starts an operation; the base class and the streams look at the state first. -/
  | method (checksState : Bool)
  /-- `close`, or `reset` of a TCP handle, with a function or without. -/
  | close (callback : Bool)
  | spawn
  /-- The loop gets to the handle in its closing queue. -/
  | iteration
  /-- The close callback returns. -/
  | callbackReturns
  /-- The final loop close walks over the handles. -/
  | walk
  /-- The final loop close is done. -/
  | loopClosed
  /-- The object is garbage. -/
  | collect
  /-- The environment ends. -/
  | teardown

namespace Wrap

def method (w : Wrap) (checksState : Bool) : Wrap :=
  if w.wrapped ∧ (checksState → w.state = .kInitialized) then w.operate else w

def close (w : Wrap) (callback : Bool) : Wrap :=
  let call := if callback then some w.closeCalls else none
  let first := if w.state = .kInitialized then w.first.or (some call) else w.first
  if w.wrapped then { w with closeCalls := w.closeCalls + 1, first }.doClose call
  else { w with closeCalls := w.closeCalls + 1 }

/-- `uv_spawn` initializes the handle whether or not it succeeds. -/
def spawn (w : Wrap) : Wrap :=
  if w.wrapped then { w.operate with uv := if w.isClosing then w.uv else .opened }.init else w

def iteration (w : Wrap) : Wrap :=
  match w.uv with
  | .closing .uvCloseCb => { w with uv := .closed }.uvCloseCb
  | .closing .collected => { w with uv := .closed, state := .kClosed }.release
  | .closing .null => { w with uv := .closed }
  | .absent | .opened | .closed => w

/-- `uv_walk` finds the handles the loop has. -/
def walk (w : Wrap) : Wrap :=
  match w.uv with
  | .opened => { w with walked := true, forced := true }.uvClose .null
  | .absent | .closing _ | .closed => { w with walked := true }

end Wrap

def step (w : Wrap) : Event → Option Wrap
  | .method checksState => if w.env = true then some (w.method checksState) else none
  | .close callback => if w.env = true then some (w.close callback) else none
  | .spawn => if w.env ∧ w.kind = .process then some w.spawn else none
  | .iteration => if w.loop then some w.iteration else none
  | .callbackReturns => if w.inCallback then some w.release else none
  | .walk => if w.loop ∧ ¬w.walked ∧ ¬w.inCallback then some w.walk else none
  | .loopClosed =>
      -- the last `uv_run` returns with nothing left in the closing queue
      match w.uv with
      | .closing _ => none
      | .absent | .opened | .closed =>
          if w.walked ∧ ¬w.inCallback then some { w with loop := false } else none
  | .collect => if w.env ∧ ¬w.selfRef then some w.finalize else none
  | .teardown => if w.env ∧ ¬w.loop then some { w with env := false }.finalize else none

/-! ### What holds -/

structure Lawful (w : Wrap) : Prop where
  uvCloses : w.uvCloses ≤ 1
  lateOps : w.lateOps = 0
  deletes : w.deletes ≤ 1
  earlyDeletes : w.earlyDeletes = 0
  /-- Once the loop has closed the handle the first callback was called, once; no other ever is. -/
  called : w.called = if w.uv = .closed then (w.first.bind id).toList else []

/-- No method is called on an object whose handle the final loop close has closed, and the finalizer
does not find such a handle open, or closed under a `Process` that does not know. -/
def Careful (w : Wrap) : Event → Prop
  | .method _ | .close _ | .spawn => w.forced = true → w.wrapped = false
  | .teardown =>
      match w.kind with
      | .initialized => w.wrapped = true → w.uv ≠ .opened
      | .process => w.state = .kInitialized → w.forced = false
  | _ => True

instance (w : Wrap) : (e : Event) → Decidable (Careful w e)
  | .method _ | .close _ | .spawn =>
      inferInstanceAs (Decidable (w.forced = true → w.wrapped = false))
  | .teardown =>
      match h : w.kind with
      | .initialized => decidable_of_iff (w.wrapped = true → w.uv ≠ .opened) (by simp [Careful, h])
      | .process =>
          decidable_of_iff (w.state = .kInitialized → w.forced = false) (by simp [Careful, h])
  | .iteration | .callbackReturns | .walk | .loopClosed | .collect => .isTrue trivial

/-! ### The phases of a wrap -/

/-- Where a wrap can be in a careful run. -/
inductive Phase : Wrap → Prop where
  | unspawned (walked loop : Bool) (closeCalls : Nat) :
      Phase { constructedProcess with walked, loop, closeCalls }
  | opened (kind : Kind) (walked loop : Bool) (closeCalls : Nat) :
      Phase { constructed with kind, walked, loop, closeCalls }
  | closing (kind : Kind) (walked loop env : Bool) (closeCalls : Nat)
      (first : Option (Option Nat)) :
      Phase { constructed with
        kind, walked, loop, env, closeCalls, first
        state := .kClosing
        closeCbRef := first.bind id
        wrapped := false
        uv := .closing .uvCloseCb
        uvCloses := 1 }
  | calling (kind : Kind) (walked loop env : Bool) (closeCalls call : Nat) :
      Phase { constructed with
        kind, walked, loop, env, closeCalls
        state := .kClosed
        closeCbRef := some call
        wrapped := false
        uv := .closed
        inCallback := true
        first := some (some call)
        called := [call]
        uvCloses := 1 }
  | released (kind : Kind) (walked loop env : Bool) (closeCalls : Nat)
      (first : Option (Option Nat)) :
      Phase { constructed with
        kind, walked, loop, env, closeCalls, first
        state := .kClosed
        selfRef := false
        wrapped := false
        uv := .closed
        called := (first.bind id).toList
        uvCloses := 1
        deletes := 1 }
  | forced (kind : Kind) (loop : Bool) (closeCalls : Nat) (uv : Uv)
      (huv : uv = .closing .null ∧ loop = true ∨ uv = .closed) :
      Phase { constructed with
        kind, loop, closeCalls, uv, walked := true, uvCloses := 1, forced := true }
  | ended (loop env : Bool) (closeCalls : Nat) :
      Phase { constructed with
        loop, env, closeCalls
        state := .kClosed
        wrapped := false
        uv := .closed
        walked := true
        uvCloses := 1
        deletes := 1
        forced := true }
  | abandoned (walked loop env : Bool) (closeCalls : Nat) :
      Phase { constructedProcess with
        walked, loop, env, closeCalls, wrapped := false, deletes := 1 }

theorem Phase.construct (kind : Kind) (walked : Bool) : Phase (construct kind walked) := by
  cases kind with
  | initialized => exact .opened .initialized walked true 0
  | process => exact .unspawned walked true 0

theorem Phase.lawful {w : Wrap} (h : Phase w) : Lawful w := by
  have hle : ∀ m n : Nat, m.ble n = true → m ≤ n := fun _ _ => Nat.le_of_ble_eq_true
  cases h with
  | unspawned | opened | closing | calling | released | ended | abandoned =>
      exact ⟨hle _ _ rfl, rfl, hle _ _ rfl, rfl, rfl⟩
  | forced kind loop closeCalls uv huv =>
      rcases huv with ⟨rfl, rfl⟩ | rfl
      · exact ⟨hle _ _ rfl, rfl, hle _ _ rfl, rfl, rfl⟩
      · exact ⟨hle _ _ rfl, rfl, hle _ _ rfl, rfl, rfl⟩

variable {w t : Wrap} {e : Event}

theorem Phase.step (h : Phase w) (hcareful : Careful w e) (ht : step w e = some t) : Phase t := by
  cases h with
  | unspawned walked loop closeCalls =>
      cases e with
      | method checksState =>
          cases checksState <;> cases ht <;> exact .unspawned walked loop closeCalls
      | close callback =>
          cases ht
          exact .unspawned walked loop (closeCalls + 1)
      | spawn =>
          cases ht
          exact .opened .process walked loop closeCalls
      | iteration =>
          cases loop <;> cases ht
          exact .unspawned walked true closeCalls
      | callbackReturns => cases ht
      | walk =>
          cases loop <;> cases walked <;> cases ht
          exact .unspawned true true closeCalls
      | loopClosed =>
          cases walked <;> cases ht
          exact .unspawned true false closeCalls
      | collect =>
          cases ht
          exact .abandoned walked loop true closeCalls
      | teardown =>
          cases loop <;> cases ht
          exact .abandoned walked false false closeCalls
  | opened kind walked loop closeCalls =>
      cases e with
      | method checksState =>
          cases checksState <;> cases ht <;> exact .opened kind walked loop closeCalls
      | close callback =>
          cases callback <;> cases ht
          · exact .closing kind walked loop true (closeCalls + 1) (some none)
          · exact .closing kind walked loop true (closeCalls + 1) (some (some closeCalls))
      | spawn =>
          cases kind <;> cases ht
          exact .opened .process walked loop closeCalls
      | iteration =>
          cases loop <;> cases ht
          exact .opened kind walked true closeCalls
      | callbackReturns => cases ht
      | walk =>
          cases loop <;> cases walked <;> cases ht
          exact .forced kind true closeCalls _ (.inl ⟨rfl, rfl⟩)
      | loopClosed =>
          cases walked <;> cases ht
          exact .opened kind true false closeCalls
      | collect => cases ht
      | teardown =>
          cases loop <;> cases kind <;> cases ht
          · exact absurd rfl (hcareful rfl)
          · exact .closing .process walked false false closeCalls none
  | closing kind walked loop env closeCalls first =>
      cases e with
      | method checksState =>
          cases env <;> cases checksState <;> cases ht <;>
            exact .closing kind walked loop true closeCalls first
      | close callback =>
          cases env <;> cases ht
          exact .closing kind walked loop true (closeCalls + 1) first
      | spawn =>
          cases env <;> cases kind <;> cases ht
          exact .closing .process walked loop true closeCalls first
      | iteration =>
          cases loop <;> cases ht
          rcases first with _ | _ | call
          · exact .released kind walked true env closeCalls none
          · exact .released kind walked true env closeCalls (some none)
          · exact .calling kind walked true env closeCalls call
      | callbackReturns => cases ht
      | walk =>
          cases loop <;> cases walked <;> cases ht
          exact .closing kind true true env closeCalls first
      | loopClosed => cases ht
      | collect => cases env <;> cases ht
      | teardown =>
          cases env <;> cases loop <;> cases ht
          exact .closing kind walked false false closeCalls first
  | calling kind walked loop env closeCalls call =>
      cases e with
      | method checksState =>
          cases env <;> cases checksState <;> cases ht <;>
            exact .calling kind walked loop true closeCalls call
      | close callback =>
          cases env <;> cases ht
          exact .calling kind walked loop true (closeCalls + 1) call
      | spawn =>
          cases env <;> cases kind <;> cases ht
          exact .calling .process walked loop true closeCalls call
      | iteration =>
          cases loop <;> cases ht
          exact .calling kind walked true env closeCalls call
      | callbackReturns =>
          cases ht
          exact .released kind walked loop env closeCalls (some (some call))
      | walk => cases loop <;> cases walked <;> cases ht
      | loopClosed => cases walked <;> cases ht
      | collect => cases env <;> cases ht
      | teardown =>
          cases env <;> cases loop <;> cases ht
          exact .calling kind walked false false closeCalls call
  | released kind walked loop env closeCalls first =>
      cases e with
      | method checksState =>
          cases env <;> cases checksState <;> cases ht <;>
            exact .released kind walked loop true closeCalls first
      | close callback =>
          cases env <;> cases ht
          exact .released kind walked loop true (closeCalls + 1) first
      | spawn =>
          cases env <;> cases kind <;> cases ht
          exact .released .process walked loop true closeCalls first
      | iteration =>
          cases loop <;> cases ht
          exact .released kind walked true env closeCalls first
      | callbackReturns => cases ht
      | walk =>
          cases loop <;> cases walked <;> cases ht
          exact .released kind true true env closeCalls first
      | loopClosed =>
          cases walked <;> cases ht
          exact .released kind true false env closeCalls first
      | collect =>
          cases env <;> cases ht
          exact .released kind walked loop true closeCalls first
      | teardown =>
          cases env <;> cases loop <;> cases ht
          exact .released kind walked false false closeCalls first
  | forced kind loop closeCalls uv huv =>
      cases e with
      | method checksState => cases hcareful rfl
      | close callback => cases hcareful rfl
      | spawn => cases hcareful rfl
      | iteration =>
          rcases huv with ⟨rfl, rfl⟩ | rfl
          · cases ht
            exact .forced kind true closeCalls .closed (.inr rfl)
          · cases loop <;> cases ht
            exact .forced kind true closeCalls .closed (.inr rfl)
      | callbackReturns => cases ht
      | walk => cases loop <;> cases ht
      | loopClosed =>
          rcases huv with ⟨rfl, rfl⟩ | rfl <;> cases ht
          exact .forced kind false closeCalls .closed (.inr rfl)
      | collect => cases ht
      | teardown =>
          cases kind with
          | initialized =>
              -- the loop is closed, so it is done with the handle
              rcases huv with ⟨rfl, rfl⟩ | rfl
              · cases ht
              · cases loop <;> cases ht
                exact .ended false false closeCalls
          | process => cases hcareful rfl
  | ended loop env closeCalls =>
      cases e with
      | method checksState =>
          cases env <;> cases checksState <;> cases ht <;> exact .ended loop true closeCalls
      | close callback =>
          cases env <;> cases ht
          exact .ended loop true (closeCalls + 1)
      | spawn => cases env <;> cases ht
      | iteration =>
          cases loop <;> cases ht
          exact .ended true env closeCalls
      | callbackReturns => cases ht
      | walk => cases loop <;> cases ht
      | loopClosed =>
          cases ht
          exact .ended false env closeCalls
      | collect => cases env <;> cases ht
      | teardown =>
          cases env <;> cases loop <;> cases ht
          exact .ended false false closeCalls
  | abandoned walked loop env closeCalls =>
      cases e with
      | method checksState =>
          cases env <;> cases checksState <;> cases ht <;>
            exact .abandoned walked loop true closeCalls
      | close callback =>
          cases env <;> cases ht
          exact .abandoned walked loop true (closeCalls + 1)
      | spawn =>
          cases env <;> cases ht
          exact .abandoned walked loop true closeCalls
      | iteration =>
          cases loop <;> cases ht
          exact .abandoned walked true env closeCalls
      | callbackReturns => cases ht
      | walk =>
          cases loop <;> cases walked <;> cases ht
          exact .abandoned true true env closeCalls
      | loopClosed =>
          cases walked <;> cases ht
          exact .abandoned true false env closeCalls
      | collect =>
          cases env <;> cases ht
          exact .abandoned walked loop true closeCalls
      | teardown =>
          cases env <;> cases loop <;> cases ht
          exact .abandoned walked false false closeCalls

/-- In every run whose steps all meet the condition, every state is lawful. -/
theorem handle_runs_lawful {kind : Kind} {walked : Bool} {events : List Event} {w : Wrap}
    (run : GuardedRun step Careful (construct kind walked) events w) : Lawful w := by
  have hphase : Phase w :=
    run.invariant (fun _ _ _ h hcareful ht => h.step hcareful ht) (.construct kind walked)
  exact hphase.lawful

/-- A handle is closed twice, and once more from its callback; the program ends. -/
def closedAgain : List Event :=
  [.method true, .close true, .close true, .method false, .iteration, .close true,
    .callbackReturns, .walk, .loopClosed, .teardown]

theorem closed_again_lawful :
    ∃ w, GuardedRun step Careful (construct .initialized false) closedAgain w ∧
      w.called = [0] ∧ Lawful w := by
  have hends : (runEvents (fun w e => if Careful w e then step w e else none)
      (construct .initialized false) closedAgain).any (fun w => w.called = [0]) = true := by
    decide
  rcases (Option.any_eq_true _ _).1 hends with ⟨w, hw, hcalled⟩
  have hrun := GuardedRun.of_runEvents .start hw
  exact ⟨w, hrun, of_decide_eq_true hcalled, handle_runs_lawful hrun⟩

/-- A child process is still running, unreferenced, when its parent is done. -/
def detachedChild : List Event := [.spawn, .walk, .iteration, .loopClosed, .teardown]

/-- A callback of the last loop iterations closes a handle that the walk has closed. -/
def lateClose : List Event := [.walk, .close true]

/-- `uv_close` is called twice on the handle of a detached child, and where a callback closes a handle
behind the final walk. -/
theorem handle_closed_twice :
    (∃ w, runEvents step (construct .process false) detachedChild = some w ∧ w.uvCloses = 2) ∧
    (∃ w, runEvents step (construct .initialized false) lateClose = some w ∧ w.uvCloses = 2) := by
  have hdetached : (runEvents step (construct .process false) detachedChild).any
      (fun w => w.uvCloses = 2) = true := by decide
  have hlate : (runEvents step (construct .initialized false) lateClose).any
      (fun w => w.uvCloses = 2) = true := by decide
  rcases (Option.any_eq_true _ _).1 hdetached with ⟨w, hw, htwice⟩
  rcases (Option.any_eq_true _ _).1 hlate with ⟨w', hw', htwice'⟩
  exact ⟨⟨w, hw, of_decide_eq_true htwice⟩, w', hw', of_decide_eq_true htwice'⟩

end HermesNode.HandleWrap
