/-
Module: HermesNode.Bindings.Watcher
Purpose: One `StatWatcher` or `FSEvent`, its record and its libuv handle, from construction to the end
  of the environment. The final loop close closes what is open without telling the record, and a start
  that fails leaves a handle that is closing in a record that counts as never started. All is well along
  a run exactly as long as no finalizer finds a started record whose handle is not open on a live loop,
  or the handle of a failed start that libuv is not done with, and no second start fails meanwhile.
Trusted boundary: human-reviewed spec (transcribed from `lib/bindings/node_file.cpp`,
  `lib/bindings/node_fs_event_wrap.cpp`, `UvEventLoop::close` and the closing queue of libuv;
  `napi_unwrap` fails after `napi_remove_wrap`, an object with a strong reference is not collected, and
  finalizers run at the latest when the environment ends)
Main exports: Watcher, construct, watcher_runs_lawful_iff
-/
import HermesNode.Lib.Machine

namespace HermesNode.FsWatch

/-! ### States -/

inductive Kind where
  | statWatcher
  | fsEvent
deriving DecidableEq, Repr

/-- The callback `uv_close` was given. -/
inductive CloseCb where
  /-- `onStatWatcherClose` and `onFsEventClose`. -/
  | onClose
  /-- The one in the finalizer. -/
  | collected
  | null
deriving DecidableEq, Repr

/-- The handle as libuv sees it. -/
inductive Uv where
  | absent
  | opened
  | closing (cb : CloseCb)
  /-- Initialized again while it is in the closing queue. -/
  | reopened
  | closed
deriving DecidableEq, Repr

/-- `StatWatcherWrap` and `FSEventWrap`, with what was done to them. -/
structure Watcher where
  kind : Kind
  initialized : Bool
  closing : Bool
  selfRef : Bool
  /-- A reference that a later start has overwritten. -/
  pinned : Bool
  /-- The JavaScript object still leads to the record. -/
  wrapped : Bool
  uv : Uv
  /-- The final loop close has walked over the handles. -/
  walked : Bool
  loop : Bool
  env : Bool
  /-- Calls of `uv_close` on a handle that was closed or closing. -/
  repeats : Nat
  /-- Calls of `uv_close` on a handle whose loop was closed. -/
  lateCloses : Nat
  deletes : Nat
  /-- Deletions before libuv was done with the handle. -/
  earlyDeletes : Nat
deriving DecidableEq

/-- How far the loop has got when an object is made. -/
inductive Stage where
  | running
  | walked
  | closed
deriving DecidableEq, Repr

namespace Watcher

/-! ### libuv -/

/-- `uv_is_closing`. -/
def isClosing (w : Watcher) : Bool :=
  match w.uv with
  | .closing _ | .closed => true
  | .absent | .opened | .reopened => false

/-- `uv_close`, which asserts that the handle is not closing. -/
def uvClose (w : Watcher) (cb : CloseCb) : Watcher :=
  { w with
    repeats := match w.uv with
      | .absent | .opened => w.repeats
      | .closing _ | .reopened | .closed => w.repeats + 1
    lateCloses := if w.loop then w.lateCloses else w.lateCloses + 1
    uv := match w.uv with
      | .opened | .reopened => .closing cb
      | uv => uv }

/-- `uv_fs_event_init`, which looks at nothing. -/
def uvInit (w : Watcher) : Watcher :=
  { w with
    uv := match w.uv with
      | .closing _ | .reopened => .reopened
      | .absent | .opened | .closed => .opened }

def delete (w : Watcher) : Watcher :=
  { w with
    deletes := w.deletes + 1
    earlyDeletes := match w.uv with
      | .absent | .closed => w.earlyDeletes
      | .opened | .closing _ | .reopened => w.earlyDeletes + 1 }

/-! ### The bindings -/

/-- `statWatcherNew` and `fsEventNew`. -/
def construct (kind : Kind) (stage : Stage) (initOk : Bool) : Watcher :=
  let fresh : Watcher :=
    { kind := kind, initialized := false, closing := false, selfRef := false, pinned := false, wrapped := true,
      uv := .absent, walked := stage ≠ .running, loop := stage ≠ .closed, env := true, repeats := 0,
      lateCloses := 0, deletes := 0, earlyDeletes := 0 }
  match kind with
  | .fsEvent => fresh
  | .statWatcher =>
      if initOk then { fresh with uv := .opened, initialized := true }
      else { fresh.delete with wrapped := false }

/-- `statWatcherStart`, which takes its reference before anything can fail. -/
def statWatcherStart (w : Watcher) (ok : Bool) : Watcher :=
  if w.wrapped then { w with pinned := w.pinned || w.selfRef, selfRef := ok } else w

def fsEventStart (w : Watcher) (ok : Bool) : Watcher :=
  if w.wrapped = false ∨ w.initialized = true then w
  else if ok then { w.uvInit with initialized := true, pinned := w.pinned || w.selfRef, selfRef := true }
  else w.uvInit.uvClose .null

def start (w : Watcher) (ok : Bool) : Watcher :=
  match w.kind with
  | .statWatcher => w.statWatcherStart ok
  | .fsEvent => w.fsEventStart ok

/-- `statWatcherClose` and `fsEventClose`. -/
def close (w : Watcher) : Watcher :=
  if w.wrapped = false ∨ w.closing = true then w
  else if w.initialized = true ∧ w.isClosing = false then
    { { w with closing := true }.uvClose .onClose with wrapped := false }
  else { w with closing := true, selfRef := false }

/-- The finalizer. -/
def finalize (w : Watcher) : Watcher :=
  if w.wrapped = false then w
  else if w.initialized then { w with wrapped := false }.uvClose .collected
  else { w with wrapped := false }.delete

/-- The loop is done with a handle in its closing queue. -/
def iteration (w : Watcher) : Watcher :=
  match w.uv with
  | .closing .onClose => { w with uv := .closed, selfRef := false }.delete
  | .closing .collected => { w with uv := .closed }.delete
  | .closing .null | .reopened => { w with uv := .closed }
  | .absent | .opened | .closed => w

/-- `uv_walk` finds the handles the loop has. -/
def walk (w : Watcher) : Watcher :=
  match w.uv with
  | .opened | .reopened => { w with walked := true }.uvClose .null
  | .absent | .closing _ | .closed => { w with walked := true }

/-- Nothing is left in the closing queue. -/
def idle (w : Watcher) : Bool :=
  match w.uv with
  | .closing _ | .reopened => false
  | .absent | .opened | .closed => true

end Watcher

/-! ### Steps -/

inductive Event where
  | start (ok : Bool)
  | ref
  | unref
  | close
  /-- The object is garbage. -/
  | collect
  | iteration
  /-- The final loop close walks over the handles. -/
  | walk
  | loopClosed
  /-- The environment ends. -/
  | teardown
deriving DecidableEq, Repr

def step (w : Watcher) : Event → Option Watcher
  | .start ok => if w.env then some (w.start ok) else none
  | .ref | .unref => if w.env then some w else none
  | .close => if w.env then some w.close else none
  | .collect => if w.env ∧ ¬w.selfRef ∧ ¬w.pinned then some w.finalize else none
  | .iteration => if w.loop then some w.iteration else none
  | .walk => if w.loop ∧ ¬w.walked then some w.walk else none
  | .loopClosed =>
      -- the last `uv_run` returns with nothing left in the closing queue
      if w.loop ∧ w.walked ∧ w.idle then some { w with loop := false } else none
  | .teardown => if w.env ∧ ¬w.loop then some { w with env := false }.finalize else none

/-! ### What holds -/

structure Lawful (w : Watcher) : Prop where
  once : w.repeats = 0
  inTime : w.lateCloses = 0
  freedOnce : w.deletes ≤ 1
  notEarly : w.earlyDeletes = 0
  /-- Nothing is left when the environment has ended. -/
  freed : w.env = false → w.deletes = 1

/-- The finalizer of a started record finds its handle open on a live loop, and that of another one finds
none that libuv is closing. -/
def Finalizable (w : Watcher) : Prop :=
  w.wrapped = true → if w.initialized then w.uv = .opened ∧ w.loop = true else w.idle = true

/-- What the state has to be for an event to do no harm. -/
def Careful (w : Watcher) : Event → Prop
  | .start _ => w.kind = .fsEvent → w.wrapped = true → w.initialized = false →
      w.idle = true ∧ w.loop = true
  | .close => w.wrapped = true → w.closing = false → w.initialized = true → w.isClosing = false →
      w.loop = true
  | .collect | .teardown => Finalizable w
  | .ref | .unref | .iteration | .walk | .loopClosed => True

/-! ### The invariant -/

namespace Watcher

/-- The record is still to be freed. -/
def owed (w : Watcher) : Bool :=
  w.wrapped || decide (w.uv = .closing .onClose) || decide (w.uv = .closing .collected)

end Watcher

structure Inv (w : Watcher) : Prop where
  once : w.repeats = 0
  inTime : w.lateCloses = 0
  notEarly : w.earlyDeletes = 0
  deletes : w.deletes = if w.owed then 0 else 1
  whole : w.uv ≠ .reopened
  /-- Only a record whose object is gone from it waits for its own callback. -/
  wrapped : w.wrapped = true → w.uv ≠ .closing .onClose ∧ w.uv ≠ .closing .collected
  unwrapped : w.wrapped = false → w.uv ≠ .opened ∧ w.uv ≠ .closing .null
  started : w.initialized = true → w.uv ≠ .absent
  unstarted : w.initialized = false → w.uv ≠ .opened
  idle : w.loop = false → w.idle = true
  ended : w.env = false → w.wrapped = false ∧ w.loop = false

theorem Inv.lawful {w : Watcher} (h : Inv w) : Lawful w where
  once := h.once
  inTime := h.inTime
  freedOnce := by
    rw [h.deletes]
    split <;> decide
  notEarly := h.notEarly
  freed henv := by
    have hidle := h.idle (h.ended henv).2
    have howed : w.owed = false := by
      unfold Watcher.owed
      rw [(h.ended henv).1]
      unfold Watcher.idle at hidle
      split at hidle
      · cases hidle
      · cases hidle
      all_goals simp [*]
    rw [h.deletes, howed]
    rfl

theorem construct_inv (kind : Kind) (stage : Stage) (initOk : Bool) :
    Inv (Watcher.construct kind stage initOk) := by
  cases kind <;> cases stage <;> cases initOk <;> constructor <;> decide

/-! ### Operations -/

variable {w : Watcher}

theorem Inv.opened (h : Inv w) (hstarted : w.initialized = true) (hclosing : w.isClosing = false) :
    w.uv = .opened := by
  have habsent := h.started hstarted
  have hwhole := h.whole
  cases huv : w.uv with
  | absent => exact absurd huv habsent
  | opened => rfl
  | closing cb => simp [Watcher.isClosing, huv] at hclosing
  | reopened => exact absurd huv hwhole
  | closed => simp [Watcher.isClosing, huv] at hclosing

/-- A record that was never started and whose handle libuv is done with can be freed. -/
theorem Inv.resting (h : Inv w) (hstarted : w.initialized = false) (hidle : w.idle = true) :
    w.uv = .absent ∨ w.uv = .closed := by
  cases huv : w.uv with
  | absent => exact Or.inl rfl
  | opened => exact absurd huv (h.unstarted hstarted)
  | closing cb => simp [Watcher.idle, huv] at hidle
  | reopened => simp [Watcher.idle, huv] at hidle
  | closed => exact Or.inr rfl

theorem Inv.close (h : Inv w) (hcareful : Careful w .close) : Inv w.close := by
  unfold Watcher.close
  split_ifs with hskip hopen
  · exact h
  · rw [not_or, Bool.not_eq_false, Bool.not_eq_true] at hskip
    have huv := h.opened hopen.1 hopen.2
    have hloop := hcareful hskip.1 hskip.2 hopen.1 hopen.2
    have hdeletes := h.deletes
    have hended := h.ended
    constructor <;> simp_all [Watcher.uvClose, Watcher.owed, h.once, h.inTime, h.notEarly]
  · exact ⟨h.once, h.inTime, h.notEarly, h.deletes, h.whole, h.wrapped, h.unwrapped, h.started, h.unstarted,
      h.idle, h.ended⟩

theorem Inv.finalize (h : Inv w) (hcareful : Finalizable w) : Inv w.finalize := by
  unfold Watcher.finalize
  have hdeletes := h.deletes
  have hended := h.ended
  split_ifs with hwrapped hstarted
  · exact h
  · rw [Bool.not_eq_false] at hwrapped
    have hready := hcareful hwrapped
    rw [if_pos hstarted] at hready
    constructor <;> simp_all [Watcher.uvClose, Watcher.owed, h.once, h.inTime, h.notEarly]
  · rw [Bool.not_eq_false] at hwrapped
    have hready := hcareful hwrapped
    rw [if_neg hstarted] at hready
    rw [Bool.not_eq_true] at hstarted
    rcases h.resting hstarted hready with huv | huv
    · constructor <;> simp_all [Watcher.delete, Watcher.owed, Watcher.idle, h.once, h.inTime, h.notEarly]
    · constructor <;> simp_all [Watcher.delete, Watcher.owed, Watcher.idle, h.once, h.inTime, h.notEarly]

theorem Inv.start (h : Inv w) {ok : Bool} (hcareful : Careful w (.start ok)) : Inv (w.start ok) := by
  unfold Watcher.start
  cases hkind : w.kind with
  | statWatcher =>
      dsimp only
      unfold Watcher.statWatcherStart
      split
      · exact ⟨h.once, h.inTime, h.notEarly, h.deletes, h.whole, h.wrapped, h.unwrapped, h.started,
          h.unstarted, h.idle, h.ended⟩
      · exact h
  | fsEvent =>
      dsimp only
      unfold Watcher.fsEventStart
      have hdeletes := h.deletes
      have hended := h.ended
      split_ifs with hskip hok
      · exact h
      all_goals
        rw [not_or, Bool.not_eq_false, Bool.not_eq_true] at hskip
        rcases hcareful hkind hskip.1 hskip.2 with ⟨hidle, hloop⟩
        rcases h.resting hskip.2 hidle with huv | huv <;> constructor <;>
          simp_all [Watcher.uvInit, Watcher.uvClose, Watcher.owed, h.once, h.inTime, h.notEarly]

theorem Inv.iteration (h : Inv w) (hloop : w.loop = true) : Inv w.iteration := by
  unfold Watcher.iteration
  have hdeletes := h.deletes
  have hended := h.ended
  have hwrapped := h.wrapped
  have hwhole := h.whole
  split
  · constructor <;> simp_all [Watcher.delete, Watcher.owed, Watcher.idle, h.once, h.inTime, h.notEarly]
  · constructor <;> simp_all [Watcher.delete, Watcher.owed, Watcher.idle, h.once, h.inTime, h.notEarly]
  · constructor <;> simp_all [Watcher.owed, Watcher.idle, h.once, h.inTime, h.notEarly]
  · contradiction
  all_goals exact h

theorem Inv.walk (h : Inv w) (hloop : w.loop = true) : Inv w.walk := by
  unfold Watcher.walk
  have hdeletes := h.deletes
  have hended := h.ended
  have hunwrapped := h.unwrapped
  split
  · constructor <;> simp_all [Watcher.uvClose, Watcher.owed, h.once, h.inTime, h.notEarly]
  · exact absurd ‹_› h.whole
  all_goals exact ⟨h.once, h.inTime, h.notEarly, h.deletes, h.whole, h.wrapped, h.unwrapped, h.started,
    h.unstarted, h.idle, h.ended⟩

theorem finalize_env (w : Watcher) : { w with env := false }.finalize = { w.finalize with env := false } := by
  unfold Watcher.finalize
  split_ifs <;> rfl

theorem finalize_wrapped (w : Watcher) : w.finalize.wrapped = false := by
  unfold Watcher.finalize
  split_ifs with hwrapped
  · exact hwrapped
  · rfl
  · rfl

theorem finalize_loop (w : Watcher) : w.finalize.loop = w.loop := by
  unfold Watcher.finalize
  split_ifs <;> rfl

theorem step_inv {e : Event} {t : Watcher} (h : Inv w) (hcareful : Careful w e) (hstep : step w e = some t) :
    Inv t := by
  cases e with
  | start ok =>
      simp only [step, Option.ite_none_right_eq_some] at hstep
      cases hstep.2
      exact h.start hcareful
  | ref =>
      simp only [step, Option.ite_none_right_eq_some] at hstep
      cases hstep.2
      exact h
  | unref =>
      simp only [step, Option.ite_none_right_eq_some] at hstep
      cases hstep.2
      exact h
  | close =>
      simp only [step, Option.ite_none_right_eq_some] at hstep
      cases hstep.2
      exact h.close hcareful
  | collect =>
      simp only [step, Option.ite_none_right_eq_some] at hstep
      cases hstep.2
      exact h.finalize hcareful
  | iteration =>
      simp only [step, Option.ite_none_right_eq_some] at hstep
      cases hstep.2
      exact h.iteration hstep.1
  | walk =>
      simp only [step, Option.ite_none_right_eq_some] at hstep
      cases hstep.2
      exact h.walk hstep.1.1
  | loopClosed =>
      simp only [step, Option.ite_none_right_eq_some] at hstep
      cases hstep.2
      have henv := h.ended
      exact ⟨h.once, h.inTime, h.notEarly, h.deletes, h.whole, h.wrapped, h.unwrapped, h.started,
        h.unstarted, fun _ => hstep.1.2.2, fun he => ⟨(henv he).1, rfl⟩⟩
  | teardown =>
      simp only [step, Option.ite_none_right_eq_some] at hstep
      cases hstep.2
      have hfinal := h.finalize hcareful
      rw [finalize_env]
      exact ⟨hfinal.once, hfinal.inTime, hfinal.notEarly, hfinal.deletes, hfinal.whole, hfinal.wrapped,
        hfinal.unwrapped, hfinal.started, hfinal.unstarted, hfinal.idle, fun _ => ⟨finalize_wrapped w,
          (finalize_loop w).trans (by simpa using hstep.1.2)⟩⟩

/-! ### Steps that do harm -/

/-- A started `FSEvent` whose handle is not open on a live loop: its finalizer is still to come. -/
structure Doomed (w : Watcher) : Prop where
  env : w.env = true
  kind : w.kind = .fsEvent
  wrapped : w.wrapped = true
  initialized : w.initialized = true
  there : w.uv ≠ .absent
  own : w.uv ≠ .closing .onClose ∧ w.uv ≠ .closing .collected
  lost : w.uv = .opened → w.loop = false

/-- Closing a handle that is not open, or on a closed loop, is against the law. -/
theorem uvClose_lawful {v : Watcher} {cb : CloseCb} (hthere : v.uv ≠ .absent)
    (honce : (v.uvClose cb).repeats = 0) (htime : (v.uvClose cb).lateCloses = 0) :
    v.uv = .opened ∧ v.loop = true := by
  unfold Watcher.uvClose at honce htime
  dsimp only at honce htime
  constructor
  · cases huv : v.uv with
    | absent => exact absurd huv hthere
    | opened => rfl
    | closing cb => simp [huv] at honce
    | reopened => simp [huv] at honce
    | closed => simp [huv] at honce
  · by_contra hloop
    simp [hloop] at htime

theorem delete_lawful {v : Watcher} (hearly : v.delete.earlyDeletes = 0) : v.uv = .absent ∨ v.uv = .closed := by
  unfold Watcher.delete at hearly
  dsimp only at hearly
  cases huv : v.uv with
  | absent => exact Or.inl rfl
  | opened => simp [huv] at hearly
  | closing cb => simp [huv] at hearly
  | reopened => simp [huv] at hearly
  | closed => exact Or.inr rfl

/-- A finalizer that does no harm is in its place. -/
theorem finalize_lawful (hstarted : w.initialized = true → w.uv ≠ .absent)
    (honce : w.finalize.repeats = 0) (htime : w.finalize.lateCloses = 0)
    (hearly : w.finalize.earlyDeletes = 0) : Finalizable w := by
  intro hwrapped
  unfold Watcher.finalize at honce htime hearly
  have hnot : ¬ w.wrapped = false := by simp [hwrapped]
  rw [if_neg hnot] at honce htime hearly
  split_ifs at honce htime hearly ⊢ with hinit
  · exact @uvClose_lawful { w with wrapped := false } .collected (hstarted hinit) honce htime
  · unfold Watcher.idle
    rcases delete_lawful hearly with huv | huv
    · rw [show w.uv = .absent from huv]
    · rw [show w.uv = .closed from huv]

/-- A step that is not careful breaks the law at once, except for a start that succeeds. -/
theorem careful_or_doomed {e : Event} {t : Watcher} (h : Inv w) (hstep : step w e = some t)
    (hlaw : Lawful t) : Careful w e ∨ Doomed t := by
  cases e with
  | start ok =>
      simp only [step, Option.ite_none_right_eq_some] at hstep
      cases hstep.2
      by_cases hcareful : Careful w (.start ok)
      · exact Or.inl hcareful
      · simp only [Careful, not_forall] at hcareful
        rcases hcareful with ⟨hkind, hwrapped, hinit, hnot⟩
        have hskip : ¬ (w.wrapped = false ∨ w.initialized = true) := by simp [hwrapped, hinit]
        have honce := hlaw.once
        have htime := hlaw.inTime
        simp only [Watcher.start, hkind, Watcher.fsEventStart, if_neg hskip] at honce htime ⊢
        have hinited : w.uvInit.uv ≠ .absent ∧ (∀ cb, w.uvInit.uv ≠ .closing cb) ∧
            (w.uvInit.uv = .opened → w.idle = true) := by
          unfold Watcher.uvInit Watcher.idle
          cases w.uv <;> simp
        cases ok with
        | false =>
            rw [if_neg (by decide)] at honce htime
            rcases uvClose_lawful hinited.1 honce htime with ⟨hopened, hloop⟩
            exact absurd ⟨hinited.2.2 hopened, hloop⟩ hnot
        | true =>
            rw [if_pos rfl]
            refine Or.inr ⟨hstep.1, hkind, hwrapped, rfl, hinited.1, ⟨hinited.2.1 _, hinited.2.1 _⟩,
              fun hopened => ?_⟩
            by_contra hloop
            rw [Bool.not_eq_false] at hloop
            exact hnot ⟨hinited.2.2 hopened, hloop⟩
  | ref => exact Or.inl trivial
  | unref => exact Or.inl trivial
  | close =>
      simp only [step, Option.ite_none_right_eq_some] at hstep
      cases hstep.2
      refine Or.inl fun hwrapped hclosing hinit hopen => ?_
      have hskip : ¬ (w.wrapped = false ∨ w.closing = true) := by simp [hwrapped, hclosing]
      have honce := hlaw.once
      have htime := hlaw.inTime
      simp only [Watcher.close, if_neg hskip, if_pos (And.intro hinit hopen)] at honce htime
      exact (@uvClose_lawful { w with closing := true } .onClose (h.started hinit) honce htime).2
  | collect =>
      simp only [step, Option.ite_none_right_eq_some] at hstep
      cases hstep.2
      exact Or.inl (finalize_lawful h.started hlaw.once hlaw.inTime hlaw.notEarly)
  | iteration => exact Or.inl trivial
  | walk => exact Or.inl trivial
  | loopClosed => exact Or.inl trivial
  | teardown =>
      simp only [step, Option.ite_none_right_eq_some] at hstep
      cases hstep.2
      rw [finalize_env] at hlaw
      exact Or.inl (finalize_lawful h.started hlaw.once hlaw.inTime hlaw.notEarly)

/-- Only a step against the law leads out of a doomed state. -/
theorem doomed_step {e : Event} {t : Watcher} (h : Doomed w) (hstep : step w e = some t) (hlaw : Lawful t) :
    Doomed t := by
  have hfinal : w.finalize.repeats = 0 → w.finalize.lateCloses = 0 → w.finalize.earlyDeletes = 0 → False := by
    intro honce htime hearly
    have hready := finalize_lawful (fun _ => h.there) honce htime hearly h.wrapped
    rw [if_pos h.initialized] at hready
    rw [h.lost hready.1] at hready
    cases hready.2
  cases e with
  | start ok =>
      simp only [step, Option.ite_none_right_eq_some] at hstep
      cases hstep.2
      simp only [Watcher.start, h.kind, Watcher.fsEventStart, h.initialized, or_true, if_true]
      exact h
  | ref =>
      simp only [step, Option.ite_none_right_eq_some] at hstep
      cases hstep.2
      exact h
  | unref =>
      simp only [step, Option.ite_none_right_eq_some] at hstep
      cases hstep.2
      exact h
  | close =>
      simp only [step, Option.ite_none_right_eq_some] at hstep
      cases hstep.2
      unfold Watcher.close at hlaw ⊢
      split_ifs with hskip hopen
      · exact h
      · rw [if_neg hskip, if_pos hopen] at hlaw
        have hlive := @uvClose_lawful { w with closing := true } .onClose h.there hlaw.once hlaw.inTime
        have hlost := h.lost hlive.1
        rw [show w.loop = true from hlive.2] at hlost
        cases hlost
      · exact ⟨h.env, h.kind, h.wrapped, h.initialized, h.there, h.own, h.lost⟩
  | collect =>
      simp only [step, Option.ite_none_right_eq_some] at hstep
      cases hstep.2
      exact (hfinal hlaw.once hlaw.inTime hlaw.notEarly).elim
  | iteration =>
      simp only [step, Option.ite_none_right_eq_some] at hstep
      cases hstep.2
      have hclosed : Doomed { w with uv := .closed } :=
        ⟨h.env, h.kind, h.wrapped, h.initialized, (fun huv => nomatch huv),
          ⟨(fun huv => nomatch huv), (fun huv => nomatch huv)⟩, (fun huv => nomatch huv)⟩
      unfold Watcher.iteration
      split
      · exact absurd ‹_› h.own.1
      · exact absurd ‹_› h.own.2
      · exact hclosed
      · exact hclosed
      all_goals exact h
  | walk =>
      simp only [step, Option.ite_none_right_eq_some] at hstep
      cases hstep.2
      have hopen : w.uv ≠ .opened := by
        intro huv
        have hlost := h.lost huv
        rw [hstep.1.1] at hlost
        cases hlost
      have honce := hlaw.once
      unfold Watcher.walk
      split
      · exact absurd ‹_› hopen
      · rename_i huv
        simp [Watcher.walk, Watcher.uvClose, huv] at honce
      all_goals exact ⟨h.env, h.kind, h.wrapped, h.initialized, h.there, h.own, h.lost⟩
  | loopClosed =>
      simp only [step, Option.ite_none_right_eq_some] at hstep
      cases hstep.2
      exact ⟨h.env, h.kind, h.wrapped, h.initialized, h.there, h.own, fun _ => rfl⟩
  | teardown =>
      simp only [step, Option.ite_none_right_eq_some] at hstep
      cases hstep.2
      rw [finalize_env] at hlaw
      exact (hfinal hlaw.once hlaw.inTime hlaw.notEarly).elim

/-- A run whose steps are careful is lawful throughout, and a lawful run up to the end of the environment
has only such steps. -/
theorem watcher_runs_lawful_iff (kind : Kind) (stage : Stage) (initOk : Bool) {events : List Event}
    (hrun : runEvents step (Watcher.construct kind stage initOk) events = some w) :
    (AllowedAlong step Careful (Watcher.construct kind stage initOk) events →
      Throughout step Lawful (Watcher.construct kind stage initOk) events) ∧
    (w.env = false → (Throughout step Lawful (Watcher.construct kind stage initOk) events ↔
      AllowedAlong step Careful (Watcher.construct kind stage initOk) events)) := by
  have hstart := construct_inv kind stage initOk
  have hforward : AllowedAlong step Careful (Watcher.construct kind stage initOk) events →
      Throughout step Lawful (Watcher.construct kind stage initOk) events := fun h =>
    h.throughout (fun _ => Inv.lawful) (fun _ _ _ hinv hcareful => step_inv hinv hcareful) hstart
  refine ⟨hforward, fun henv => ⟨fun h => ?_, hforward⟩⟩
  refine h.allowedAlong (fun _ _ _ hinv hcareful => step_inv hinv hcareful)
    (fun _ _ _ hinv => careful_or_doomed hinv) (fun _ _ _ => doomed_step) hstart hrun fun hdoomed => ?_
  have hyes := hdoomed.env
  rw [henv] at hyes
  cases hyes

instance careful_decidable (w : Watcher) : (e : Event) → Decidable (Careful w e)
  | .start _ => inferInstanceAs (Decidable (w.kind = .fsEvent → w.wrapped = true → w.initialized = false →
      w.idle = true ∧ w.loop = true))
  | .close => inferInstanceAs (Decidable (w.wrapped = true → w.closing = false → w.initialized = true →
      w.isClosing = false → w.loop = true))
  | .collect | .teardown => inferInstanceAs (Decidable (w.wrapped = true →
      if w.initialized then w.uv = .opened ∧ w.loop = true else w.idle = true))
  | .ref | .unref | .iteration | .walk | .loopClosed => .isTrue trivial

/-- An `FSEvent` that fails to start, starts later and is closed. -/
theorem fsEvent_closed_lawful : Throughout step Lawful (Watcher.construct .fsEvent .running true)
    [.start false, .iteration, .start true, .close, .iteration, .walk, .loopClosed, .teardown] :=
  (watcher_runs_lawful_iff .fsEvent .running true
    (show runEvents step _ [.start false, .iteration, .start true, .close, .iteration, .walk, .loopClosed,
      .teardown] = some _ from rfl)).1 (AllowedAlong.of_runEvents rfl)

/-- A watcher that is still open when the loop is closed is closed again by its finalizer, behind the
loop, and never freed; and an `FSEvent` that is collected right behind a start that failed is freed too
early. -/
theorem watchers_run_against_law :
    (∀ kind, ∃ w, runEvents step (Watcher.construct kind .running true)
      [.start true, .walk, .iteration, .loopClosed, .teardown] = some w ∧
        w.repeats = 1 ∧ w.lateCloses = 1 ∧ w.deletes = 0 ∧ ¬ Lawful w) ∧
    ∃ w, runEvents step (Watcher.construct .fsEvent .running true) [.start false, .collect] = some w ∧
      w.earlyDeletes = 1 ∧ ¬ Lawful w := by
  refine ⟨fun kind => ?_, _, rfl, rfl, fun h => absurd h.notEarly (by decide)⟩
  cases kind with
  | statWatcher => exact ⟨_, rfl, rfl, rfl, rfl, fun h => absurd h.once (by decide)⟩
  | fsEvent => exact ⟨_, rfl, rfl, rfl, rfl, fun h => absurd h.once (by decide)⟩

end HermesNode.FsWatch
