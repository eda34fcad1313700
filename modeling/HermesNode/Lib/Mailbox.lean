/-
Module: HermesNode.Lib.Mailbox
Purpose: A queue between two threads and the handle that wakes its receiver. The sender pushes an
  item, reads a flag that says whether the handle may be signalled, and signals it; the receiver,
  woken by the handle or otherwise, swaps the whole queue out and hands the items on one at a time.
  Two facts live through these operations: the items come out in the order they went in, and a queue
  that is not empty has a wake-up on its way. The second one is lost where the flag is down between
  the push and the signal, and where a woken receiver goes back to sleep without a swap.
Trusted boundary: human-reviewed spec (a signal is remembered by an open handle until the receiver
  consumes it, several are remembered as one)
Main exports: WakeHandle, Mailbox, Mailbox.InOrder, Mailbox.Awake
-/
import Mathlib.Data.List.Basic

namespace HermesNode

/-- A wake-up handle on the loop of the receiver. -/
inductive WakeHandle where
  | absent
  | opened (pending : Bool)
  | closed
deriving DecidableEq, Repr

namespace WakeHandle

def isOpened : WakeHandle → Bool
  | .opened _ => true
  | .absent | .closed => false

/-- A signal to a handle that is not open changes nothing here. -/
def signal : WakeHandle → WakeHandle
  | .opened _ => .opened true
  | handle => handle

def consume : WakeHandle → WakeHandle
  | .opened _ => .opened false
  | handle => handle

def shut : WakeHandle → WakeHandle
  | .opened _ => .closed
  | handle => handle

/-- How many signals go astray with one signal. -/
def astray (handle : WakeHandle) : Nat := if handle.isOpened then 0 else 1

@[simp] theorem isOpened_signal (handle : WakeHandle) :
    handle.signal.isOpened = handle.isOpened := by
  cases handle <;> rfl

@[simp] theorem isOpened_consume (handle : WakeHandle) :
    handle.consume.isOpened = handle.isOpened := by
  cases handle <;> rfl

theorem signal_of_opened {handle : WakeHandle} (h : handle.isOpened = true) :
    handle.signal = .opened true := by
  cases handle with
  | absent => cases h
  | opened pending => rfl
  | closed => cases h

theorem astray_of_opened {handle : WakeHandle} (h : handle.isOpened = true) :
    handle.astray = 0 := by
  rw [astray, if_pos h]

theorem consume_not_pending (handle : WakeHandle) : handle.consume ≠ .opened true := by
  cases handle <;> intro h <;> cases h

theorem shut_not_pending (handle : WakeHandle) : handle.shut ≠ .opened true := by
  cases handle <;> intro h <;> cases h

end WakeHandle

/-- How far the sender has come with an item. -/
inductive Sending where
  | idle
  | pushed
  | loaded (active : Bool)
deriving DecidableEq, Repr

/-- The flag has been read. -/
def Sending.isLoaded : Sending → Bool
  | .loaded _ => true
  | .idle | .pushed => false

theorem Sending.not_idle_of_loaded {sending : Sending} (h : sending.isLoaded = true) :
    sending ≠ .idle := by
  rintro rfl
  cases h

structure Mailbox (α : Type) where
  handle : WakeHandle
  queue : List α
  sending : Sending
  /-- The receiver has been woken and has not swapped yet. -/
  woken : Bool
  /-- What the receiver swapped out and has not handed on. -/
  taken : List α
  /-- Everything that was pushed. -/
  given : List α
  /-- Everything that was handed on. -/
  handed : List α
  /-- The signals to a handle that was not open. -/
  strays : Nat
deriving DecidableEq, Repr

namespace Mailbox

variable {α : Type}

def empty (handle : WakeHandle) : Mailbox α where
  handle := handle
  queue := []
  sending := .idle
  woken := false
  taken := []
  given := []
  handed := []
  strays := 0

/-! ### The sender -/

def push (m : Mailbox α) (a : α) : Mailbox α :=
  { m with queue := m.queue ++ [a], given := m.given ++ [a], sending := .pushed }

def load (m : Mailbox α) (active : Bool) : Mailbox α := { m with sending := .loaded active }

/-- The signal, where the flag was up. -/
def signal (m : Mailbox α) : Mailbox α :=
  { m with
    handle := if m.sending = .loaded true then m.handle.signal else m.handle
    sending := .idle
    strays := if m.sending = .loaded true then m.strays + m.handle.astray else m.strays }

/-! ### The receiver -/

def wake (m : Mailbox α) : Mailbox α := { m with handle := m.handle.consume, woken := true }

/-- The receiver looks at the queue without a signal of the handle. -/
def interrupt (m : Mailbox α) : Mailbox α := { m with woken := true }

/-- The woken receiver swaps the queue out, where it listens, or goes back to sleep. -/
def swap (m : Mailbox α) (listens : Bool) : Mailbox α :=
  { m with
    taken := if listens then m.queue else m.taken
    queue := if listens then [] else m.queue
    woken := false }

/-- The first item that was swapped out is handed on, or dropped where nobody is there. -/
def hand (m : Mailbox α) (present : Bool) : Mailbox α :=
  { m with
    handed := if present then m.handed ++ m.taken.take 1 else m.handed
    taken := m.taken.tail }

/-! ### The handle -/

def opened (m : Mailbox α) : Mailbox α := { m with handle := .opened false }

def shut (m : Mailbox α) : Mailbox α := { m with handle := m.handle.shut }

/-! ### Nothing under way -/

/-- The receiver is not in the middle of a swapped queue. -/
def free (m : Mailbox α) : Bool := !m.woken && m.taken.isEmpty

variable {m : Mailbox α}

theorem taken_of_free (h : m.free = true) : m.taken = [] := by
  simp only [free, Bool.and_eq_true, List.isEmpty_iff] at h
  exact h.2

theorem not_free_of_woken (h : m.woken = true) : m.free = false := by
  rw [free, h]
  rfl

theorem not_free_of_taken (h : m.taken.isEmpty = false) : m.free = false := by
  rw [free, h, Bool.and_false]

theorem signal_of_down (h : m.sending ≠ .loaded true) :
    m.signal.handle = m.handle :=
  if_neg h

theorem isOpened_signal (m : Mailbox α) : m.signal.handle.isOpened = m.handle.isOpened := by
  by_cases hup : m.sending = .loaded true
  · have hhandle : m.signal.handle = m.handle.signal := if_pos hup
    rw [hhandle, WakeHandle.isOpened_signal]
  · rw [signal_of_down hup]

theorem strays_signal (h : m.handle.isOpened = true) :
    m.signal.strays = m.strays := by
  change (if m.sending = .loaded true then m.strays + m.handle.astray else m.strays) = m.strays
  rw [WakeHandle.astray_of_opened h, Nat.add_zero, ite_self]

/-! ### The items come out as they went in -/

structure InOrder (m : Mailbox α) : Prop where
  order : m.given = m.handed ++ m.taken ++ m.queue
  /-- A receiver that is about to swap has handed on what it had. -/
  fresh : m.woken = true → m.taken = []

theorem inOrder_empty (handle : WakeHandle) : (empty handle : Mailbox α).InOrder where
  order := rfl
  fresh := fun _ => rfl

namespace InOrder

variable {m : Mailbox α}

theorem push (h : m.InOrder) (a : α) : (m.push a).InOrder where
  order := by
    change m.given ++ [a] = m.handed ++ m.taken ++ (m.queue ++ [a])
    rw [h.order, List.append_assoc _ m.queue]
  fresh := h.fresh

theorem load (h : m.InOrder) (active : Bool) : (m.load active).InOrder := ⟨h.order, h.fresh⟩

theorem signal (h : m.InOrder) : m.signal.InOrder := ⟨h.order, h.fresh⟩

theorem opened (h : m.InOrder) : m.opened.InOrder := ⟨h.order, h.fresh⟩

theorem shut (h : m.InOrder) : m.shut.InOrder := ⟨h.order, h.fresh⟩

theorem wake (h : m.InOrder) (hfree : m.free = true) : m.wake.InOrder := by
  have htaken := taken_of_free hfree
  exact ⟨h.order, fun _ => htaken⟩

theorem interrupt (h : m.InOrder) (hfree : m.free = true) : m.interrupt.InOrder := by
  have htaken := taken_of_free hfree
  exact ⟨h.order, fun _ => htaken⟩

theorem swap (h : m.InOrder) (hwoken : m.woken = true) (listens : Bool) :
    (m.swap listens).InOrder where
  order := by
    cases listens with
    | false => exact h.order
    | true =>
        change m.given = m.handed ++ m.queue ++ []
        rw [List.append_nil, h.order, h.fresh hwoken, List.append_nil]
  fresh := by rintro ⟨⟩

theorem hand (h : m.InOrder) : (m.hand true).InOrder where
  order := by
    change m.given = m.handed ++ m.taken.take 1 ++ m.taken.tail ++ m.queue
    rw [← List.drop_one, List.append_assoc m.handed, List.take_append_drop]
    exact h.order
  fresh := fun hwoken => congrArg List.tail (h.fresh hwoken)

/-- With nothing left, everything was handed on. -/
theorem settled (h : m.InOrder) (hfree : m.free = true) (hqueue : m.queue = []) :
    m.handed = m.given := by
  rw [h.order, taken_of_free hfree, hqueue, List.append_nil, List.append_nil]

end InOrder

/-! ### A queue that is not empty has a wake-up on its way -/

def Awake (m : Mailbox α) : Prop :=
  m.queue ≠ [] →
    m.handle = .opened true ∨ m.woken = true ∨ m.sending = .pushed ∨ m.sending = .loaded true

theorem awake_of_empty (h : m.queue = []) : m.Awake :=
  fun hqueue => absurd h hqueue

theorem awake_of_woken (h : m.woken = true) : m.Awake :=
  fun _ => Or.inr (Or.inl h)

theorem awake_push (m : Mailbox α) (a : α) : (m.push a).Awake :=
  fun _ => Or.inr (Or.inr (Or.inl rfl))

theorem awake_load (m : Mailbox α) : (m.load true).Awake :=
  fun _ => Or.inr (Or.inr (Or.inr rfl))

theorem awake_swap (m : Mailbox α) : (m.swap true).Awake :=
  awake_of_empty rfl

theorem Awake.signal (h : m.Awake) (hloaded : m.sending.isLoaded = true)
    (hopened : m.handle.isOpened = true) : m.signal.Awake := by
  intro hqueue
  by_cases hup : m.sending = .loaded true
  · have hhandle : m.signal.handle = m.handle.signal := if_pos hup
    exact Or.inl (hhandle.trans (WakeHandle.signal_of_opened hopened))
  · rcases h hqueue with hpending | hwoken | hpushed | hloadedUp
    · exact Or.inl ((signal_of_down hup).trans hpending)
    · exact Or.inr (Or.inl hwoken)
    · rw [hpushed] at hloaded
      cases hloaded
    · exact absurd hloadedUp hup

end Mailbox

end HermesNode
