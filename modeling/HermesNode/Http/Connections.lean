/-
Module: HermesNode.Http.Connections
Purpose: `ConnectionsList`: the parsers of a server in two sets ordered by the start of the current
  message. `ParserComparator` reads a field of the parsers themselves, so every operation that writes
  the field takes the parser out first and puts it back after. The ledger says what the sets are for:
  which parsers are registered, and whether each is reading a message, idle, or timed out. A run is
  careful when no two registered parsers start at one clock reading and a registered parser is not
  initialized again; in a careful run the sets are exactly what the ledger says.
Trusted boundary: human-reviewed spec (transcribed from `lib/bindings/node_http_parser.cpp`);
  `uv_hrtime` is a positive clock that does not go back
Main exports: parserComparator, State, connections_faithful
-/
import HermesNode.Http.Parser
import HermesNode.Lib.Machine
import HermesNode.Lib.OrderedSet

namespace HermesNode.Http.Connections

/-- A parser object. `listed` is whether `connectionsList_` is set. -/
structure Conn where
  parser : Parser
  listed : Bool

/-- The parsers, by address, and the list they share. `clock` is the last reading. -/
structure State where
  conns : Nat → Option Conn
  all : List Nat
  active : List Nat
  clock : Nat

def init : State := { conns := fun _ => none, all := [], active := [], clock := 0 }

/-- `lastMessageStart_` of the parser at an address. -/
def State.start (s : State) (id : Nat) : Nat :=
  match s.conns id with
  | some c => c.parser.lastMessageStart
  | none => 0

def State.listed (s : State) (id : Nat) : Bool :=
  match s.conns id with
  | some c => c.listed
  | none => false

/-- Idle parsers (start 0) sort before active ones and among themselves by address; active ones by
their start. -/
def parserComparator (start : Nat → Nat) (lhs rhs : Nat) : Bool :=
  if start lhs = 0 ∧ start rhs = 0 then lhs < rhs
  else if start lhs = 0 then true
  else if start rhs = 0 then false
  else start lhs < start rhs

/-- `pop` and `popActive`. -/
def State.popBoth (s : State) (id : Nat) : State :=
  { s with
    all := setErase (parserComparator s.start) id s.all
    active := setErase (parserComparator s.start) id s.active }

def State.push (s : State) (id : Nat) : State :=
  { s with all := setInsert (parserComparator s.start) id s.all }

def State.pushActive (s : State) (id : Nat) : State :=
  { s with active := setInsert (parserComparator s.start) id s.active }

def State.set (s : State) (id : Nat) (c : Option Conn) : State :=
  { s with conns := Function.update s.conns id c }

/-- Milliseconds as the nanoseconds of the clock. -/
def timeoutNs (ms : UInt32) : Nat := ms.toNat * 1000000

/-- The time before which a message has to have started to be late; 0 for never. -/
def deadline (timeout now : Nat) : Nat := if 0 < timeout ∧ timeout < now then now - timeout else 0

/-- The two deadlines of `expired`, the shorter timeout first. -/
def deadlines (headersTimeoutMs requestTimeoutMs : UInt32) (now : Nat) : Nat × Nat :=
  let headers := timeoutNs headersTimeoutMs
  let request := timeoutNs requestTimeoutMs
  if 0 < request ∧ request < headers then (deadline request now, deadline headers now)
  else (deadline headers now, deadline request now)

def isExpired (s : State) (ds : Nat × Nat) (id : Nat) : Bool :=
  match s.conns id with
  | some c =>
      (!c.parser.headersCompleted && 0 < ds.1 && c.parser.lastMessageStart < ds.1) ||
        (0 < ds.2 && c.parser.lastMessageStart < ds.2)
  | none => false

/-- What `expired` returns. With both timeouts or both deadlines 0 nothing is late. -/
def expired (s : State) (headersTimeoutMs requestTimeoutMs : UInt32) (now : Nat) : List Nat :=
  s.active.filter (isExpired s (deadlines headersTimeoutMs requestTimeoutMs now))

def allOf (s : State) : List Nat := s.all

def idleOf (s : State) : List Nat := s.all.filter fun id => s.start id = 0

def activeOf (s : State) : List Nat := s.active

inductive Event where
  /-- `new HTTPParser`. -/
  | create (id : Nat)
  /-- `parser.initialize`, with the list or without. -/
  | initializeParser (id : Nat) (maxHeaderSize : Nat) (withList : Bool) (now : Nat)
  /-- A callback of llhttp during `execute`. -/
  | callback (id : Nat) (c : Callback)
  | remove (id : Nat)
  /-- `parser.close`, or the finalizer. -/
  | destroy (id : Nat)
  | expired (headersTimeoutMs requestTimeoutMs : UInt32) (now : Nat)

/-- A clock reading. -/
def State.read (s : State) (now : Nat) : Option State :=
  if 0 < now ∧ s.clock ≤ now then some { s with clock := now } else none

/-- `sOnMessageBegin` of a registered parser pops, writes the start and pushes. -/
def beginMessage (s : State) (id : Nat) (c : Conn) (now : Nat) (answer : Answer) : State :=
  let begun := some { c with parser := (c.parser.on (.messageBegin now answer)).parser }
  if c.listed then (((s.popBoth id).set id begun).push id).pushActive id else s.set id begun

/-- `sOnMessageComplete` pops, clears the start and pushes into `all_` only. -/
def completeMessage (s : State) (id : Nat) (c : Conn) (answer : Answer) : State :=
  let completed := some { c with parser := (c.parser.on (.messageComplete answer)).parser }
  if c.listed then ((s.popBoth id).set id completed).push id else s.set id completed

/-- `ParserInitialize`: the start is cleared, or read and the parser pushed into both sets. -/
def initializeConn (s : State) (id : Nat) (c : Conn) (maxHeaderSize : Nat) (withList : Bool)
    (now : Nat) : State :=
  let parser := c.parser.initializeParser maxHeaderSize
  if withList then
    ((s.set id (some { parser := { parser with lastMessageStart := now }, listed := true })).push
      id).pushActive id
  else s.set id (some { parser := { parser with lastMessageStart := 0 }, listed := false })

def step (s : State) : Event → Option State
  | .create id =>
      match s.conns id with
      | some _ => none
      | none => some (s.set id (some { parser := {}, listed := false }))
  | .initializeParser id maxHeaderSize withList now =>
      match s.conns id with
      | none => none
      | some c =>
          if withList then
            (s.read now).map fun s => initializeConn s id c maxHeaderSize true now
          else some (initializeConn s id c maxHeaderSize false now)
  | .callback id call =>
      match s.conns id with
      | none => none
      | some c =>
          match call with
          | .messageBegin now answer => (s.read now).map fun s => beginMessage s id c now answer
          | .messageComplete answer => some (completeMessage s id c answer)
          | call => some (s.set id (some { c with parser := (c.parser.on call).parser }))
  | .remove id =>
      match s.conns id with
      | none => none
      | some c =>
          if c.listed then some ((s.popBoth id).set id (some { c with listed := false }))
          else some s
  | .destroy id =>
      match s.conns id with
      | none => none
      | some c => if c.listed then some ((s.popBoth id).set id none) else some (s.set id none)
  | .expired headersTimeoutMs requestTimeoutMs now =>
      (s.read now).map fun s =>
        { s with
          active := s.active.filter fun id =>
            !isExpired s (deadlines headersTimeoutMs requestTimeoutMs now) id }

/-! ### What the sets are for -/

/-- Where a registered parser stands. Initialization starts a message's clock already, so that a
connection that never sends anything is timed out too. -/
inductive Phase where
  | reading
  | idle
  | timedOut
deriving Repr, DecidableEq

structure Ledger where
  registered : Nat → Bool
  phase : Nat → Phase

def Ledger.empty : Ledger := { registered := fun _ => false, phase := fun _ => .idle }

def Ledger.enter (l : Ledger) (id : Nat) (phase : Phase) : Ledger :=
  { l with phase := Function.update l.phase id phase }

def Ledger.register (l : Ledger) (id : Nat) (registered : Bool) : Ledger :=
  { l with registered := Function.update l.registered id registered }

/-- What an event means for the ledger. -/
def track (s : State) (l : Ledger) : Event → Ledger
  | .create _ => l
  | .initializeParser id _ withList _ => (l.register id withList).enter id .reading
  | .callback id (.messageBegin _ _) => l.enter id .reading
  | .callback id (.messageComplete _) => l.enter id .idle
  | .callback _ _ => l
  | .remove id | .destroy id => l.register id false
  | .expired headersTimeoutMs requestTimeoutMs now =>
      { l with
        phase := fun id =>
          if id ∈ expired s headersTimeoutMs requestTimeoutMs now then .timedOut else l.phase id }

/-- No other registered parser has this start. -/
def FreshStart (s : State) (id now : Nat) : Prop :=
  ∀ other, other ≠ id → s.listed other = true → s.start other ≠ now

/-- Two parsers do not start at one reading, and a registered parser is not initialized again. -/
def Careful (s : State) : Event → Prop
  | .initializeParser id _ withList now =>
      s.listed id = false ∧ (withList = true → FreshStart s id now)
  | .callback id (.messageBegin now _) => s.listed id = true → FreshStart s id now
  | _ => True

/-- The runs of the list, with their ledger. -/
inductive CarefulRun : List Event → State → Ledger → Prop where
  | start : CarefulRun [] init Ledger.empty
  | step {events : List Event} {s s' : State} {l : Ledger} {e : Event}
      (run : CarefulRun events s l) (careful : Careful s e) (taken : step s e = some s') :
      CarefulRun (events ++ [e]) s' (track s l e)

/-! ### The comparator -/

theorem parserComparator_irrefl (start : Nat → Nat) (a : Nat) :
    parserComparator start a a = false := by
  unfold parserComparator
  split
  · simp
  · rename_i hstart
    have hne : start a ≠ 0 := fun h => hstart ⟨h, h⟩
    simp [hne]

theorem parserComparator_trans (start : Nat → Nat) (a b c : Nat)
    (hab : parserComparator start a b = true) (hbc : parserComparator start b c = true) :
    parserComparator start a c = true := by
  unfold parserComparator at hab hbc ⊢
  by_cases ha : start a = 0
  · by_cases hc : start c = 0
    · by_cases hb : start b = 0
      · simp only [ha, hb, hc, and_self, if_true, decide_eq_true_eq] at hab hbc ⊢
        exact Nat.lt_trans hab hbc
      · simp [hb, hc] at hbc
    · simp [ha, hc]
  · by_cases hb : start b = 0
    · simp [ha, hb] at hab
    · by_cases hc : start c = 0
      · simp [hb, hc] at hbc
      · simp only [ha, hb, hc, and_self, if_false, decide_eq_true_eq] at hab hbc ⊢
        exact Nat.lt_trans hab hbc

/-- Among these parsers `id` is the only one with its start, idle ones apart. -/
def OwnStart (s : State) (id : Nat) (among : Nat → Prop) : Prop :=
  ∀ q, among q → q ≠ id → s.start q = s.start id → s.start q = 0

/-- Parsers with different starts, and idle ones, are told apart. -/
theorem apart_of_ownStart {s : State} {id : Nat} {among : Nat → Prop} {xs : List Nat}
    (hown : OwnStart s id among) (hmem : ∀ q, q ∈ xs ↔ among q) :
    Apart (parserComparator s.start) id xs := by
  intro q hq hne
  unfold parserComparator
  by_cases hzero : s.start q = 0
  · by_cases hid : s.start id = 0
    · simp only [hzero, hid, and_self, if_true, decide_eq_true_eq]
      exact Nat.lt_or_gt_of_ne hne
    · simp [hzero, hid]
  · have hdiffer : s.start q ≠ s.start id := by
      intro heq
      exact hzero (hown q ((hmem q).mp hq) hne heq)
    by_cases hid : s.start id = 0
    · simp [hzero, hid]
    · simp only [hzero, hid, and_self, if_false, decide_eq_true_eq]
      exact Nat.lt_or_gt_of_ne hdiffer

/-! ### What the two sets hold -/

/-- The sets are in order and hold these parsers. -/
structure Sets (s : State) (inAll inActive : Nat → Prop) : Prop where
  all_sorted : SetSorted (parserComparator s.start) s.all
  all_mem : ∀ q, q ∈ s.all ↔ inAll q
  active_sorted : SetSorted (parserComparator s.start) s.active
  active_mem : ∀ q, q ∈ s.active ↔ inActive q

variable {s s' : State} {l : Ledger} {id : Nat} {inAll inActive : Nat → Prop}

theorem Sets.popBoth (h : Sets s inAll inActive) (hall : OwnStart s id inAll)
    (hactive : OwnStart s id inActive) :
    Sets (s.popBoth id) (fun q => inAll q ∧ q ≠ id) (fun q => inActive q ∧ q ≠ id) := by
  refine ⟨setErase_sorted h.all_sorted, ?_, setErase_sorted h.active_sorted, ?_⟩
  · intro q
    rw [← h.all_mem]
    exact mem_setErase (parserComparator_irrefl _) h.all_sorted (apart_of_ownStart hall h.all_mem)
  · intro q
    rw [← h.active_mem]
    exact mem_setErase (parserComparator_irrefl _) h.active_sorted
      (apart_of_ownStart hactive h.active_mem)

theorem Sets.push (h : Sets s inAll inActive) (hnew : ¬ inAll id) (hown : OwnStart s id inAll) :
    Sets (s.push id) (fun q => q = id ∨ inAll q) inActive := by
  refine ⟨setInsert_sorted (parserComparator_trans _) h.all_sorted, ?_, h.active_sorted,
    h.active_mem⟩
  intro q
  rw [← h.all_mem]
  exact mem_setInsert (apart_of_ownStart hown h.all_mem) (fun hin => hnew ((h.all_mem id).mp hin))

theorem Sets.pushActive (h : Sets s inAll inActive) (hnew : ¬ inActive id)
    (hown : OwnStart s id inActive) :
    Sets (s.pushActive id) inAll (fun q => q = id ∨ inActive q) := by
  refine ⟨h.all_sorted, h.all_mem, setInsert_sorted (parserComparator_trans _) h.active_sorted, ?_⟩
  intro q
  rw [← h.active_mem]
  exact mem_setInsert (apart_of_ownStart hown h.active_mem)
    (fun hin => hnew ((h.active_mem id).mp hin))

theorem Sets.congr {inAll' inActive' : Nat → Prop} (h : Sets s inAll inActive)
    (hall : ∀ q, inAll q ↔ inAll' q) (hactive : ∀ q, inActive q ↔ inActive' q) :
    Sets s inAll' inActive' :=
  ⟨h.all_sorted, fun q => (h.all_mem q).trans (hall q), h.active_sorted,
    fun q => (h.active_mem q).trans (hactive q)⟩

/-- The order only depends on the starts of the parsers in the sets. -/
theorem Sets.of_start (h : Sets s inAll inActive) (hall : s'.all = s.all)
    (hactive : s'.active = s.active) (hstart : ∀ q, inAll q ∨ inActive q → s'.start q = s.start q) :
    Sets s' inAll inActive := by
  have hless : ∀ a b, s'.start a = s.start a → s'.start b = s.start b →
      parserComparator s'.start a b = parserComparator s.start a b := by
    intro a b ha hb
    simp only [parserComparator, ha, hb]
  refine ⟨?_, ?_, ?_, ?_⟩
  · rw [hall]
    apply h.all_sorted.congr
    intro a ha b hb
    exact hless a b (hstart a (Or.inl ((h.all_mem a).mp ha))) (hstart b (Or.inl ((h.all_mem b).mp hb)))
  · intro q
    rw [hall]
    exact h.all_mem q
  · rw [hactive]
    apply h.active_sorted.congr
    intro a ha b hb
    exact hless a b (hstart a (Or.inr ((h.active_mem a).mp ha)))
      (hstart b (Or.inr ((h.active_mem b).mp hb)))
  · intro q
    rw [hactive]
    exact h.active_mem q

theorem start_set_of_ne {c : Option Conn} {q : Nat} (h : q ≠ id) : (s.set id c).start q = s.start q := by
  simp [State.set, State.start, h]

theorem listed_set_of_ne {c : Option Conn} {q : Nat} (h : q ≠ id) :
    (s.set id c).listed q = s.listed q := by
  simp [State.set, State.listed, h]

theorem start_set_self {c : Conn} : (s.set id (some c)).start id = c.parser.lastMessageStart := by
  simp [State.set, State.start]

theorem listed_set_self {c : Conn} : (s.set id (some c)).listed id = c.listed := by
  simp [State.set, State.listed]

/-- A parser that is in no set can be replaced. -/
theorem Sets.set (h : Sets s inAll inActive) (hall : ¬ inAll id) (hactive : ¬ inActive id)
    (c : Option Conn) : Sets (s.set id c) inAll inActive := by
  refine h.of_start ?_ ?_ ?_
  · rfl
  · rfl
  · intro q hq
    apply start_set_of_ne
    rintro rfl
    exact hq.elim hall hactive

/-! ### The invariant -/

/-- The sets hold what the ledger says, and starts tell registered parsers apart. -/
structure Inv (s : State) (l : Ledger) : Prop where
  registered : ∀ q, s.listed q = l.registered q
  starts : ∀ q, s.listed q = true → (s.start q = 0 ↔ l.phase q = .idle)
  distinct : ∀ q, s.listed q = true → OwnStart s q fun r => s.listed r = true
  sets : Sets s (fun q => s.listed q = true) (fun q => s.listed q = true ∧ l.phase q = .reading)

theorem Inv.ownActive (h : Inv s l) (hid : s.listed id = true) :
    OwnStart s id fun q => s.listed q = true ∧ l.phase q = .reading :=
  fun q hq => h.distinct id hid q hq.1

/-- Popping a registered parser removes it from the sets and no other. -/
theorem Inv.popBoth (h : Inv s l) (hid : s.listed id = true) :
    Sets (s.popBoth id) (fun q => s.listed q = true ∧ q ≠ id)
      (fun q => (s.listed q = true ∧ l.phase q = .reading) ∧ q ≠ id) :=
  h.sets.popBoth (h.distinct id hid) (h.ownActive hid)

/-- A change at one parser. Every other parser keeps its start, its registration and its phase. -/
theorem Inv.change (h : Inv s l) {l' : Ledger} (id : Nat)
    (hstart : ∀ q, q ≠ id → s'.start q = s.start q)
    (hlisted : ∀ q, q ≠ id → s'.listed q = s.listed q)
    (hledger : ∀ q, q ≠ id → l'.registered q = l.registered q ∧ l'.phase q = l.phase q)
    (hregistered : s'.listed id = l'.registered id)
    (hphase : s'.listed id = true → (s'.start id = 0 ↔ l'.phase id = .idle))
    (hown : s'.listed id = true → OwnStart s' id fun q => s.listed q = true ∧ q ≠ id)
    (hsets : Sets s' (fun q => s'.listed q = true)
      (fun q => s'.listed q = true ∧ l'.phase q = .reading)) : Inv s' l' := by
  refine ⟨?_, ?_, ?_, hsets⟩
  · intro q
    by_cases hq : q = id
    · rw [hq]
      exact hregistered
    · rw [hlisted q hq, (hledger q hq).1]
      exact h.registered q
  · intro q hin
    by_cases hq : q = id
    · rw [hq] at hin ⊢
      exact hphase hin
    · rw [hlisted q hq] at hin
      rw [hstart q hq, (hledger q hq).2]
      exact h.starts q hin
  · intro q hin r hr hne heq
    by_cases hq : q = id
    · subst hq
      exact hown hin r ⟨by rw [← hlisted r hne]; exact hr, hne⟩ hne heq
    · rw [hlisted q hq] at hin
      by_cases hrid : r = id
      · subst hrid
        rw [heq]
        exact hown hr q ⟨hin, hq⟩ hq heq.symm
      · rw [hlisted r hrid] at hr
        rw [hstart r hrid, hstart q hq] at heq
        rw [hstart r hrid]
        exact h.distinct q hin r hr hne heq

theorem phase_enter_of_ne {phase : Phase} {q : Nat} (h : q ≠ id) :
    (l.enter id phase).phase q = l.phase q := by
  simp [Ledger.enter, h]

theorem phase_enter_self {phase : Phase} : (l.enter id phase).phase id = phase := by
  simp [Ledger.enter]

/-- A registered parser comes back with a new start. -/
theorem Inv.restart (h : Inv s l) {c : Conn} (hid : s.listed id = true)
    (hown : c.parser.lastMessageStart ≠ 0 → FreshStart s id c.parser.lastMessageStart) :
    Sets (((s.popBoth id).set id (some c)).push id) (fun q => s.listed q = true)
        (fun q => (s.listed q = true ∧ l.phase q = .reading) ∧ q ≠ id) ∧
      OwnStart (((s.popBoth id).set id (some c)).push id) id
        fun q => s.listed q = true ∧ q ≠ id := by
  have hstart : ∀ q, q ≠ id →
      ((s.popBoth id).set id (some c)).start q = s.start q := fun q hq => start_set_of_ne hq
  have hself : OwnStart ((s.popBoth id).set id (some c)) id
      fun q => s.listed q = true ∧ q ≠ id := by
    intro q hq hne heq
    rw [start_set_self, hstart q hne] at heq
    rw [hstart q hne]
    by_cases hzero : c.parser.lastMessageStart = 0
    · rw [heq, hzero]
    · exact absurd heq (hown hzero q hne hq.1)
  have hset := (h.popBoth hid).set (fun hin => hin.2 rfl) (fun hin => hin.2 rfl) (some c)
  have hpushed := hset.push (fun hin => hin.2 rfl) hself
  refine ⟨hpushed.congr ?_ (fun q => Iff.rfl), hself⟩
  intro q
  constructor
  · rintro (rfl | hq)
    · exact hid
    · exact hq.1
  · intro hq
    by_cases heq : q = id
    · exact Or.inl heq
    · exact Or.inr ⟨hq, heq⟩

/-- Nothing the lists look at changes. -/
theorem Inv.touch (h : Inv s l) (hall : s'.all = s.all) (hactive : s'.active = s.active)
    (hstart : ∀ q, s'.start q = s.start q) (hlisted : ∀ q, s'.listed q = s.listed q) :
    Inv s' l := by
  have hstarts : s'.start = s.start := funext hstart
  have hlists : s'.listed = s.listed := funext hlisted
  refine ⟨?_, ?_, ?_, ?_⟩
  · rw [hlists]
    exact h.registered
  · rw [hlists, hstarts]
    exact h.starts
  · unfold OwnStart
    rw [hlists, hstarts]
    exact h.distinct
  · have hsets := h.sets.of_start hall hactive (fun q _ => hstart q)
    rw [hlists]
    exact hsets

/-- A parser outside the list changes. -/
theorem Inv.unlisted (h : Inv s l) {c : Option Conn} {l' : Ledger} (hid : s.listed id = false)
    (hc : (s.set id c).listed id = false)
    (hledger : ∀ q, q ≠ id → l'.registered q = l.registered q ∧ l'.phase q = l.phase q)
    (hregistered : l'.registered id = false) : Inv (s.set id c) l' := by
  have hout : ¬ s.listed id = true := by rw [hid]; exact Bool.false_ne_true
  have hlisted : ∀ q, (s.set id c).listed q = s.listed q := by
    intro q
    by_cases hq : q = id
    · rw [hq, hc, hid]
    · exact listed_set_of_ne hq
  have hnever : ∀ {P : Prop}, (s.set id c).listed id = true → P := by
    intro P hin
    rw [hc] at hin
    cases hin
  refine h.change id (fun q hq => start_set_of_ne hq) (fun q _ => hlisted q) hledger ?_ hnever hnever ?_
  · rw [hc, hregistered]
  · refine (h.sets.set hout (fun hin => hout hin.1) c).congr ?_ ?_
    · intro q
      rw [hlisted]
    · intro q
      rw [hlisted]
      apply and_congr_right
      intro hin
      have hq : q ≠ id := fun heq => hout (heq ▸ hin)
      rw [(hledger q hq).2]

theorem Inv.register (h : Inv s l) {c : Conn} (hid : s.listed id = false) (hc : c.listed = true)
    (hpositive : c.parser.lastMessageStart ≠ 0)
    (hfresh : FreshStart s id c.parser.lastMessageStart) :
    Inv (((s.set id (some c)).push id).pushActive id) ((l.register id true).enter id .reading) := by
  have hout : ¬ s.listed id = true := by rw [hid]; exact Bool.false_ne_true
  have hlisted : (s.set id (some c)).listed id = true := by rw [listed_set_self, hc]
  have hown : OwnStart (s.set id (some c)) id fun q => s.listed q = true := by
    intro q hq hne heq
    rw [start_set_self, start_set_of_ne hne] at heq
    exact absurd heq (hfresh q hne hq)
  have hset := h.sets.set hout (fun hin => hout hin.1) (some c)
  have hpushed := (hset.push hout hown).pushActive (fun hin => hout hin.1) (fun q hq => hown q hq.1)
  refine h.change id ?_ ?_ ?_ ?_ ?_ ?_ ?_
  · intro q hq
    exact start_set_of_ne hq
  · intro q hq
    exact listed_set_of_ne hq
  · intro q hq
    exact ⟨by simp [Ledger.register, Ledger.enter, hq], by simp [Ledger.register, Ledger.enter, hq]⟩
  · exact hlisted.trans (by simp [Ledger.register, Ledger.enter])
  · intro _
    rw [phase_enter_self]
    have hself : (s.set id (some c)).start id ≠ 0 := by
      rw [start_set_self]
      exact hpositive
    exact iff_of_false hself Phase.noConfusion
  · intro _ q hq
    exact hown q hq.1
  · have hmembers : ∀ q, q = id ∨ s.listed q = true ↔ (s.set id (some c)).listed q = true := by
      intro q
      by_cases hq : q = id
      · rw [hq, hlisted]
        simp
      · rw [listed_set_of_ne hq]
        simp [hq]
    refine hpushed.congr hmembers ?_
    intro q
    by_cases hq : q = id
    · subst hq
      exact iff_of_true (Or.inl rfl) ⟨hlisted, phase_enter_self⟩
    · have hphase : ((l.register id true).enter id .reading).phase q = l.phase q :=
        phase_enter_of_ne hq
      rw [hphase]
      constructor
      · rintro (heq | hin)
        · exact absurd heq hq
        · exact ⟨(hmembers q).mp (Or.inr hin.1), hin.2⟩
      · intro hin
        exact Or.inr ⟨((hmembers q).mpr hin.1).resolve_left hq, hin.2⟩

theorem Inv.leave (h : Inv s l) {c : Option Conn} (hid : s.listed id = true)
    (hc : ((s.popBoth id).set id c).listed id = false) :
    Inv ((s.popBoth id).set id c) (l.register id false) := by
  have hset := (h.popBoth hid).set (fun hin => hin.2 rfl) (fun hin => hin.2 rfl) c
  have hnever : ∀ {P : Prop}, ((s.popBoth id).set id c).listed id = true → P := by
    intro P hin
    rw [hc] at hin
    cases hin
  have hmembers : ∀ q, s.listed q = true ∧ q ≠ id ↔
      ((s.popBoth id).set id c).listed q = true := by
    intro q
    by_cases hq : q = id
    · rw [hq, hc]
      simp
    · have hkeep : ((s.popBoth id).set id c).listed q = s.listed q := listed_set_of_ne hq
      rw [hkeep]
      simp [hq]
  refine h.change id (fun q hq => start_set_of_ne hq) (fun q hq => listed_set_of_ne hq) ?_ ?_ hnever
    hnever (hset.congr hmembers ?_)
  · intro q hq
    exact ⟨by simp [Ledger.register, hq], rfl⟩
  · rw [hc]
    simp [Ledger.register]
  · intro q
    rw [← hmembers q]
    constructor
    · rintro ⟨⟨hin, hphase⟩, hne⟩
      exact ⟨⟨hin, hne⟩, hphase⟩
    · rintro ⟨⟨hin, hne⟩, hphase⟩
      exact ⟨⟨hin, hphase⟩, hne⟩

/-- A listed connection put back into the list leaves the same connections listed. -/
theorem listed_push {c : Conn} (hid : s.listed id = true) (hc : c.listed = true) (q : Nat) :
    (((s.popBoth id).set id (some c)).push id).listed q = s.listed q := by
  by_cases hq : q = id
  · subst hq
    rw [hid]
    exact listed_set_self.trans hc
  · exact listed_set_of_ne hq

theorem Inv.begin (h : Inv s l) {c : Conn} (hid : s.listed id = true) (hc : c.listed = true)
    (hpositive : c.parser.lastMessageStart ≠ 0)
    (hfresh : FreshStart s id c.parser.lastMessageStart) :
    Inv ((((s.popBoth id).set id (some c)).push id).pushActive id) (l.enter id .reading) := by
  rcases h.restart hid (fun _ => hfresh) with ⟨hsets, hown⟩
  have hpushed := hsets.pushActive (fun hin => hin.2 rfl) (fun q hq => hown q ⟨hq.1.1, hq.2⟩)
  have hlisted := listed_push hid hc
  refine h.change id (fun q hq => start_set_of_ne hq) (fun q _ => hlisted q) ?_ ?_ ?_ (fun _ => hown) ?_
  · intro q hq
    exact ⟨rfl, phase_enter_of_ne hq⟩
  · exact (hlisted id).trans (h.registered id)
  · intro _
    rw [phase_enter_self]
    have hself : ((s.popBoth id).set id (some c)).start id ≠ 0 := by
      rw [start_set_self]
      exact hpositive
    exact iff_of_false hself Phase.noConfusion
  · refine hpushed.congr (fun q => by rw [← hlisted q]; rfl) ?_
    intro q
    have hback : ((((s.popBoth id).set id (some c)).push id).pushActive id).listed q =
        s.listed q := hlisted q
    rw [hback]
    by_cases hq : q = id
    · subst hq
      exact iff_of_true (Or.inl rfl) ⟨hid, phase_enter_self⟩
    · rw [phase_enter_of_ne hq]
      simp [hq]

theorem Inv.complete (h : Inv s l) {c : Conn} (hid : s.listed id = true) (hc : c.listed = true)
    (hzero : c.parser.lastMessageStart = 0) :
    Inv (((s.popBoth id).set id (some c)).push id) (l.enter id .idle) := by
  rcases h.restart hid (fun hne => absurd hzero hne) with ⟨hsets, hown⟩
  have hlisted := listed_push hid hc
  refine h.change id (fun q hq => start_set_of_ne hq) (fun q _ => hlisted q) ?_ ?_ ?_ (fun _ => hown) ?_
  · intro q hq
    exact ⟨rfl, phase_enter_of_ne hq⟩
  · exact (hlisted id).trans (h.registered id)
  · intro _
    rw [phase_enter_self]
    have hself : ((s.popBoth id).set id (some c)).start id = 0 := by
      rw [start_set_self]
      exact hzero
    exact iff_of_true hself rfl
  · refine hsets.congr (fun q => by rw [hlisted q]) ?_
    intro q
    rw [hlisted q]
    by_cases hq : q = id
    · subst hq
      rw [phase_enter_self]
      simp
    · rw [phase_enter_of_ne hq]
      simp [hq]

theorem Inv.expire (h : Inv s l) (late : Nat → Bool) :
    Inv { s with active := s.active.filter fun q => !late q }
      { l with phase := fun q => if q ∈ s.active.filter late then .timedOut else l.phase q } := by
  have hreading : ∀ q, q ∈ s.active.filter late → s.listed q = true ∧ l.phase q = .reading := by
    intro q hq
    exact (h.sets.active_mem q).mp (List.mem_filter.mp hq).1
  refine ⟨h.registered, ?_, h.distinct, h.sets.all_sorted, h.sets.all_mem, ?_, ?_⟩
  · intro q hin
    have hstart := h.starts q hin
    dsimp only
    split
    · rename_i hlate
      have hphase := (hreading q hlate).2
      rw [hphase] at hstart
      constructor
      · intro hzero
        exact absurd (hstart.mp hzero) Phase.noConfusion
      · intro hidle
        cases hidle
    · exact hstart
  · exact List.Pairwise.sublist List.filter_sublist h.sets.active_sorted
  · intro q
    rw [List.mem_filter, h.sets.active_mem]
    dsimp only
    cases hlate : late q with
    | true =>
        have hsplit : q ∈ s.active.filter late ↔ s.listed q = true ∧ l.phase q = .reading := by
          rw [List.mem_filter, h.sets.active_mem]
          simp [hlate]
        constructor
        · rintro ⟨_, hfalse⟩
          cases hfalse
        · rintro ⟨hin, hphase⟩
          split at hphase
          · cases hphase
          · rename_i hnot
            exact absurd (hsplit.mpr ⟨hin, hphase⟩) hnot
    | false =>
        have hnot : q ∉ s.active.filter late := by
          intro hin
          rw [(List.mem_filter.mp hin).2] at hlate
          cases hlate
        rw [if_neg hnot]
        exact and_iff_left rfl

/-! ### One step -/

theorem read_eq {now : Nat} (h : s.read now = some s') :
    0 < now ∧ s' = { s with clock := now } := by
  unfold State.read at h
  split at h
  · rename_i hnow
    cases h
    exact ⟨hnow.1, rfl⟩
  · cases h

theorem Inv.clock (h : Inv s l) (now : Nat) : Inv { s with clock := now } l :=
  h.touch rfl rfl (fun _ => rfl) (fun _ => rfl)

theorem trackHeader_start {p : Parser} {length : Nat} {next : Parser → Effect}
    (h : ∀ q : Parser, (next q).parser.lastMessageStart = q.lastMessageStart) :
    (p.trackHeader length next).parser.lastMessageStart = p.lastMessageStart := by
  unfold Parser.trackHeader
  dsimp only
  split
  · rfl
  · exact h _

theorem answered_start {p : Parser} {log : List Delivery} {answer : Answer} :
    (Parser.answered p log answer).parser.lastMessageStart = p.lastMessageStart := by
  cases answer with
  | returned action => rfl
  | threw => rfl

/-- Only the first and the last callback of a message write the start. -/
theorem on_start {p : Parser} {call : Callback} (hbegin : ∀ now answer, call ≠ .messageBegin now answer)
    (hend : ∀ answer, call ≠ .messageComplete answer) :
    (p.on call).parser.lastMessageStart = p.lastMessageStart := by
  cases call with
  | messageBegin now answer => exact absurd rfl (hbegin now answer)
  | messageComplete answer => exact absurd rfl (hend answer)
  | url piece => exact trackHeader_start fun _ => rfl
  | status piece => exact trackHeader_start fun _ => rfl
  | headerField piece =>
      apply trackHeader_start
      intro q
      dsimp only [Parser.flush]
      split <;> split <;> (try split) <;> rfl
  | headerValue piece =>
      apply trackHeader_start
      intro q
      dsimp only
      split <;> split <;> rfl
  | headersComplete head answer =>
      cases answer with
      | threw =>
          simp only [Parser.on, Parser.onHeadersComplete, Parser.flush]
          split <;> rfl
      | returned action =>
          simp only [Parser.on, Parser.onHeadersComplete, Parser.flush]
          split <;> split <;> (try split) <;> rfl
  | body chunk answer => exact answered_start
  | chunkHeader => rfl
  | chunkComplete => rfl
  | chunkExtension length =>
      simp only [Parser.on, Parser.onChunkExtension]
      split <;> rfl

theorem begin_start {p : Parser} {now : Nat} {answer : Answer} :
    (p.on (.messageBegin now answer)).parser.lastMessageStart = now :=
  answered_start

theorem complete_start {p : Parser} {answer : Answer} :
    (p.on (.messageComplete answer)).parser.lastMessageStart = 0 := by
  simp only [Parser.on, Parser.onMessageComplete]
  rw [answered_start]
  split <;> rfl

theorem conn_listed {c : Conn} (h : s.conns id = some c) : s.listed id = c.listed := by
  simp [State.listed, h]

theorem conn_start {c : Conn} (h : s.conns id = some c) : s.start id = c.parser.lastMessageStart := by
  simp [State.start, h]

theorem init_inv : Inv init Ledger.empty := by
  refine ⟨fun _ => rfl, ?_, ?_, List.Pairwise.nil, ?_, List.Pairwise.nil, ?_⟩
  · intro q hq
    cases hq
  · intro q hq
    cases hq
  · intro q
    exact iff_of_false List.not_mem_nil Bool.false_ne_true
  · intro q
    exact iff_of_false List.not_mem_nil (fun h => Bool.false_ne_true h.1)

/-- A parser changes in fields the lists do not look at. -/
theorem Inv.update (h : Inv s l) {c c' : Conn} (hconn : s.conns id = some c)
    (hstart : c'.parser.lastMessageStart = c.parser.lastMessageStart)
    (hlisted : c'.listed = c.listed) : Inv (s.set id (some c')) l := by
  refine h.touch ?_ ?_ ?_ ?_
  · rfl
  · rfl
  · intro q
    by_cases hq : q = id
    · subst hq
      rw [start_set_self, conn_start hconn, hstart]
    · exact start_set_of_ne hq
  · intro q
    by_cases hq : q = id
    · subst hq
      rw [listed_set_self, conn_listed hconn, hlisted]
    · exact listed_set_of_ne hq

theorem callback_inv (h : Inv s l) {call : Callback} (hcareful : Careful s (.callback id call))
    (hstep : step s (.callback id call) = some s') : Inv s' (track s l (.callback id call)) := by
  simp only [step] at hstep
  cases hconn : s.conns id with
  | none => simp [hconn] at hstep
  | some c =>
      simp only [hconn] at hstep
      have hout : c.listed ≠ true → ∀ (c' : Conn) (phase : Phase), c'.listed = c.listed →
          Inv (s.set id (some c')) (l.enter id phase) := by
        intro hc c' phase hc'
        have hlisted : s.listed id = false := by
          rw [conn_listed hconn]
          exact Bool.not_eq_true _ ▸ hc
        refine h.unlisted hlisted ?_ (fun q hq => ⟨rfl, phase_enter_of_ne hq⟩) ?_
        · rw [listed_set_self, hc', ← conn_listed hconn, hlisted]
        · exact (h.registered id).symm.trans hlisted
      cases call with
      | messageBegin now answer =>
          rcases Option.map_eq_some_iff.mp hstep with ⟨t, hread, rfl⟩
          rcases read_eq hread with ⟨hpositive, rfl⟩
          simp only [beginMessage]
          split
          · rename_i hc
            have hid : s.listed id = true := (conn_listed hconn).trans hc
            refine (h.clock now).begin hid hc ?_ ?_
            · rw [begin_start]
              exact Nat.ne_of_gt hpositive
            · rw [begin_start]
              exact hcareful hid
          · rename_i hc
            exact (hout hc { c with parser := (c.parser.on (.messageBegin now answer)).parser }
              .reading rfl).clock now
      | messageComplete answer =>
          cases hstep
          simp only [completeMessage]
          split
          · rename_i hc
            exact h.complete ((conn_listed hconn).trans hc) hc complete_start
          · rename_i hc
            exact hout hc _ _ rfl
      | _ =>
          cases hstep
          exact h.update hconn (on_start (by simp) (by simp)) rfl

/-- Every operation of a careful run keeps the sets what the ledger says. -/
theorem step_inv (h : Inv s l) {e : Event} (hcareful : Careful s e) (hstep : step s e = some s') :
    Inv s' (track s l e) := by
  cases e with
  | callback id call => exact callback_inv h hcareful hstep
  | create id =>
      simp only [step] at hstep
      cases hconn : s.conns id with
      | some c => simp [hconn] at hstep
      | none =>
          simp only [hconn, Option.some.injEq] at hstep
          subst hstep
          have hlisted : s.listed id = false := by simp [State.listed, hconn]
          refine h.unlisted hlisted listed_set_self (fun q _ => ⟨rfl, rfl⟩) ?_
          exact (h.registered id).symm.trans hlisted
  | initializeParser id maxHeaderSize withList now =>
      simp only [step] at hstep
      cases hconn : s.conns id with
      | none => simp [hconn] at hstep
      | some c =>
          simp only [hconn] at hstep
          cases withList with
          | true =>
              rcases Option.map_eq_some_iff.mp hstep with ⟨t, hread, rfl⟩
              rcases read_eq hread with ⟨hpositive, rfl⟩
              exact (h.clock now).register hcareful.1 rfl (Nat.ne_of_gt hpositive) (hcareful.2 rfl)
          | false =>
              cases hstep
              refine h.unlisted hcareful.1 listed_set_self ?_ ?_
              · intro q hq
                exact ⟨by simp [track, Ledger.register, Ledger.enter, hq], phase_enter_of_ne hq⟩
              · simp [track, Ledger.register, Ledger.enter]
  | remove id =>
      simp only [step] at hstep
      cases hconn : s.conns id with
      | none => simp [hconn] at hstep
      | some c =>
          simp only [hconn] at hstep
          split at hstep
          · rename_i hc
            cases hstep
            exact h.leave ((conn_listed hconn).trans hc) listed_set_self
          · rename_i hc
            cases hstep
            have hsame : l.register id false = l := by
              have hfalse : l.registered id = false := by
                rw [← h.registered, conn_listed hconn]
                exact Bool.not_eq_true _ ▸ hc
              have hupdate : Function.update l.registered id false = l.registered := by
                rw [← hfalse]
                exact Function.update_eq_self id l.registered
              rw [Ledger.register, hupdate]
            rw [track, hsame]
            exact h
  | destroy id =>
      simp only [step] at hstep
      cases hconn : s.conns id with
      | none => simp [hconn] at hstep
      | some c =>
          have hnone : ∀ t : State, (t.set id none).listed id = false := by
            intro t
            simp [State.set, State.listed]
          simp only [hconn] at hstep
          split at hstep
          · rename_i hc
            cases hstep
            exact h.leave ((conn_listed hconn).trans hc) (hnone _)
          · rename_i hc
            cases hstep
            refine h.unlisted ?_ (hnone s) ?_ ?_
            · rw [conn_listed hconn]
              exact Bool.not_eq_true _ ▸ hc
            · intro q hq
              exact ⟨by simp [track, Ledger.register, hq], rfl⟩
            · simp [track, Ledger.register]
  | expired headersTimeoutMs requestTimeoutMs now =>
      rcases Option.map_eq_some_iff.mp hstep with ⟨t, hread, rfl⟩
      rcases read_eq hread with ⟨_, rfl⟩
      exact (h.clock now).expire _

theorem carefulRun_inv {events : List Event} (h : CarefulRun events s l) : Inv s l := by
  induction h with
  | start => exact init_inv
  | step _ hcareful htaken ih => exact step_inv ih hcareful htaken

/-! ### What a server sees -/

/-- The sets represent the ledger: they hold the right parsers, the three questions return each of
them once, and pushes and pops do what they are for. -/
structure Faithful (s : State) (l : Ledger) : Prop where
  all : (allOf s).Nodup ∧ ∀ q, q ∈ allOf s ↔ l.registered q = true
  active : (activeOf s).Nodup ∧ ∀ q, q ∈ activeOf s ↔ l.registered q = true ∧ l.phase q = .reading
  idle : (idleOf s).Nodup ∧ ∀ q, q ∈ idleOf s ↔ l.registered q = true ∧ l.phase q = .idle
  pop : ∀ id, l.registered id = true →
    (∀ q, q ∈ (s.popBoth id).all ↔ q ∈ s.all ∧ q ≠ id) ∧
      ∀ q, q ∈ (s.popBoth id).active ↔ q ∈ s.active ∧ q ≠ id
  push : ∀ id c, l.registered id = false → FreshStart s id c.parser.lastMessageStart →
    (∀ q, q ∈ ((s.set id (some c)).push id).all ↔ q = id ∨ q ∈ s.all) ∧
      ∀ q, q ∈ ((s.set id (some c)).pushActive id).active ↔ q = id ∨ q ∈ s.active

/-- In every careful run `all_` holds the registered parsers and `active_` those that were
initialized or began a message and have neither completed it nor been reported as expired since. -/
theorem connections_faithful {events : List Event} (h : CarefulRun events s l) : Faithful s l := by
  have hinv := carefulRun_inv h
  have hregistered : ∀ q, s.listed q = true ↔ l.registered q = true := by
    intro q
    rw [hinv.registered]
  have hnodup : s.all.Nodup := hinv.sets.all_sorted.nodup (parserComparator_irrefl _)
  refine ⟨⟨hnodup, ?_⟩, ⟨hinv.sets.active_sorted.nodup (parserComparator_irrefl _), ?_⟩,
    ⟨hnodup.filter _, ?_⟩, ?_, ?_⟩
  · intro q
    exact (hinv.sets.all_mem q).trans (hregistered q)
  · intro q
    exact (hinv.sets.active_mem q).trans (and_congr_left' (hregistered q))
  · intro q
    rw [idleOf, List.mem_filter, hinv.sets.all_mem, decide_eq_true_eq, ← hregistered]
    exact and_congr_right (hinv.starts q)
  · intro id hid
    have hpopped := hinv.popBoth ((hregistered id).mpr hid)
    constructor
    · intro q
      rw [hpopped.all_mem, hinv.sets.all_mem]
    · intro q
      rw [hpopped.active_mem, hinv.sets.active_mem]
  · intro id c hid hfresh
    have hout : ¬ s.listed id = true := by
      rw [hregistered, hid]
      exact Bool.false_ne_true
    have hown : OwnStart (s.set id (some c)) id fun q => s.listed q = true := by
      intro q hq hne heq
      rw [start_set_self, start_set_of_ne hne] at heq
      exact absurd heq (hfresh q hne hq)
    have hset := hinv.sets.set hout (fun hin => hout hin.1) (some c)
    constructor
    · intro q
      rw [(hset.push hout hown).all_mem, hinv.sets.all_mem]
    · intro q
      rw [(hset.pushActive (fun hin => hout hin.1) (fun q hq => hown q hq.1)).active_mem,
        hinv.sets.active_mem]

/-- Whether a parser is between message-begin and message-complete. -/
def midMessage (events : List Event) (id : Nat) : Bool :=
  events.foldl (fun mid e =>
    match e with
    | .callback i (.messageBegin _ _) => if i = id then true else mid
    | .callback i (.messageComplete _) | .initializeParser i _ _ _ => if i = id then false else mid
    | _ => mid) false

/-- `active_` holds the registered parsers between message-begin and message-complete. -/
def ActiveMidMessage (events : List Event) : Prop :=
  ∃ s, runEvents step init events = some s ∧
    ∀ q, q ∈ activeOf s ↔ s.listed q = true ∧ midMessage events q = true

/-- Two connections: one is timed out while it reads a request, the other completes its request. -/
def sampleRun : List Event :=
  [.create 1, .initializeParser 1 1024 true 5, .create 2, .initializeParser 2 1024 true 7,
    .callback 1 (.messageBegin 9000000 (.returned 0)),
    .callback 2 (.messageBegin 9500000 (.returned 0)), .callback 2 (.messageComplete (.returned 0)),
    .expired 1 1 20000000]

/-- The lists and whether parser 1 is active and registered after some of the events. -/
def sampleAfter (n : Nat) : Option (Bool × Bool) :=
  (runEvents step init (sampleRun.take n)).map fun s => (decide (1 ∈ activeOf s), s.listed 1)

/-- Before its first message a parser is active, and an expired one is not although it is in the
middle of a message. -/
theorem active_not_midMessage :
    ¬ ActiveMidMessage (sampleRun.take 2) ∧ ¬ ActiveMidMessage (sampleRun.take 8) := by
  have hearly : sampleAfter 2 = some (true, true) := by decide
  have hlate : sampleAfter 8 = some (false, true) := by decide
  constructor
  · rintro ⟨s, hrun, h⟩
    rw [sampleAfter, hrun, Option.map_some, Option.some.injEq, Prod.mk.injEq] at hearly
    have hmid := ((h 1).mp (of_decide_eq_true hearly.1)).2
    exact absurd hmid (by decide)
  · rintro ⟨s, hrun, h⟩
    rw [sampleAfter, hrun, Option.map_some, Option.some.injEq, Prod.mk.injEq] at hlate
    exact of_decide_eq_false hlate.1 ((h 1).mpr ⟨hlate.2, by decide⟩)

/-- Starts only have to be compared with those of the parsers in `all_`. -/
theorem freshStart_of_all (h : Inv s l) {now : Nat}
    (hall : ∀ q ∈ s.all, q ≠ id → s.start q ≠ now) : FreshStart s id now := by
  intro other hne hlisted
  exact hall other ((h.sets.all_mem other).mpr hlisted) hne

/-- Two parsers that are initialized at different times and of which one reads a message. -/
theorem twoParsers_faithful : ∃ s l, CarefulRun (sampleRun.take 5) s l ∧ Faithful s l ∧
    allOf s = [2, 1] ∧ activeOf s = [2, 1] := by
  have hone := CarefulRun.step (e := .create 1) CarefulRun.start trivial rfl
  have htwo := CarefulRun.step (e := .initializeParser 1 1024 true 5) hone
    ⟨rfl, fun _ => freshStart_of_all (carefulRun_inv hone) (by decide)⟩ rfl
  have hthree := CarefulRun.step (e := .create 2) htwo trivial rfl
  have hfour := CarefulRun.step (e := .initializeParser 2 1024 true 7) hthree
    ⟨rfl, fun _ => freshStart_of_all (carefulRun_inv hthree) (by decide)⟩ rfl
  have hfive := CarefulRun.step (e := .callback 1 (.messageBegin 9000000 (.returned 0))) hfour
    (fun _ => freshStart_of_all (carefulRun_inv hfour) (by decide)) rfl
  exact ⟨_, _, hfive, connections_faithful hfive, by decide, by decide⟩

end HermesNode.Http.Connections
