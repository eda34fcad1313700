/-
Module: HermesNode.CompileCache.Safety
Purpose: Safety of the compile cache under every interleaving. `Good` is the invariant: a name an
  entry is looked up under always leads to the complete image some save stored for it, an inode that
  is still being written is only reachable through its own temporary name, and a lookup that has
  opened an entry holds an inode nobody writes any more. Every system call keeps it, so a hit maps
  exactly the bytecode of an earlier save with the same identity.
Trusted boundary: none
Main exports: cacheFilePath_inj, Good, lookup_hit_stored
-/
import HermesNode.CompileCache.Cache

namespace HermesNode.CompileCache

/-! ### Names -/

theorem cacheFilePath_inj {g g' : Bytes} {k k' : UInt32}
    (h : cacheFilePath g k = cacheFilePath g' k') : g = g' ∧ k = k' := by
  have hparts := List.append_inj' h (by simp)
  have hkeys := List.append_inj (List.cons.inj hparts.2).2 (by simp)
  have hhex : hexPadded 8 k.toNat = hexPadded 8 k'.toNat := (List.cons.inj hkeys.2).2
  have hlt : k.toNat < 16 ^ 8 := k.toNat_lt
  have hlt' : k'.toNat < 16 ^ 8 := k'.toNat_lt
  exact ⟨hparts.1, UInt32.toNat_inj.mp (hexPadded_injective hlt hlt' hhex)⟩

theorem hexDigit_ne_p : ∀ d < 16, hexDigit d ≠ 112 := by
  decide

/-- A temporary name ends in a letter that no entry's name ends in. -/
theorem tempName_ne_cacheFilePath (path g : Bytes) (pid counter : Nat) (k : UInt32) :
    tempName path pid counter ≠ cacheFilePath g k := by
  intro h
  have hlast : (tempName path pid counter).getLast? = some 112 := by
    unfold tempName
    rw [List.getLast?_append]
    rfl
  rcases @hexPadded_last 7 k.toNat with ⟨d, hd, hhex⟩
  have hpath : (cacheFilePath g k).getLast? = some (hexDigit d) := by
    unfold cacheFilePath
    rw [List.getLast?_append, List.getLast?_append, List.getLast?_cons, hhex]
    rfl
  rw [h, hpath, Option.some.injEq] at hlast
  exact hexDigit_ne_p d hd hlast

theorem dot_not_mem_decimal (n : Nat) : (46 : UInt8) ∉ decimal n := by
  intro h
  have hrange := decimal_digits h
  have hdot : (46 : UInt8).toNat = 46 := rfl
  omega

/-- Two temporary names agree only for one process and one counter value. -/
theorem tempName_inj {path path' : Bytes} {pid pid' counter counter' : Nat}
    (h : tempName path pid counter = tempName path' pid' counter') :
    pid = pid' ∧ counter = counter' := by
  unfold tempName at h
  have hstem := (List.append_inj' h rfl).1
  have houter : path ++ ascii "." ++ decimal pid = path' ++ ascii "." ++ decimal pid' ∧
      decimal counter = decimal counter' := by
    apply append_sep_inj (dot_not_mem_decimal counter) (dot_not_mem_decimal counter')
    simpa [ascii] using hstem
  have hpid : path = path' ∧ decimal pid = decimal pid' := by
    apply append_sep_inj (dot_not_mem_decimal pid) (dot_not_mem_decimal pid')
    simpa [ascii] using houter.1
  exact ⟨decimal_injective hpid.2, decimal_injective houter.2⟩

/-! ### The header -/

theorem image_take_header (r : Record) : r.image.take kCompileCacheHeaderSize = r.header := by
  have hlen : r.header.length = kCompileCacheHeaderSize := by
    simp [Record.header, kCompileCacheHeaderSize]
  rw [Record.image, ← hlen, List.take_left]

theorem image_drop_header (r : Record) : r.image.drop kCompileCacheHeaderSize = r.bytecode := by
  have hlen : r.header.length = kCompileCacheHeaderSize := by
    simp [Record.header, kCompileCacheHeaderSize]
  rw [Record.image, ← hlen, List.drop_left]

/-- The header of a record passes the checks for `e` when it is for the same source and there is
bytecode. -/
theorem checkHeader_eq_ite {e : Entry} {r : Record} (hsize : r.bytecode.length < 2 ^ 32) :
    checkHeader e r.header = if r.entry.sourceSize = e.sourceSize ∧
      r.entry.sourceCrc = e.sourceCrc ∧ r.bytecode ≠ [] then some r.bytecode.length else none := by
  have hwords : readWords r.header 0 6 = some
      [kCompileCacheMagic, kCompileCacheHeaderVersion, r.entry.sourceCrc, r.entry.sourceSize,
        UInt32.ofNat r.bytecode.length, 0] :=
    (At.self r.header).readWords_eq
  have hcount := UInt32.toNat_ofNat_of_lt' hsize
  have hsome : UInt32.ofNat r.bytecode.length ≠ 0 ↔ r.bytecode ≠ [] := by
    simp [← UInt32.toNat_inj, hcount]
  simp [checkHeader, hwords, hsome, hcount]

theorem checkHeader_header {e : Entry} {r : Record} {n : Nat}
    (hsize : r.bytecode.length < 2 ^ 32) (h : checkHeader e r.header = some n) :
    r.entry.sourceSize = e.sourceSize ∧ r.entry.sourceCrc = e.sourceCrc ∧
      n = r.bytecode.length := by
  rw [checkHeader_eq_ite hsize, Option.ite_none_right_eq_some] at h
  exact ⟨h.1.1, h.1.2.1, (Option.some.inj h.2).symm⟩

/-! ### The invariant -/

/-- The inode holds the complete image of a record stored for this generation and key. -/
def Holds (s : State) (generationDir : Bytes) (key : UInt32) (inode : Nat) : Prop :=
  ∃ r ∈ s.stored, r.entry.generationDir = generationDir ∧ r.entry.key = key ∧
    s.fs.content inode = r.image

/-- Operation `j` is the save `sv`. -/
def SaveAt (s : State) (j : Nat) (sv : Save) : Prop := s.ops[j]? = some (.save sv)

/-- Operation `j` is the lookup `lk`. -/
def LookupAt (s : State) (j : Nat) (lk : Lookup) : Prop := s.ops[j]? = some (.lookup lk)

/-- No save has the inode in hand. -/
def Unwritten (s : State) (inode : Nat) : Prop :=
  ∀ j sv offset, SaveAt s j sv → sv.pc.inode? ≠ some (inode, offset)

/-- What a lookup knows about the inode it has opened. -/
def ReaderOk (s : State) (lk : Lookup) : Prop :=
  match lk.pc with
  | .opening | .miss => True
  | .reading inode got =>
      inode < s.fs.next ∧ Unwritten s inode ∧
        Holds s lk.entry.generationDir lk.entry.key inode ∧
        got = (s.fs.content inode).take got.length ∧ got.length ≤ kCompileCacheHeaderSize
  | .statting inode bytecodeSize | .mapping inode bytecodeSize | .hit inode bytecodeSize =>
      inode < s.fs.next ∧ Unwritten s inode ∧
        ∃ r ∈ s.stored, r.entry = lk.entry ∧ s.fs.content inode = r.image ∧
          bytecodeSize = r.bytecode.length

/-- What holds of the saves themselves: no two share a process and a counter value. -/
structure Ledger (s : State) : Prop where
  saveSize : ∀ j sv, SaveAt s j sv → sv.record.bytecode.length < 2 ^ 32
  counters : ∀ j sv, SaveAt s j sv → sv.counter < s.counters sv.pid
  distinct : ∀ j k sv sv', SaveAt s j sv → SaveAt s k sv' →
    sv.pid = sv'.pid → sv.counter = sv'.counter → j = k

structure Good (s : State) : Prop where
  ledger : Ledger s
  storedSize : ∀ r ∈ s.stored, r.bytecode.length < 2 ^ 32
  named : ∀ n i, s.fs.names n = some i → i < s.fs.next
  finals : ∀ g k i, s.fs.names (cacheFilePath g k) = some i → Holds s g k i
  /-- A save's inode holds what it has written, behind its temporary name at most. -/
  writers : ∀ j sv i offset, SaveAt s j sv → sv.pc.inode? = some (i, offset) →
    i < s.fs.next ∧ s.fs.content i = sv.record.image.take offset ∧
      ∀ n, s.fs.names n = some i → n = sv.temp
  oneWriter : ∀ j k sv sv' i offset offset', SaveAt s j sv →
    SaveAt s k sv' → sv.pc.inode? = some (i, offset) →
    sv'.pc.inode? = some (i, offset') → j = k
  temps : ∀ j sv i, SaveAt s j sv → s.fs.names sv.temp = some i →
    ∃ offset, sv.pc.inode? = some (i, offset)
  /-- A bound name is an entry's name or the temporary name of a save. -/
  bound : ∀ n i, s.fs.names n = some i → (∃ g k, n = cacheFilePath g k) ∨
    ∃ j sv, SaveAt s j sv ∧ n = sv.temp
  readers : ∀ j lk, LookupAt s j lk → ReaderOk s lk

theorem init_good : Good init := by
  refine ⟨⟨?_, ?_, ?_⟩, ?_, ?_, ?_, ?_, ?_, ?_, ?_, ?_⟩ <;>
    simp [init, FileSys.empty, SaveAt, LookupAt]

/-! ### Steps that leave the filesystem alone -/

variable {s : State}

theorem getElem?_setOp {i j : Nat} {op op' : Op}
    (h : (setOp s i op).ops[j]? = some op') :
    (j = i ∧ op' = op) ∨ (j ≠ i ∧ s.ops[j]? = some op') := by
  simp only [setOp, List.getElem?_set] at h
  by_cases hij : i = j
  · subst hij
    simp only [if_true] at h
    split at h
    · exact Or.inl ⟨rfl, (Option.some.inj h).symm⟩
    · cases h
  · rw [if_neg hij] at h
    exact Or.inr ⟨Ne.symm hij, h⟩

variable {i : Nat}

theorem getElem?_setOp_self {op op' : Op} (h : s.ops[i]? = some op') :
    (setOp s i op).ops[i]? = some op := by
  have hlt : i < s.ops.length := (List.getElem?_eq_some_iff.mp h).1
  simp [setOp, hlt]

theorem getElem?_setOp_ne {i j : Nat} {op : Op} (hne : j ≠ i) :
    (setOp s i op).ops[j]? = s.ops[j]? := by
  simp [setOp, Ne.symm hne]

/-- An operation behind the others is the new one, or it was there before. -/
theorem op_cases {s : State} {op op' : Op} {j : Nat} (h : (s.ops ++ [op])[j]? = some op') :
    (j = s.ops.length ∧ op' = op) ∨ s.ops[j]? = some op' := by
  by_cases hlt : j < s.ops.length
  · rw [List.getElem?_append_left hlt] at h
    exact Or.inr h
  · rw [List.getElem?_append_right (by omega), List.getElem?_singleton] at h
    split at h
    · exact Or.inl ⟨by omega, (Option.some.inj h).symm⟩
    · cases h

/-- A save that got further without touching its inode. -/
structure SameSave (sv sv' : Save) : Prop where
  record : sv'.record = sv.record
  pid : sv'.pid = sv.pid
  counter : sv'.counter = sv.counter
  inode : sv'.pc.inode? = sv.pc.inode?

theorem SameSave.refl (sv : Save) : SameSave sv sv := ⟨rfl, rfl, rfl, rfl⟩

theorem SameSave.temp {sv sv' : Save} (h : SameSave sv sv') : sv'.temp = sv.temp := by
  simp only [Save.temp, h.record, h.pid, h.counter]

theorem ReaderOk.congr {s s' : State} {lk : Lookup} (h : ReaderOk s lk) (hfs : s'.fs = s.fs)
    (hstored : s'.stored = s.stored) (hun : ∀ i, Unwritten s i → Unwritten s' i) :
    ReaderOk s' lk := by
  unfold ReaderOk at h ⊢
  simp only [Holds, hfs, hstored] at h ⊢
  split
  · trivial
  · trivial
  · rename_i hpc
    simp only [hpc] at h
    exact ⟨h.1, hun _ h.2.1, h.2.2⟩
  · rename_i hpc
    simp only [hpc] at h
    exact ⟨h.1, hun _ h.2.1, h.2.2⟩
  · rename_i hpc
    simp only [hpc] at h
    exact ⟨h.1, hun _ h.2.1, h.2.2⟩
  · rename_i hpc
    simp only [hpc] at h
    exact ⟨h.1, hun _ h.2.1, h.2.2⟩

theorem Ledger.congr {s s' : State} (h : Ledger s) (hcounters : s'.counters = s.counters)
    (hsaves : ∀ j sv', SaveAt s' j sv' → ∃ sv, SaveAt s j sv ∧ sv'.record = sv.record ∧
      sv'.pid = sv.pid ∧ sv'.counter = sv.counter) : Ledger s' := by
  constructor
  · intro j sv' hsv'
    rcases hsaves j sv' hsv' with ⟨sv, hsv, hrecord, _, _⟩
    rw [hrecord]
    exact h.saveSize j sv hsv
  · intro j sv' hsv'
    rcases hsaves j sv' hsv' with ⟨sv, hsv, _, hpid, hcounter⟩
    rw [hcounters, hpid, hcounter]
    exact h.counters j sv hsv
  · intro j k svj svk hj hk hpid hcounter
    rcases hsaves j svj hj with ⟨sv₁, hsv₁, _, hpid₁, hcounter₁⟩
    rcases hsaves k svk hk with ⟨sv₂, hsv₂, _, hpid₂, hcounter₂⟩
    rw [hpid₁, hpid₂] at hpid
    rw [hcounter₁, hcounter₂] at hcounter
    exact h.distinct j k sv₁ sv₂ hsv₁ hsv₂ hpid hcounter

theorem saveAt_setPc {i j : Nat} {sv sv' : Save} {pc : SavePc}
    (h : SaveAt (setOp s i (.save { sv with pc })) j sv') :
    (j = i ∧ sv' = { sv with pc }) ∨ (j ≠ i ∧ SaveAt s j sv') := by
  rcases getElem?_setOp h with ⟨hj, heq⟩ | hold
  · cases heq
    exact Or.inl ⟨hj, rfl⟩
  · exact Or.inr hold

variable {sv : Save}

theorem Ledger.setPc (h : Ledger s) (hsv : SaveAt s i sv)
    (pc : SavePc) : Ledger (setOp s i (.save { sv with pc })) := by
  refine h.congr rfl ?_
  intro j sv' hsv'
  rcases saveAt_setPc hsv' with ⟨rfl, rfl⟩ | ⟨_, hold⟩
  · exact ⟨sv, hsv, rfl, rfl, rfl⟩
  · exact ⟨sv', hold, rfl, rfl, rfl⟩

theorem saveAt_unique {sv sv' : Save} (h : SaveAt s i sv)
    (h' : SaveAt s i sv') : sv' = sv := by
  rw [SaveAt, h, Option.some.injEq, Op.save.injEq] at h'
  exact h'.symm

/-- A temporary name of a save is still one after save `i` moved on. -/
theorem temp_setPc (hsv : SaveAt s i sv) (pc : SavePc)
    {n : Bytes} (h : ∃ j sv', SaveAt s j sv' ∧ n = sv'.temp) :
    ∃ j sv', SaveAt (setOp s i (.save { sv with pc })) j sv' ∧ n = sv'.temp := by
  rcases h with ⟨k, sv', hsv', heq⟩
  by_cases hki : k = i
  · subst hki
    rw [saveAt_unique hsv hsv'] at heq
    exact ⟨k, _, getElem?_setOp_self hsv, heq⟩
  · exact ⟨k, sv', (getElem?_setOp_ne hki).trans hsv', heq⟩

theorem lookupAt_setPc {i j : Nat} {lk : Lookup}
    (h : LookupAt (setOp s i (.save sv)) j lk) : LookupAt s j lk := by
  rcases getElem?_setOp h with ⟨_, heq⟩ | ⟨_, hold⟩
  · cases heq
  · exact hold

/-- The invariant only sees the filesystem, the history and what each save has in hand. -/
theorem Good.congr {s s' : State} (h : Good s) (hfs : s'.fs = s.fs)
    (hstored : s'.stored = s.stored) (hcounters : s'.counters = s.counters)
    (hsaves : ∀ j sv', SaveAt s' j sv' → ∃ sv, SaveAt s j sv ∧ SameSave sv sv')
    (hback : ∀ j sv, SaveAt s j sv → ∃ sv', SaveAt s' j sv' ∧ SameSave sv sv')
    (hlookups : ∀ j lk, LookupAt s' j lk → ReaderOk s lk) : Good s' := by
  have hun : ∀ i, Unwritten s i → Unwritten s' i := by
    intro i hi j sv' offset hsv'
    rcases hsaves j sv' hsv' with ⟨sv, hsv, hsame⟩
    rw [hsame.inode]
    exact hi j sv offset hsv
  constructor
  · apply h.ledger.congr hcounters
    intro j sv' hsv'
    rcases hsaves j sv' hsv' with ⟨sv, hsv, hsame⟩
    exact ⟨sv, hsv, hsame.record, hsame.pid, hsame.counter⟩
  · rw [hstored]
    exact h.storedSize
  · rw [hfs]
    exact h.named
  · intro g k i hi
    rw [hfs] at hi
    have hold := h.finals g k i hi
    simpa [Holds, hfs, hstored] using hold
  · intro j sv' i offset hsv' hi
    rcases hsaves j sv' hsv' with ⟨sv, hsv, hsame⟩
    rw [hsame.inode] at hi
    rw [hfs, hsame.record, hsame.temp]
    exact h.writers j sv i offset hsv hi
  · intro j k svj svk i offset offset' hj hk hij hik
    rcases hsaves j svj hj with ⟨sv₁, hsv₁, hsame₁⟩
    rcases hsaves k svk hk with ⟨sv₂, hsv₂, hsame₂⟩
    rw [hsame₁.inode] at hij
    rw [hsame₂.inode] at hik
    exact h.oneWriter j k sv₁ sv₂ i offset offset' hsv₁ hsv₂ hij hik
  · intro j sv' i hsv' hi
    rcases hsaves j sv' hsv' with ⟨sv, hsv, hsame⟩
    rw [hfs, hsame.temp] at hi
    rw [hsame.inode]
    exact h.temps j sv i hsv hi
  · intro n i hn
    rw [hfs] at hn
    rcases h.bound n i hn with hfinal | ⟨j, sv, hsv, htemp⟩
    · exact Or.inl hfinal
    · rcases hback j sv hsv with ⟨sv', hsv', hsame⟩
      exact Or.inr ⟨j, sv', hsv', by rw [hsame.temp, htemp]⟩
  · intro j lk hlk
    exact (hlookups j lk hlk).congr hfs hstored hun

/-- Replacing an operation that is no save by one that is none. -/
theorem Good.setOther {old op : Op} (h : Good s)
    (hold : s.ops[i]? = some old) (hnotSave : ∀ sv, old ≠ .save sv) (hop : ∀ sv, op ≠ .save sv)
    (hlookup : ∀ lk, op = .lookup lk → ReaderOk s lk) : Good (setOp s i op) := by
  refine h.congr rfl rfl rfl ?_ ?_ ?_
  · intro j sv hsv
    rcases getElem?_setOp hsv with ⟨_, heq⟩ | ⟨_, hsv⟩
    · exact absurd heq.symm (hop sv)
    · exact ⟨sv, hsv, SameSave.refl sv⟩
  · intro j sv hsv
    have hne : j ≠ i := by
      rintro rfl
      rw [SaveAt, hold, Option.some.injEq] at hsv
      exact hnotSave sv hsv
    exact ⟨sv, (getElem?_setOp_ne hne).trans hsv, SameSave.refl sv⟩
  · intro j lk hlk
    rcases getElem?_setOp hlk with ⟨_, heq⟩ | ⟨_, hlk⟩
    · exact hlookup lk heq.symm
    · exact h.readers j lk hlk

/-- A save moving on without touching the filesystem. -/
theorem Good.setPc {pc : SavePc} (h : Good s)
    (hsv : SaveAt s i sv) (hpc : pc.inode? = sv.pc.inode?) :
    Good (setOp s i (.save { sv with pc })) := by
  refine h.congr rfl rfl rfl ?_ ?_ ?_
  · intro j sv' hsv'
    rcases saveAt_setPc hsv' with ⟨rfl, rfl⟩ | ⟨_, hold⟩
    · exact ⟨sv, hsv, rfl, rfl, rfl, hpc⟩
    · exact ⟨sv', hold, SameSave.refl sv'⟩
  · intro j sv' hsv'
    by_cases hj : j = i
    · subst hj
      rw [saveAt_unique hsv hsv']
      exact ⟨_, getElem?_setOp_self hsv, rfl, rfl, rfl, hpc⟩
    · exact ⟨sv', (getElem?_setOp_ne hj).trans hsv', SameSave.refl sv'⟩
  · intro j lk hlk
    exact h.readers j lk (lookupAt_setPc hlk)

/-- Starting an operation that is no save. -/
theorem Good.append {s : State} {op : Op} (h : Good s) (hop : ∀ sv, op ≠ .save sv)
    (hlookup : ∀ lk, op = .lookup lk → ReaderOk s lk) :
    Good { s with ops := s.ops ++ [op] } := by
  refine h.congr rfl rfl rfl ?_ ?_ ?_
  · intro j sv hsv
    rcases op_cases hsv with ⟨_, heq⟩ | hold
    · exact absurd heq.symm (hop sv)
    · exact ⟨sv, hold, SameSave.refl sv⟩
  · intro j sv hsv
    have hlt : j < s.ops.length := (List.getElem?_eq_some_iff.mp hsv).1
    exact ⟨sv, (List.getElem?_append_left hlt).trans hsv, SameSave.refl sv⟩
  · intro j lk hlk
    rcases op_cases hlk with ⟨_, heq⟩ | hold
    · exact hlookup lk heq.symm
    · exact h.readers j lk hold

/-- A new save: its counter value is new in its process, so its temporary name is not bound. -/
theorem Good.startSave {pid : Nat} {record : Record} (h : Good s)
    (hsize : record.bytecode.length < 2 ^ 32) :
    Good { s with
      counters := Function.update s.counters pid (s.counters pid + 1)
      ops := s.ops ++ [.save { record, pid, counter := s.counters pid, pc := .opening }] } := by
  let new : Save := { record, pid, counter := s.counters pid, pc := .opening }
  have hnewPc : new.pc.inode? = none := rfl
  have hsaves : ∀ (j : Nat) (sv : Save), (s.ops ++ [Op.save new])[j]? = some (.save sv) →
      (j = s.ops.length ∧ sv = new) ∨ SaveAt s j sv := by
    intro j sv hsv
    rcases op_cases hsv with ⟨hj, heq⟩ | hold
    · cases heq
      exact Or.inl ⟨hj, rfl⟩
    · exact Or.inr hold
  have hlookups : ∀ (j : Nat) (lk : Lookup), (s.ops ++ [Op.save new])[j]? = some (.lookup lk) →
      LookupAt s j lk := by
    intro j lk hlk
    rcases op_cases hlk with ⟨_, heq⟩ | hold
    · cases heq
    · exact hold
  -- an earlier save of the process has a smaller counter value
  have hfresh : ∀ j sv, SaveAt s j sv → ¬ (sv.pid = pid ∧ sv.counter = s.counters pid) := by
    intro j sv hsv heq
    have hlt := h.ledger.counters j sv hsv
    rw [heq.1, heq.2] at hlt
    exact Nat.lt_irrefl _ hlt
  have hcounters : ∀ p, s.counters p ≤
      Function.update s.counters pid (s.counters pid + 1) p := by
    intro p
    by_cases hp : p = pid
    · subst hp
      simp
    · simp [hp]
  have hun : ∀ i, Unwritten s i → ∀ (j : Nat) (sv : Save) (offset : Nat),
      (s.ops ++ [Op.save new])[j]? = some (.save sv) → sv.pc.inode? ≠ some (i, offset) := by
    intro i hi j sv offset hsv
    rcases hsaves j sv hsv with ⟨_, rfl⟩ | hold
    · rw [hnewPc]
      simp
    · exact hi j sv offset hold
  refine ⟨⟨?_, ?_, ?_⟩, h.storedSize, h.named, h.finals, ?_, ?_, ?_, ?_, ?_⟩
  · intro j sv hsv
    rcases hsaves j sv hsv with ⟨_, rfl⟩ | hold
    · exact hsize
    · exact h.ledger.saveSize j sv hold
  · intro j sv hsv
    rcases hsaves j sv hsv with ⟨_, rfl⟩ | hold
    · simp [new]
    · exact Nat.lt_of_lt_of_le (h.ledger.counters j sv hold) (hcounters sv.pid)
  · intro j k svj svk hj hk hpid hcounter
    rcases hsaves j svj hj with ⟨hjlen, rfl⟩ | holdj
    · rcases hsaves k svk hk with ⟨hklen, rfl⟩ | holdk
      · rw [hjlen, hklen]
      · exact absurd ⟨hpid.symm, hcounter.symm⟩ (hfresh k svk holdk)
    · rcases hsaves k svk hk with ⟨_, rfl⟩ | holdk
      · exact absurd ⟨hpid, hcounter⟩ (hfresh j svj holdj)
      · exact h.ledger.distinct j k svj svk holdj holdk hpid hcounter
  · intro j sv i offset hsv hi
    rcases hsaves j sv hsv with ⟨_, rfl⟩ | hold
    · rw [hnewPc] at hi
      cases hi
    · exact h.writers j sv i offset hold hi
  · intro j k svj svk i offset offset' hj hk hij hik
    rcases hsaves j svj hj with ⟨_, rfl⟩ | holdj
    · rw [hnewPc] at hij
      cases hij
    · rcases hsaves k svk hk with ⟨_, rfl⟩ | holdk
      · rw [hnewPc] at hik
        cases hik
      · exact h.oneWriter j k svj svk i offset offset' holdj holdk hij hik
  · intro j sv i hsv hi
    rcases hsaves j sv hsv with ⟨_, rfl⟩ | hold
    · rcases h.bound _ i hi with ⟨g, k, hfinal⟩ | ⟨j', sv', hsv', htemp⟩
      · exact absurd hfinal (tempName_ne_cacheFilePath _ _ _ _ _)
      · rcases tempName_inj htemp with ⟨hpid, hcounter⟩
        exact absurd ⟨hpid.symm, hcounter.symm⟩ (hfresh j' sv' hsv')
    · exact h.temps j sv i hold hi
  · intro n i hn
    rcases h.bound n i hn with hfinal | ⟨j, sv, hsv, htemp⟩
    · exact Or.inl hfinal
    · have hlt : j < s.ops.length := (List.getElem?_eq_some_iff.mp hsv).1
      exact Or.inr ⟨j, sv, (List.getElem?_append_left hlt).trans hsv, htemp⟩
  · intro j lk hlk
    exact (h.readers j lk (hlookups j lk hlk)).congr rfl rfl hun

/-! ### System calls -/

/-- Removing a name never hurts: descriptors keep their inodes. -/
theorem Good.unlink (h : Good s) (name : Bytes) :
    Good { s with fs := s.fs.unlink name } := by
  refine ⟨⟨h.ledger.saveSize, h.ledger.counters, h.ledger.distinct⟩, h.storedSize, ?_, ?_, ?_,
    h.oneWriter, ?_, ?_, h.readers⟩
  · intro n i hn
    exact h.named n i (FileSys.unlink_names hn).1
  · intro g k i hi
    exact h.finals g k i (FileSys.unlink_names hi).1
  · intro j sv i offset hsv hi
    rcases h.writers j sv i offset hsv hi with ⟨hlt, hcontent, hnames⟩
    refine ⟨hlt, hcontent, ?_⟩
    intro n hn
    exact hnames n (FileSys.unlink_names hn).1
  · intro j sv i hsv hi
    exact h.temps j sv i hsv (FileSys.unlink_names hi).1
  · intro n i hn
    exact h.bound n i (FileSys.unlink_names hn).1

/-- What a lookup knows survives a step that keeps the contents of settled inodes. -/
theorem ReaderOk.frame {s s' : State} {lk : Lookup} (h : ReaderOk s lk)
    (hnext : s.fs.next ≤ s'.fs.next)
    (hcontent : ∀ i, i < s.fs.next → Unwritten s i →
      Unwritten s' i ∧ s'.fs.content i = s.fs.content i)
    (hstored : ∀ r ∈ s.stored, r ∈ s'.stored) : ReaderOk s' lk := by
  have settled : ∀ {i n : Nat}, (i < s.fs.next ∧ Unwritten s i ∧
      ∃ r ∈ s.stored, r.entry = lk.entry ∧ s.fs.content i = r.image ∧ n = r.bytecode.length) →
      i < s'.fs.next ∧ Unwritten s' i ∧
        ∃ r ∈ s'.stored, r.entry = lk.entry ∧ s'.fs.content i = r.image ∧
          n = r.bytecode.length := by
    intro i n hold
    rcases hold with ⟨hlt, hun, r, hr, hentry, himage, hn⟩
    rcases hcontent i hlt hun with ⟨hun', hsame⟩
    exact ⟨Nat.lt_of_lt_of_le hlt hnext, hun', r, hstored r hr, hentry, hsame.trans himage, hn⟩
  unfold ReaderOk at h ⊢
  split
  · trivial
  · trivial
  · rename_i hpc
    simp only [hpc] at h
    rcases h with ⟨hlt, hun, ⟨r, hr, hg, hk, himage⟩, hgot, hlen⟩
    rcases hcontent _ hlt hun with ⟨hun', hsame⟩
    refine ⟨Nat.lt_of_lt_of_le hlt hnext, hun', ⟨r, hstored r hr, hg, hk, ?_⟩, ?_, hlen⟩
    · exact hsame.trans himage
    · rw [hsame]
      exact hgot
  · rename_i hpc
    simp only [hpc] at h
    exact settled h
  · rename_i hpc
    simp only [hpc] at h
    exact settled h
  · rename_i hpc
    simp only [hpc] at h
    exact settled h

/-- Opening the temporary name takes a new inode, which nothing else can reach. -/
theorem Good.openTemp (h : Good s) (hsv : SaveAt s i sv)
    (hpc : sv.pc.inode? = none) :
    Good (setOp { s with fs := (s.fs.create sv.temp).2 } i
      (.save { sv with pc := .writing (s.fs.create sv.temp).1 0 })) := by
  have hunbound : s.fs.names sv.temp = none := by
    cases hn : s.fs.names sv.temp with
    | none => rfl
    | some inode =>
        rcases h.temps i sv inode hsv hn with ⟨offset, hin⟩
        rw [hpc] at hin
        cases hin
  rw [FileSys.create_fresh hunbound]
  have hnames : ∀ {n : Bytes} {j : Nat},
      Function.update s.fs.names sv.temp (some s.fs.next) n = some j →
      (n = sv.temp ∧ j = s.fs.next) ∨ (n ≠ sv.temp ∧ s.fs.names n = some j) := by
    intro n j hn
    by_cases heq : n = sv.temp
    · subst heq
      exact Or.inl ⟨rfl, by simpa using hn.symm⟩
    · exact Or.inr ⟨heq, by simpa [heq] using hn⟩
  have hcontent : ∀ j, j < s.fs.next →
      Function.update s.fs.content s.fs.next [] j = s.fs.content j := by
    intro j hj
    simp [Nat.ne_of_lt hj]
  have hledger := h.ledger.setPc hsv (.writing s.fs.next 0)
  refine ⟨⟨hledger.saveSize, hledger.counters, hledger.distinct⟩, h.storedSize, ?_, ?_, ?_, ?_, ?_,
    ?_, ?_⟩
  · intro n j hn
    rcases hnames hn with ⟨_, rfl⟩ | ⟨_, hold⟩
    · exact Nat.lt_succ_self _
    · exact Nat.lt_succ_of_lt (h.named n j hold)
  · intro g k j hj
    rcases hnames hj with ⟨heq, _⟩ | ⟨_, hold⟩
    · exact absurd heq.symm (tempName_ne_cacheFilePath _ _ _ _ _)
    · rcases h.finals g k j hold with ⟨r, hr, hg, hk, himage⟩
      exact ⟨r, hr, hg, hk, (hcontent j (h.named _ j hold)).trans himage⟩
  · intro j sv' inode offset hsv' hin
    rcases saveAt_setPc hsv' with ⟨_, rfl⟩ | ⟨_, hold⟩
    · cases hin
      refine ⟨Nat.lt_succ_self _, by simp [setOp], ?_⟩
      intro n hn
      rcases hnames hn with ⟨heq, _⟩ | ⟨_, hold⟩
      · exact heq
      · exact absurd (h.named n _ hold) (Nat.lt_irrefl _)
    · rcases h.writers j sv' inode offset hold hin with ⟨hlt, hsame, htemps⟩
      refine ⟨Nat.lt_succ_of_lt hlt, (hcontent inode hlt).trans hsame, ?_⟩
      intro n hn
      rcases hnames hn with ⟨_, heq⟩ | ⟨_, hbound⟩
      · exact absurd hlt (heq ▸ Nat.lt_irrefl _)
      · exact htemps n hbound
  · intro j k svj svk inode offset offset' hj hk hij hik
    rcases saveAt_setPc hj with ⟨hji, rfl⟩ | ⟨_, holdj⟩
    · rcases saveAt_setPc hk with ⟨hki, rfl⟩ | ⟨_, holdk⟩
      · rw [hji, hki]
      · cases hij
        exact absurd (h.writers k svk _ _ holdk hik).1 (Nat.lt_irrefl _)
    · rcases saveAt_setPc hk with ⟨_, rfl⟩ | ⟨_, holdk⟩
      · cases hik
        exact absurd (h.writers j svj _ _ holdj hij).1 (Nat.lt_irrefl _)
      · exact h.oneWriter j k svj svk inode offset offset' holdj holdk hij hik
  · intro j sv' inode hsv' hn
    rcases saveAt_setPc hsv' with ⟨_, rfl⟩ | ⟨hne, hold⟩
    · rcases hnames hn with ⟨_, rfl⟩ | ⟨hdiff, _⟩
      · exact ⟨0, rfl⟩
      · exact absurd rfl hdiff
    · rcases hnames hn with ⟨heq, _⟩ | ⟨_, hbound⟩
      · rcases tempName_inj heq with ⟨hpid, hcounter⟩
        exact absurd (h.ledger.distinct j i sv' sv hold hsv hpid hcounter) hne
      · exact h.temps j sv' inode hold hbound
  · intro n j hn
    rcases hnames hn with ⟨rfl, _⟩ | ⟨_, hold⟩
    · exact Or.inr (temp_setPc hsv _ ⟨i, sv, hsv, rfl⟩)
    · exact (h.bound n j hold).imp_right (temp_setPc hsv _)
  · intro j lk hlk
    refine (h.readers j lk (lookupAt_setPc hlk)).frame (Nat.le_succ _) ?_ (fun r hr => hr)
    intro inode hlt hun
    refine ⟨?_, hcontent inode hlt⟩
    intro k sv' offset hsv'
    rcases saveAt_setPc hsv' with ⟨_, rfl⟩ | ⟨_, holdk⟩
    · intro heq
      cases heq
      exact Nat.lt_irrefl _ hlt
    · exact hun k sv' offset holdk

theorem writeEnd_le (r : Record) (offset : Nat) : writeEnd r offset ≤ r.image.length := by
  unfold writeEnd
  split
  · rw [Record.image, List.length_append]
    simp [Record.header, kCompileCacheHeaderSize]
  · exact Nat.le_refl _

theorem Good.write {i inode offset n : Nat} (h : Good s)
    (hsv : SaveAt s i sv) (hpc : sv.pc = .writing inode offset)
    (hend : offset + n ≤ sv.record.image.length) :
    Good (setOp
      { s with fs := s.fs.writeAt inode offset ((sv.record.image.drop offset).take n) } i
      (.save { sv with pc := .writing inode (offset + n) })) := by
  have hin : sv.pc.inode? = some (inode, offset) := by
    rw [hpc]
    rfl
  rcases h.writers i sv inode offset hsv hin with ⟨hlt, hcontent, htemps⟩
  have hwritten : (s.fs.writeAt inode offset ((sv.record.image.drop offset).take n)).content inode =
      sv.record.image.take (offset + n) := by
    have hlen : (s.fs.content inode).length = offset := by
      rw [hcontent, List.length_take]
      omega
    have happend := s.fs.writeAt_append inode ((sv.record.image.drop offset).take n)
    rw [hlen] at happend
    rw [happend, hcontent, ← List.take_add]
  have hother : ∀ j, j ≠ inode →
      (s.fs.writeAt inode offset ((sv.record.image.drop offset).take n)).content j =
        s.fs.content j := by
    intro j hj
    exact FileSys.writeAt_other hj
  -- no other save has the inode
  have halone : ∀ j sv' offset', j ≠ i → SaveAt s j sv' →
      sv'.pc.inode? ≠ some (inode, offset') := by
    intro j sv' offset' hj hsv' hsame
    exact hj (h.oneWriter j i sv' sv inode offset' offset hsv' hsv hsame hin)
  have hledger := h.ledger.setPc hsv (.writing inode (offset + n))
  refine ⟨⟨hledger.saveSize, hledger.counters, hledger.distinct⟩, h.storedSize, h.named, ?_, ?_,
    ?_, ?_, ?_, ?_⟩
  · intro g k j hj
    have hne : j ≠ inode := by
      rintro rfl
      exact tempName_ne_cacheFilePath _ _ _ _ _ (htemps _ hj).symm
    rcases h.finals g k j hj with ⟨r, hr, hg, hk, himage⟩
    exact ⟨r, hr, hg, hk, (hother j hne).trans himage⟩
  · intro j sv' inode' offset' hsv' hin'
    rcases saveAt_setPc hsv' with ⟨_, rfl⟩ | ⟨hne, hold⟩
    · cases hin'
      exact ⟨hlt, hwritten, htemps⟩
    · rcases h.writers j sv' inode' offset' hold hin' with ⟨hlt', hcontent', htemps'⟩
      have hdiff : inode' ≠ inode := by
        rintro rfl
        exact halone j sv' offset' hne hold hin'
      exact ⟨hlt', (hother inode' hdiff).trans hcontent', htemps'⟩
  · intro j k svj svk inode' offset₁ offset₂ hj hk hij hik
    rcases saveAt_setPc hj with ⟨hji, rfl⟩ | ⟨hnej, holdj⟩
    · rcases saveAt_setPc hk with ⟨hki, rfl⟩ | ⟨hnek, holdk⟩
      · rw [hji, hki]
      · cases hij
        exact absurd hik (halone k svk offset₂ hnek holdk)
    · rcases saveAt_setPc hk with ⟨_, rfl⟩ | ⟨_, holdk⟩
      · cases hik
        exact absurd hij (halone j svj offset₁ hnej holdj)
      · exact h.oneWriter j k svj svk inode' offset₁ offset₂ holdj holdk hij hik
  · intro j sv' inode' hsv' hn
    rcases saveAt_setPc hsv' with ⟨_, rfl⟩ | ⟨_, hold⟩
    · rcases h.temps i sv inode' hsv hn with ⟨offset', hsame⟩
      rw [hin] at hsame
      cases hsame
      exact ⟨offset + n, rfl⟩
    · exact h.temps j sv' inode' hold hn
  · intro m j hm
    exact (h.bound m j hm).imp_right (temp_setPc hsv _)
  · intro j lk hlk
    refine (h.readers j lk (lookupAt_setPc hlk)).frame (Nat.le_refl _) ?_ (fun r hr => hr)
    intro inode' hlt' hun
    have hdiff : inode' ≠ inode := by
      rintro rfl
      exact hun i sv offset hsv hin
    refine ⟨?_, hother inode' hdiff⟩
    intro k sv' offset' hsv'
    rcases saveAt_setPc hsv' with ⟨_, rfl⟩ | ⟨_, hold⟩
    · intro heq
      cases heq
      exact hdiff rfl
    · exact hun k sv' offset' hold

/-- The rename: the complete inode moves under its entry's name in one step. -/
theorem Good.rename {i inode offset : Nat} {fs : FileSys} (h : Good s)
    (hsv : SaveAt s i sv) (hpc : sv.pc = .writing inode offset)
    (hdone : sv.record.image.length ≤ offset)
    (hrename : s.fs.rename sv.temp sv.record.entry.path = some fs) :
    Good (setOp { s with fs, stored := sv.record :: s.stored } i
      (.save { sv with pc := .renamed })) := by
  have hin : sv.pc.inode? = some (inode, offset) := by
    rw [hpc]
    rfl
  rcases h.writers i sv inode offset hsv hin with ⟨hlt, hcontent, _⟩
  rw [List.take_of_length_le hdone] at hcontent
  rcases FileSys.rename_eq hrename with ⟨inode', hold, rfl⟩
  have hinode : inode' = inode := by
    rcases h.temps i sv inode' hsv hold with ⟨offset', hsame⟩
    rw [hin] at hsame
    cases hsame
    rfl
  subst hinode
  have hnames : ∀ {n : Bytes} {j : Nat}, Function.update
      (Function.update s.fs.names sv.temp none) sv.record.entry.path (some inode') n = some j →
      (n = sv.record.entry.path ∧ j = inode') ∨
        (n ≠ sv.record.entry.path ∧ n ≠ sv.temp ∧ s.fs.names n = some j) := by
    intro n j hn
    by_cases hpath : n = sv.record.entry.path
    · subst hpath
      exact Or.inl ⟨rfl, by simpa using hn.symm⟩
    · by_cases htemp : n = sv.temp
      · rw [Function.update_of_ne hpath, htemp, Function.update_self] at hn
        cases hn
      · exact Or.inr ⟨hpath, htemp, by simpa [hpath, htemp] using hn⟩
  have hledger := h.ledger.setPc hsv .renamed
  refine ⟨⟨hledger.saveSize, hledger.counters, hledger.distinct⟩, ?_, ?_, ?_, ?_, ?_, ?_, ?_, ?_⟩
  · intro r hr
    rcases List.mem_cons.mp hr with rfl | hr
    · exact h.ledger.saveSize i sv hsv
    · exact h.storedSize r hr
  · intro n j hn
    rcases hnames hn with ⟨_, rfl⟩ | ⟨_, _, hn⟩
    · exact hlt
    · exact h.named n j hn
  · intro g k j hj
    rcases hnames hj with ⟨hpath, rfl⟩ | ⟨_, _, hn⟩
    · rcases cacheFilePath_inj hpath with ⟨hg, hk⟩
      exact ⟨sv.record, List.mem_cons_self, hg.symm, hk.symm, hcontent⟩
    · rcases h.finals g k j hn with ⟨r, hr, hg, hk, himage⟩
      exact ⟨r, List.mem_cons_of_mem _ hr, hg, hk, himage⟩
  · intro j sv' inode'' offset' hsv' hin'
    rcases saveAt_setPc hsv' with ⟨_, rfl⟩ | ⟨hne, holdj⟩
    · cases hin'
    · rcases h.writers j sv' inode'' offset' holdj hin' with ⟨hlt', hcontent', htemps'⟩
      refine ⟨hlt', hcontent', ?_⟩
      intro n hn
      rcases hnames hn with ⟨_, rfl⟩ | ⟨_, _, hn⟩
      · exact absurd (h.oneWriter j i sv' sv _ offset' offset holdj hsv hin' hin) hne
      · exact htemps' n hn
  · intro j k svj svk inode'' offset₁ offset₂ hj hk hij hik
    rcases saveAt_setPc hj with ⟨_, rfl⟩ | ⟨_, holdj⟩
    · cases hij
    · rcases saveAt_setPc hk with ⟨_, rfl⟩ | ⟨_, holdk⟩
      · cases hik
      · exact h.oneWriter j k svj svk inode'' offset₁ offset₂ holdj holdk hij hik
  · intro j sv' inode'' hsv' hn
    rcases hnames hn with ⟨hpath, _⟩ | ⟨_, htemp, hn⟩
    · exact absurd hpath (tempName_ne_cacheFilePath _ _ _ _ _)
    · rcases saveAt_setPc hsv' with ⟨_, rfl⟩ | ⟨_, holdj⟩
      · exact absurd rfl htemp
      · exact h.temps j sv' inode'' holdj hn
  · intro n j hn
    rcases hnames hn with ⟨hpath, _⟩ | ⟨_, _, hn⟩
    · exact Or.inl ⟨_, _, hpath⟩
    · exact (h.bound n j hn).imp_right (temp_setPc hsv _)
  · intro j lk hlk
    refine (h.readers j lk (lookupAt_setPc hlk)).frame (Nat.le_refl _) ?_
      (fun r hr => List.mem_cons_of_mem _ hr)
    intro inode'' hlt' hun
    refine ⟨?_, rfl⟩
    intro k sv' offset' hsv'
    rcases saveAt_setPc hsv' with ⟨_, rfl⟩ | ⟨_, holdk⟩
    · intro heq
      cases heq
    · exact hun k sv' offset' holdk

theorem stepSave_good {s s' : State} {outcome : Outcome} (h : Good s)
    (hsv : SaveAt s i sv) (hstep : stepSave s i sv outcome = some s') : Good s' := by
  unfold stepSave at hstep
  split at hstep
  · rename_i hpc
    cases hstep
    exact h.setPc hsv (by rw [hpc]; rfl)
  · rename_i hpc
    cases hstep
    exact h.openTemp hsv (by rw [hpc]; rfl)
  · rename_i inode offset n hpc
    split at hstep
    · split at hstep
      · rename_i _ hend
        cases hstep
        exact h.write hsv hpc (Nat.le_trans hend (writeEnd_le _ _))
      · cases hstep
    · rename_i hdone
      cases hrename : s.fs.rename sv.temp sv.record.entry.path with
      | some fs =>
          simp only [hrename] at hstep
          cases hstep
          exact h.rename hsv hpc (Nat.le_of_not_lt hdone) hrename
      | none =>
          simp only [hrename] at hstep
          cases hstep
          exact h.setPc hsv (by rw [hpc]; rfl)
  · rename_i hpc
    cases hstep
    exact h.setPc hsv (by rw [hpc]; rfl)
  · rename_i hpc
    cases hstep
    exact (h.unlink sv.temp).setPc hsv (by rw [hpc]; rfl)
  · rename_i hpc
    cases hstep
    exact h.setPc hsv (by rw [hpc]; rfl)
  · cases hstep
  · cases hstep
  · cases hstep

/-! ### Lookups -/

/-- Opening an entry's name reaches a complete inode that nobody writes. -/
theorem Good.opened (h : Good s) {e : Entry} {inode : Nat}
    (hn : s.fs.names e.path = some inode) :
    ReaderOk s { entry := e, pc := .reading inode [] } := by
  refine ⟨h.named _ _ hn, ?_, h.finals _ _ _ hn, rfl, Nat.zero_le _⟩
  intro j sv offset hsv hin
  rcases h.writers j sv inode offset hsv hin with ⟨_, _, htemps⟩
  exact tempName_ne_cacheFilePath _ _ _ _ _ (htemps _ hn).symm

/-- What a `read` adds to what was read is the next part of the file. -/
theorem read_extends {content got : Bytes} {n limit : Nat} (hgot : got = content.take got.length) :
    let more := got ++ ((content.drop got.length).take n).take limit
    more = content.take more.length := by
  intro more
  have hmore : more = content.take (got.length + min limit n) := by
    show got ++ ((content.drop got.length).take n).take limit = _
    rw [List.take_take, List.take_add, ← hgot]
  rw [hmore, List.length_take, Nat.min_comm, ← List.take_take, List.take_length]

theorem stepLookup_good {s s' : State} {lk : Lookup} {outcome : Outcome} (h : Good s)
    (hlk : LookupAt s i lk) (hstep : stepLookup s i lk outcome = some s') : Good s' := by
  have hok := h.readers i lk hlk
  have goto : ∀ {pc : LookupPc}, some (setOp s i (.lookup { lk with pc })) = some s' →
      ReaderOk s { lk with pc } → Good s' := by
    intro pc hs hreader
    cases hs
    refine h.setOther hlk (fun sv heq => by cases heq) (fun sv heq => by cases heq) ?_
    intro lk' heq
    cases heq
    exact hreader
  unfold stepLookup at hstep
  split at hstep
  · cases hstep
  · cases hstep
  · exact goto hstep trivial
  · cases hn : s.fs.names lk.entry.path with
    | some inode =>
        simp only [hn] at hstep
        exact goto hstep (h.opened hn)
    | none =>
        simp only [hn] at hstep
        exact goto hstep trivial
  · rename_i inode got n hpc
    simp only [ReaderOk, hpc] at hok
    rcases hok with ⟨hlt, hun, hholds, hgot, hlen⟩
    have hmore := @read_extends _ _ n (kCompileCacheHeaderSize - got.length) hgot
    dsimp only at hstep hmore
    split at hstep
    · exact goto hstep trivial
    · split at hstep
      · cases hstep
      · set more := got ++ (((s.fs.content inode).drop got.length).take n).take
          (kCompileCacheHeaderSize - got.length) with hdef
        have hmoreLen : more.length ≤ kCompileCacheHeaderSize := by
          rw [hdef, List.length_append, List.length_take]
          omega
        split at hstep
        · exact goto hstep ⟨hlt, hun, hholds, hmore, hmoreLen⟩
        · rename_i hfull
          cases hcheck : checkHeader lk.entry more with
          | none =>
              simp only [hcheck] at hstep
              exact goto hstep trivial
          | some bytecodeSize =>
              simp only [hcheck] at hstep
              rcases hholds with ⟨r, hr, hg, hk, himage⟩
              have hheader : more = r.header := by
                rw [hmore, show more.length = kCompileCacheHeaderSize by omega, himage,
                  image_take_header]
              rw [hheader] at hcheck
              rcases checkHeader_header (h.storedSize r hr) hcheck with ⟨hsize, hcrc, hn⟩
              have hentry : r.entry = lk.entry := by
                cases hre : r.entry
                cases hle : lk.entry
                simp only [hre, hle] at hg hk hsize hcrc
                rw [hg, hk, hsize, hcrc]
              exact goto hstep ⟨hlt, hun, r, hr, hentry, himage, hn⟩
  · rename_i inode bytecodeSize n hpc
    simp only [ReaderOk, hpc] at hok
    split at hstep
    · exact goto hstep trivial
    · exact goto hstep hok
  · rename_i inode bytecodeSize n hpc
    simp only [ReaderOk, hpc] at hok
    exact goto hstep hok

/-! ### Runs -/

/-- Every event keeps the invariant. -/
theorem step_good {e : Event} {s' : State} (h : Good s) (hstep : step s e = some s') :
    Good s' := by
  cases e with
  | startSave pid record =>
      simp only [step] at hstep
      split at hstep
      · cases hstep
      · rename_i hsize
        cases hstep
        exact h.startSave (by omega)
  | startLookup entry =>
      cases hstep
      refine h.append (fun sv heq => by cases heq) ?_
      intro lk heq
      cases heq
      trivial
  | startInvalidate entry =>
      cases hstep
      exact h.append (fun sv heq => by cases heq) (fun lk heq => by cases heq)
  | startPrune versionedRoot keepName names =>
      simp only [step] at hstep
      split at hstep
      · cases hstep
      · cases hstep
        exact h.append (fun sv heq => by cases heq) (fun lk heq => by cases heq)
  | syscall i outcome =>
      simp only [step] at hstep
      split at hstep
      · rename_i sv hsv
        exact stepSave_good h hsv hstep
      · rename_i lk hlk
        exact stepLookup_good h hlk hstep
      · rename_i entry hop
        cases outcome with
        | ok n =>
            cases hstep
            exact (h.unlink entry.path).setOther hop (fun sv heq => by cases heq)
              (fun sv heq => by cases heq) (fun lk heq => by cases heq)
        | fail =>
            cases hstep
            exact h.setOther hop (fun sv heq => by cases heq) (fun sv heq => by cases heq)
              (fun lk heq => by cases heq)
      · cases hstep
      · cases hstep
      · cases hstep
  | removeTree i name =>
      simp only [step] at hstep
      split at hstep
      · split at hstep
        · cases hstep
          exact h.unlink name
        · cases hstep
      · cases hstep
  | crash i =>
      simp only [step] at hstep
      split at hstep
      · rename_i sv hsv
        split at hstep
        · rename_i hpc
          cases hstep
          exact h.setPc hsv (by rw [hpc]; rfl)
        · rename_i hpc
          cases hstep
          exact h.setPc hsv (by rw [hpc]; rfl)
        · rename_i hpc
          cases hstep
          exact h.setPc hsv (by rw [hpc]; rfl)
        · rename_i hpc
          cases hstep
          exact h.setPc hsv (by rw [hpc])
        · cases hstep
        · cases hstep
      · rename_i lk hlk
        cases hstep
        refine h.setOther hlk (fun sv heq => by cases heq) (fun sv heq => by cases heq) ?_
        intro lk' heq
        cases heq
        trivial
      · rename_i entry pending hop
        cases hstep
        exact h.setOther hop (fun sv heq => by cases heq) (fun sv heq => by cases heq)
          (fun lk heq => by cases heq)
      · rename_i victims hop
        cases hstep
        exact h.setOther hop (fun sv heq => by cases heq) (fun sv heq => by cases heq)
          (fun lk heq => by cases heq)
      · cases hstep

theorem run_good {es : List Event} (hrun : runEvents step init es = some s) : Good s :=
  runEvents_invariant (fun _ _ _ h hstep => step_good h hstep) init_good hrun

/-- Compile-cache safety under any interleaving: in every state of every run, what the mapping of
a lookup that hit for `(kind, filename, source)` shows is exactly the complete bytecode that an
earlier save stored in the same generation directory for the same key, source size and source
CRC. -/
theorem lookup_hit_stored {crc32 : UInt32 → Bytes → UInt32} {s : State} {es : List Event} {j : Nat}
    {generationDir source filename : Bytes} {kind : CompileCacheKind} {inode bytecodeSize : Nat}
    (hrun : runEvents step init es = some s)
    (hhit : LookupAt s j
      { entry := Entry.ofSource crc32 generationDir source filename kind
        pc := .hit inode bytecodeSize }) :
    ∃ r ∈ s.stored, r.entry.generationDir = generationDir ∧
      r.entry.key = compileCacheKey crc32 filename kind ∧
      r.entry.sourceSize = UInt32.ofNat source.length ∧
      r.entry.sourceCrc = compileCacheCrc32 crc32 source ∧
      mappedBytecode s.fs inode bytecodeSize = r.bytecode ∧
      bytecodeSize = r.bytecode.length := by
  have hok := (run_good hrun).readers j _ hhit
  rcases hok with ⟨_, _, r, hr, hentry, himage, hsize⟩
  have hmapped : mappedBytecode s.fs inode bytecodeSize = r.bytecode := by
    rw [mappedBytecode, himage, image_drop_header, hsize, List.take_length]
  refine ⟨r, hr, ?_, ?_, ?_, ?_, hmapped, hsize⟩ <;> rw [hentry] <;> rfl

/-- CRC-32 with zlib's reflected polynomial, bit by bit. -/
def zlibCrc32 (crc : UInt32) (data : Bytes) : UInt32 :=
  let bit (c : UInt32) : UInt32 := if c &&& 1 = 1 then (c >>> 1) ^^^ 0xedb88320 else c >>> 1
  let byte (c : UInt32) (b : UInt8) : UInt32 :=
    (List.range 8).foldl (fun c _ => bit c) (c ^^^ UInt32.ofNat b.toNat)
  data.foldl byte (crc ^^^ 0xffffffff) ^^^ 0xffffffff

example : zlibCrc32 0 (ascii "123456789") = 0xcbf43926 := by decide +kernel

/-- The identity of a two-byte script `/a.js` in generation `/c/v1/g`. -/
def scriptEntry : Entry :=
  Entry.ofSource zlibCrc32 (ascii "/c/v1/g") (ascii "42") (ascii "/a.js") .kCommonJS

/-- One process saves bytecode for the script with two short writes; while it writes, another one
looks the script up in vain, and looks again after the rename. -/
def saveThenLookup : List Event :=
  [.startSave 7 { entry := scriptEntry, bytecode := [1, 2, 3] },
    .syscall 0 (.ok 0), .syscall 0 (.ok 24), .startLookup scriptEntry, .syscall 0 (.ok 2),
    .syscall 1 (.ok 0), .syscall 0 (.ok 1), .syscall 0 (.ok 0), .startLookup scriptEntry,
    .syscall 2 (.ok 0), .syscall 2 (.ok 20), .syscall 2 (.ok 9), .syscall 2 (.ok 0),
    .syscall 2 (.ok 0)]

/-- The second lookup of `saveThenLookup` hits and maps what was saved. -/
theorem saveThenLookup_hit : ∃ s, runEvents step init saveThenLookup = some s ∧
    ∃ r ∈ s.stored, r.entry.generationDir = ascii "/c/v1/g" ∧
      mappedBytecode s.fs 0 3 = r.bytecode := by
  have hsome : (runEvents step init saveThenLookup).isSome = true := by decide +kernel
  rcases Option.isSome_iff_exists.mp hsome with ⟨s, hrun⟩
  have hop : (runEvents step init saveThenLookup).map (fun s => s.ops[2]?) =
      some (some (.lookup { entry := scriptEntry, pc := .hit 0 3 })) := by decide +kernel
  rw [hrun, Option.map_some, Option.some.injEq] at hop
  rcases lookup_hit_stored hrun hop with ⟨r, hr, hdir, _, _, _, hmapped, _⟩
  exact ⟨s, hrun, r, hr, hdir, hmapped⟩

end HermesNode.CompileCache
