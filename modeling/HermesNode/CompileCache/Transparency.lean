/-
Module: HermesNode.CompileCache.Transparency
Purpose: The compile cache does not show. Every entry of the cache was compiled by a call of the run,
  and, if the 32-bit fingerprints do not collide, an entry that is found was compiled from what the
  finding call would compile: but for CommonJS calls whose filename holds a NUL, of which the key
  sees less than the compiler.
Trusted boundary: none
Main exports: Kept, NoCollisions, cache_transparent
-/
import HermesNode.CompileCache.Run
import HermesNode.CompileCache.Safety
import Mathlib.Data.List.TakeWhile

namespace HermesNode.CompileCache

/-! ### What operations keep -/

/-- What of the operations a step keeps: a save is an old one or one that was asked for, a lookup
stays one for its entry, and what is stored was stored or was being saved. -/
structure Kept (asked : Record → Prop) (s s' : State) : Prop where
  saves : ∀ j sv', SaveAt s' j sv' →
    (∃ k sv, SaveAt s k sv ∧ sv.record = sv'.record) ∨ asked sv'.record
  lookups : ∀ j lk, LookupAt s j lk → ∃ lk', LookupAt s' j lk' ∧ lk'.entry = lk.entry
  stored : ∀ r ∈ s'.stored, r ∈ s.stored ∨ ∃ j sv, SaveAt s j sv ∧ sv.record = r

variable {asked : Record → Prop}

variable {i : Nat}

theorem Kept.setSave {s : State} {sv : Save} (hsv : SaveAt s i sv) (fs : FileSys)
    (pc : SavePc) {stored : List Record}
    (hstored : ∀ r ∈ stored, r ∈ s.stored ∨ r = sv.record) :
    Kept asked s (setOp { s with fs, stored } i (.save { sv with pc })) := by
  constructor
  · intro j sv' hsv'
    apply Or.inl
    cases getElem?_setOp hsv' with
    | inl hnew =>
        obtain ⟨_, heq⟩ := hnew
        cases heq
        exact ⟨i, sv, hsv, rfl⟩
    | inr hold => exact ⟨j, sv', hold.2, rfl⟩
  · intro j lk hlk
    have hne : j ≠ i := by
      intro hj
      subst hj
      rw [LookupAt, hsv] at hlk
      cases hlk
    exact ⟨lk, (getElem?_setOp_ne hne).trans hlk, rfl⟩
  · intro r hr
    cases hstored r hr with
    | inl hold => exact Or.inl hold
    | inr heq => exact Or.inr ⟨i, sv, hsv, heq.symm⟩

/-- A step of an operation that is no save; a lookup keeps its entry. -/
theorem Kept.setOther {s : State} {old op : Op} (hold : s.ops[i]? = some old)
    (fs : FileSys) (hop : ∀ sv, op ≠ .save sv)
    (hlookup : ∀ lk, old = .lookup lk → ∃ lk', op = .lookup lk' ∧ lk'.entry = lk.entry) :
    Kept asked s (setOp { s with fs } i op) := by
  constructor
  · intro j sv' hsv'
    apply Or.inl
    cases getElem?_setOp hsv' with
    | inl hnew => exact absurd hnew.2.symm (hop sv')
    | inr hkept => exact ⟨j, sv', hkept.2, rfl⟩
  · intro j lk hlk
    by_cases hj : j = i
    · subst hj
      rw [LookupAt, hold, Option.some.injEq] at hlk
      obtain ⟨lk', hnew, hentry⟩ := hlookup lk hlk
      subst hnew
      have hself : ({ s with fs } : State).ops[j]? = some old := hold
      exact ⟨lk', getElem?_setOp_self hself, hentry⟩
    · exact ⟨lk, (getElem?_setOp_ne hj).trans hlk, rfl⟩
  · intro r hr
    exact Or.inl hr

/-- An operation that starts. -/
theorem Kept.append {s : State} {op : Op} (counters : Nat → Nat)
    (hop : ∀ sv, op = .save sv → asked sv.record) :
    Kept asked s { s with counters, ops := s.ops ++ [op] } := by
  constructor
  · intro j sv' hsv'
    rcases op_cases hsv' with ⟨_, heq⟩ | hold
    · exact Or.inr (hop sv' heq.symm)
    · exact Or.inl ⟨j, sv', hold, rfl⟩
  · intro j lk hlk
    have hlt : j < s.ops.length := (List.getElem?_eq_some_iff.mp hlk).1
    exact ⟨lk, (List.getElem?_append_left hlt).trans hlk, rfl⟩
  · intro r hr
    exact Or.inl hr

theorem stepSave_kept {s s' : State} {sv : Save} {outcome : Outcome}
    (hsv : SaveAt s i sv) (hstep : stepSave s i sv outcome = some s') : Kept asked s s' := by
  have hsame : ∀ r ∈ s.stored, r ∈ s.stored ∨ r = sv.record := fun r hr => Or.inl hr
  unfold stepSave at hstep
  split at hstep
  · cases hstep
    exact Kept.setSave hsv s.fs _ hsame
  · cases hstep
    exact Kept.setSave hsv _ _ hsame
  · split at hstep
    · split at hstep
      · cases hstep
        exact Kept.setSave hsv _ _ hsame
      · cases hstep
    · split at hstep
      · cases hstep
        refine Kept.setSave hsv _ _ ?_
        intro r hr
        cases List.mem_cons.mp hr with
        | inl heq => exact Or.inr heq
        | inr hold => exact Or.inl hold
      · cases hstep
        exact Kept.setSave hsv s.fs _ hsame
  · cases hstep
    exact Kept.setSave hsv s.fs _ hsame
  · cases hstep
    exact Kept.setSave hsv _ _ hsame
  · cases hstep
    exact Kept.setSave hsv s.fs _ hsame
  · cases hstep
  · cases hstep
  · cases hstep

theorem stepLookup_kept {s s' : State} {lk : Lookup} {outcome : Outcome}
    (hlk : LookupAt s i lk) (hstep : stepLookup s i lk outcome = some s') : Kept asked s s' := by
  have goto : ∀ pc, some (setOp s i (.lookup { lk with pc })) = some s' → Kept asked s s' := by
    intro pc h
    cases h
    refine Kept.setOther hlk s.fs (fun sv h => by cases h) ?_
    intro lk' h
    cases h
    exact ⟨_, rfl, rfl⟩
  unfold stepLookup at hstep
  split at hstep
  · cases hstep
  · cases hstep
  · exact goto _ hstep
  · split at hstep
    · exact goto _ hstep
    · exact goto _ hstep
  · simp only at hstep
    split at hstep
    · exact goto _ hstep
    · split at hstep
      · cases hstep
      · split at hstep
        · exact goto _ hstep
        · split at hstep
          · exact goto _ hstep
          · exact goto _ hstep
  · split at hstep
    · exact goto _ hstep
    · exact goto _ hstep
  · exact goto _ hstep

theorem step_kept {s s' : State} {e : Event} (hstep : step s e = some s') :
    Kept (fun r => ∃ pid, e = .startSave pid r) s s' := by
  cases e with
  | startSave pid record =>
      simp only [step] at hstep
      split at hstep
      · cases hstep
      · cases hstep
        refine Kept.append _ ?_
        intro sv h
        cases h
        exact ⟨pid, rfl⟩
  | startLookup entry =>
      cases hstep
      exact Kept.append s.counters (fun sv h => by cases h)
  | startInvalidate entry =>
      cases hstep
      exact Kept.append s.counters (fun sv h => by cases h)
  | startPrune versionedRoot keepName names =>
      simp only [step] at hstep
      split at hstep
      · cases hstep
      · cases hstep
        exact Kept.append s.counters (fun sv h => by cases h)
  | syscall i outcome =>
      simp only [step] at hstep
      split at hstep
      · rename_i sv hsv
        exact stepSave_kept hsv hstep
      · rename_i lk hlk
        exact stepLookup_kept hlk hstep
      · rename_i entry hop
        cases outcome with
        | ok n =>
            cases hstep
            exact Kept.setOther hop _ (fun sv h => by cases h) (fun lk h => by cases h)
        | fail =>
            cases hstep
            exact Kept.setOther hop s.fs (fun sv h => by cases h) (fun lk h => by cases h)
      · cases hstep
      · cases hstep
      · cases hstep
  | removeTree i name =>
      simp only [step] at hstep
      split at hstep
      · split at hstep
        · cases hstep
          exact ⟨fun j sv h => Or.inl ⟨j, sv, h, rfl⟩, fun j lk h => ⟨lk, h, rfl⟩,
            fun r hr => Or.inl hr⟩
        · cases hstep
      · cases hstep
  | crash i =>
      simp only [step] at hstep
      split at hstep
      · rename_i sv hsv
        have hsame : ∀ r ∈ s.stored, r ∈ s.stored ∨ r = sv.record := fun r hr => Or.inl hr
        split at hstep
        · cases hstep
          exact Kept.setSave hsv s.fs _ hsame
        · cases hstep
          exact Kept.setSave hsv s.fs _ hsame
        · cases hstep
          exact Kept.setSave hsv s.fs _ hsame
        · cases hstep
          exact Kept.setSave hsv s.fs _ hsame
        · cases hstep
        · cases hstep
      · rename_i lk hlk
        cases hstep
        refine Kept.setOther hlk s.fs (fun sv h => by cases h) ?_
        intro lk' h
        cases h
        exact ⟨_, rfl, rfl⟩
      · rename_i hop
        cases hstep
        exact Kept.setOther hop s.fs (fun sv h => by cases h) (fun lk h => by cases h)
      · rename_i hop
        cases hstep
        exact Kept.setOther hop s.fs (fun sv h => by cases h) (fun lk h => by cases h)
      · cases hstep

/-! ### The fingerprints of a call -/

variable {dir : Bytes}

section Fingerprints

variable (crc32 : UInt32 → Bytes → UInt32)

/-- The runtime of the call has a cache. -/
def Issued.cached (c : Issued) : Bool := (createCompileCache crc32 c.runtime).isSome

/-- The key and the CRCs of these calls do not collide: each tells apart what was hashed into it. -/
def NoCollisions (calls : List Issued) : Prop :=
  ∀ c ∈ calls, ∀ d ∈ calls, c.cached crc32 = true → d.cached crc32 = true →
    (compileCacheKey crc32 c.args.filename c.args.kind =
        compileCacheKey crc32 d.args.filename d.args.kind →
      c.args.filename = d.args.filename ∧ c.args.kind = d.args.kind) ∧
    (compileCacheCrc32 crc32 c.args.source = compileCacheCrc32 crc32 d.args.source →
      UInt32.ofNat c.args.source.length = UInt32.ofNat d.args.source.length →
      c.args.source = d.args.source) ∧
    (configCrc crc32 c.runtime = configCrc crc32 d.runtime →
      c.runtime.build.wrapperPrefix = d.runtime.build.wrapperPrefix ∧
        resolveOptimize c.runtime.config true = resolveOptimize d.runtime.config true)

/-- No NUL in the filename of a CommonJS call that goes to a cache. -/
def Issued.Plain (c : Issued) : Prop :=
  match c.call with
  | .compileFunctionForCJSLoader _ filename => c.cached crc32 = true → 0 ∉ filename
  | .compileAndRun _ _ _ => True

variable {crc32}

theorem cached_of_some {c : Issued} (h : createCompileCache crc32 c.runtime = some dir) :
    c.cached crc32 = true := by
  simp [Issued.cached, h]

/-- With a cache, what is compiled is what the name of the generation says. -/
theorem optimizeCompiles_cached {rt : Runtime}
    (h : createCompileCache crc32 rt = some dir) :
    optimizeCompiles crc32 rt = resolveOptimize rt.config true := by
  simp [optimizeCompiles, h]

theorem fromScratch_cached {Value : Type} {engine : Engine Value} {c : Issued}
    (h : createCompileCache crc32 c.runtime = some dir) :
    c.fromScratch crc32 engine =
      engine.compileAndRun c.args (optimizeCompiles crc32 c.runtime) := by
  simp [Issued.fromScratch, h]

/-- A generation directory ends in its configuration CRC. -/
theorem createCompileCache_suffix {rt : Runtime}
    (h : createCompileCache crc32 rt = some dir) :
    ∃ before, dir = before ++ hexPadded 8 (configCrc crc32 rt).toNat := by
  unfold createCompileCache at h
  split at h
  · cases h
  · split at h
    · cases h
    · split at h
      · cases h
      · simp only at h
        split at h
        · cases h
        · split at h
          · cases h
          · cases h
            simp only [compileCacheGenerationName, ← List.append_assoc]
            exact ⟨_, rfl⟩

theorem configCrc_of_dir {rt rt' : Runtime}
    (h : createCompileCache crc32 rt = some dir) (h' : createCompileCache crc32 rt' = some dir) :
    configCrc crc32 rt = configCrc crc32 rt' := by
  obtain ⟨before, hdir⟩ := createCompileCache_suffix h
  obtain ⟨before', hdir'⟩ := createCompileCache_suffix h'
  have hhex := (List.append_inj' (hdir.symm.trans hdir') (by simp)).2
  exact UInt32.toNat_inj.mp
    (hexPadded_injective (configCrc crc32 rt).toNat_lt (configCrc crc32 rt').toNat_lt hhex)

/-- A name without a NUL is hashed whole. -/
theorem cString_plain {text : Bytes} (h : 0 ∉ text) : cString text = text := by
  rw [cString, List.takeWhile_eq_self_iff]
  intro b hb
  have hb' : b ≠ 0 := fun heq => h (heq ▸ hb)
  simpa using hb'

theorem cjs_filename {build : Build} {content filename : Bytes} (h : 0 ∉ filename) :
    ((Call.compileFunctionForCJSLoader content filename).runArgs build).filename = filename := by
  cases filename with
  | nil => rfl
  | cons b bs => simp [RunArgs.filename, Call.runArgs, cString_plain h]

/-- Plain calls with the same hashed name, kind, source and wrapper compile the same. -/
theorem runArgs_of_hashed {c d : Issued} (hc : c.cached crc32 = true) (hd : d.cached crc32 = true)
    (hcplain : c.Plain crc32) (hdplain : d.Plain crc32)
    (hname : c.args.filename = d.args.filename) (hkind : c.args.kind = d.args.kind)
    (hsource : c.args.source = d.args.source)
    (hwrapper : c.runtime.build.wrapperPrefix = d.runtime.build.wrapperPrefix) :
    c.args = d.args := by
  obtain ⟨crt, ccall⟩ := c
  obtain ⟨drt, dcall⟩ := d
  unfold Issued.args at hname hkind hsource ⊢
  cases ccall with
  | compileFunctionForCJSLoader content filename =>
      cases dcall with
      | compileFunctionForCJSLoader content' filename' =>
          rw [cjs_filename (hcplain hc), cjs_filename (hdplain hd)] at hname
          subst hname
          simp only [Call.runArgs] at hsource hwrapper ⊢
          rw [hsource, hwrapper]
      | compileAndRun source url enableTS =>
          simp only [Call.runArgs] at hkind
          split at hkind
          · cases hkind
          · cases hkind
  | compileAndRun source url enableTS =>
      cases dcall with
      | compileFunctionForCJSLoader content' filename' =>
          simp only [Call.runArgs] at hkind
          split at hkind
          · cases hkind
          · cases hkind
      | compileAndRun source' url' enableTS' =>
          simp only [Call.runArgs, RunArgs.filename, Option.getD_some] at hname hsource hkind ⊢
          rw [hname, hsource, hkind]

/-- Calls that share an entry compile the same thing with the same setting. -/
theorem same_args {calls : List Issued} {c d : Issued} {dir dir' : Bytes}
    (hcollide : NoCollisions crc32 calls) (hplain : ∀ c ∈ calls, c.Plain crc32)
    (hc : c ∈ calls) (hd : d ∈ calls) (hdir : createCompileCache crc32 c.runtime = some dir)
    (hdir' : createCompileCache crc32 d.runtime = some dir')
    (hentry : c.args.entry crc32 dir = d.args.entry crc32 dir') :
    c.args = d.args ∧ optimizeCompiles crc32 c.runtime = optimizeCompiles crc32 d.runtime := by
  simp only [RunArgs.entry, Entry.ofSource, Entry.mk.injEq] at hentry
  obtain ⟨hsame, hkey, hcrc, hsize⟩ := hentry
  subst hsame
  obtain ⟨hnames, hsources, hconfigs⟩ :=
    hcollide c hc d hd (cached_of_some hdir) (cached_of_some hdir')
  obtain ⟨hname, hkind⟩ := hnames hkey
  obtain ⟨hwrapper, hoptimize⟩ := hconfigs (configCrc_of_dir hdir hdir')
  constructor
  · exact runArgs_of_hashed (cached_of_some hdir) (cached_of_some hdir') (hplain c hc)
      (hplain d hd) hname hkind (hsources hcrc hsize) hwrapper
  · rw [optimizeCompiles_cached hdir, optimizeCompiles_cached hdir', hoptimize]

end Fingerprints

/-! ### Runs -/

section Runs

variable {Value : Type} (crc32 : UInt32 → Bytes → UInt32) (engine : Engine Value)

def RunState.issued (s : RunState Value) : List Issued := s.calls.map Pending.issued

/-- The call compiles the bytecode of the record, and saves it under its own identity. -/
def Issued.Writes (c : Issued) (r : Record) : Prop :=
  ∃ dir, createCompileCache crc32 c.runtime = some dir ∧ r.entry = c.args.entry crc32 dir ∧
    engine.compile c.args (optimizeCompiles crc32 c.runtime) = .ok r.bytecode

/-- What holds of a call where it stands. -/
def PcOk (cache : State) (p : Pending Value) : Prop :=
  match p.pc with
  | .lookup op => ∃ dir lk, createCompileCache crc32 p.issued.runtime = some dir ∧
      LookupAt cache op lk ∧ lk.entry = p.issued.args.entry crc32 dir
  | .invalidate _ => True
  | .save _ bytecode =>
      engine.compile p.issued.args (optimizeCompiles crc32 p.issued.runtime) = .ok bytecode
  | .returned result => result = p.issued.fromScratch crc32 engine

/-- The invariant of runs: every entry was written by a call of the run for what it compiles, and
every call that has returned gave what its own source gives. -/
structure Tracks (s : RunState Value) : Prop where
  good : Good s.cache
  saves : ∀ j sv, SaveAt s.cache j sv → ∃ c ∈ s.issued, c.Writes crc32 engine sv.record
  stored : ∀ r ∈ s.cache.stored, ∃ c ∈ s.issued, c.Writes crc32 engine r
  calls : ∀ p ∈ s.calls, PcOk crc32 engine s.cache p

variable {crc32} {engine}

variable {p : Pending Value}

theorem PcOk.kept {cache cache' : State} {asked : Record → Prop}
    (h : PcOk crc32 engine cache p) (hkept : Kept asked cache cache') :
    PcOk crc32 engine cache' p := by
  unfold PcOk at h ⊢
  cases hpc : p.pc with
  | lookup op =>
      rw [hpc] at h
      obtain ⟨dir, lk, hdir, hlk, hentry⟩ := h
      obtain ⟨lk', hlk', hsame⟩ := hkept.lookups op lk hlk
      exact ⟨dir, lk', hdir, hlk', hsame.trans hentry⟩
  | invalidate op => trivial
  | save op bytecode =>
      rw [hpc] at h
      exact h
  | returned result =>
      rw [hpc] at h
      exact h

variable {s s' : RunState Value}

/-- A step of a run: the cache takes a step, calls may be added, and each call that is new or moved
on is where it may be. -/
theorem Tracks.step {asked : Record → Prop}
    (h : Tracks crc32 engine s) (hgood : Good s'.cache) (hkept : Kept asked s.cache s'.cache)
    (hasked : ∀ r, asked r → ∃ c ∈ s'.issued, c.Writes crc32 engine r)
    (hissued : s.issued ⊆ s'.issued)
    (hcalls : ∀ p ∈ s'.calls, p ∈ s.calls ∨ PcOk crc32 engine s'.cache p) :
    Tracks crc32 engine s' := by
  have hold : ∀ j sv, SaveAt s.cache j sv → ∃ c ∈ s'.issued, c.Writes crc32 engine sv.record := by
    intro j sv hsv
    obtain ⟨c, hc, hwrites⟩ := h.saves j sv hsv
    exact ⟨c, hissued hc, hwrites⟩
  constructor
  · exact hgood
  · intro j sv hsv
    cases hkept.saves j sv hsv with
    | inl hbefore =>
        obtain ⟨k, sv', hsv', hrecord⟩ := hbefore
        rw [← hrecord]
        exact hold k sv' hsv'
    | inr hnew => exact hasked _ hnew
  · intro r hr
    cases hkept.stored r hr with
    | inl hbefore =>
        obtain ⟨c, hc, hwrites⟩ := h.stored r hbefore
        exact ⟨c, hissued hc, hwrites⟩
    | inr hsaved =>
        obtain ⟨j, sv, hsv, hrecord⟩ := hsaved
        rw [← hrecord]
        exact hold j sv hsv
  · intro p hp
    cases hcalls p hp with
    | inl hbefore => exact (h.calls p hbefore).kept hkept
    | inr hnew => exact hnew

theorem lookupAt_unique {s : State} {op : Nat} {lk lk' : Lookup} (h : LookupAt s op lk)
    (h' : LookupAt s op lk') : lk' = lk := by
  rw [LookupAt, h, Option.some.injEq, Op.lookup.injEq] at h'
  exact h'.symm

variable {s : RunState Value}

theorem issued_setPc (hp : s.calls[i]? = some p) (cache : State) (pc : CallPc Value) :
    ({ s with cache }.setPc i p pc).issued = s.issued := by
  have hissued : s.issued[i]? = some p.issued := by
    simp [RunState.issued, hp]
  obtain ⟨hlt, hself⟩ := List.getElem?_eq_some_iff.mp hissued
  simp only [RunState.issued, RunState.setPc, List.map_set]
  simp only [RunState.issued] at hlt hself
  rw [← hself, List.set_getElem_self]

theorem Tracks.setPc {cache : State} {pc : CallPc Value} {asked : Record → Prop}
    (h : Tracks crc32 engine s) (hp : s.calls[i]? = some p) (hgood : Good cache)
    (hkept : Kept asked s.cache cache)
    (hasked : ∀ r, asked r → ∃ c ∈ s.issued, c.Writes crc32 engine r)
    (hpc : PcOk crc32 engine cache { p with pc }) :
    Tracks crc32 engine ({ s with cache }.setPc i p pc) := by
  have hissued := issued_setPc hp cache pc
  refine h.step hgood hkept ?_ ?_ ?_
  · rw [hissued]
    exact hasked
  · rw [hissued]
    exact List.Subset.refl _
  · intro q hq
    cases List.mem_or_eq_of_mem_set hq with
    | inl hold => exact Or.inl hold
    | inr hnew =>
        rw [hnew]
        exact Or.inr hpc

theorem Kept.refl (s : State) : Kept (fun _ => False) s s :=
  ⟨fun j sv h => Or.inl ⟨j, sv, h, rfl⟩, fun _ lk h => ⟨lk, h, rfl⟩, fun _ hr => Or.inl hr⟩

theorem Tracks.returns {result : Except Value Value} (h : Tracks crc32 engine s)
    (hp : s.calls[i]? = some p) (hresult : result = p.issued.fromScratch crc32 engine) :
    Tracks crc32 engine (s.setPc i p (.returned result)) :=
  h.setPc hp h.good (Kept.refl s.cache) (fun _ hfalse => hfalse.elim) hresult

theorem compileMiss_tracks
    (h : Tracks crc32 engine s) (hp : s.calls[i]? = some p)
    (hdir : createCompileCache crc32 p.issued.runtime = some dir)
    (hstep : compileMiss crc32 engine s i p dir = some s') : Tracks crc32 engine s' := by
  have hscratch : p.issued.fromScratch crc32 engine = _ := fromScratch_cached hdir
  unfold compileMiss at hstep
  simp only at hstep
  split at hstep
  · rename_i exception hcompile
    cases hstep
    apply h.returns hp
    rw [hscratch, Engine.compileAndRun, hcompile]
    rfl
  · rename_i bytecode hcompile
    split at hstep
    · rename_i cache hsave
      cases hstep
      refine h.setPc hp (step_good h.good hsave) (step_kept hsave) ?_ hcompile
      intro r hr
      obtain ⟨pid, heq⟩ := hr
      cases heq
      have hmem : p.issued ∈ s.issued :=
        List.mem_map.mpr ⟨p, List.mem_of_getElem? hp, rfl⟩
      exact ⟨p.issued, hmem, dir, hdir, rfl, hcompile⟩
    · cases hstep
      apply h.returns hp
      rw [hscratch, Engine.compileAndRun, hcompile]
      rfl

/-- What a lookup found was written by a call that compiles the same. -/
theorem Tracks.served {op inode bytecodeSize : Nat} {lk : Lookup} (h : Tracks crc32 engine s)
    (hcollide : NoCollisions crc32 s.issued) (hplain : ∀ c ∈ s.issued, c.Plain crc32)
    (hp : p ∈ s.calls) (hpc : p.pc = .lookup op) (hlk : LookupAt s.cache op lk)
    (hhit : lk.pc = .hit inode bytecodeSize) :
    ∃ c ∈ s.issued, c.args = p.issued.args ∧
      optimizeCompiles crc32 c.runtime = optimizeCompiles crc32 p.issued.runtime ∧
      engine.compile c.args (optimizeCompiles crc32 c.runtime) =
        .ok (mappedBytecode s.cache.fs inode bytecodeSize) := by
  have hok := h.calls p hp
  simp only [PcOk, hpc] at hok
  obtain ⟨dir, lk', hdir, hlk', hentry⟩ := hok
  have hlkSame := lookupAt_unique hlk hlk'
  subst hlkSame
  have hreader := h.good.readers op lk' hlk
  simp only [ReaderOk, hhit] at hreader
  obtain ⟨_, _, r, hr, hrecord, himage, hsize⟩ := hreader
  have hmapped : mappedBytecode s.cache.fs inode bytecodeSize = r.bytecode := by
    rw [mappedBytecode, himage, image_drop_header, hsize, List.take_length]
  obtain ⟨c, hc, dir', hdir', hcentry, hcompile⟩ := h.stored r hr
  have hissued : p.issued ∈ s.issued := List.mem_map.mpr ⟨p, hp, rfl⟩
  have hsame : c.args.entry crc32 dir' = p.issued.args.entry crc32 dir :=
    hcentry.symm.trans (hrecord.trans hentry)
  obtain ⟨hargs, hoptimize⟩ := same_args hcollide hplain hc hissued hdir' hdir hsame
  exact ⟨c, hc, hargs, hoptimize, by rw [hmapped, hcompile]⟩

theorem advanceCall_tracks
    {refused : Bool} (h : Tracks crc32 engine s) (hcollide : NoCollisions crc32 s.issued)
    (hplain : ∀ c ∈ s.issued, c.Plain crc32) (hp : s.calls[i]? = some p)
    (hdir : createCompileCache crc32 p.issued.runtime = some dir)
    (hstep : advanceCall crc32 engine s i p dir refused = some s') : Tracks crc32 engine s' := by
  have hscratch : p.issued.fromScratch crc32 engine = _ := fromScratch_cached hdir
  have hmem := List.mem_of_getElem? hp
  unfold advanceCall at hstep
  simp only at hstep
  split at hstep
  · rename_i op hpc
    split at hstep
    · rename_i lk hlk
      split at hstep
      · rename_i inode bytecodeSize hhit
        split at hstep
        · rename_i value hrun
          cases hstep
          apply h.returns hp
          obtain ⟨c, _, hargs, hoptimize, hcompile⟩ :=
            h.served hcollide hplain hmem hpc hlk hhit
          rw [hargs, hoptimize] at hcompile
          rw [hscratch, Engine.compileAndRun, hcompile]
          exact hrun.symm
        · obtain ⟨cache, hdrop, hset⟩ := Option.map_eq_some_iff.mp hstep
          cases hset
          refine h.setPc hp (step_good h.good hdrop) (step_kept hdrop) ?_ trivial
          intro r hr
          obtain ⟨pid, heq⟩ := hr
          cases heq
      · exact compileMiss_tracks h hp hdir hstep
      · cases hstep
    · cases hstep
  · split at hstep
    · exact compileMiss_tracks h hp hdir hstep
    · cases hstep
  · rename_i op bytecode hpc
    have hok := h.calls p hmem
    simp only [PcOk, hpc] at hok
    have hreturns : Tracks crc32 engine
        (s.setPc i p (.returned (engine.run p.issued.args bytecode))) := by
      apply h.returns hp
      rw [hscratch, Engine.compileAndRun, hok]
      rfl
    split at hstep
    · split at hstep
      · cases hstep
        exact hreturns
      · cases hstep
        exact hreturns
      · cases hstep
        exact hreturns
      · cases hstep
    · cases hstep
  · cases hstep

theorem Tracks.append {cache : State} {p : Pending Value} {asked : Record → Prop}
    (h : Tracks crc32 engine s) (hgood : Good cache) (hkept : Kept asked s.cache cache)
    (hasked : ∀ r, ¬ asked r) (hpc : PcOk crc32 engine cache p) :
    Tracks crc32 engine { cache, calls := s.calls ++ [p] } := by
  refine h.step hgood hkept (fun r hr => absurd hr (hasked r)) ?_ ?_
  · simp [RunState.issued]
  · intro q hq
    cases List.mem_append.mp hq with
    | inl hold => exact Or.inl hold
    | inr hnew =>
        rw [List.mem_singleton.mp hnew]
        exact Or.inr hpc

theorem runStep_tracks {e : RunEvent} (h : Tracks crc32 engine s)
    (hcollide : NoCollisions crc32 s.issued) (hplain : ∀ c ∈ s.issued, c.Plain crc32)
    (hstep : runStep crc32 engine s e = some s') : Tracks crc32 engine s' := by
  cases e with
  | call issued =>
      simp only [runStep] at hstep
      split at hstep
      · rename_i dir hdir
        obtain ⟨cache, hlookup, hset⟩ := Option.map_eq_some_iff.mp hstep
        cases hset
        refine h.append (step_good h.good hlookup) (step_kept hlookup) ?_ ?_
        · intro r hr
          obtain ⟨pid, heq⟩ := hr
          cases heq
        · cases hlookup
          exact ⟨dir, _, hdir, List.getElem?_concat_length, rfl⟩
      · rename_i hnone
        cases hstep
        refine h.append h.good (Kept.refl s.cache) (fun _ hfalse => hfalse) ?_
        simp only [PcOk, Issued.fromScratch, hnone, Option.isSome_none, Bool.false_or]
        split
        · rename_i hoptimize
          rw [hoptimize]
        · rfl
  | advance i refused =>
      simp only [runStep] at hstep
      split at hstep
      · rename_i p hp
        split at hstep
        · rename_i dir hdir
          exact advanceCall_tracks h hcollide hplain hp hdir hstep
        · cases hstep
      · cases hstep
  | disk event =>
      simp only [runStep] at hstep
      split at hstep
      · cases hstep
      · rename_i hstarts
        obtain ⟨cache, hdisk, hset⟩ := Option.map_eq_some_iff.mp hstep
        cases hset
        refine h.step (step_good h.good hdisk) (step_kept hdisk) ?_ (List.Subset.refl _)
          (fun p hp => Or.inl hp)
        intro r hr
        obtain ⟨pid, heq⟩ := hr
        rw [heq] at hstarts
        exact absurd rfl hstarts

theorem compileMiss_issued
    (hp : s.calls[i]? = some p) (hstep : compileMiss crc32 engine s i p dir = some s') :
    s'.issued = s.issued := by
  unfold compileMiss at hstep
  simp only at hstep
  split at hstep
  · cases hstep
    exact issued_setPc hp s.cache _
  · split at hstep
    · cases hstep
      exact issued_setPc hp _ _
    · cases hstep
      exact issued_setPc hp s.cache _

theorem advanceCall_issued
    {refused : Bool} (hp : s.calls[i]? = some p)
    (hstep : advanceCall crc32 engine s i p dir refused = some s') : s'.issued = s.issued := by
  unfold advanceCall at hstep
  simp only at hstep
  split at hstep
  · split at hstep
    · split at hstep
      · split at hstep
        · cases hstep
          exact issued_setPc hp s.cache _
        · obtain ⟨cache, _, hset⟩ := Option.map_eq_some_iff.mp hstep
          cases hset
          exact issued_setPc hp _ _
      · exact compileMiss_issued hp hstep
      · cases hstep
    · cases hstep
  · split at hstep
    · exact compileMiss_issued hp hstep
    · cases hstep
  · split at hstep
    · split at hstep
      · cases hstep
        exact issued_setPc hp s.cache _
      · cases hstep
        exact issued_setPc hp s.cache _
      · cases hstep
        exact issued_setPc hp s.cache _
      · cases hstep
    · cases hstep
  · cases hstep

/-- A run only adds calls. -/
theorem runStep_issued {e : RunEvent}
    (hstep : runStep crc32 engine s e = some s') : s.issued ⊆ s'.issued := by
  cases e with
  | call issued =>
      simp only [runStep] at hstep
      split at hstep
      · obtain ⟨cache, _, hset⟩ := Option.map_eq_some_iff.mp hstep
        cases hset
        simp [RunState.issued]
      · cases hstep
        simp [RunState.issued]
  | advance i refused =>
      simp only [runStep] at hstep
      split at hstep
      · rename_i p hp
        split at hstep
        · rw [advanceCall_issued hp hstep]
          exact List.Subset.refl _
        · cases hstep
      · cases hstep
  | disk event =>
      simp only [runStep] at hstep
      split at hstep
      · cases hstep
      · obtain ⟨cache, _, hset⟩ := Option.map_eq_some_iff.mp hstep
        cases hset
        exact List.Subset.refl _

theorem NoCollisions.of_subset {calls calls' : List Issued} (h : NoCollisions crc32 calls')
    (hsub : calls ⊆ calls') : NoCollisions crc32 calls :=
  fun c hc d hd => h c (hsub hc) d (hsub hd)

theorem init_tracks : Tracks crc32 engine RunState.init := by
  constructor
  · exact init_good
  · intro j sv hsv
    simp [SaveAt, RunState.init, CompileCache.init] at hsv
  · intro r hr
    simp [RunState.init, CompileCache.init] at hr
  · intro p hp
    simp [RunState.init] at hp

/-- The hypotheses on the calls of a state hold of the calls of every earlier one, so that the
invariant is kept under them. -/
theorem run_tracks {es : List RunEvent}
    (hrun : runEvents (runStep crc32 engine) RunState.init es = some s)
    (hcollide : NoCollisions crc32 s.issued) (hplain : ∀ c ∈ s.issued, c.Plain crc32) :
    Tracks crc32 engine s := by
  have hinv : NoCollisions crc32 s.issued ∧ (∀ c ∈ s.issued, c.Plain crc32) →
      Tracks crc32 engine s := by
    refine @runEvents_invariant _ _ _ (fun t => NoCollisions crc32 t.issued ∧
      (∀ c ∈ t.issued, c.Plain crc32) → Tracks crc32 engine t) ?_ _ _ _ (fun _ => init_tracks) hrun
    intro t e t' htracks hstep hcalls
    have hsub := runStep_issued hstep
    have hcollide' := hcalls.1.of_subset hsub
    have hplain' : ∀ c ∈ t.issued, c.Plain crc32 := fun c hc => hcalls.2 c (hsub hc)
    exact runStep_tracks (htracks ⟨hcollide', hplain'⟩) hcollide' hplain' hstep
  exact hinv ⟨hcollide, hplain⟩

/-- The next steps of a call whose bytecode the engine refuses: the entry is dropped. -/
theorem Tracks.refuses {op inode bytecodeSize : Nat} {lk : Lookup} (h : Tracks crc32 engine s)
    (hp : s.calls[i]? = some p) (hpc : p.pc = .lookup op) (hlk : LookupAt s.cache op lk)
    (hhit : lk.pc = .hit inode bytecodeSize) :
    ∃ s' s'', runStep crc32 engine s (.advance i true) = some s' ∧
      runStep crc32 engine s' (.disk (.syscall s.cache.ops.length (.ok 0))) = some s'' ∧
      s''.cache.fs.names lk.entry.path = none ∧
      s''.calls[i]? = some { p with pc := .invalidate s.cache.ops.length } := by
  have hok := h.calls p (List.mem_of_getElem? hp)
  simp only [PcOk, hpc] at hok
  obtain ⟨dir, lk', hdir, hlk', hentry⟩ := hok
  have hlkSame := lookupAt_unique hlk hlk'
  subst hlkSame
  have hlt : i < s.calls.length := (List.getElem?_eq_some_iff.mp hp).1
  rw [LookupAt] at hlk
  let dropping : State :=
    { s.cache with ops := s.cache.ops ++ [.invalidate lk'.entry true] }
  let dropped : State :=
    setOp { dropping with fs := dropping.fs.unlink lk'.entry.path } s.cache.ops.length
      (.invalidate lk'.entry false)
  have hrefused : runStep crc32 engine s (.advance i true) =
      some ({ s with cache := dropping }.setPc i p (.invalidate s.cache.ops.length)) := by
    simp only [runStep, hp, hdir, advanceCall, hpc, hlk, hhit, CompileCache.step,
      Option.map_some, dropping, hentry]
  have hunlinked : runStep crc32 engine
      ({ s with cache := dropping }.setPc i p (.invalidate s.cache.ops.length))
        (.disk (.syscall s.cache.ops.length (.ok 0))) =
      some ({ s with cache := dropped }.setPc i p (.invalidate s.cache.ops.length)) := by
    simp only [runStep, RunState.setPc, Event.startsForCall, CompileCache.step,
      Bool.false_eq_true, if_false, List.getElem?_concat_length, Option.map_some, dropping, dropped]
  refine ⟨_, _, hrefused, hunlinked, ?_, ?_⟩
  · simp [RunState.setPc, setOp, FileSys.unlink, dropped]
  · simp [RunState.setPc, hlt]

/-- Compile-cache transparency. In every run of calls of any number of runtimes over one cache, in
which the 32-bit fingerprints do not collide and no CommonJS filename that goes to a cache holds a
NUL: a call gives what its own source gives when it is compiled from scratch; what a lookup found was
compiled from the same wrapped source, kind, URL and optimize setting; and an entry the engine
refuses is dropped. -/
theorem cache_transparent {s : RunState Value} {es : List RunEvent}
    (hrun : runEvents (runStep crc32 engine) RunState.init es = some s)
    (hcollide : NoCollisions crc32 s.issued) (hplain : ∀ c ∈ s.issued, c.Plain crc32) :
    (∀ p ∈ s.calls, ∀ result, p.pc = .returned result →
      result = p.issued.fromScratch crc32 engine) ∧
    (∀ p ∈ s.calls, ∀ op lk inode bytecodeSize, p.pc = .lookup op → LookupAt s.cache op lk →
      lk.pc = .hit inode bytecodeSize →
      ∃ c ∈ s.issued, c.args = p.issued.args ∧
        optimizeCompiles crc32 c.runtime = optimizeCompiles crc32 p.issued.runtime ∧
        engine.compile c.args (optimizeCompiles crc32 c.runtime) =
          .ok (mappedBytecode s.cache.fs inode bytecodeSize)) ∧
    (∀ i p op lk inode bytecodeSize, s.calls[i]? = some p → p.pc = .lookup op →
      LookupAt s.cache op lk → lk.pc = .hit inode bytecodeSize →
      ∃ s' s'', runStep crc32 engine s (.advance i true) = some s' ∧
        runStep crc32 engine s' (.disk (.syscall s.cache.ops.length (.ok 0))) = some s'' ∧
        s''.cache.fs.names lk.entry.path = none ∧
        s''.calls[i]? = some { p with pc := .invalidate s.cache.ops.length }) := by
  have htracks : Tracks crc32 engine s := run_tracks hrun hcollide hplain
  refine ⟨?_, ?_, ?_⟩
  · intro p hp result hpc
    have hok := htracks.calls p hp
    simpa only [PcOk, hpc] using hok
  · intro p hp op lk inode bytecodeSize hpc hlk hhit
    exact htracks.served hcollide hplain hp hpc hlk hhit
  · intro i p op lk inode bytecodeSize hp hpc hlk hhit
    exact htracks.refuses hp hpc hlk hhit

end Runs

/-! ### A filename with a NUL -/

/-- An engine whose bytecode is the text it was compiled from. -/
def textEngine : Engine Bytes where
  compileToBytecode := fun source _ _ _ => .ok source
  runBytecode := fun bytecode _ _ => .ok bytecode
  napiRunScript := fun source => .ok source
  hermesRunScript := fun source _ _ _ => .ok source

/-- A runtime with its cache under `/c`. -/
def cachingRuntime (pid : Nat) : Runtime where
  pid := pid
  build := { version := ascii "1", arch := ascii "x64", bytecodeVersion := 98 }
  config :=
    { optimize := .kDefault
      inspectorBridge := false
      disableCompileCache := false
      inspect := false
      inspectBrk := false
      compileCacheDir := ascii "/c"
      envDisableCompileCache := none
      envCompileCache := none
      xdgCacheHome := none
      home := none }
  dirsMade := true

/-- The empty module under a name. -/
def emptyModule (pid : Nat) (filename : Bytes) : Issued :=
  ⟨cachingRuntime pid, .compileFunctionForCJSLoader [] filename⟩

/-- The first call misses, compiles and saves; the second one hits. -/
def saveThenHit (c d : Issued) : List RunEvent :=
  [.call c, .disk (.syscall 0 (.ok 0)), .advance 0 false, .disk (.syscall 1 (.ok 0)),
    .disk (.syscall 1 (.ok 24)), .disk (.syscall 1 (.ok c.args.toCompile.length)),
    .disk (.syscall 1 (.ok 0)), .advance 0 false,
    .call d, .disk (.syscall 2 (.ok 0)), .disk (.syscall 2 (.ok 24)), .disk (.syscall 2 (.ok 0)),
    .disk (.syscall 2 (.ok 0)), .advance 1 false]

/-- The calls of a state, with the values of those that have returned one. -/
def RunState.values {Value : Type} (s : RunState Value) : List (Issued × Option Value) :=
  s.calls.map fun p =>
    (p.issued, match p.pc with
      | .returned (.ok value) => some value
      | _ => none)

theorem returned_of_values {Value : Type} {s : RunState Value} {c : Issued} {value : Value}
    (h : (c, some value) ∈ s.values) :
    ∃ p ∈ s.calls, p.issued = c ∧ p.pc = .returned (.ok value) := by
  obtain ⟨p, hp, hpair⟩ := List.mem_map.mp h
  rw [Prod.mk.injEq] at hpair
  refine ⟨p, hp, hpair.1, ?_⟩
  have hvalue := hpair.2
  split at hvalue
  · rename_i v hpc
    cases hvalue
    exact hpc
  · cases hvalue

theorem issued_of_values {Value : Type} (s : RunState Value) :
    s.issued = s.values.map Prod.fst := by
  simp [RunState.issued, RunState.values, Function.comp_def]

/-- The filename `a`, NUL, newline, and a statement that the compiler sees and the key does not. -/
def nulFilename (digit : UInt8) : Bytes := ascii "a" ++ [0, 10] ++ ascii ";" ++ [digit]

/-- Without a collision, the module named by the one filename is served to the other. -/
theorem nul_filenames_share_entry :
    ∃ s, runEvents (runStep zlibCrc32 textEngine) RunState.init
        (saveThenHit (emptyModule 1 (nulFilename 49)) (emptyModule 2 (nulFilename 50))) = some s ∧
      NoCollisions zlibCrc32 s.issued ∧
      ∃ p ∈ s.calls, ∃ result, p.pc = .returned result ∧
        result ≠ p.issued.fromScratch zlibCrc32 textEngine := by
  have hvalues : (runEvents (runStep zlibCrc32 textEngine) RunState.init
      (saveThenHit (emptyModule 1 (nulFilename 49)) (emptyModule 2 (nulFilename 50)))).map
        RunState.values =
      some [(emptyModule 1 (nulFilename 49), some (emptyModule 1 (nulFilename 49)).args.toCompile),
        (emptyModule 2 (nulFilename 50),
          some (emptyModule 1 (nulFilename 49)).args.toCompile)] := by
    decide +kernel
  obtain ⟨s, hrun, hs⟩ := Option.map_eq_some_iff.mp hvalues
  refine ⟨s, hrun, ?_, ?_⟩
  · rw [issued_of_values, hs]
    unfold NoCollisions
    decide +kernel
  · obtain ⟨p, hp, hissued, hpc⟩ := returned_of_values (hs ▸ List.mem_cons_of_mem _
      List.mem_cons_self : (emptyModule 2 (nulFilename 50), some _) ∈ s.values)
    refine ⟨p, hp, _, hpc, ?_⟩
    rw [hissued]
    intro hsame
    have hok : (emptyModule 2 (nulFilename 50)).fromScratch zlibCrc32 textEngine =
        .ok (emptyModule 2 (nulFilename 50)).args.toCompile := by
      have hcached : (createCompileCache zlibCrc32 (cachingRuntime 2)).isSome = true := by
        decide
      simp [Issued.fromScratch, emptyModule, hcached]
      rfl
    rw [hok, Except.ok.injEq] at hsame
    exact absurd hsame (by decide)

/-- Two runtimes compile one module: the second call hits, and returns what it would compile. -/
theorem plain_module_served :
    ∃ s, runEvents (runStep zlibCrc32 textEngine) RunState.init
        (saveThenHit (emptyModule 1 (ascii "a")) (emptyModule 2 (ascii "a"))) = some s ∧
      ∃ p ∈ s.calls, p.issued = emptyModule 2 (ascii "a") ∧
        p.pc = .returned ((emptyModule 2 (ascii "a")).fromScratch zlibCrc32 textEngine) := by
  have hvalues : (runEvents (runStep zlibCrc32 textEngine) RunState.init
      (saveThenHit (emptyModule 1 (ascii "a")) (emptyModule 2 (ascii "a")))).map RunState.values =
      some [(emptyModule 1 (ascii "a"), some (emptyModule 1 (ascii "a")).args.toCompile),
        (emptyModule 2 (ascii "a"), some (emptyModule 1 (ascii "a")).args.toCompile)] := by
    decide +kernel
  obtain ⟨s, hrun, hs⟩ := Option.map_eq_some_iff.mp hvalues
  have hcollide : NoCollisions zlibCrc32 s.issued := by
    rw [issued_of_values, hs]
    unfold NoCollisions
    decide +kernel
  have hplain : ∀ c ∈ s.issued, c.Plain zlibCrc32 := by
    rw [issued_of_values, hs]
    intro c hc
    simp only [List.map_cons, List.map_nil, List.mem_cons, List.not_mem_nil, or_false] at hc
    obtain rfl | rfl := hc
    · exact fun _ => by decide
    · exact fun _ => by decide
  obtain ⟨p, hp, hissued, hpc⟩ := returned_of_values (hs ▸ List.mem_cons_of_mem _
    List.mem_cons_self : (emptyModule 2 (ascii "a"), some _) ∈ s.values)
  have hresult := (cache_transparent hrun hcollide hplain).1 p hp _ hpc
  refine ⟨s, hrun, p, hp, hissued, ?_⟩
  rw [hpc, hresult, hissued]

end HermesNode.CompileCache
