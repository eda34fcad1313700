/-
Module: HermesNode.Bootstrap.Instances
Purpose: One instance of each module of the bootstrap loader, over whole runs. The cache key of a
  module is its id; a package has its bare name as a second key, which is filled only when the load
  returns and which leads past the first. As long as no request takes a key where the two differ,
  names a module other than by its id, or finds what a function that threw left in the cache, every
  function is entered once, every request for a module returns the `exports` of its one live
  instance, and loads nest no deeper than there are modules.
Trusted boundary: none
Main exports: LoadedOnce, Careful, bootstrap_loads_once
-/
import Mathlib.Data.List.Nodup
import Mathlib.Data.List.Perm.Subperm
import HermesNode.Bootstrap.History

namespace HermesNode.Bootstrap

open Loader (allRequirableIds)
open Resolve (stripNodeScheme)

variable {h : Host} {s t : State} {log older : List LogEntry} {src : Source} {r : RecordId}
  {records : List ModuleRecord} {cache : JsString → Option RecordId}

/-! ### Careful requests -/

/-- What is cached under the key, if anything, is not of a function that threw. -/
def Intact (s : State) (key : JsString) : Prop :=
  ∀ r, s.cache key = some r → LogEntry.threw r ∉ s.log

/-- What is cached under the id, if anything, is of a function that threw. -/
def Unloaded (s : State) (id : JsString) : Prop :=
  ∀ r, s.cache id = some r → LogEntry.threw r ∈ s.log

/-- The registry finds no other module than the one the id names. -/
def Host.Exact (h : Host) (id : JsString) : Prop := ∀ m, h.loadBytecodeModule id = some m → m = id

/-- A name `requireModule` may be asked for: a package by its bare name only while its main module
is not loaded. -/
structure CarefulName (h : Host) (s : State) (name : JsString) : Prop where
  intact : Intact s name
  exact : h.Exact (h.target name)
  unloaded : s.cache name = none → (h.vendoredPackage name).isSome = true →
    Unloaded s (h.target name)

/-- A path a relative request may resolve to. -/
structure CarefulPath (h : Host) (s : State) (path : JsString) : Prop where
  intact : Intact s path
  exact : h.Exact path
  noPackage : h.vendoredPackage path = none

def Careful (h : Host) (s : State) : Event → Prop
  | .requireModule name => CarefulName h s (stripNodeScheme name)
  | .require record name => ∀ mod, s.records[record]? = some mod →
      (isDotted name = true → CarefulPath h s (resolvedPath h s mod.filename name)) ∧
        (isDotted name = false → CarefulName h s (stripNodeScheme name))
  | .compileForPublicLoader id => CarefulName h s id ∧
      -- `module.exports` was not assigned since the public loader took it
      ((s.builtins id).loaded = true → ∀ r, s.cache id = some r →
        exportsAt s.records r = (s.builtins id).exports)
  | .loadFallback request => CarefulName h s request ∧ CarefulName h s (stripNodeScheme request)
  | .setExports _ _ | .bodyReturns | .bodyThrows | .closeDiskModuleLoading | .writeFile _ _ => True

instance (key : JsString) : Decidable (Intact s key) :=
  inferInstanceAs (Decidable (∀ r ∈ s.cache key, LogEntry.threw r ∉ s.log))

instance (key : JsString) : Decidable (Unloaded s key) :=
  inferInstanceAs (Decidable (∀ r ∈ s.cache key, LogEntry.threw r ∈ s.log))

instance (key : JsString) : Decidable (h.Exact key) :=
  inferInstanceAs (Decidable (∀ m ∈ h.loadBytecodeModule key, m = key))

instance (key : JsString) : Decidable (CarefulName h s key) :=
  decidable_of_iff (Intact s key ∧ h.Exact (h.target key) ∧
      (s.cache key = none → (h.vendoredPackage key).isSome = true → Unloaded s (h.target key)))
    ⟨fun ⟨a, b, c⟩ => ⟨a, b, c⟩, fun careful => ⟨careful.intact, careful.exact, careful.unloaded⟩⟩

instance (key : JsString) : Decidable (CarefulPath h s key) :=
  decidable_of_iff (Intact s key ∧ h.Exact key ∧ h.vendoredPackage key = none)
    ⟨fun ⟨a, b, c⟩ => ⟨a, b, c⟩, fun careful => ⟨careful.intact, careful.exact, careful.noPackage⟩⟩

instance (e : Event) : Decidable (Careful h s e) :=
  match e with
  | .requireModule name => inferInstanceAs (Decidable (CarefulName h s (stripNodeScheme name)))
  | .require record name => inferInstanceAs (Decidable (∀ mod ∈ s.records[record]?,
      (isDotted name = true → CarefulPath h s (resolvedPath h s mod.filename name)) ∧
        (isDotted name = false → CarefulName h s (stripNodeScheme name))))
  | .compileForPublicLoader id => inferInstanceAs (Decidable (CarefulName h s id ∧
      ((s.builtins id).loaded = true → ∀ r ∈ s.cache id,
        exportsAt s.records r = (s.builtins id).exports)))
  | .loadFallback request => inferInstanceAs (Decidable (CarefulName h s request ∧
      CarefulName h s (stripNodeScheme request)))
  | .setExports _ _ | .bodyReturns | .bodyThrows | .closeDiskModuleLoading | .writeFile _ _ =>
      inferInstanceAs (Decidable True)

/-- The id of the embedded module that a frame runs. -/
def Frame.embeddedId (f : Frame) : Option Bytes :=
  match f.source with
  | .embedded id => some id
  | .file _ => none

/-- Every module function is entered once unless it throws, all requests for a module return one
object, no module that threw is served, and loads nest no deeper than there are modules. -/
structure LoadedOnce (h : Host) (s : State) : Prop where
  entered : ∀ newer older src r exports, s.log = newer ++ LogEntry.started src r exports :: older →
    ∀ r' ∈ recordsOf older src, LogEntry.threw r' ∈ older
  served : ∀ newer older src exports, s.log = newer ++ LogEntry.answered src exports :: older →
    ∃ r, Live older src r ∧ exportsIn older r = some exports
  /-- Two answers for one module are one object, unless its function threw in between or its
  `exports` was assigned. -/
  agree : ∀ newer between older src x y,
    s.log = newer ++ LogEntry.answered src x :: (between ++ LogEntry.answered src y :: older) →
    (∀ r ∈ recordsOf older src, LogEntry.threw r ∉ between ∧
      ∀ v, LogEntry.assigned r v ∉ between) → x = y
  /-- A request for a module whose function is running returns what it exports so far. -/
  cycles : ∀ f ∈ s.stack, ∀ name, CarefulName h s (stripNodeScheme name) →
    h.named (stripNodeScheme name) = f.source →
    requireModule h s name none = s.serve f.source (exportsAt s.records f.record) none
  relativeCycles : ∀ f ∈ s.stack, ∀ fromFilepath name, isDotted name = true →
    CarefulPath h s (resolvedPath h s fromFilepath name) →
    h.sourceOf (resolvedPath h s fromFilepath name) = f.source →
    makeRequire h s fromFilepath name = s.serve f.source (exportsAt s.records f.record) none
  nested : (s.stack.filterMap Frame.embeddedId).Nodup
  depth : (s.stack.filterMap Frame.embeddedId).length ≤ h.moduleIds.length

/-! ### The invariant -/

/-- The cache key of a module. -/
def Source.key : Source → JsString
  | .embedded id => id
  | .file path => path

/-- What the cache and the log say about the instances. -/
structure Instances (h : Host) (records : List ModuleRecord) (cache : JsString → Option RecordId)
    (log : List LogEntry) : Prop where
  cached : ∀ key r, cache key = some r → r ∈ recordsOf log (h.named key)
  /-- A live instance is the one cached under its module's id. -/
  live : ∀ src r, Live log src r → cache src.key = some r
  /-- Modules are loaded by their ids. -/
  ids : ∀ src r, r ∈ recordsOf log src →
    src = h.sourceOf src.key ∧ h.vendoredPackage src.key = none
  bound : ∀ src r, r ∈ recordsOf log src → r < records.length
  thrown : ∀ r, LogEntry.threw r ∈ log → r < records.length
  exports : ∀ src r, r ∈ recordsOf log src → exportsIn log r = some (exportsAt records r)
  faithful : Faithful log

/-- What holds of a load in progress. -/
structure FrameGood (h : Host) (cache : JsString → Option RecordId) (log : List LogEntry)
    (f : Frame) : Prop where
  live : Live log f.source f.record
  package : ∀ b, f.bareName = some b → h.named b = f.source ∧ (h.vendoredPackage b).isSome = true
  compiling : ∀ id, f.compiling = some id → f.bareName = some id ∨ (cache id).isSome = true

structure Inv (h : Host) (s : State) : Prop where
  instances : Instances h s.records s.cache s.log
  frames : ∀ f ∈ s.stack, FrameGood h s.cache s.log f
  distinct : (s.stack.map (·.record)).Nodup
  captured : ∀ id, (s.builtins id).loaded = true → (s.cache id).isSome = true

theorem Inv.init : Inv h init := by
  constructor
  · constructor <;> simp [Bootstrap.init, Live, Faithful]
  all_goals simp [Bootstrap.init]

/-! ### Requests -/

theorem vendoredPackage_entryId (p : VendoredPackage) : h.vendoredPackage p.entryId = none := by
  rw [Host.vendoredPackage, Option.map_eq_none_iff, List.find?_eq_none]
  intro q _ heq
  have hname : q.name = p.entryId := by simpa using heq
  apply q.component
  rw [hname]
  simp [VendoredPackage.entryId]

/-- What `requireModule` loads has no second key. -/
theorem vendoredPackage_target (name : JsString) : h.vendoredPackage (h.target name) = none := by
  unfold Host.target
  cases hfound : h.packages.find? (fun p => p.name == name) with
  | none => simp [Host.vendoredPackage, hfound]
  | some p =>
      have hpackage : h.vendoredPackage name = some p.entryId := by
        simp [Host.vendoredPackage, hfound]
      rw [hpackage, Option.getD_some]
      exact vendoredPackage_entryId p

theorem named_of_noPackage {key : JsString} (hkey : h.vendoredPackage key = none) :
    h.named key = h.sourceOf key := by
  simp [Host.named, Host.target, hkey]

variable {id : JsString}

theorem key_sourceOf (hexact : h.Exact id) : (h.sourceOf id).key = id := by
  unfold Host.sourceOf
  cases hfound : h.loadBytecodeModule id with
  | none => rfl
  | some m => exact hexact m hfound

theorem compiledFn_source (hok : compiledFn h s id id = .ok src) :
    src = h.sourceOf id := by
  unfold compiledFn at hok
  unfold Host.sourceOf
  cases hfound : h.loadBytecodeModule id with
  | some m =>
      rw [hfound] at hok
      exact (Except.ok.inj hok).symm
  | none =>
      simp only [hfound] at hok
      split at hok
      · cases hok
      · split at hok
        · cases hok
        · split at hok
          · exact (Except.ok.inj hok).symm
          · cases hok

theorem isSome_update {cache : JsString → Option RecordId} {key k : JsString} {r : RecordId}
    (hsome : (cache k).isSome = true) : (Function.update cache key (some r) k).isSome = true := by
  by_cases heq : k = key
  · simp [heq]
  · rwa [Function.update_of_ne heq]

/-- A load under an id that stands for no package and is not loaded. -/
theorem Instances.enter (inst : Instances h records cache log) {mod : ModuleRecord}
    (hid : h.vendoredPackage id = none) (hexact : h.Exact id)
    (hunloaded : ∀ r, cache id = some r → LogEntry.threw r ∈ log) :
    Instances h (records ++ [mod]) (Function.update cache id (some records.length))
    (.started (h.sourceOf id) records.length mod.exports :: log):= by
  have hkey := key_sourceOf hexact
  refine ⟨?_, ?_, ?_, ?_, ?_, ?_, ?_, inst.faithful⟩
  · intro key r hcached
    rw [mem_recordsOf_started]
    by_cases heq : key = id
    · subst heq
      rw [Function.update_self, Option.some.injEq] at hcached
      exact Or.inl ⟨(named_of_noPackage hid).symm, hcached.symm⟩
    · rw [Function.update_of_ne heq] at hcached
      exact Or.inr (inst.cached key r hcached)
  · intro src r hlive
    have hnot : LogEntry.threw r ∉ log := fun hthrew => hlive.2 (List.mem_cons_of_mem _ hthrew)
    rcases mem_recordsOf_started.mp hlive.1 with ⟨rfl, rfl⟩ | hr
    · rw [hkey, Function.update_self]
    · have hcached := inst.live src r ⟨hr, hnot⟩
      have hne : src.key ≠ id := by
        intro heq
        rw [heq] at hcached
        exact hnot (hunloaded r hcached)
      rw [Function.update_of_ne hne]
      exact hcached
  · intro src r hr
    rcases mem_recordsOf_started.mp hr with ⟨rfl, rfl⟩ | hr
    · rw [hkey]
      exact ⟨rfl, hid⟩
    · exact inst.ids src r hr
  · intro src r hr
    rw [List.length_append, List.length_singleton]
    rcases mem_recordsOf_started.mp hr with ⟨rfl, rfl⟩ | hr
    · exact Nat.lt_succ_self _
    · exact Nat.lt_succ_of_lt (inst.bound src r hr)
  · intro r hr
    rw [List.length_append, List.length_singleton]
    exact Nat.lt_succ_of_lt (inst.thrown r (by simpa using hr))
  · intro src r hr
    rcases mem_recordsOf_started.mp hr with ⟨rfl, rfl⟩ | hr
    · simp [exportsIn, exportsAt]
    · have hlt := inst.bound src r hr
      rw [exportsIn, if_neg (Nat.ne_of_gt hlt), inst.exports src r hr, exportsAt, exportsAt,
        List.getElem?_append_left hlt]
  · refine ⟨fun src hmem => Nat.lt_irrefl _ (inst.bound src _ hmem), ?_⟩
    -- the instances of the module so far threw, else one of them would be cached
    intro r hr
    by_contra hthrew
    have hcached := inst.live _ r ⟨hr, hthrew⟩
    rw [hkey] at hcached
    exact hthrew (hunloaded r hcached)

/-- An entry that makes no instance, ends none and assigns no `exports`. -/
theorem Instances.note (inst : Instances h records cache log) {e : LogEntry} (he : e.quiet = true)
    (hexports : ∀ r, exportsIn (e :: log) r = exportsIn log r) (hfaithful : EntryFaithful log e) :
    Instances h records cache (e :: log) where
  cached key r hkey := by
    rw [recordsOf_quiet he]
    exact inst.cached key r hkey
  live src r hlive := inst.live src r ((live_quiet he).mp hlive)
  ids src r hr := by
    rw [recordsOf_quiet he] at hr
    exact inst.ids src r hr
  bound src r hr := by
    rw [recordsOf_quiet he] at hr
    exact inst.bound src r hr
  thrown r hr := inst.thrown r ((threw_mem_quiet he).mp hr)
  exports src r hr := by
    rw [recordsOf_quiet he] at hr
    rw [hexports]
    exact inst.exports src r hr
  faithful := ⟨hfaithful, inst.faithful⟩

/-- A frame stays good while its instance lives and the cache grows. -/
theorem FrameGood.mono {cache' : JsString → Option RecordId} {log' : List LogEntry} {f : Frame}
    (good : FrameGood h cache log f) (hlive : Live log' f.source f.record)
    (hgrows : ∀ key, (cache key).isSome = true → (cache' key).isSome = true) :
    FrameGood h cache' log' f where
  live := hlive
  package := good.package
  compiling id hid := (good.compiling id hid).imp_right (hgrows id)

theorem Inv.note (inv : Inv h s) {e : LogEntry} (he : e.quiet = true)
    (hexports : ∀ r, exportsIn (e :: s.log) r = exportsIn s.log r)
    (hfaithful : EntryFaithful s.log e) : Inv h { s with log := e :: s.log } where
  instances := inv.instances.note he hexports hfaithful
  frames f hf := (inv.frames f hf).mono ((live_quiet he).mpr (inv.frames f hf).live)
    fun _ hsome => hsome
  distinct := inv.distinct
  captured := inv.captured

theorem Inv.fail (inv : Inv h s) (error : LoadError) : Inv h (s.fail error) :=
  inv.note rfl (fun _ => rfl) trivial

theorem Inv.serve (inv : Inv h s) {exports : Nat} {compiling : Option JsString}
    (hlive : Live s.log src r) (hexports : exportsIn s.log r = some exports)
    (hcompiling : ∀ id, compiling = some id → (s.cache id).isSome = true) :
    Inv h (s.serve src exports compiling) := by
  have hnoted := inv.note (e := .answered src exports) rfl (fun _ => rfl) ⟨r, hlive, hexports⟩
  refine ⟨hnoted.instances, hnoted.frames, hnoted.distinct, ?_⟩
  intro id hloaded
  cases compiling with
  | none => exact inv.captured id hloaded
  | some waiting =>
      by_cases heq : id = waiting
      · exact hcompiling id (by rw [heq])
      · apply inv.captured id
        simpa [State.serve, capture, Function.update_of_ne heq] using hloaded

theorem Inv.loadModule (inv : Inv h s) {bareName compiling : Option JsString}
    (hid : h.vendoredPackage id = none) (hexact : h.Exact id) (hunloaded : Unloaded s id)
    (hbare : ∀ b, bareName = some b →
      h.named b = h.sourceOf id ∧ (h.vendoredPackage b).isSome = true)
    (hcompiling : ∀ c, compiling = some c → bareName = some c ∨ c = id) :
    Inv h (loadModule h s id bareName compiling) := by
  unfold Bootstrap.loadModule
  cases hfn : compiledFn h s id id with
  | error error => exact inv.fail error
  | ok source =>
      obtain rfl := compiledFn_source hfn
      refine ⟨inv.instances.enter hid hexact hunloaded, ?_, ?_, ?_⟩
      · intro f hf
        rcases List.mem_cons.mp hf with rfl | hf
        · refine ⟨⟨by simp [State.enter], ?_⟩, hbare, ?_⟩
          · intro hthrew
            exact Nat.lt_irrefl _ (inv.instances.thrown _ (by simpa [State.enter] using hthrew))
          · intro c hc
            rcases hcompiling c hc with hbareName | rfl
            · exact Or.inl hbareName
            · exact Or.inr (by simp [State.enter])
        · have good := inv.frames f hf
          refine good.mono ⟨mem_recordsOf_started.mpr (Or.inr good.live.1), ?_⟩
            fun _ => isSome_update
          simpa [State.enter] using good.live.2
      · refine List.nodup_cons.mpr ⟨?_, inv.distinct⟩
        intro hmem
        obtain ⟨f, hf, hrecord⟩ := List.mem_map.mp hmem
        have hlt := inv.instances.bound _ _ (inv.frames f hf).live.1
        exact absurd hrecord (Nat.ne_of_lt hlt)
      · intro c hloaded
        exact isSome_update (inv.captured c hloaded)

/-- A request that finds its key answers with the live instance. -/
theorem Inv.hit (inv : Inv h s) {key : JsString} (hcached : s.cache key = some r)
    (hintact : Intact s key) :
    Live s.log (h.named key) r ∧ exportsIn s.log r = some (exportsAt s.records r) := by
  have hmem := inv.instances.cached key r hcached
  exact ⟨⟨hmem, hintact r hcached⟩, inv.instances.exports _ r hmem⟩

theorem Inv.requireModule (inv : Inv h s) {name : JsString} {compiling : Option JsString}
    (careful : CarefulName h s (stripNodeScheme name))
    (hcompiling : ∀ id, compiling = some id → id = stripNodeScheme name) :
    Inv h (requireModule h s name compiling) := by
  unfold Bootstrap.requireModule
  cases hcached : s.cache (stripNodeScheme name) with
  | some r =>
      obtain ⟨hlive, hexports⟩ := inv.hit hcached careful.intact
      simp only [hcached]
      refine inv.serve hlive hexports ?_
      intro id hid
      rw [hcompiling id hid, hcached]
      rfl
  | none =>
      have hexact := careful.exact
      have hunloaded := careful.unloaded hcached
      cases hpackage : h.vendoredPackage (stripNodeScheme name) with
      | some vendoredId =>
          have htarget : h.target (stripNodeScheme name) = vendoredId := by
            simp [Host.target, hpackage]
          rw [hpackage, htarget] at hunloaded
          rw [htarget] at hexact
          have hid : h.vendoredPackage vendoredId = none := by
            rw [← htarget]
            exact vendoredPackage_target _
          simp only [hcached, hpackage]
          refine inv.loadModule hid hexact (hunloaded rfl) ?_ ?_
          · intro b hb
            obtain rfl := Option.some.inj hb
            rw [Host.named, htarget, hpackage]
            exact ⟨rfl, rfl⟩
          · intro c hc
            rw [hcompiling c hc]
            exact Or.inl rfl
      | none =>
          have htarget : h.target (stripNodeScheme name) = stripNodeScheme name := by
            simp [Host.target, hpackage]
          rw [htarget] at hexact
          simp only [hcached, hpackage]
          split
          · exact inv.fail _
          · refine inv.loadModule hpackage hexact ?_ ?_ ?_
            · intro r hr
              rw [hcached] at hr
              cases hr
            · intro b hb
              cases hb
            · intro c hc
              exact Or.inr (hcompiling c hc)

theorem Inv.makeRequire (inv : Inv h s) {fromFilepath name : JsString}
    (hpath : isDotted name = true → CarefulPath h s (resolvedPath h s fromFilepath name))
    (hname : isDotted name = false → CarefulName h s (stripNodeScheme name)) :
    Inv h (makeRequire h s fromFilepath name) := by
  unfold Bootstrap.makeRequire
  cases hdotted : isDotted name with
  | false => exact inv.requireModule (hname hdotted) (fun _ hid => by cases hid)
  | true =>
      obtain ⟨hintact, hexact, hpackage⟩ := hpath hdotted
      rw [if_pos rfl]
      cases hcached : s.cache (resolvedPath h s fromFilepath name) with
      | some r =>
          obtain ⟨hlive, hexports⟩ := inv.hit hcached hintact
          rw [named_of_noPackage hpackage] at hlive
          simp only [hcached]
          exact inv.serve hlive hexports (fun _ hid => by cases hid)
      | none =>
          simp only [hcached]
          refine inv.loadModule hpackage hexact ?_ ?_ ?_
          · intro r hr
            rw [hcached] at hr
            cases hr
          · intro b hb
            cases hb
          · intro c hc
            cases hc

theorem stripNodeScheme_requirable (hid : id ∈ allRequirableIds) :
    stripNodeScheme id = id := by
  have hall : ∀ id ∈ allRequirableIds, stripNodeScheme id = id := by
    decide
  exact hall id hid

theorem Inv.compileForPublicLoader (inv : Inv h s) (hid : id ∈ allRequirableIds)
    (careful : CarefulName h s id)
    (hkept : (s.builtins id).loaded = true → ∀ r, s.cache id = some r →
      exportsAt s.records r = (s.builtins id).exports) :
    Inv h (compileForPublicLoader h s id) := by
  unfold Bootstrap.compileForPublicLoader
  split
  · rename_i hloaded
    obtain ⟨r, hcached⟩ := Option.isSome_iff_exists.mp (inv.captured id hloaded)
    obtain ⟨hlive, hexports⟩ := inv.hit hcached careful.intact
    rw [hkept hloaded r hcached] at hexports
    exact inv.serve hlive hexports (fun _ hwaiting => by cases hwaiting)
  · refine inv.requireModule ?_ ?_
    · rw [stripNodeScheme_requirable hid]
      exact careful
    · intro waiting hwaiting
      rw [stripNodeScheme_requirable hid]
      exact (Option.some.inj hwaiting).symm

theorem Inv.loadFallback (inv : Inv h s) {request : JsString} (careful : CarefulName h s request)
    (hname : CarefulName h s (stripNodeScheme request)) : Inv h (loadFallback h s request) := by
  unfold Bootstrap.loadFallback
  cases hcached : s.cache request with
  | some r =>
      obtain ⟨hlive, hexports⟩ := inv.hit hcached careful.intact
      exact inv.serve hlive hexports (fun _ hid => by cases hid)
  | none =>
      simp only
      split
      · exact inv.requireModule hname (fun _ hid => by cases hid)
      · exact inv.fail _

/-! ### Events -/

theorem exportsAt_modify {record : RecordId} {f : ModuleRecord → ModuleRecord}
    (hf : ∀ m, record = r → (f m).exports = m.exports) :
    exportsAt (records.modify record f) r = exportsAt records r := by
  unfold exportsAt
  rw [List.getElem?_modify]
  cases records[r]? with
  | none => rfl
  | some m =>
      by_cases heq : record = r
      · simp [heq, hf m heq]
      · simp [heq]

theorem Inv.setExports (inv : Inv h s) (record : RecordId) (value : Nat) :
    Inv h { s with
      records := s.records.modify record fun m => { m with exports := value }
      log := .assigned record value :: s.log } := by
  have hquiet : (LogEntry.assigned record value).quiet = true := rfl
  have inst := inv.instances
  refine ⟨⟨inst.cached, fun src r hlive => inst.live src r ((live_quiet hquiet).mp hlive),
    inst.ids, ?_, ?_, ?_, trivial, inst.faithful⟩, ?_, inv.distinct, inv.captured⟩
  · intro src r hr
    rw [List.length_modify]
    exact inst.bound src r hr
  · intro r hr
    rw [List.length_modify]
    exact inst.thrown r ((threw_mem_quiet hquiet).mp hr)
  · intro src r hr
    by_cases heq : record = r
    · subst heq
      have hlt := inst.bound src record hr
      simp [exportsIn, exportsAt, hlt]
    · rw [exportsIn, if_neg heq, exportsAt_modify (fun _ h => absurd h heq)]
      exact inst.exports src r hr
  · intro f hf
    have good := inv.frames f hf
    exact good.mono ((live_quiet hquiet).mpr good.live) fun _ hsome => hsome

/-- The innermost function threw: its frame is gone, and its entry stays. -/
theorem Inv.bodyThrows (inv : Inv h s) {frame : Frame} {rest : List Frame}
    (hstack : s.stack = frame :: rest) :
    Inv h { s with stack := rest, log := .threw frame.record :: s.log } := by
  have inst := inv.instances
  have hdistinct := inv.distinct
  rw [hstack, List.map_cons, List.nodup_cons] at hdistinct
  have hmem : ∀ f ∈ rest, f ∈ s.stack := by
    intro f hf
    rw [hstack]
    exact List.mem_cons_of_mem _ hf
  have hframe := inv.frames frame (by simp [hstack])
  refine ⟨⟨inst.cached, ?_, inst.ids, inst.bound, ?_, inst.exports, trivial, inst.faithful⟩, ?_,
    hdistinct.2, inv.captured⟩
  · intro src r hlive
    exact inst.live src r ⟨hlive.1, fun hthrew => hlive.2 (List.mem_cons_of_mem _ hthrew)⟩
  · intro r hr
    rcases List.mem_cons.mp hr with heq | hr
    · cases heq
      exact inst.bound _ _ hframe.live.1
    · exact inst.thrown r hr
  · intro f hf
    have good := inv.frames f (hmem f hf)
    refine good.mono ⟨good.live.1, ?_⟩ fun _ hsome => hsome
    intro hthrew
    rcases List.mem_cons.mp hthrew with heq | hthrew
    · have hrecord : f.record = frame.record := LogEntry.threw.inj heq
      apply hdistinct.1
      rw [← hrecord]
      exact List.mem_map_of_mem hf
    · exact good.live.2 hthrew

theorem isSome_leave {frame : Frame} {rest : List Frame} {key : JsString}
    (hsome : (s.cache key).isSome = true) : ((s.leave frame rest).cache key).isSome = true := by
  unfold State.leave
  cases frame.bareName with
  | none => exact hsome
  | some b => exact isSome_update hsome

/-- The innermost function returned: a package gets its second key. -/
theorem Inv.leave (inv : Inv h s) {frame : Frame} {rest : List Frame}
    (hstack : s.stack = frame :: rest) : Inv h (s.leave frame rest) := by
  have hdistinct := inv.distinct
  rw [hstack, List.map_cons, List.nodup_cons] at hdistinct
  have hframe := inv.frames frame (by simp [hstack])
  have hquiet : (LogEntry.completed frame.record).quiet = true := rfl
  have inst := inv.instances.note hquiet (fun _ => rfl) trivial
  have hgrows : ∀ key, (s.cache key).isSome = true →
      ((s.leave frame rest).cache key).isSome = true := fun _ => isSome_leave
  refine ⟨⟨?_, ?_, inst.ids, ?_, ?_, ?_, inst.faithful⟩, ?_, hdistinct.2, ?_⟩
  · intro key r hcached
    unfold State.leave at hcached
    cases hbare : frame.bareName with
    | none =>
        rw [hbare] at hcached
        exact inst.cached key r hcached
    | some b =>
        simp only [hbare] at hcached
        by_cases heq : key = b
        · subst heq
          rw [Function.update_self, Option.some.injEq] at hcached
          rw [(hframe.package key hbare).1, ← hcached]
          exact hframe.live.1
        · rw [Function.update_of_ne heq] at hcached
          exact inst.cached key r hcached
  · intro src r hlive
    have hcached := inst.live src r hlive
    unfold State.leave
    cases hbare : frame.bareName with
    | none => exact hcached
    | some b =>
        -- the second key of a package is not the id of a module
        have hne : src.key ≠ b := by
          rintro rfl
          have hsome := (hframe.package _ hbare).2
          rw [(inst.ids src r hlive.1).2] at hsome
          cases hsome
        exact (Function.update_of_ne hne _ _).trans hcached
  · intro src r hr
    rw [State.leave, List.length_modify]
    exact inst.bound src r hr
  · intro r hr
    rw [State.leave, List.length_modify]
    exact inst.thrown r hr
  · intro src r hr
    have hsame : exportsAt (s.leave frame rest).records r = exportsAt s.records r :=
      exportsAt_modify fun _ _ => rfl
    rw [hsame]
    exact inst.exports src r hr
  · intro f hf
    have good := inv.frames f (by rw [hstack]; exact List.mem_cons_of_mem _ hf)
    exact good.mono ((live_quiet hquiet).mpr good.live) hgrows
  · intro id hloaded
    exact hgrows id (inv.captured id hloaded)

theorem Inv.bodyReturns (inv : Inv h s) {frame : Frame} {rest : List Frame}
    (hstack : s.stack = frame :: rest) :
    Inv h ((s.leave frame rest).serve frame.source (exportsAt s.records frame.record)
      frame.compiling) := by
  have hleft := inv.leave hstack
  have hframe := inv.frames frame (by simp [hstack])
  have hexports := inv.instances.exports _ _ hframe.live.1
  have hquiet : (LogEntry.completed frame.record).quiet = true := rfl
  refine hleft.serve ((live_quiet hquiet).mpr hframe.live) hexports ?_
  intro id hid
  rcases hframe.compiling id hid with hbare | hsome
  · simp [State.leave, hbare]
  · exact isSome_leave hsome

theorem Inv.step (inv : Inv h s) {e : Event} (careful : Careful h s e)
    (taken : step h s e = some t) : Inv h t := by
  cases e with
  | requireModule name =>
      cases taken
      exact inv.requireModule careful (fun _ hid => by cases hid)
  | require record name =>
      obtain ⟨mod, hmod, rfl⟩ := Option.map_eq_some_iff.mp taken
      obtain ⟨hpath, hname⟩ := careful mod hmod
      exact inv.makeRequire hpath hname
  | compileForPublicLoader id =>
      simp only [Bootstrap.step, Option.ite_none_right_eq_some, Option.some.injEq] at taken
      obtain ⟨hid, rfl⟩ := taken
      exact inv.compileForPublicLoader hid careful.1 careful.2
  | loadFallback request =>
      cases taken
      exact inv.loadFallback careful.1 careful.2
  | setExports record value =>
      cases taken
      exact inv.setExports record value
  | bodyReturns =>
      cases hstack : s.stack with
      | nil => simp [Bootstrap.step, hstack] at taken
      | cons frame rest =>
          simp only [Bootstrap.step, hstack, Option.some.injEq] at taken
          subst taken
          exact inv.bodyReturns hstack
  | bodyThrows =>
      cases hstack : s.stack with
      | nil => simp [Bootstrap.step, hstack] at taken
      | cons frame rest =>
          simp only [Bootstrap.step, hstack, Option.some.injEq] at taken
          subst taken
          exact inv.bodyThrows hstack
  | closeDiskModuleLoading =>
      cases taken
      exact ⟨inv.instances, inv.frames, inv.distinct, inv.captured⟩
  | writeFile path content =>
      cases taken
      exact ⟨inv.instances, inv.frames, inv.distinct, inv.captured⟩

theorem embeddedId_eq_some {f : Frame} {id : Bytes} :
    f.embeddedId = some id ↔ f.source = .embedded id := by
  unfold Frame.embeddedId
  cases f.source <;> simp

/-- No two loads in progress are of one module. -/
theorem Inv.frame_unique (inv : Inv h s) {f g : Frame} (hf : f ∈ s.stack) (hg : g ∈ s.stack)
    (hsource : f.source = g.source) : f = g := by
  have hcached := inv.instances.live _ _ (inv.frames f hf).live
  have hcached' := inv.instances.live _ _ (inv.frames g hg).live
  rw [hsource, hcached', Option.some.injEq] at hcached
  exact List.inj_on_of_nodup_map inv.distinct hf hg hcached.symm

theorem Inv.nested (inv : Inv h s) : (s.stack.filterMap Frame.embeddedId).Nodup := by
  rw [List.Nodup, List.pairwise_filterMap]
  have hrecords := List.pairwise_map.mp inv.distinct
  refine hrecords.imp_of_mem ?_
  rintro f g hf hg hne id hid _ hid' rfl
  have hsource := (embeddedId_eq_some.mp hid).trans (embeddedId_eq_some.mp hid').symm
  exact hne (congrArg Frame.record (inv.frame_unique hf hg hsource))

theorem Inv.embedded_subset (inv : Inv h s) :
    s.stack.filterMap Frame.embeddedId ⊆ h.moduleIds := by
  intro id hmem
  obtain ⟨f, hf, hid⟩ := List.mem_filterMap.mp hmem
  have hsource := embeddedId_eq_some.mp hid
  have hfound := (inv.instances.ids _ _ (inv.frames f hf).live.1).1
  rw [hsource, Host.sourceOf] at hfound
  cases hload : h.loadBytecodeModule (Source.embedded id).key with
  | none =>
      rw [hload] at hfound
      cases hfound
  | some m =>
      rw [hload] at hfound
      cases hfound
      exact List.mem_of_find?_eq_some hload

theorem Inv.running_cached (inv : Inv h s) {f : Frame} (hf : f ∈ s.stack) (hexact : h.Exact id)
    (hsource : h.sourceOf id = f.source) : s.cache id = some f.record:= by
  have hcached := inv.instances.live _ _ (inv.frames f hf).live
  rwa [← hsource, key_sourceOf hexact] at hcached

theorem Inv.cycles (inv : Inv h s) {f : Frame} (hf : f ∈ s.stack) {name : JsString}
    (careful : CarefulName h s (stripNodeScheme name))
    (hsource : h.named (stripNodeScheme name) = f.source) :
    Bootstrap.requireModule h s name none =
      s.serve f.source (exportsAt s.records f.record) none := by
  have hlive := (inv.frames f hf).live
  have htarget := inv.running_cached hf careful.exact hsource
  have hcached : s.cache (stripNodeScheme name) = some f.record := by
    cases hkey : s.cache (stripNodeScheme name) with
    | some r =>
        have hother := (inv.hit hkey careful.intact).1
        rw [hsource] at hother
        rw [inv.instances.faithful.live_unique hother hlive]
    | none =>
        cases hpackage : h.vendoredPackage (stripNodeScheme name) with
        | none =>
            rw [Host.target, hpackage, Option.getD_none, hkey] at htarget
            cases htarget
        | some v =>
            -- the bare name of a package that is being loaded is no careful request
            exact absurd (careful.unloaded hkey (by rw [hpackage]; rfl) _ htarget) hlive.2
  unfold Bootstrap.requireModule
  simp only [hcached, hsource]

theorem Inv.relativeCycles (inv : Inv h s) {f : Frame} (hf : f ∈ s.stack)
    {fromFilepath name : JsString} (hdotted : isDotted name = true)
    (careful : CarefulPath h s (resolvedPath h s fromFilepath name))
    (hsource : h.sourceOf (resolvedPath h s fromFilepath name) = f.source) :
    Bootstrap.makeRequire h s fromFilepath name =
      s.serve f.source (exportsAt s.records f.record) none := by
  have hcached := inv.running_cached hf careful.exact hsource
  unfold Bootstrap.makeRequire
  simp only [hdotted, if_true, hcached, hsource]

theorem Inv.loadedOnce (inv : Inv h s) : LoadedOnce h s where
  entered newer older src r exports hlog := by
    have hf := inv.instances.faithful
    rw [hlog] at hf
    exact hf.entry.2
  served newer older src exports hlog := by
    have hf := inv.instances.faithful
    rw [hlog] at hf
    exact hf.entry
  agree newer between older src x y hlog := by
    have hf := inv.instances.faithful
    rw [hlog] at hf
    exact hf.suffix.answers_agree
  cycles _ hf _ careful hsource := inv.cycles hf careful hsource
  relativeCycles _ hf _ _ hdotted careful hsource :=
    inv.relativeCycles hf hdotted careful hsource
  nested := inv.nested
  depth := (List.subperm_of_subset inv.nested inv.embedded_subset).length_le

/-- In every run whose requests are careful the loader has one instance of each module. -/
theorem bootstrap_loads_once {events : List Event}
    (run : GuardedRun (step h) (Careful h) init events s) : LoadedOnce h s :=
  (run.invariant (fun _ _ _ inv careful taken => Inv.step inv careful taken) Inv.init).loadedOnce

/-- Two builtins and a package of two modules. -/
def wsHost : Host where
  moduleIds := ["events", "fs", "vendored/ws/index", "vendored/ws/lib/sender"].map ascii
  packages := [{ name := ascii "ws", mainStem := ascii "index", component := ws_component }]
  vendoredModuleIds := ["vendored/ws/index", "vendored/ws/lib/sender"].map ascii
  idBuf s := s.take 255
  compileAndRun _ _ _ := true

/-- The package throws the first time; then its two modules require each other, and every spelling
of the main module is asked for. -/
def retriedPackage : List Event :=
  [.requireModule (ascii "ws"), .bodyThrows, .requireModule (ascii "ws"),
    .require 1 (ascii "./lib/sender"), .require 2 (ascii "../index"), .bodyReturns, .setExports 1 9,
    .bodyReturns, .requireModule (ascii "node:ws"), .requireModule (ascii "vendored/ws/index"),
    .compileForPublicLoader (ascii "ws"), .require 2 (ascii "..")]

theorem retriedPackage_loads_once :
    ∃ s, GuardedRun (step wsHost) (Careful wsHost) init retriedPackage s ∧ LoadedOnce wsHost s ∧
      s.log.take 4 = List.replicate 4 (.answered (.embedded (ascii "vendored/ws/index")) 9) := by
  have hrun : ((runEvents (fun s e => if Careful wsHost s e then step wsHost s e else none) init
      retriedPackage).map fun s => s.log.take 4) =
        some (List.replicate 4 (.answered (.embedded (ascii "vendored/ws/index")) 9)) := by
    decide
  obtain ⟨s, hs, hlog⟩ := Option.map_eq_some_iff.mp hrun
  have run := GuardedRun.of_runEvents GuardedRun.start hs
  exact ⟨s, run, bootstrap_loads_once run, hlog⟩

/-- A function was entered while an instance of its module was live. -/
theorem not_loadedOnce_of_entered (newer : List LogEntry) (r' : RecordId) {x : Nat}
    (hlog : s.log = newer ++ .started src r x :: older) (hlive : Live older src r') :
    ¬ LoadedOnce h s := by
  intro once
  exact hlive.2 (once.entered newer older src r x hlog r' hlive.1)

/-- A request got an object that no live instance of the module exports. -/
theorem not_loadedOnce_of_served (newer : List LogEntry) {x : Nat}
    (hlog : s.log = newer ++ .answered src x :: older)
    (hstale : ∀ r ∈ recordsOf older src, LogEntry.threw r ∈ older ∨ exportsIn older r ≠ some x) :
    ¬ LoadedOnce h s := by
  intro once
  obtain ⟨r, hlive, hexports⟩ := once.served newer older src x hlog
  rcases hstale r hlive.1 with hthrew | hne
  · exact hlive.2 hthrew
  · exact hne hexports

/-- A run after which a module was loaded twice or served wrongly. -/
def Breaks (h : Host) (events : List Event) : Prop :=
  ∃ s, runEvents (step h) init events = some s ∧ ¬ LoadedOnce h s

theorem breaks_of_log {events : List Event} (hrun :
    (runEvents (step h) init events).map State.log = some log)
    (hbad : ∀ s : State, s.log = log → ¬ LoadedOnce h s) : Breaks h events := by
  obtain ⟨s, hs, hlog⟩ := Option.map_eq_some_iff.mp hrun
  exact ⟨s, hs, hbad s hlog⟩

/-- A package whose main module requires it by its bare name is entered again and again. -/
theorem bare_cycle_unbounded (n : Nat) :
    ∃ s, runEvents (step wsHost) init (List.replicate n (.requireModule (ascii "ws"))) = some s ∧
      s.stack.length = n := by
  suffices hfrom : ∀ s : State, s.cache (ascii "ws") = none →
      ∃ t, runEvents (step wsHost) s (List.replicate n (.requireModule (ascii "ws"))) = some t ∧
        t.stack.length = s.stack.length + n by
    simpa [init] using hfrom init rfl
  induction n with
  | zero => exact fun s _ => ⟨s, rfl, rfl⟩
  | succ n ih =>
      intro s hcache
      let next := s.enter (ascii "vendored/ws/index") (.embedded (ascii "vendored/ws/index"))
        (some (ascii "ws")) none
      have hstep : step wsHost s (.requireModule (ascii "ws")) = some next := by
        have hstrip : stripNodeScheme (ascii "ws") = ascii "ws" := by decide
        have hpackage : wsHost.vendoredPackage (ascii "ws") = some (ascii "vendored/ws/index") := by
          decide
        have hload : wsHost.loadBytecodeModule (ascii "vendored/ws/index") =
            some (ascii "vendored/ws/index") := by decide
        simp only [step, requireModule, hstrip, hcache, hpackage, loadModule, compiledFn, hload,
          next]
      have hnext : next.cache (ascii "ws") = none := by
        have hne : ascii "ws" ≠ ascii "vendored/ws/index" := by decide
        simp only [next, State.enter, Function.update_of_ne hne, hcache]
      obtain ⟨t, hrun, hlength⟩ := ih next hnext
      refine ⟨t, ?_, ?_⟩
      · rw [List.replicate_succ, runEvents, hstep]
        exact hrun
      · rw [hlength]
        simp only [next, State.enter, List.length_cons]
        omega

/-- What each condition is for: the main module of a package by its id and then by its bare name; a
module that threw, asked for again; a name that ends in a NUL; a relative path that resolves to the
name of a package; `module.exports` assigned after the public loader took it. -/
theorem spellings_diverge :
    Breaks wsHost
      [.requireModule (ascii "vendored/ws/index"), .bodyReturns, .requireModule (ascii "ws")] ∧
    Breaks wsHost [.requireModule (ascii "fs"), .bodyThrows, .requireModule (ascii "fs")] ∧
    Breaks wsHost
      [.requireModule (ascii "fs"), .bodyReturns, .requireModule (ascii "fs" ++ [0])] ∧
    Breaks wsHost
      [.requireModule (ascii "vendored/ws/index"), .writeFile (ascii "ws") (some []),
        .require 0 (ascii "../../ws"), .bodyReturns, .bodyReturns, .requireModule (ascii "ws")] ∧
    Breaks wsHost
      [.requireModule (ascii "fs"), .compileForPublicLoader (ascii "fs"), .setExports 0 9,
        .bodyReturns, .compileForPublicLoader (ascii "fs")] ∧
    ∀ n, ∃ s, runEvents (step wsHost) init
      (List.replicate n (.requireModule (ascii "ws"))) = some s ∧ s.stack.length = n := by
  let ws : Source := .embedded (ascii "vendored/ws/index")
  let fs : Source := .embedded (ascii "fs")
  refine ⟨?_, ?_, ?_, ?_, ?_, bare_cycle_unbounded⟩
  · have hrun : (runEvents (step wsHost) init [.requireModule (ascii "vendored/ws/index"),
        .bodyReturns, .requireModule (ascii "ws")]).map State.log =
          some [.started ws 1 1, .answered ws 0, .completed 0, .started ws 0 0] := by
      decide
    exact breaks_of_log hrun fun s hlog =>
      not_loadedOnce_of_entered [] 0 hlog ⟨by decide, by decide⟩
  · have hrun : (runEvents (step wsHost) init [.requireModule (ascii "fs"), .bodyThrows,
        .requireModule (ascii "fs")]).map State.log =
          some [.answered fs 0, .threw 0, .started fs 0 0] := by
      decide
    exact breaks_of_log hrun fun s hlog =>
      not_loadedOnce_of_served [] hlog (by decide)
  · have hrun : (runEvents (step wsHost) init [.requireModule (ascii "fs"), .bodyReturns,
        .requireModule (ascii "fs" ++ [0])]).map State.log =
          some [.started fs 1 1, .answered fs 0, .completed 0, .started fs 0 0] := by
      decide
    exact breaks_of_log hrun fun s hlog =>
      not_loadedOnce_of_entered [] 0 hlog ⟨by decide, by decide⟩
  · have hrun : (runEvents (step wsHost) init [.requireModule (ascii "vendored/ws/index"),
        .writeFile (ascii "ws") (some []), .require 0 (ascii "../../ws"), .bodyReturns,
        .bodyReturns, .requireModule (ascii "ws")]).map State.log =
          some [.answered ws 1, .answered ws 0, .completed 0, .answered (.file (ascii "ws")) 1,
            .completed 1, .started (.file (ascii "ws")) 1 1, .started ws 0 0] := by
      decide
    exact breaks_of_log hrun fun s hlog =>
      not_loadedOnce_of_served [] hlog (by decide)
  · have hrun : (runEvents (step wsHost) init [.requireModule (ascii "fs"),
        .compileForPublicLoader (ascii "fs"), .setExports 0 9, .bodyReturns,
        .compileForPublicLoader (ascii "fs")]).map State.log =
          some [.answered fs 0, .answered fs 9, .completed 0, .assigned 0 9, .answered fs 0,
            .started fs 0 0] := by
      decide
    exact breaks_of_log hrun fun s hlog =>
      not_loadedOnce_of_served [] hlog (by decide)

end HermesNode.Bootstrap
