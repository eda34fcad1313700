/-
Module: HermesNode.Loader.CacheInvariant
Purpose: The invariant of the loader's module cache over every run: an entry is present exactly for
  the modules whose load completed and those on the load stack, bodies start only while their entry
  is absent, a load that threw leaves no trace in the cache or in its importer, children arrays hold
  no record twice, and every route to an identity answers with the record that is cached for it.
Trusted boundary: none
Main exports: Tidy, Tracked, loader_cache_invariant
-/
import Mathlib.Data.List.Nodup
import Mathlib.Data.List.Perm.Subperm
import HermesNode.Bundle.RootPaths
import HermesNode.Loader.ModuleCache

namespace HermesNode.Loader

open HermesNode.Bundle

/-! ### Children arrays -/

def childrenAt (records : List ModuleRecord) (q : RecordId) : List RecordId :=
  (records[q]?.map (·.children)).getD []

def identityAt (records : List ModuleRecord) (r : RecordId) : Option Bytes :=
  records[r]?.bind (·.bundleIdentity)

variable {f : ModuleRecord → ModuleRecord} {mod : ModuleRecord}

section Records

variable {records : List ModuleRecord} {parent : Option RecordId} {child q : RecordId}

theorem childrenAt_append (h : mod.children = []) :
    childrenAt (records ++ [mod]) q = childrenAt records q := by
  unfold childrenAt
  rcases Nat.lt_trichotomy q records.length with hlt | heq | hgt
  · rw [List.getElem?_append_left hlt]
  · subst heq
    simp [h]
  · have hnew : (records ++ [mod])[q]? = none := by
      apply List.getElem?_eq_none
      simp only [List.length_append, List.length_singleton]
      omega
    have hold : records[q]? = none := List.getElem?_eq_none (by omega)
    rw [hnew, hold]

theorem childrenAt_modify {p : RecordId}
    (h : ∀ m, (f m).children = m.children) :
    childrenAt (records.modify p f) q = childrenAt records q := by
  unfold childrenAt
  rw [List.getElem?_modify]
  cases records[q]? with
  | none => rfl
  | some m =>
      by_cases hp : p = q
      · simp [hp, h]
      · simp [hp]

/-- `updateChildren` adds at most the child, at most to the parent, and with a scan only where it
was not. -/
theorem childrenAt_updateChildren (records : List ModuleRecord) (parent : Option RecordId)
    (child : RecordId) (scan : Bool) (q : RecordId) :
    childrenAt (updateChildren records parent child scan) q = childrenAt records q ∨
      (parent = some q ∧ (scan = true → child ∉ childrenAt records q) ∧
        childrenAt (updateChildren records parent child scan) q =
          childrenAt records q ++ [child]) := by
  cases parent with
  | none => exact Or.inl rfl
  | some p =>
      unfold childrenAt updateChildren
      simp only [List.getElem?_modify]
      cases records[q]? with
      | none => exact Or.inl rfl
      | some m =>
          by_cases hp : p = q
          · subst hp
            by_cases hscan : (scan && m.children.contains child) = true
            · refine Or.inl ?_
              simp only [if_true, Option.map_eq_map, Option.map_some, Option.getD_some, hscan]
            · refine Or.inr ⟨rfl, ?_, ?_⟩
              · intro hs hmem
                apply hscan
                simpa [hs] using hmem
              · simp only [if_true, Option.map_eq_map, Option.map_some, Option.getD_some]
                rw [if_neg hscan]
          · refine Or.inl ?_
            simp [hp]

theorem childrenAt_removeChild (records : List ModuleRecord) (parent : Option RecordId)
    (child q : RecordId) :
    childrenAt (removeChild records parent child) q = childrenAt records q ∧ parent ≠ some q ∨
      (parent = some q ∧ childrenAt (removeChild records parent child) q =
        (childrenAt records q).erase child) := by
  cases parent with
  | none => exact Or.inl ⟨rfl, by simp⟩
  | some p =>
      unfold childrenAt removeChild
      simp only [List.getElem?_modify]
      by_cases hp : p = q
      · subst hp
        refine Or.inr ⟨rfl, ?_⟩
        cases records[p]? with
        | none => rfl
        | some m => simp
      · refine Or.inl ⟨?_, by simpa using hp⟩
        cases records[q]? with
        | none => rfl
        | some m => simp [hp]

@[simp] theorem updateChildren_length (scan : Bool) :
    (updateChildren records parent child scan).length = records.length := by
  cases parent <;> simp [updateChildren]

@[simp] theorem removeChild_length :
    (removeChild records parent child).length = records.length := by
  cases parent <;> simp [removeChild]

theorem identityAt_modify {p : RecordId}
    (h : ∀ m, (f m).bundleIdentity = m.bundleIdentity) :
    identityAt (records.modify p f) q = identityAt records q := by
  unfold identityAt
  rw [List.getElem?_modify]
  cases records[q]? with
  | none => rfl
  | some m =>
      by_cases hp : p = q
      · simp [hp, h]
      · simp [hp]

theorem identityAt_updateChildren (scan : Bool) :
    identityAt (updateChildren records parent child scan) q = identityAt records q := by
  cases parent with
  | none => rfl
  | some p =>
      apply identityAt_modify
      intro m
      split <;> rfl

theorem identityAt_removeChild :
    identityAt (removeChild records parent child) q = identityAt records q := by
  cases parent with
  | none => rfl
  | some p =>
      apply identityAt_modify
      intro m
      rfl

theorem identityAt_append (h : q < records.length) :
    identityAt (records ++ [mod]) q = identityAt records q := by
  unfold identityAt
  rw [List.getElem?_append_left h]

theorem exportsAt_modify {p : RecordId}
    (h : ∀ m, p = q → (f m).exports = m.exports) :
    exportsAt (records.modify p f) q = exportsAt records q := by
  unfold exportsAt
  rw [List.getElem?_modify]
  cases records[q]? with
  | none => rfl
  | some m =>
      by_cases hp : p = q
      · simp [hp, h m hp]
      · simp [hp]

theorem exportsAt_updateChildren (scan : Bool) :
    exportsAt (updateChildren records parent child scan) q = exportsAt records q := by
  cases parent with
  | none => rfl
  | some p =>
      apply exportsAt_modify
      intro m _
      split <;> rfl

theorem exportsAt_removeChild :
    exportsAt (removeChild records parent child) q = exportsAt records q := by
  cases parent with
  | none => rfl
  | some p =>
      apply exportsAt_modify
      intro m _
      rfl

theorem exportsAt_append (h : q < records.length) :
    exportsAt (records ++ [mod]) q = exportsAt records q := by
  unfold exportsAt
  rw [List.getElem?_append_left h]

theorem identityAt_new {mod : ModuleRecord} :
    identityAt (records ++ [mod]) records.length = mod.bundleIdentity := by
  simp [identityAt]

end Records

/-! ### The invariant -/

/-- How often the body of `target` was started. -/
def starts (log : List LogEntry) (target : Bytes) : Nat :=
  log.countP fun
    | .started t _ => t == target
    | _ => false

/-- How often a load of `target` threw. -/
def throws (log : List LogEntry) (target : Bytes) : Nat :=
  log.countP fun
    | .threw t _ _ => t == target
    | _ => false

/-- No load of `target` threw in this part of the log. -/
def NoThrow (target : Bytes) (log : List LogEntry) : Prop :=
  ∀ record parent, LogEntry.threw target record parent ∉ log

/-- What holds of the records and their children arrays. -/
structure Tidy (s : State) : Prop where
  bound : ∀ q r, r ∈ childrenAt s.records q → r < s.records.length
  nodup : ∀ q, (childrenAt s.records q).Nodup

/-- No `module.exports` of this record was assigned in this part of the log. -/
def NoAssign (record : RecordId) (log : List LogEntry) : Prop :=
  ∀ value, LogEntry.assigned record value ∉ log

/-- What the answers in the log say about the cache and the `exports` of its records. -/
structure History (c : Container) (cache : Bytes → Option RecordId) (exports : RecordId → Nat)
    (log : List LogEntry) : Prop where
  /-- An answer stays the cached record until a load of the module throws. -/
  answers : ∀ newer older target r v, log = newer ++ LogEntry.answered target r v :: older →
    NoThrow target newer → target ∈ c.modules ∧ cache (c.filename target) = some r ∧
      (NoAssign r newer → exports r = v)
  /-- Two answers for one module are one record unless a load of it threw in between, and one
  object unless its `exports` was assigned in between. -/
  agree : ∀ newer between older target r v r' v',
    log = newer ++ LogEntry.answered target r v ::
      (between ++ LogEntry.answered target r' v' :: older) → NoThrow target between →
    r = r' ∧ (NoAssign r between → v = v')

/-- What holds of the cache, the load stack and the log. -/
structure Tracked (c : Container) (s : State) : Prop where
  /-- A cached record is the record of the module whose filename is the key. -/
  entries : ∀ name r, s.cache name = some r → ∃ target ∈ c.modules,
    name = c.filename target ∧ r < s.records.length ∧ identityAt s.records r = some target
  frames : ∀ f ∈ s.stack, f.target ∈ c.modules ∧ s.cache (c.filename f.target) = some f.record
  stackNodup : (s.stack.map (·.target)).Nodup
  cached : ∀ target ∈ c.modules, ∀ r, s.cache (c.filename target) = some r →
    LogEntry.completed target r ∈ s.log ∨ ∃ f ∈ s.stack, f.target = target
  completed : ∀ target r, LogEntry.completed target r ∈ s.log → target ∈ c.modules ∧
    s.cache (c.filename target) = some r ∧ ∀ f ∈ s.stack, f.target ≠ target
  dead : ∀ target r parent, LogEntry.threw target r parent ∈ s.log → r < s.records.length ∧
    (∀ name, s.cache name ≠ some r) ∧ ∀ q ∈ parent, r ∉ childrenAt s.records q
  counts : ∀ target ∈ c.modules, starts s.log target = throws s.log target +
    if (s.cache (c.filename target)).isSome then 1 else 0
  history : History c s.cache (exportsAt s.records) s.log

theorem init_tidy : Tidy init := by
  constructor <;> simp [init, childrenAt]

theorem init_tracked (c : Container) : Tracked c init := by
  refine ⟨?_, ?_, ?_, ?_, ?_, ?_, ?_, ?_, ?_⟩ <;> simp [init, starts, throws]

/-- One more log entry: an answer names the cached record and its `exports`, only a throw drops an
entry and only an assignment changes the `exports` of a cached record. -/
theorem History.cons {c : Container} {cache cache' : Bytes → Option RecordId}
    {exports exports' : RecordId → Nat} {log : List LogEntry} {entry : LogEntry}
    (h : History c cache exports log)
    (hanswer : ∀ target r v, entry = .answered target r v →
      target ∈ c.modules ∧ cache (c.filename target) = some r ∧ exports r = v)
    (hkeep : ∀ target ∈ c.modules, ∀ r, cache (c.filename target) = some r →
      (∀ r p, entry ≠ .threw target r p) → cache' (c.filename target) = some r)
    (hexports : ∀ name r, cache name = some r → (∀ v, entry ≠ .assigned r v) →
      exports' r = exports r) :
    History c cache' exports' (entry :: log) := by
  constructor
  · intro newer older target r v hlog hno
    cases newer with
    | nil =>
        rcases List.cons.inj hlog with ⟨rfl, _⟩
        rcases hanswer target r v rfl with ⟨hmem, hcache, hv⟩
        refine ⟨hmem, hkeep target hmem r hcache (fun _ _ heq => by cases heq), ?_⟩
        intro _
        rw [hexports _ r hcache (fun _ heq => by cases heq)]
        exact hv
    | cons first newer =>
        rcases List.cons.inj hlog with ⟨rfl, hrest⟩
        have hnoRest : NoThrow target newer := by
          intro r p hmem
          exact hno r p (List.mem_cons_of_mem _ hmem)
        rcases h.answers newer older target r v hrest hnoRest with ⟨hmem, hcache, hv⟩
        refine ⟨hmem, hkeep target hmem r hcache ?_, ?_⟩
        · intro r' p heq
          exact hno r' p (heq ▸ List.mem_cons_self)
        · intro hassign
          have hentry : ∀ v, entry ≠ .assigned r v := by
            intro v' heq
            exact hassign v' (heq ▸ List.mem_cons_self)
          rw [hexports _ r hcache hentry]
          apply hv
          intro v' hmem'
          exact hassign v' (List.mem_cons_of_mem _ hmem')
  · intro newer between older target r v r' v' hlog hno
    cases newer with
    | nil =>
        rcases List.cons.inj hlog with ⟨rfl, hrest⟩
        rcases hanswer target r v rfl with ⟨_, hnow, hv⟩
        rcases h.answers between older target r' v' hrest hno with ⟨_, hthen, hv'⟩
        rw [hnow, Option.some.injEq] at hthen
        subst hthen
        refine ⟨rfl, ?_⟩
        intro hassign
        exact hv.symm.trans (hv' hassign)
    | cons first newer =>
        rcases List.cons.inj hlog with ⟨rfl, hrest⟩
        exact h.agree newer between older target r v r' v' hrest hno

/-- The same log, with records whose cached ones keep their `exports`. -/
theorem History.congr {c : Container} {cache : Bytes → Option RecordId}
    {exports exports' : RecordId → Nat} {log : List LogEntry} (h : History c cache exports log)
    (hexports : ∀ name r, cache name = some r → exports' r = exports r) :
    History c cache exports' log := by
  refine ⟨?_, h.agree⟩
  intro newer older target r v hlog hno
  rcases h.answers newer older target r v hlog hno with ⟨hmem, hcache, hv⟩
  refine ⟨hmem, hcache, ?_⟩
  intro hassign
  rw [hexports _ r hcache]
  exact hv hassign

/-! ### Steps -/

/-- A cached record stays that of its module when records keep their places and identities. -/
theorem Tracked.entry_of {c : Container} {s : State} (h : Tracked c s)
    {records : List ModuleRecord} (hlen : s.records.length ≤ records.length)
    (hidentity : ∀ r < s.records.length, identityAt records r = identityAt s.records r)
    {name : Bytes} {r : RecordId} (hr : s.cache name = some r) : ∃ target ∈ c.modules,
      name = c.filename target ∧ r < records.length ∧ identityAt records r = some target := by
  rcases h.entries name r hr with ⟨target, hmem, hname, hlt, hid⟩
  exact ⟨target, hmem, hname, Nat.lt_of_lt_of_le hlt hlen, (hidentity r hlt).trans hid⟩

/-- Changing records in ways the cache does not see. -/
theorem Tracked.withRecords {c : Container} {s : State} (h : Tracked c s)
    (records : List ModuleRecord) (objects : Nat) (hlen : s.records.length ≤ records.length)
    (hidentity : ∀ r < s.records.length, identityAt records r = identityAt s.records r)
    (hexports : ∀ r < s.records.length, exportsAt records r = exportsAt s.records r)
    (hdead : ∀ target r parent, LogEntry.threw target r parent ∈ s.log →
      ∀ q ∈ parent, r ∉ childrenAt records q) :
    Tracked c { s with records, objects } := by
  refine ⟨?_, h.frames, h.stackNodup, h.cached, h.completed, ?_, h.counts, h.history.congr ?_⟩
  · exact fun name r hr => h.entry_of hlen hidentity hr
  · intro target r parent hthrew
    rcases h.dead target r parent hthrew with ⟨hlt, hcache, _⟩
    exact ⟨Nat.lt_of_lt_of_le hlt hlen, hcache, hdead target r parent hthrew⟩
  · intro name r hr
    rcases h.entries name r hr with ⟨_, _, _, hlt, _⟩
    exact hexports r hlt

theorem Tidy.updateChildren {s : State} (h : Tidy s) (parent : Option RecordId)
    (child : RecordId) (scan : Bool) (hfresh : scan = false → ∀ q, child ∉ childrenAt s.records q) :
    (∀ q r, r ∈ childrenAt (updateChildren s.records parent child scan) q →
      r < s.records.length ∨ r = child) ∧
    (∀ q, (childrenAt (updateChildren s.records parent child scan) q).Nodup) := by
  constructor
  · intro q r hr
    rcases childrenAt_updateChildren s.records parent child scan q with hsame | ⟨_, _, hadd⟩
    · rw [hsame] at hr
      exact Or.inl (h.bound q r hr)
    · rw [hadd] at hr
      rcases List.mem_append.mp hr with hold | hnew
      · exact Or.inl (h.bound q r hold)
      · exact Or.inr (List.mem_singleton.mp hnew)
  · intro q
    rcases childrenAt_updateChildren s.records parent child scan q with hsame | ⟨_, hscan, hadd⟩
    · rw [hsame]
      exact h.nodup q
    · rw [hadd]
      apply List.Nodup.append (h.nodup q) (List.nodup_singleton child)
      intro r hr hnew
      rw [List.mem_singleton.mp hnew] at hr
      cases scan with
      | true => exact hscan rfl hr
      | false => exact hfresh rfl q hr

variable {c : Container} {s : State}

theorem Tracked.ne_dead (h : Tracked c s) {name target : Bytes} {r dead : RecordId}
    {parent : Option RecordId} (hr : s.cache name = some r)
    (hdead : LogEntry.threw target dead parent ∈ s.log) : dead ≠ r := by
  rintro rfl
  exact (h.dead target dead parent hdead).2.1 name hr

theorem hit_good {target : Bytes} {parent : Option RecordId} {cached : RecordId}
    (ht : Tidy s) (h : Tracked c s) (hmem : target ∈ c.modules)
    (hcache : s.cache (c.filename target) = some cached) :
    let s' := { s with
      records := updateChildren s.records parent cached true
      log := .answered target cached (exportsAt s.records cached) :: s.log }
    Tidy s' ∧ Tracked c s' := by
  intro s'
  rcases h.entries _ _ hcache with ⟨_, _, _, hlt, _⟩
  rcases ht.updateChildren parent cached true (fun heq => by cases heq) with ⟨hbound, hnodup⟩
  have hdead : ∀ t r p, LogEntry.threw t r p ∈ s.log → ∀ q ∈ p,
      r ∉ childrenAt (updateChildren s.records parent cached true) q := by
    intro t r p hthrew q hq hchild
    rcases childrenAt_updateChildren s.records parent cached true q with hsame | ⟨_, _, hadd⟩
    · rw [hsame] at hchild
      exact (h.dead t r p hthrew).2.2 q hq hchild
    · rw [hadd] at hchild
      rcases List.mem_append.mp hchild with hold | hnew
      · exact (h.dead t r p hthrew).2.2 q hq hold
      · exact h.ne_dead hcache hthrew (List.mem_singleton.mp hnew)
  have hrecords := h.withRecords (updateChildren s.records parent cached true) s.objects (by simp)
    (fun r _ => identityAt_updateChildren true) (fun r _ => exportsAt_updateChildren true) hdead
  constructor
  · refine ⟨?_, hnodup⟩
    intro q r hr
    rw [updateChildren_length]
    rcases hbound q r hr with hold | rfl
    · exact hold
    · exact hlt
  · refine ⟨hrecords.entries, hrecords.frames, hrecords.stackNodup, ?_, ?_, ?_, ?_, ?_⟩
    · intro t ht r hr
      rcases h.cached t ht r hr with hdone | hstack
      · exact Or.inl (List.mem_cons_of_mem _ hdone)
      · exact Or.inr hstack
    · intro t r hdone
      rcases List.mem_cons.mp hdone with heq | hold
      · cases heq
      · exact h.completed t r hold
    · intro t r p hthrew
      rcases List.mem_cons.mp hthrew with heq | hold
      · cases heq
      · exact hrecords.dead t r p hold
    · intro t ht
      simpa [s', starts, throws] using h.counts t ht
    · apply h.history.cons
      · intro t r v' heq
        cases heq
        exact ⟨hmem, hcache, rfl⟩
      · intro t _ r hr _
        exact hr
      · intro name r _ _
        exact exportsAt_updateChildren true

/-- The filenames of a container's modules are its keys, one each. -/
def Container.Distinct (c : Container) : Prop :=
  ∀ t ∈ c.modules, ∀ t' ∈ c.modules, c.filename t = c.filename t' → t = t'

/-- A require of a module that is not in the cache: its body starts. -/
theorem start_good {target : Bytes} {parent : Option RecordId}
    (hc : c.Distinct) (ht : Tidy s) (h : Tracked c s) (hmem : target ∈ c.modules)
    (hcache : s.cache (c.filename target) = none) (hmod : mod.children = [])
    (hidentity : mod.bundleIdentity = some target) (objects : Nat) :
    let s' : State :=
      { records := updateChildren s.records parent s.records.length false ++ [mod]
        cache := Function.update s.cache (c.filename target) (some s.records.length)
        stack := { target, record := s.records.length, parent } :: s.stack
        objects
        log := .started target s.records.length :: s.log }
    Tidy s' ∧ Tracked c s' := by
  intro s'
  have hfresh : ∀ q, s.records.length ∉ childrenAt s.records q := by
    intro q hq
    exact Nat.lt_irrefl _ (ht.bound q _ hq)
  rcases ht.updateChildren parent s.records.length false (fun _ => hfresh) with ⟨hbound, hnodup⟩
  have hother : ∀ {t : Bytes}, t ∈ c.modules → t ≠ target →
      s'.cache (c.filename t) = s.cache (c.filename t) := by
    intro t htm hne
    apply Function.update_of_ne
    intro heq
    exact hne (hc t htm target hmem heq)
  have hself : s'.cache (c.filename target) = some s.records.length := Function.update_self ..
  -- a module that is cached before the step is another one
  have hkept : ∀ {t : Bytes} {r : RecordId}, t ∈ c.modules →
      s.cache (c.filename t) = some r → t ≠ target := by
    rintro t r htm hr rfl
    rw [hcache] at hr
    cases hr
  have hchildren : ∀ q, childrenAt s'.records q =
      childrenAt (updateChildren s.records parent s.records.length false) q := by
    intro q
    exact childrenAt_append hmod
  have hlen : s'.records.length = s.records.length + 1 := by
    simp [s']
  constructor
  · constructor
    · intro q r hr
      rw [hchildren] at hr
      rw [hlen]
      rcases hbound q r hr with hold | rfl
      · exact Nat.lt_succ_of_lt hold
      · exact Nat.lt_succ_self _
    · intro q
      rw [hchildren]
      exact hnodup q
  · refine ⟨?_, ?_, ?_, ?_, ?_, ?_, ?_, ?_⟩
    · intro name r hr
      by_cases hname : name = c.filename target
      · subst hname
        rw [hself] at hr
        cases hr
        refine ⟨target, hmem, rfl, by rw [hlen]; exact Nat.lt_succ_self _, ?_⟩
        have hnew := @identityAt_new (updateChildren s.records parent s.records.length false) mod
        rw [updateChildren_length] at hnew
        exact hnew.trans hidentity
      · have hold : s.cache name = some r := by
          simpa [s', hname] using hr
        rcases h.entries name r hold with ⟨t, htm, hnameEq, hlt, hid⟩
        refine ⟨t, htm, hnameEq, by rw [hlen]; exact Nat.lt_succ_of_lt hlt, ?_⟩
        rw [identityAt_append (by rw [updateChildren_length]; exact hlt),
          identityAt_updateChildren]
        exact hid
    · intro f hf
      rcases List.mem_cons.mp hf with rfl | hold
      · exact ⟨hmem, hself⟩
      · rcases h.frames f hold with ⟨hfm, hfc⟩
        exact ⟨hfm, (hother hfm (hkept hfm hfc)).trans hfc⟩
    · refine List.nodup_cons.mpr ⟨?_, h.stackNodup⟩
      intro hin
      rcases List.mem_map.mp hin with ⟨f, hf, heq⟩
      rcases h.frames f hf with ⟨hfm, hfc⟩
      exact hkept hfm hfc heq
    · intro t htm r hr
      by_cases heq : t = target
      · exact Or.inr ⟨_, List.mem_cons_self, heq.symm⟩
      · rw [hother htm heq] at hr
        rcases h.cached t htm r hr with hdone | ⟨f, hf, hft⟩
        · exact Or.inl (List.mem_cons_of_mem _ hdone)
        · exact Or.inr ⟨f, List.mem_cons_of_mem _ hf, hft⟩
    · intro t r hdone
      rcases List.mem_cons.mp hdone with heq | hold
      · cases heq
      · rcases h.completed t r hold with ⟨htm, hr, hstack⟩
        have hne := hkept htm hr
        refine ⟨htm, (hother htm hne).trans hr, ?_⟩
        intro f hf
        rcases List.mem_cons.mp hf with rfl | hold
        · exact Ne.symm hne
        · exact hstack f hold
    · intro t r p hthrew
      rcases List.mem_cons.mp hthrew with heq | hold
      · cases heq
      · rcases h.dead t r p hold with ⟨hlt, hnot, hchild⟩
        refine ⟨by rw [hlen]; exact Nat.lt_succ_of_lt hlt, ?_, ?_⟩
        · intro name hr
          by_cases hname : name = c.filename target
          · subst hname
            rw [hself] at hr
            cases hr
            exact Nat.lt_irrefl _ hlt
          · exact hnot name (by simpa [s', hname] using hr)
        · intro q hq hin
          rw [hchildren] at hin
          rcases childrenAt_updateChildren s.records parent s.records.length false q with
            hsame | ⟨_, _, hadd⟩
          · rw [hsame] at hin
            exact hchild q hq hin
          · rw [hadd] at hin
            rcases List.mem_append.mp hin with hin | hin
            · exact hchild q hq hin
            · rw [List.mem_singleton.mp hin] at hlt
              exact Nat.lt_irrefl _ hlt
    · intro t htm
      have hcounts := h.counts t htm
      by_cases heq : t = target
      · subst heq
        rw [hself]
        rw [hcache] at hcounts
        simpa [s', starts, throws] using hcounts
      · rw [hother htm heq]
        have hbeq : (target == t) = false := by simpa using Ne.symm heq
        simpa [s', starts, throws, hbeq] using hcounts
    · apply h.history.cons
      · intro t r v heq
        cases heq
      · intro t htm r hr _
        exact (hother htm (hkept htm hr)).trans hr
      · intro name r hr _
        rcases h.entries name r hr with ⟨_, _, _, hlt, _⟩
        rw [exportsAt_append (by rw [updateChildren_length]; exact hlt), exportsAt_updateChildren]

/-- Changing fields of one record other than its children and identity leaves the arrays tidy. -/
theorem Tidy.modify {p : RecordId} (ht : Tidy s)
    (hchildren : ∀ m, (f m).children = m.children) :
    Tidy { s with records := s.records.modify p f } := by
  constructor
  · intro q r hr
    rw [childrenAt_modify hchildren] at hr
    simpa using ht.bound q r hr
  · intro q
    rw [childrenAt_modify hchildren]
    exact ht.nodup q

theorem setExports_good (ht : Tidy s) (h : Tracked c s) (record value : Nat) :
    let s' := { s with
      records := s.records.modify record fun m => { m with exports := value }
      log := .assigned record value :: s.log }
    Tidy s' ∧ Tracked c s' := by
  intro s'
  have hchildren : ∀ q, childrenAt s'.records q = childrenAt s.records q := by
    intro q
    exact childrenAt_modify (fun m => rfl)
  have hidentity : ∀ r, identityAt s'.records r = identityAt s.records r := by
    intro r
    exact identityAt_modify (fun m => rfl)
  have hlen : s'.records.length = s.records.length := by
    simp [s']
  constructor
  · have htidy := ht.modify (p := record) (f := fun m => { m with exports := value })
      (fun m => rfl)
    exact ⟨htidy.bound, htidy.nodup⟩
  · refine ⟨?_, h.frames, h.stackNodup, ?_, ?_, ?_, ?_, ?_⟩
    · exact fun name r hr => h.entry_of hlen.ge (fun r _ => hidentity r) hr
    · intro t htm r hr
      rcases h.cached t htm r hr with hdone | hstack
      · exact Or.inl (List.mem_cons_of_mem _ hdone)
      · exact Or.inr hstack
    · intro t r hdone
      rcases List.mem_cons.mp hdone with heq | hold
      · cases heq
      · exact h.completed t r hold
    · intro t r p hthrew
      rcases List.mem_cons.mp hthrew with heq | hold
      · cases heq
      · rcases h.dead t r p hold with ⟨hlt, hnot, hchild⟩
        refine ⟨by rw [hlen]; exact hlt, hnot, ?_⟩
        intro q hq
        rw [hchildren]
        exact hchild q hq
    · intro t htm
      simpa [s', starts, throws] using h.counts t htm
    · apply h.history.cons
      · intro t r v heq
        cases heq
      · intro t _ r hr _
        exact hr
      · intro name r _ hne
        apply exportsAt_modify
        rintro m rfl
        exact absurd rfl (hne value)

/-- `Module.createRequire()`: a record the cache never holds. -/
theorem createRequire_good (ht : Tidy s) (h : Tracked c s)
    (hmod : mod.children = []) (objects : Nat) :
    Tidy { s with records := s.records ++ [mod], objects } ∧
      Tracked c { s with records := s.records ++ [mod], objects } := by
  constructor
  · constructor
    · intro q r hr
      rw [childrenAt_append hmod] at hr
      simp only [List.length_append, List.length_singleton]
      exact Nat.lt_succ_of_lt (ht.bound q r hr)
    · intro q
      rw [childrenAt_append hmod]
      exact ht.nodup q
  · apply h.withRecords (s.records ++ [mod]) objects (by simp)
    · intro r hlt
      exact identityAt_append hlt
    · intro r hlt
      exact exportsAt_append hlt
    · intro t r parent hthrew q hq
      rw [childrenAt_append hmod]
      exact (h.dead t r parent hthrew).2.2 q hq

/-- The innermost body returns: its entry stays and its frame goes. -/
theorem returns_good {frame : Frame} {rest : List Frame} (ht : Tidy s) (h : Tracked c s)
    (hstack : s.stack = frame :: rest) :
    let s' := { s with
      records := s.records.modify frame.record fun m => { m with loaded := true }
      stack := rest
      log := .answered frame.target frame.record (exportsAt s.records frame.record) ::
        .completed frame.target frame.record :: s.log }
    Tidy s' ∧ Tracked c s' := by
  intro s'
  have hnodup : frame.target ∉ rest.map (·.target) ∧ (rest.map (·.target)).Nodup := by
    have hall := h.stackNodup
    rw [hstack] at hall
    exact List.nodup_cons.mp hall
  have hframe := h.frames frame (by rw [hstack]; exact List.mem_cons_self)
  have hlen : s'.records.length = s.records.length := by
    simp [s']
  have hchildren : ∀ q, childrenAt s'.records q = childrenAt s.records q := by
    intro q
    exact childrenAt_modify (fun m => rfl)
  have hidentity : ∀ r, identityAt s'.records r = identityAt s.records r := by
    intro r
    exact identityAt_modify (fun m => rfl)
  have hexports : ∀ r, exportsAt s'.records r = exportsAt s.records r := by
    intro r
    exact exportsAt_modify (fun m _ => rfl)
  constructor
  · have htidy := ht.modify (p := frame.record) (f := fun m => { m with loaded := true })
      (fun m => rfl)
    exact ⟨htidy.bound, htidy.nodup⟩
  · refine ⟨?_, ?_, hnodup.2, ?_, ?_, ?_, ?_, ?_⟩
    · exact fun name r hr => h.entry_of hlen.ge (fun r _ => hidentity r) hr
    · intro f hf
      apply h.frames f
      rw [hstack]
      exact List.mem_cons_of_mem _ hf
    · intro t htm r hr
      by_cases heq : t = frame.target
      · subst heq
        have hsame : frame.record = r := Option.some.inj (hframe.2.symm.trans hr)
        refine Or.inl (List.mem_cons_of_mem _ ?_)
        rw [hsame]
        exact List.mem_cons_self
      · rcases h.cached t htm r hr with hdone | ⟨f, hf, hft⟩
        · exact Or.inl (List.mem_cons_of_mem _ (List.mem_cons_of_mem _ hdone))
        · rw [hstack] at hf
          rcases List.mem_cons.mp hf with rfl | hf
          · exact absurd hft.symm heq
          · exact Or.inr ⟨f, hf, hft⟩
    · intro t r hdone
      rcases List.mem_cons.mp hdone with heq | hdone
      · cases heq
      · rcases List.mem_cons.mp hdone with heq | hold
        · cases heq
          refine ⟨hframe.1, hframe.2, ?_⟩
          intro f hf heq
          exact hnodup.1 (List.mem_map.mpr ⟨f, hf, heq⟩)
        · rcases h.completed t r hold with ⟨htm, hr, hother⟩
          refine ⟨htm, hr, ?_⟩
          intro f hf
          apply hother f
          rw [hstack]
          exact List.mem_cons_of_mem _ hf
    · intro t r p hthrew
      rcases List.mem_cons.mp hthrew with heq | hthrew
      · cases heq
      · rcases List.mem_cons.mp hthrew with heq | hold
        · cases heq
        · rcases h.dead t r p hold with ⟨hlt, hnot, hchild⟩
          refine ⟨by rw [hlen]; exact hlt, hnot, ?_⟩
          intro q hq
          rw [hchildren]
          exact hchild q hq
    · intro t htm
      simpa [s', starts, throws] using h.counts t htm
    · have hdone : History c s.cache (exportsAt s.records)
          (.completed frame.target frame.record :: s.log) := by
        apply h.history.cons
        · intro t r v heq
          cases heq
        · intro t _ r hr _
          exact hr
        · intro name r _ _
          rfl
      apply hdone.cons
      · intro t r v heq
        cases heq
        exact ⟨hframe.1, hframe.2, rfl⟩
      · intro t _ r hr _
        exact hr
      · intro name r _ _
        exact hexports r

/-- The innermost body throws: `finally` takes its record out of the cache and out of the children
of the parent that required it. -/
theorem throws_good {frame : Frame} {rest : List Frame} (hc : c.Distinct) (ht : Tidy s)
    (h : Tracked c s) (hstack : s.stack = frame :: rest) :
    let s' := { s with
      records := removeChild s.records frame.parent frame.record
      cache := Function.update s.cache (c.filename frame.target) none
      stack := rest
      log := .threw frame.target frame.record frame.parent :: s.log }
    Tidy s' ∧ Tracked c s' := by
  intro s'
  have hnodup : frame.target ∉ rest.map (·.target) ∧ (rest.map (·.target)).Nodup := by
    have hall := h.stackNodup
    rw [hstack] at hall
    exact List.nodup_cons.mp hall
  have hmem : frame ∈ s.stack := by
    rw [hstack]
    exact List.mem_cons_self
  rcases h.frames frame hmem with ⟨hfm, hfc⟩
  have hlen : s'.records.length = s.records.length := by
    simp [s']
  have hself : s'.cache (c.filename frame.target) = none := Function.update_self ..
  have hother : ∀ {t : Bytes}, t ∈ c.modules → t ≠ frame.target →
      s'.cache (c.filename t) = s.cache (c.filename t) := by
    intro t htm hne
    apply Function.update_of_ne
    intro heq
    exact hne (hc t htm frame.target hfm heq)
  -- an entry that is left was there before, under another name
  have hleft : ∀ {name : Bytes} {r : RecordId}, s'.cache name = some r →
      name ≠ c.filename frame.target ∧ s.cache name = some r := by
    intro name r hr
    by_cases hname : name = c.filename frame.target
    · rw [hname, hself] at hr
      cases hr
    · exact ⟨hname, by simpa [s', hname] using hr⟩
  have hsub : ∀ q r, r ∈ childrenAt s'.records q → r ∈ childrenAt s.records q := by
    intro q r hr
    rcases childrenAt_removeChild s.records frame.parent frame.record q with ⟨hsame, _⟩ | ⟨_, herase⟩
    · exact hsame ▸ hr
    · rw [herase] at hr
      exact List.mem_of_mem_erase hr
  constructor
  · constructor
    · intro q r hr
      rw [hlen]
      exact ht.bound q r (hsub q r hr)
    · intro q
      rcases childrenAt_removeChild s.records frame.parent frame.record q with
        ⟨hsame, _⟩ | ⟨_, herase⟩
      · rw [hsame]
        exact ht.nodup q
      · rw [herase]
        exact (ht.nodup q).erase frame.record
  · refine ⟨?_, ?_, hnodup.2, ?_, ?_, ?_, ?_, ?_⟩
    · exact fun name r hr => h.entry_of hlen.ge (fun _ _ => identityAt_removeChild)
        (hleft hr).2
    · intro f hf
      have hin : f ∈ s.stack := by
        rw [hstack]
        exact List.mem_cons_of_mem _ hf
      rcases h.frames f hin with ⟨hm, hr⟩
      have hne : f.target ≠ frame.target := by
        intro heq
        exact hnodup.1 (List.mem_map.mpr ⟨f, hf, heq⟩)
      exact ⟨hm, (hother hm hne).trans hr⟩
    · intro t htm r hr
      rcases h.cached t htm r (hleft hr).2 with hdone | ⟨f, hf, hft⟩
      · exact Or.inl (List.mem_cons_of_mem _ hdone)
      · rw [hstack] at hf
        rcases List.mem_cons.mp hf with rfl | hf
        · rw [← hft, hself] at hr
          cases hr
        · exact Or.inr ⟨f, hf, hft⟩
    · intro t r hdone
      rcases List.mem_cons.mp hdone with heq | hold
      · cases heq
      · rcases h.completed t r hold with ⟨htm, hr, hnot⟩
        refine ⟨htm, (hother htm (Ne.symm (hnot frame hmem))).trans hr, ?_⟩
        intro f hf
        apply hnot f
        rw [hstack]
        exact List.mem_cons_of_mem _ hf
    · intro t r p hthrew
      rcases List.mem_cons.mp hthrew with heq | hold
      · cases heq
        rcases h.entries _ _ hfc with ⟨_, _, _, hlt, hid⟩
        refine ⟨by rw [hlen]; exact hlt, ?_, ?_⟩
        · -- a record is cached under the filename of its own identity only
          intro name hr
          rcases hleft hr with ⟨hne, hold⟩
          rcases h.entries _ _ hold with ⟨t, _, hname, _, hid'⟩
          rcases h.entries _ _ hfc with ⟨t', _, hname', _, hid⟩
          have hsame : t = t' := Option.some.inj (hid'.symm.trans hid)
          rw [hname, hname', hsame] at hne
          exact hne rfl
        · intro q hq hin
          rcases childrenAt_removeChild s.records frame.parent frame.record q with
            ⟨_, hne⟩ | ⟨_, herase⟩
          · exact hne hq
          · rw [herase] at hin
            exact (ht.nodup q).not_mem_erase hin
      · rcases h.dead t r p hold with ⟨hlt, hnot, hchild⟩
        refine ⟨by rw [hlen]; exact hlt, ?_, ?_⟩
        · intro name hr
          exact hnot name (hleft hr).2
        · intro q hq hin
          exact hchild q hq (hsub q r hin)
    · intro t htm
      have hcounts := h.counts t htm
      by_cases heq : t = frame.target
      · subst heq
        rw [hself]
        rw [hfc] at hcounts
        simpa [s', starts, throws] using hcounts
      · rw [hother htm heq]
        have hbeq : (frame.target == t) = false := by simpa using Ne.symm heq
        simpa [s', starts, throws, hbeq] using hcounts
    · apply h.history.cons
      · intro t r v heq
        cases heq
      · intro t htm r hr hne
        have hdiff : t ≠ frame.target := by
          rintro rfl
          exact hne _ _ rfl
        exact (hother htm hdiff).trans hr
      · intro name r _ _
        exact exportsAt_removeChild

/-- Every step keeps the invariant. -/
theorem step_good (hc : c.Distinct) {s' : State} {e : Event} (hstep : step c s e = some s')
    (h : Tidy s ∧ Tracked c s) : Tidy s' ∧ Tracked c s' := by
  rcases h with ⟨ht, h⟩
  cases e with
  | createRequire filename =>
      cases hstep
      exact createRequire_good ht h rfl _
  | require route parent target isMain =>
      simp only [step] at hstep
      split at hstep
      · rename_i hguard
        cases hstep
        simp only [loadIdentity]
        split
        · rename_i cached hcache
          exact hit_good ht h hguard.1 hcache
        · rename_i hcache
          exact start_good hc ht h hguard.1 hcache rfl rfl _
      · cases hstep
  | setExports record value =>
      cases hstep
      exact setExports_good ht h record value
  | bodyReturns =>
      simp only [step] at hstep
      split at hstep
      · cases hstep
      · rename_i frame rest hstack
        cases hstep
        exact returns_good ht h hstack
  | bodyThrows =>
      simp only [step] at hstep
      split at hstep
      · cases hstep
      · rename_i frame rest hstack
        cases hstep
        exact throws_good hc ht h hstack

/-- Identities the reader accepts have filenames of their own. -/
theorem distinct_of_valid (hvalid : ∀ id ∈ c.modules, isValidIdentity id = true) : c.Distinct := by
  intro t htm t' htm' heq
  exact posixJoin_injective (plain_of_isValidIdentity (hvalid t htm))
    (plain_of_isValidIdentity (hvalid t' htm')) heq

theorem started_absent {s' : State} {e : Event} {target : Bytes} {record : RecordId}
    (hstep : step c s e = some s') (hlog : s'.log = LogEntry.started target record :: s.log) :
    s.cache (c.filename target) = none := by
  cases e with
  | createRequire filename =>
      cases hstep
      exact absurd hlog (List.cons_ne_self _ _).symm
  | require route parent t isMain =>
      simp only [step] at hstep
      split at hstep
      · cases hstep
        simp only [loadIdentity] at hlog
        split at hlog
        · cases (List.cons.inj hlog).1
        · rename_i hcache
          cases (List.cons.inj hlog).1
          exact hcache
      · cases hstep
  | setExports record value =>
      cases hstep
      cases (List.cons.inj hlog).1
  | bodyReturns =>
      simp only [step] at hstep
      split at hstep
      · cases hstep
      · cases hstep
        cases (List.cons.inj hlog).1
  | bodyThrows =>
      simp only [step] at hstep
      split at hstep
      · cases hstep
      · cases hstep
        cases (List.cons.inj hlog).1

/-- What the loader promises about its cache, its load stack and its answers. -/
structure CacheInvariant (c : Container) (s : State) : Prop where
  present : ∀ target ∈ c.modules, (s.cache (c.filename target)).isSome ↔
    (∃ r, LogEntry.completed target r ∈ s.log) ∨ ∃ f ∈ s.stack, f.target = target
  /-- A start needs an absent entry, in whatever way the program goes on. -/
  startsAbsent : ∀ e s' target r, step c s e = some s' →
    s'.log = LogEntry.started target r :: s.log → s.cache (c.filename target) = none
  /-- Bodies run once, and once more for every load that threw. -/
  startsOnce : ∀ target ∈ c.modules, starts s.log target = throws s.log target +
    if (s.cache (c.filename target)).isSome then 1 else 0
  /-- No body is on the load stack twice, so a cycle does not nest. -/
  stackNodup : (s.stack.map (·.target)).Nodup
  stackBound : s.stack.length ≤ c.modules.length
  failed : ∀ target r parent, LogEntry.threw target r parent ∈ s.log →
    (∀ name, s.cache name ≠ some r) ∧ ∀ q ∈ parent, r ∉ childrenAt s.records q
  children : ∀ q, (childrenAt s.records q).Nodup
  /-- The record a require answered with stays the cached one until a load of it throws. -/
  answerCached : ∀ newer older target r v, s.log = newer ++ LogEntry.answered target r v :: older →
    NoThrow target newer → s.cache (c.filename target) = some r
  /-- Any two routes to a module answer with one record, and with one object as long as nobody
  assigned `module.exports` in between. -/
  answersAgree : ∀ newer between older target r v r' v',
    s.log = newer ++ LogEntry.answered target r v ::
      (between ++ LogEntry.answered target r' v' :: older) → NoThrow target between →
    r = r' ∧ (NoAssign r between → v = v')

theorem Tracked.present (h : Tracked c s) {target : Bytes} (hmem : target ∈ c.modules) :
    (s.cache (c.filename target)).isSome ↔
      (∃ r, LogEntry.completed target r ∈ s.log) ∨ ∃ f ∈ s.stack, f.target = target := by
  constructor
  · intro hsome
    rcases Option.isSome_iff_exists.mp hsome with ⟨r, hr⟩
    rcases h.cached target hmem r hr with hdone | hstack
    · exact Or.inl ⟨r, hdone⟩
    · exact Or.inr hstack
  · rintro (⟨r, hdone⟩ | ⟨f, hf, rfl⟩)
    · rw [(h.completed target r hdone).2.1]
      rfl
    · rw [(h.frames f hf).2]
      rfl

theorem Tracked.stack_bound (h : Tracked c s) : s.stack.length ≤ c.modules.length := by
  have hsub : s.stack.map (·.target) ⊆ c.modules := by
    intro target htarget
    rcases List.mem_map.mp htarget with ⟨f, hf, rfl⟩
    exact (h.frames f hf).1
  have hperm := List.subperm_of_subset h.stackNodup hsub
  simpa using hperm.length_le

/-- Over every run of requires, returns and throws, the loader keeps its cache invariant. -/
theorem loader_cache_invariant (c : Container)
    (hvalid : ∀ id ∈ c.modules, isValidIdentity id = true) (events : List Event) (s : State)
    (hrun : runEvents (step c) init events = some s) : CacheInvariant c s := by
  have hgood : Tidy s ∧ Tracked c s :=
    runEvents_invariant (fun _ _ _ h hstep => step_good (distinct_of_valid hvalid) hstep h)
      ⟨init_tidy, init_tracked c⟩ hrun
  rcases hgood with ⟨ht, h⟩
  constructor
  · intro target hmem
    exact h.present hmem
  · intro e s' target r hstep hlog
    exact started_absent hstep hlog
  · exact h.counts
  · exact h.stackNodup
  · exact h.stack_bound
  · intro target r parent hthrew
    exact (h.dead target r parent hthrew).2
  · exact ht.nodup
  · intro newer older target r v hlog hno
    exact (h.history.answers newer older target r v hlog hno).2.1
  · exact h.history.agree

/-- Two modules that require each other. -/
def cyclicPair : Container := { root := ascii "/app", modules := [ascii "a.js", ascii "lib/b.js"] }

/-- `a.js` requires `lib/b.js`, which requires `a.js` back by a computed specifier and throws;
`a.js` catches it, requires it again, and both finish. -/
def retriedCycle : List Event :=
  [.require .run none (ascii "a.js") true, .require .edge (some 0) (ascii "lib/b.js") false,
    .require .resolver (some 1) (ascii "a.js") false, .bodyThrows,
    .require .edge (some 0) (ascii "lib/b.js") false, .setExports 2 7, .bodyReturns, .bodyReturns]

theorem retriedCycle_invariant : ∃ s, runEvents (step cyclicPair) init retriedCycle = some s ∧
    s.log.length = 10 ∧ CacheInvariant cyclicPair s :=
  ⟨_, rfl, rfl, loader_cache_invariant cyclicPair (by decide) retriedCycle _ rfl⟩

end HermesNode.Loader
