/-
Module: HermesNode.VmOptions.Precedence
Purpose: Which option decides. Deduplication keeps the last occurrence of every flag, so that the
  configuration is the one of the last occurrences, however the sources interleave; a locked
  container is run with its own options or not at all; and the two main programs agree.
Trusted boundary: none
Main exports: lastNamed, lastGiven, locked_or_last
-/
import HermesNode.Bundle.ReaderSafety
import HermesNode.VmOptions.Options
import Mathlib.Data.List.Nodup
import Mathlib.Data.List.TakeWhile

namespace HermesNode.VmOptions

open HermesNode.Bundle

/-! ### Deduplication keeps the last occurrence -/

/-- The option names the flag. -/
def named (name opt : Bytes) : Bool := vmOptionFlagName opt == name

/-- The last option that names a flag. -/
def lastNamed (options : List Bytes) (name : Bytes) : Option Bytes :=
  options.reverse.find? (named name)

theorem lastNamed_append (options : List Bytes) (opt name : Bytes) :
    lastNamed (options ++ [opt]) name =
      if vmOptionFlagName opt = name then some opt else lastNamed options name := by
  by_cases h : vmOptionFlagName opt = name
  · simp [lastNamed, named, h]
  · simp [lastNamed, named, h]

variable {options : List Bytes}

theorem lastNamed_name {name opt : Bytes}
    (h : lastNamed options name = some opt) : vmOptionFlagName opt = name := by
  have hnamed := List.find?_some h
  simpa [named] using hnamed

theorem lookup_zipIdx (names : List Bytes) (name : Bytes) (start : Nat) :
    (names.zipIdx start).lookup name = (names.findIdx? (· == name)).map (· + start) := by
  induction names generalizing start with
  | nil => rfl
  | cons first names ih =>
      rw [List.zipIdx_cons, List.lookup_cons, List.findIdx?_cons, ih]
      by_cases h : name = first
      · simp [h]
      · have hne : (first == name) = false := by
          simpa using fun h' => h h'.symm
        have hne' : (name == first) = false := by
          simpa using h
        simp only [hne, hne', Bool.false_eq_true, if_false, Option.map_map]
        congr 1
        funext i
        simp only [Function.comp_apply]
        omega

/-- What deduplication keeps: the last occurrence of every flag that was named, each once. -/
structure Keeps (options : List Bytes) (d : Deduped) : Prop where
  index : d.indexOfName = (d.options.map vmOptionFlagName).zipIdx
  once : (d.options.map vmOptionFlagName).Nodup
  last : ∀ opt, opt ∈ d.options ↔ lastNamed options (vmOptionFlagName opt) = some opt

theorem Keeps.nil : Keeps [] ⟨[], []⟩ where
  index := rfl
  once := List.nodup_nil
  last := by
    intro opt
    simp [lastNamed]

theorem Keeps.overwrite {d : Deduped} (keeps : Keeps options d)
    {opt : Bytes} {i : Nat} (hlt : i < d.options.length)
    (hname : vmOptionFlagName d.options[i] = vmOptionFlagName opt) :
    Keeps (options ++ [opt]) { d with options := d.options.set i opt } := by
  have hmap : (d.options.set i opt).map vmOptionFlagName = d.options.map vmOptionFlagName := by
    rw [List.map_set, ← hname]
    apply List.ext_getElem
    · simp
    · intro j hj hj'
      by_cases hij : i = j
      · subst hij
        simp
      · rw [List.getElem_set_ne hij]
  have honce : ((d.options.set i opt).map vmOptionFlagName).Nodup := by
    rw [hmap]
    exact keeps.once
  constructor
  · rw [hmap]
    exact keeps.index
  · exact honce
  · intro o
    rw [lastNamed_append]
    constructor
    · intro ho
      split
      · rename_i hsame
        have hopt : opt ∈ d.options.set i opt := List.mem_set hlt opt
        rw [List.inj_on_of_nodup_map honce hopt ho hsame]
      · rename_i hother
        cases List.mem_or_eq_of_mem_set ho with
        | inl hold => exact (keeps.last o).mp hold
        | inr hnew => exact absurd (by rw [hnew]) hother
    · intro hlast
      split at hlast
      · cases hlast
        exact List.mem_set hlt opt
      · rename_i hother
        obtain ⟨j, hj, hjo⟩ := List.mem_iff_getElem.mp ((keeps.last o).mpr hlast)
        have hij : i ≠ j := by
          intro hij
          subst hij
          rw [hjo] at hname
          exact hother hname.symm
        apply List.mem_iff_getElem.mpr
        exact ⟨j, by simpa using hj, by rw [List.getElem_set_ne hij, hjo]⟩

theorem Keeps.append {options : List Bytes} {d : Deduped} (keeps : Keeps options d) {opt : Bytes}
    (hnew : vmOptionFlagName opt ∉ d.options.map vmOptionFlagName) :
    Keeps (options ++ [opt])
      { options := d.options ++ [opt]
        indexOfName := d.indexOfName ++ [(vmOptionFlagName opt, d.options.length)] } := by
  constructor
  · simp [keeps.index, List.zipIdx_append]
  · rw [List.map_append, List.map_singleton]
    apply List.nodup_append.mpr
    refine ⟨keeps.once, by simp, ?_⟩
    intro name hname other hother hsame
    rw [List.mem_singleton.mp hother] at hsame
    exact hnew (hsame ▸ hname)
  · intro o
    rw [lastNamed_append, List.mem_append, List.mem_singleton]
    constructor
    · intro ho
      split
      · rename_i hsame
        cases ho with
        | inl hold =>
            rw [hsame] at hnew
            exact absurd (List.mem_map.mpr ⟨o, hold, rfl⟩) hnew
        | inr hopt => rw [hopt]
      · rename_i hother
        cases ho with
        | inl hold => exact (keeps.last o).mp hold
        | inr hopt => exact absurd (by rw [hopt]) hother
    · intro hlast
      split at hlast
      · cases hlast
        exact Or.inr rfl
      · exact Or.inl ((keeps.last o).mpr hlast)

theorem Keeps.step {d : Deduped} (keeps : Keeps options d) (opt : Bytes) :
    Keeps (options ++ [opt]) (dedupeStep d opt) := by
  have hlookup := lookup_zipIdx (d.options.map vmOptionFlagName) (vmOptionFlagName opt) 0
  rw [← keeps.index] at hlookup
  simp only [Nat.add_zero, Option.map_id'] at hlookup
  unfold dedupeStep
  rw [hlookup]
  cases hfind : (d.options.map vmOptionFlagName).findIdx? (· == vmOptionFlagName opt) with
  | some i =>
      obtain ⟨hlt, hnamed, _⟩ := List.findIdx?_eq_some_iff_getElem.mp hfind
      rw [List.length_map] at hlt
      rw [List.getElem_map] at hnamed
      exact keeps.overwrite hlt (eq_of_beq hnamed)
  | none =>
      apply keeps.append
      intro hmem
      have hnone := List.findIdx?_eq_none_iff.mp hfind _ hmem
      simp at hnone

theorem foldl_keeps {before options : List Bytes} {d : Deduped} (keeps : Keeps before d) :
    Keeps (before ++ options) (options.foldl dedupeStep d) := by
  induction options generalizing before d with
  | nil =>
      rw [List.append_nil]
      exact keeps
  | cons opt options ih =>
      have hnext := ih (keeps.step opt)
      rw [List.append_assoc] at hnext
      exact hnext

theorem dedupe_keeps (options : List Bytes) :
    Keeps options (options.foldl dedupeStep ⟨[], []⟩) := by
  have h : Keeps ([] ++ options) (options.foldl dedupeStep ⟨[], []⟩) := foldl_keeps Keeps.nil
  rw [List.nil_append] at h
  exact h

theorem dedupe_names_nodup (options : List Bytes) :
    ((dedupe options).map vmOptionFlagName).Nodup :=
  (dedupe_keeps options).once

theorem mem_dedupe {opt : Bytes} :
    opt ∈ dedupe options ↔ lastNamed options (vmOptionFlagName opt) = some opt :=
  (dedupe_keeps options).last opt

theorem mem_of_lastNamed {name opt : Bytes}
    (h : lastNamed options name = some opt) : opt ∈ options := by
  have hmem := List.mem_of_find?_eq_some h
  simpa using hmem

/-! ### The registry of distinct arguments -/

variable {V : Type}

theorem foldl_record_other (cl : CommandLine V) (r : Registry V) {args : List Bytes} {name : Bytes}
    (h : name ∉ args.map vmOptionFlagName) : args.foldl (record cl) r name = r name := by
  induction args generalizing r with
  | nil => rfl
  | cons arg args ih =>
      simp only [List.map_cons, List.mem_cons, not_or] at h
      rw [List.foldl_cons, ih _ h.2]
      simp [record, h.1]

/-- Of arguments with distinct names every option has the value of its own. -/
theorem foldl_record_own (cl : CommandLine V) (r : Registry V) {args : List Bytes} {arg : Bytes}
    (hnodup : (args.map vmOptionFlagName).Nodup) (hmem : arg ∈ args) :
    args.foldl (record cl) r (vmOptionFlagName arg) =
      ⟨cl.valueOf arg, (r (vmOptionFlagName arg)).occurrences + 1⟩ := by
  induction args generalizing r with
  | nil => simp at hmem
  | cons first args ih =>
      rw [List.map_cons, List.nodup_cons] at hnodup
      rw [List.foldl_cons]
      cases List.mem_cons.mp hmem with
      | inl hfirst =>
          rw [hfirst, foldl_record_other cl _ hnodup.1]
          simp [record]
      | inr hrest =>
          have hne : vmOptionFlagName arg ≠ vmOptionFlagName first := by
            intro hsame
            exact hnodup.1 (hsame ▸ List.mem_map.mpr ⟨arg, hrest, rfl⟩)
          rw [ih _ hnodup.2 hrest]
          simp [record, hne]

/-- The registry in which every flag has the value of its last occurrence, and a flag that is not
named its default. -/
def lastGiven (cl : CommandLine V) (options : List Bytes) : Registry V := fun name =>
  match lastNamed options name with
  | some opt => ⟨cl.valueOf opt, 1⟩
  | none => ⟨cl.init name, 0⟩

/-- Two registries that the configuration cannot tell apart: the value of an option that was not
named may differ where the option holds a `MemorySize`. -/
structure SameGiven (r r' : Registry V) : Prop where
  occurrences : ∀ name, (r name).occurrences = (r' name).occurrences
  value : ∀ name, 0 < (r name).occurrences ∨ (name ≠ ascii "gc-init-heap" ∧
    name ≠ ascii "gc-max-heap") → (r name).value = (r' name).value

theorem SameGiven.wasGiven {r r' : Registry V} (same : SameGiven r r') (name : Bytes) :
    wasGiven r name = VmOptions.wasGiven r' name := by
  unfold VmOptions.wasGiven
  rw [same.occurrences]

theorem SameGiven.given {r r' : Registry V} (same : SameGiven r r') (name : String) :
    given r name = VmOptions.given r' name := by
  unfold VmOptions.given
  rw [← same.wasGiven]
  split
  · rename_i h
    rw [same.value _ (Or.inl (by simpa [VmOptions.wasGiven] using h))]
  · rfl

theorem SameGiven.forced {r r' : Registry V} (same : SameGiven r r') (name : String)
    (fallback : Bool) : forced r name fallback = VmOptions.forced r' name fallback := by
  unfold VmOptions.forced
  rw [← same.wasGiven]
  split
  · rename_i h
    rw [same.value _ (Or.inl (by simpa [VmOptions.wasGiven] using h))]
  · rfl

theorem SameGiven.configOf {r r' : Registry V} (same : SameGiven r r') (cl : CommandLine V) :
    configOf cl r = VmOptions.configOf cl r' := by
  have hrate := same.value (ascii "gc-sanitize-handles") (Or.inr (by decide))
  have hseed := same.value (ascii "gc-sanitize-handles-random-seed") (Or.inr (by decide))
  simp only [VmOptions.configOf, same.given, same.forced, same.wasGiven, hrate, hseed]

/-- What a parse of deduplicated options records is what the last occurrences give. -/
theorem sameGiven_dedupe (cl : CommandLine V) (r : Registry V) (options : List Bytes) :
    SameGiven ((dedupe options).foldl (record cl) (resetRegistry cl r))
      (lastGiven cl options) := by
  have hcase : ∀ name,
      (∃ opt, lastNamed options name = some opt ∧
        (dedupe options).foldl (record cl) (resetRegistry cl r) name = ⟨cl.valueOf opt, 1⟩) ∨
      (lastNamed options name = none ∧
        (dedupe options).foldl (record cl) (resetRegistry cl r) name =
          resetRegistry cl r name) := by
    intro name
    cases hlast : lastNamed options name with
    | some opt =>
        have hname := lastNamed_name hlast
        subst hname
        have hown := foldl_record_own cl (resetRegistry cl r) (dedupe_names_nodup options)
          (mem_dedupe.mpr hlast)
        exact Or.inl ⟨opt, rfl, by rw [hown]; rfl⟩
    | none =>
        apply Or.inr
        refine ⟨rfl, foldl_record_other cl _ ?_⟩
        intro hmem
        obtain ⟨opt, hopt, hname⟩ := List.mem_map.mp hmem
        have hsome := mem_dedupe.mp hopt
        rw [hname, hlast] at hsome
        cases hsome
  constructor
  · intro name
    cases hcase name with
    | inl hgiven =>
        obtain ⟨opt, hlast, hvalue⟩ := hgiven
        rw [hvalue]
        simp [lastGiven, hlast]
    | inr hnot =>
        rw [hnot.2]
        simp [lastGiven, hnot.1, resetRegistry]
  · intro name hread
    cases hcase name with
    | inl hgiven =>
        obtain ⟨opt, hlast, hvalue⟩ := hgiven
        rw [hvalue]
        simp [lastGiven, hlast]
    | inr hnot =>
        rw [hnot.2] at hread ⊢
        cases hread with
        | inl hpos => simp [resetRegistry] at hpos
        | inr hplain => simp [lastGiven, hnot.1, resetRegistry, hplain.1, hplain.2]

/-! ### The configuration of a run -/

theorem classifyAll_honoured (h : classifyAll options = .ok ()) :
    ∀ opt ∈ options, classifyVmOption (vmOptionFlagName opt) = .honoured := by
  induction options with
  | nil => simp
  | cons first options ih =>
      unfold classifyAll at h
      cases hfirst : classifyVmOption (vmOptionFlagName first) with
      | honoured =>
          rw [hfirst] at h
          intro opt hopt
          cases List.mem_cons.mp hopt with
          | inl heq => rw [heq, hfirst]
          | inr hrest => exact ih h opt hrest
      | consoleHost =>
          rw [hfirst] at h
          cases h
      | unknown =>
          rw [hfirst] at h
          cases h

/-- Options a runtime can be configured with: each names a flag that is honoured, and the last
occurrence of each flag is one its option takes. -/
structure Runnable (cl : CommandLine V) (options : List Bytes) : Prop where
  honoured : ∀ opt ∈ options, classifyVmOption (vmOptionFlagName opt) = .honoured
  accepted : ∀ name opt, lastNamed options name = some opt → cl.accepts opt = true

theorem classifyAll_of_honoured
    (h : ∀ opt ∈ options, classifyVmOption (vmOptionFlagName opt) = .honoured) :
    classifyAll options = .ok () := by
  induction options with
  | nil => rfl
  | cons first options ih =>
      simp only [classifyAll, h first List.mem_cons_self]
      exact ih fun opt hopt => h opt (List.mem_cons_of_mem _ hopt)

variable {cl : CommandLine V}

theorem dedupe_all_accepts :
    (dedupe options).all cl.accepts = true ↔
      ∀ name opt, lastNamed options name = some opt → cl.accepts opt = true := by
  rw [List.all_eq_true]
  constructor
  · intro hall name opt hlast
    have hname := lastNamed_name hlast
    subst hname
    exact hall opt (mem_dedupe.mpr hlast)
  · intro hlast opt hmem
    exact hlast _ opt (mem_dedupe.mp hmem)

variable {config : RuntimeConfig V}

/-- A runtime is configured from exactly the runnable options, and as their last occurrences say,
over every registry that earlier calls may have left. -/
theorem runHermesNode_started (hcl : cl.ParsesDistinct) {r : Registry V}
    :
    runHermesNode cl r options = .started config ↔
      Runnable cl options ∧ config = configOf cl (lastGiven cl options) := by
  unfold runHermesNode buildVmRuntimeConfig
  cases hclass : classifyAll options with
  | error e =>
      simp only [reduceCtorEq, false_iff]
      intro hrun
      rw [classifyAll_of_honoured hrun.1.honoured] at hclass
      cases hclass
  | ok u =>
      have hhonoured := classifyAll_honoured hclass
      have hparse := hcl (resetRegistry cl r) (dedupe options) (dedupe_names_nodup options)
        (fun arg harg => hhonoured arg (mem_of_lastNamed (mem_dedupe.mp harg))) (fun _ _ => rfl)
      split at hparse
      · rename_i haccepts
        have hrun : Runnable cl options := ⟨hhonoured, dedupe_all_accepts.mp haccepts⟩
        simp only [hparse, (sameGiven_dedupe cl r options).configOf cl, Start.started.injEq]
        constructor
        · intro h
          exact ⟨hrun, h.symm⟩
        · intro h
          exact h.2.symm
      · rename_i hrefuses
        obtain ⟨errText, herr⟩ := Option.isSome_iff_exists.mp hparse
        generalize cl.parse (resetRegistry cl r) (dedupe options) = parsed at herr
        obtain ⟨registry, err⟩ := parsed
        simp only at herr
        subst herr
        simp only [reduceCtorEq, false_iff]
        intro hrun
        exact hrefuses (dedupe_all_accepts.mpr hrun.1.accepted)

/-! ### The main programs -/

/-- An empty argument names no flag. -/
theorem Runnable.nonempty
    (h : Runnable cl options) : options.any List.isEmpty = false := by
  rw [List.any_eq_false]
  intro opt hopt hempty
  have hhonoured := h.honoured opt hopt
  rw [List.isEmpty_iff.mp hempty] at hhonoured
  exact absurd hhonoured (by decide)

theorem Runnable.of_append {options later : List Bytes}
    (h : Runnable cl (options ++ later)) : later.any List.isEmpty = false := by
  have hboth := h.nonempty
  rw [List.any_append, Bool.or_eq_false_iff] at hboth
  exact hboth.2

theorem main_unbundled (hcl : cl.ParsesDistinct) {r : Registry V}
    {env : Option Bytes} {cliVm : List Bytes} :
    hermesNodeMain cl r none env cliVm = .started config ↔
      Runnable cl (splitVmOptionsEnv env ++ cliVm) ∧
        config = configOf cl (lastGiven cl (splitVmOptionsEnv env ++ cliVm)) := by
  have hmerge : (if (splitVmOptionsEnv env).isEmpty then cliVm
      else splitVmOptionsEnv env ++ cliVm) = splitVmOptionsEnv env ++ cliVm := by
    split
    · rename_i hempty
      rw [List.isEmpty_iff.mp hempty, List.nil_append]
    · rfl
  simp only [hermesNodeMain, hmerge]
  split
  · rename_i hempty
    simp only [reduceCtorEq, false_iff]
    intro h
    rw [h.1.of_append] at hempty
    cases hempty
  · exact runHermesNode_started hcl

theorem main_overridable (hcl : cl.ParsesDistinct) {r : Registry V}
    {data : Bytes} {bundleVm : BundleVmOptions} {env : Option Bytes} {cliVm : List Bytes}
    (hread : readVmOptions data = .accepted bundleVm)
    (hallow : bundleVm.allowOverride = true) :
    hermesNodeMain cl r (some data) env cliVm = .started config ↔
      Runnable cl (bundleVm.options ++ splitVmOptionsEnv env ++ cliVm) ∧
        config =
          configOf cl (lastGiven cl (bundleVm.options ++ splitVmOptionsEnv env ++ cliVm)) := by
  simp only [hermesNodeMain, hread, hallow]
  split
  · rename_i hempty
    simp only [reduceCtorEq, false_iff]
    intro h
    rw [h.1.of_append] at hempty
    cases hempty
  · exact runHermesNode_started hcl

/-- A container whose options are locked is started with these, or not at all. -/
theorem main_locked {r : Registry V} {data : Bytes}
    {bundleVm : BundleVmOptions} {env : Option Bytes} {cliVm : List Bytes}
    (hread : readVmOptions data = .accepted bundleVm)
    (hlock : bundleVm.allowOverride = false)
    (h : hermesNodeMain cl r (some data) env cliVm = .started config) :
    runHermesNode cl r bundleVm.options = .started config := by
  simp only [hermesNodeMain, hread, hlock] at h
  split at h
  · cases h
  · split at h
    · cases h
    · rename_i hnone
      simp only [Bool.not_false, Bool.true_and, Bool.or_eq_true, Bool.not_eq_true',
        List.isEmpty_eq_false_iff, not_or, not_not] at hnone
      simpa [hnone.1, hnone.2] using h

theorem linked_locked {r : Registry V} {data : Bytes}
    {bundleVm : BundleVmOptions} {env : Option Bytes}
    (hread : readVmOptions data = .accepted bundleVm) (hlock : bundleVm.allowOverride = false)
    (h : bundleMain cl r data env = .started config) :
    runHermesNode cl r bundleVm.options = .started config := by
  simp only [bundleMain, hread, hlock] at h
  split at h
  · cases h
  · rename_i hnone
    simp only [Bool.not_false, Bool.true_and, Bool.not_eq_true', List.isEmpty_eq_false_iff,
      not_not] at hnone
    simpa [hnone] using h

/-- Without `--vm` arguments the two main programs start the same runtimes. -/
theorem mains_agree (cl : CommandLine V) (r : Registry V) (data : Bytes) (env : Option Bytes)
    (config : RuntimeConfig V) :
    hermesNodeMain cl r (some data) env [] = .started config ↔
      bundleMain cl r data env = .started config := by
  cases hread : readVmOptions data with
  | accepted bundleVm =>
      cases hallow : bundleVm.allowOverride with
      | true => simp [hermesNodeMain, bundleMain, hread, hallow]
      | false =>
          by_cases henv : (splitVmOptionsEnv env).isEmpty = true
          · simp [hermesNodeMain, bundleMain, hread, hallow, henv]
          · simp [hermesNodeMain, bundleMain, hread, hallow, henv]
  | rejected message => simp [hermesNodeMain, bundleMain, hread]
  | outOfBounds => simp [hermesNodeMain, bundleMain, hread]

/-! ### The spelling of an option -/

/-- The name of a registered flag: it does not start with a dash and holds no `=`. -/
def PlainName (name : Bytes) : Prop := name.head? ≠ some 45 ∧ 61 ∉ name

theorem honoured_plain {name : Bytes} (h : classifyVmOption name = .honoured) :
    PlainName name := by
  have hmem : name ∈ kHonoured := by
    unfold classifyVmOption at h
    split at h
    · rename_i hcontains
      exact List.contains_iff_mem.mp hcontains
    · split at h
      · cases h
      · cases h
  have hall : ∀ n ∈ kHonoured, n.head? ≠ some 45 ∧ 61 ∉ n := by decide
  exact hall name hmem

/-- A registered name, with any number of dashes and with or without a value, names its flag. -/
theorem flagName_spelling {name : Bytes} (hhonoured : classifyVmOption name = .honoured)
    (dashes : Nat) (value : Bytes) :
    vmOptionFlagName (List.replicate dashes 45 ++ name) = name ∧
      vmOptionFlagName (List.replicate dashes 45 ++ name ++ 61 :: value) = name := by
  obtain ⟨hhead, hvalue⟩ := honoured_plain hhonoured
  have hdrop : ∀ tail : Bytes, (tail = [] ∨ ∃ rest, tail = 61 :: rest) →
      (List.replicate dashes 45 ++ name ++ tail).dropWhile (· == 45) = name ++ tail := by
    intro tail htail
    rw [List.append_assoc, List.dropWhile_append_of_pos (by simp)]
    cases name with
    | nil => obtain rfl | ⟨rest, rfl⟩ := htail <;> simp
    | cons b name =>
        have hb : (b == 45) = false := by
          simpa using hhead
        simp [hb]
  have htake : name.takeWhile (· != 61) = name := by
    rw [List.takeWhile_eq_self_iff]
    intro b hb
    have hb' : b ≠ 61 := fun h => hvalue (h ▸ hb)
    simpa using hb'
  constructor
  · have hbare := hdrop [] (Or.inl rfl)
    rw [List.append_nil, List.append_nil] at hbare
    rw [vmOptionFlagName, hbare, htake]
  · rw [vmOptionFlagName, hdrop _ (Or.inr ⟨value, rfl⟩), List.takeWhile_append_of_pos]
    · simp
    · intro b hb
      have hb' : b ≠ 61 := fun h => hvalue (h ▸ hb)
      simpa using hb'

/-- The lock and the precedence of VM options. A container whose options are locked is run with the
configuration of these alone or is refused, by either main program, whatever the environment and the
command line hold. Else the run starts for exactly the runnable options, and every flag has the value
of its last occurrence in container, environment and command line, however it is spelled there. And
the two main programs start the same runtimes. -/
theorem locked_or_last (cl : CommandLine V) (hcl : cl.ParsesDistinct) (r : Registry V) :
    (∀ (data : Bytes) (bundleVm : BundleVmOptions) (env : Option Bytes) (cliVm : List Bytes)
        (config : RuntimeConfig V),
      readVmOptions data = .accepted bundleVm → bundleVm.allowOverride = false →
        (hermesNodeMain cl r (some data) env cliVm = .started config →
          runHermesNode cl r bundleVm.options = .started config) ∧
        (bundleMain cl r data env = .started config →
          runHermesNode cl r bundleVm.options = .started config)) ∧
    (∀ (data : Bytes) (bundleVm : BundleVmOptions) (env : Option Bytes) (cliVm : List Bytes)
        (config : RuntimeConfig V),
      readVmOptions data = .accepted bundleVm → bundleVm.allowOverride = true →
        let options := bundleVm.options ++ splitVmOptionsEnv env ++ cliVm
        hermesNodeMain cl r (some data) env cliVm = .started config ↔
          Runnable cl options ∧ config = configOf cl (lastGiven cl options)) ∧
    (∀ (env : Option Bytes) (cliVm : List Bytes) (config : RuntimeConfig V),
      let options := splitVmOptionsEnv env ++ cliVm
      hermesNodeMain cl r none env cliVm = .started config ↔
        Runnable cl options ∧ config = configOf cl (lastGiven cl options)) ∧
    (∀ (name value : Bytes) (dashes : Nat), classifyVmOption name = .honoured →
      vmOptionFlagName (List.replicate dashes 45 ++ name) = name ∧
        vmOptionFlagName (List.replicate dashes 45 ++ name ++ 61 :: value) = name) ∧
    (∀ (data : Bytes) (env : Option Bytes) (config : RuntimeConfig V),
      hermesNodeMain cl r (some data) env [] = .started config ↔
        bundleMain cl r data env = .started config) := by
  refine ⟨?_, ?_, ?_, ?_, ?_⟩
  · intro data bundleVm env cliVm config hread hlock
    exact ⟨main_locked hread hlock, linked_locked hread hlock⟩
  · intro data bundleVm env cliVm config hread hallow
    exact main_overridable hcl hread hallow
  · intro env cliVm config
    exact main_unbundled hcl
  · intro name value dashes hhonoured
    exact flagName_spelling hhonoured dashes value
  · intro data env config
    exact mains_agree cl r data env config

/-- The text after the `=` of an argument. -/
def textValue (arg : Bytes) : Bytes := (arg.dropWhile (· != 61)).drop 1

/-- A command line whose options hold their values as texts; an argument has one dash or two. -/
def textOptions : CommandLine Bytes where
  init := fun _ => []
  accepts := fun arg => arg.take 1 == [45] && arg.take 3 != [45, 45, 45]
  valueOf := textValue
  jitOff := fun mode => mode == ascii "off"
  jitForce := fun mode => mode == ascii "force"
  parse := fun r _ => (r, none)

/-- With the parser of llvh::cl. -/
def textCommandLine : CommandLine Bytes :=
  { textOptions with
    parse := fun r args =>
      if args.all textOptions.accepts then (args.foldl (record textOptions) r, none)
      else (r, some []) }

theorem textCommandLine_parsesDistinct : textCommandLine.ParsesDistinct := by
  intro r args _ _ _
  split
  · rename_i hall
    exact if_pos hall
  · rename_i hall
    exact congrArg (fun p : Registry Bytes × Option Bytes => p.2.isSome) (if_neg hall)

theorem singleModule_vmOptions : readVmOptions singleModuleContainer = .accepted ⟨[], false⟩ := by
  decide

/-- A locked container without options is run without options or not at all, and the `-Xjit=off`
of the environment gives way to the `--Xjit=force` of the command line. -/
theorem jit_forced_last :
    (∀ env config,
      bundleMain textCommandLine (lastGiven textCommandLine []) singleModuleContainer env =
          .started config →
        runHermesNode textCommandLine (lastGiven textCommandLine []) [] = .started config) ∧
    ∃ config,
      hermesNodeMain textCommandLine (lastGiven textCommandLine []) none
          (some (ascii "-Xjit=off")) [ascii "--Xjit=force"] = .started config ∧
        config.forceJIT = some true := by
  have hmain := locked_or_last textCommandLine textCommandLine_parsesDistinct
    (lastGiven textCommandLine [])
  obtain ⟨hlocked, _, hunbundled, _, _⟩ := hmain
  constructor
  · intro env config
    exact (hlocked _ _ env [] config singleModule_vmOptions rfl).2
  · have hrun : Runnable textCommandLine [ascii "-Xjit=off", ascii "--Xjit=force"] :=
      ⟨by decide, dedupe_all_accepts.mp (by decide)⟩
    exact ⟨_, (hunbundled _ _ _).mpr ⟨hrun, rfl⟩, by decide⟩

end HermesNode.VmOptions
