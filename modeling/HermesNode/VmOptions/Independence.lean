/-
Module: HermesNode.VmOptions.Independence
Purpose: What a configuration depends on. The registry of llvh::cl is one for the process and an
  earlier call, failed ones included, leaves values and occurrence counts in it; the two resets of
  `buildVmRuntimeConfig` and the occurrence checks of the mapping keep all of that out of a later
  result, and the order of the options as well. Every field follows its own flag but for the rate and
  the seed of the sanitizer, of which one is written with the registered default when only the other
  was named.
Trusted boundary: human-reviewed spec (`ParseCommandLineOptions` of llvh::cl: occurrence counts, and
  values where an option's own parser takes the argument)
Main exports: OptionParser, parseArguments, independent_iff
-/
import HermesNode.VmOptions.Precedence
import Mathlib.Logic.Function.Basic

namespace HermesNode.VmOptions

/-! ### The registry -/

/-- The registered options: their defaults, whether the spelling of an argument leads llvh::cl to an
option, what the option's parser makes of it, and what is printed on the error stream. -/
structure OptionParser (V : Type) where
  init : Bytes → V
  found : Bytes → Bool
  parseValue : Bytes → Option V
  errText : List Bytes → Bytes
  jitOff : V → Bool
  jitForce : V → Bool

variable {V : Type}

/-- `addOccurrence` and `handleOccurrence`: the option counts the argument before it refuses a
repetition or a bad value. The flag says that some argument was refused. -/
def provide (P : OptionParser V) (s : Registry V × Bool) (arg : Bytes) : Registry V × Bool :=
  let name := vmOptionFlagName arg
  if P.found arg then
    let counted : Registry V :=
      Function.update s.1 name ⟨(s.1 name).value, (s.1 name).occurrences + 1⟩
    if 1 < (counted name).occurrences && name != ascii "Xjit" then (counted, true)
    else
      match P.parseValue arg with
      | none => (counted, true)
      | some v => (Function.update counted name ⟨v, (counted name).occurrences⟩, s.2)
  else (s.1, true)

def parseArguments (P : OptionParser V) (r : Registry V) (args : List Bytes) :
    Registry V × Bool :=
  args.foldl (provide P) (r, false)

/-- `ParseCommandLineOptions` with an error stream. -/
def OptionParser.commandLine (P : OptionParser V) : CommandLine V where
  init := P.init
  accepts arg := P.found arg && (P.parseValue arg).isSome
  valueOf arg := (P.parseValue arg).getD (P.init (vmOptionFlagName arg))
  jitOff := P.jitOff
  jitForce := P.jitForce
  parse r args :=
    ((parseArguments P r args).1,
      if (parseArguments P r args).2 then some (P.errText args) else none)

/-- The options as they are registered. -/
def registered (P : OptionParser V) : Registry V := fun name => ⟨P.init name, 0⟩

/-- The registry behind some calls of `buildVmRuntimeConfig`. -/
def callsFrom (P : OptionParser V) (r : Registry V) (calls : List (List Bytes)) : Registry V :=
  calls.foldl (fun r options => (buildVmRuntimeConfig P.commandLine r options).1) r

/-- What a call returns after some others. -/
def resultAfter (P : OptionParser V) (calls : List (List Bytes)) (options : List Bytes) :
    Except Bytes (RuntimeConfig V) :=
  (buildVmRuntimeConfig P.commandLine (callsFrom P (registered P) calls) options).2

/-! ### A parse of distinct arguments -/

variable {P : OptionParser V}

theorem provide_taken {r : Registry V} {failed : Bool} {arg : Bytes}
    (htaken : P.commandLine.accepts arg = true)
    (hfresh : (r (vmOptionFlagName arg)).occurrences = 0) :
    provide P (r, failed) arg = (record P.commandLine r arg, failed) := by
  obtain ⟨hfound, hvalue⟩ := Bool.and_eq_true_iff.mp htaken
  obtain ⟨v, hv⟩ := Option.isSome_iff_exists.mp hvalue
  have hrecord : record P.commandLine r arg =
      Function.update r (vmOptionFlagName arg) ⟨v, 1⟩ := by
    funext name
    by_cases hname : name = vmOptionFlagName arg
    · subst hname
      simp [record, OptionParser.commandLine, hv, hfresh]
    · simp [record, hname]
  simp [provide, hfound, hv, hfresh, hrecord]

/-- An argument that is not taken is remembered as an error, and so is every earlier one. -/
theorem provide_failed {s : Registry V × Bool} {arg : Bytes}
    (h : s.2 = true ∨ P.commandLine.accepts arg = false) : (provide P s arg).2 = true := by
  unfold provide
  dsimp only
  split
  · rename_i hfound
    split
    · rfl
    · cases hvalue : P.parseValue arg with
      | none => rfl
      | some v =>
          rcases h with hs | harg
          · exact hs
          · simp [OptionParser.commandLine, hfound, hvalue] at harg
  · rfl

theorem foldl_provide_failed {s : Registry V × Bool} {args : List Bytes}
    (h : s.2 = true ∨ ∃ arg ∈ args, P.commandLine.accepts arg = false) :
    (args.foldl (provide P) s).2 = true := by
  induction args generalizing s with
  | nil =>
      rcases h with hs | ⟨arg, harg, _⟩
      · exact hs
      · cases harg
  | cons first args ih =>
      apply ih
      rcases h with hs | ⟨arg, harg, hrefused⟩
      · exact Or.inl (provide_failed (Or.inl hs))
      · rcases List.mem_cons.mp harg with rfl | hrest
        · exact Or.inl (provide_failed (Or.inr hrefused))
        · exact Or.inr ⟨arg, hrest, hrefused⟩

theorem foldl_provide_taken {r : Registry V} {args : List Bytes}
    (hnodup : (args.map vmOptionFlagName).Nodup)
    (hfresh : ∀ arg ∈ args, (r (vmOptionFlagName arg)).occurrences = 0)
    (htaken : args.all P.commandLine.accepts = true) :
    args.foldl (provide P) (r, false) = (args.foldl (record P.commandLine) r, false) := by
  induction args generalizing r with
  | nil => rfl
  | cons first args ih =>
      rw [List.map_cons, List.nodup_cons] at hnodup
      rw [List.all_cons, Bool.and_eq_true] at htaken
      rw [List.foldl_cons, List.foldl_cons, provide_taken htaken.1 (hfresh first (by simp))]
      apply ih hnodup.2 _ htaken.2
      intro arg harg
      have hne : vmOptionFlagName arg ≠ vmOptionFlagName first := by
        intro hsame
        exact hnodup.1 (hsame ▸ List.mem_map.mpr ⟨arg, harg, rfl⟩)
      simpa [record, hne] using hfresh arg (List.mem_cons_of_mem _ harg)

/-- The registry of llvh::cl keeps the contract the mapping rests on. -/
theorem commandLine_parsesDistinct (P : OptionParser V) : P.commandLine.ParsesDistinct := by
  intro r args hnodup _ hfresh
  have hparse : P.commandLine.parse r args =
      ((args.foldl (provide P) (r, false)).1,
        if (args.foldl (provide P) (r, false)).2 then some (P.errText args) else none) := rfl
  rw [hparse]
  split
  · rename_i htaken
    rw [foldl_provide_taken hnodup hfresh htaken]
    rfl
  · rename_i hrefused
    have hfailed : (args.foldl (provide P) (r, false)).2 = true := by
      apply foldl_provide_failed
      rw [Bool.not_eq_true, List.all_eq_false] at hrefused
      obtain ⟨arg, harg, hrefused⟩ := hrefused
      exact Or.inr ⟨arg, harg, by simpa using hrefused⟩
    rw [hfailed]
    rfl

/-! ### Two registries side by side -/

/-- Two parses that agree on what was refused; as long as nothing was, no configuration tells their
registries apart. -/
structure Alongside (s s' : Registry V × Bool) : Prop where
  failed : s.2 = s'.2
  occurrences : ∀ name, (s.1 name).occurrences = (s'.1 name).occurrences
  same : s.2 = false → SameGiven s.1 s'.1

theorem Alongside.provide {s s' : Registry V × Bool} (h : Alongside s s') (arg : Bytes) :
    Alongside (provide P s arg) (provide P s' arg) := by
  have hcount := h.occurrences (vmOptionFlagName arg)
  have hcounts : ∀ v v' : V, ∀ name,
      (Function.update s.1 (vmOptionFlagName arg)
        ⟨v, (s.1 (vmOptionFlagName arg)).occurrences + 1⟩ name).occurrences =
      (Function.update s'.1 (vmOptionFlagName arg)
        ⟨v', (s'.1 (vmOptionFlagName arg)).occurrences + 1⟩ name).occurrences := by
    intro v v' name
    by_cases hname : name = vmOptionFlagName arg
    · subst hname
      simp [hcount]
    · simp [hname, h.occurrences]
  unfold VmOptions.provide
  dsimp only
  split
  · simp only [Function.update_self, hcount]
    split
    · exact ⟨rfl, by simpa [hcount] using hcounts _ _, fun hfalse => by cases hfalse⟩
    · cases P.parseValue arg with
      | none => exact ⟨rfl, by simpa [hcount] using hcounts _ _, fun hfalse => by cases hfalse⟩
      | some v =>
          simp only [Function.update_idem]
          refine ⟨h.failed, by simpa [hcount] using hcounts v v, fun hs => ?_⟩
          have hsame := h.same hs
          constructor
          · simpa [hcount] using hcounts v v
          · intro name hread
            by_cases hname : name = vmOptionFlagName arg
            · subst hname
              simp
            · simp only [Function.update_of_ne hname] at hread ⊢
              exact hsame.value name hread
  · exact ⟨rfl, h.occurrences, fun hfalse => by cases hfalse⟩

theorem alongside_parse {r r' : Registry V} (h : SameGiven r r') (args : List Bytes) :
    Alongside (parseArguments P r args) (parseArguments P r' args) := by
  have hfold : ∀ {s s' : Registry V × Bool}, Alongside s s' →
      Alongside (args.foldl (VmOptions.provide P) s) (args.foldl (VmOptions.provide P) s') := by
    induction args with
    | nil => exact fun hs => hs
    | cons arg args ih => exact fun hs => ih (hs.provide arg)
  exact hfold ⟨rfl, h.occurrences, fun _ => h⟩

/-- Behind the resets two registries differ in nothing a configuration reads. -/
theorem sameGiven_reset (cl : CommandLine V) (r r' : Registry V) :
    SameGiven (resetRegistry cl r) (resetRegistry cl r') := by
  constructor
  · intro name
    rfl
  · intro name hread
    rcases hread with hpos | ⟨hinit, hmax⟩
    · exact absurd hpos (Nat.lt_irrefl 0)
    · simp [resetRegistry, hinit, hmax]

/-- The result of a call whose options are all honoured. -/
theorem build_honoured (P : OptionParser V) (r : Registry V) {options : List Bytes}
    (h : classifyAll options = .ok ()) :
    (buildVmRuntimeConfig P.commandLine r options).2 =
      if (parseArguments P (resetRegistry P.commandLine r) (dedupe options)).2 then
        .error (if (P.errText (dedupe options)).isEmpty then
            ascii "invalid value for one or more --vm options; see stderr for " ++ ascii "details"
          else P.errText (dedupe options))
      else .ok (configOf P.commandLine
        (parseArguments P (resetRegistry P.commandLine r) (dedupe options)).1) := by
  have hparse : ∀ r args, P.commandLine.parse r args =
      ((parseArguments P r args).1,
        if (parseArguments P r args).2 then some (P.errText args) else none) := fun _ _ => rfl
  simp only [buildVmRuntimeConfig, h, hparse]
  cases (parseArguments P (resetRegistry P.commandLine r) (dedupe options)).2 with
  | true => rfl
  | false => rfl

/-- The result of a call does not depend on the registry it finds. -/
theorem build_independent (P : OptionParser V) (r r' : Registry V) (options : List Bytes) :
    (buildVmRuntimeConfig P.commandLine r options).2 =
      (buildVmRuntimeConfig P.commandLine r' options).2 := by
  cases hclass : classifyAll options with
  | error e => simp only [buildVmRuntimeConfig, hclass]
  | ok u =>
      have halong := alongside_parse (P := P) (sameGiven_reset P.commandLine r r') (dedupe options)
      rw [build_honoured P r hclass, build_honoured P r' hclass, ← halong.failed]
      cases hfailed : (parseArguments P (resetRegistry P.commandLine r) (dedupe options)).2 with
      | true => rfl
      | false =>
          rw [if_neg Bool.false_ne_true, if_neg Bool.false_ne_true,
            (halong.same hfailed).configOf P.commandLine]

/-! ### The fields and their flags -/

/-- The fields of the configuration. -/
inductive Field where
  | initHeapSize
  | maxHeapSize
  | occupancyTarget
  | sanitizeRate
  | sanitizeRandomSeed
  | allocInYoung
  | revertToYGAtTTI
  | maxNumRegisters
  | enableJIT
  | forceJIT
  | jitThreshold
  | jitMemoryLimit
  | enableEval
  | verifyEvalIR
  | optimizedEval
  | asyncBreakCheckInEval
  | vmExperimentFlags
  | es6Proxy
  | intl
  | randomizeMemoryLayout
  | enableHermesInternal
  | enableHermesInternalTestMethods
  | test262
  | es6BlockScoping
  | enableAsyncGenerators
  | microtaskQueue
deriving Repr, DecidableEq

namespace Field

def flag : Field → String
  | initHeapSize => "gc-init-heap"
  | maxHeapSize => "gc-max-heap"
  | occupancyTarget => "occupancy-target"
  | sanitizeRate => "gc-sanitize-handles"
  | sanitizeRandomSeed => "gc-sanitize-handles-random-seed"
  | allocInYoung => "gc-alloc-young"
  | revertToYGAtTTI => "gc-revert-to-yg-at-tti"
  | maxNumRegisters => "max-register-stack"
  | enableJIT => "Xjit"
  | forceJIT => "Xjit"
  | jitThreshold => "Xjit-threshold"
  | jitMemoryLimit => "Xjit-memory-limit"
  | enableEval => "enable-eval"
  | verifyEvalIR => "verify-ir"
  | optimizedEval => "optimized-eval"
  | asyncBreakCheckInEval => "emit-async-break-check"
  | vmExperimentFlags => "Xvm-experiment-flags"
  | es6Proxy => "Xes6-proxy"
  | intl => "Xintl"
  | randomizeMemoryLayout => "Xrandomize-memory-layout"
  | enableHermesInternal => "enable-hermes-internal"
  | enableHermesInternalTestMethods => "Xhermes-internal-test-methods"
  | test262 => "test262"
  | es6BlockScoping => "Xes6-block-scoping"
  | enableAsyncGenerators => "Xasync-generators"
  | microtaskQueue => "Xmicrotask-queue"

/-- The fields hermes-node has a default of its own for. -/
def isForced : Field → Bool
  | es6BlockScoping | enableAsyncGenerators | microtaskQueue => true
  | _ => false

end Field

/-- What a field is set to: the value of an option, or a Boolean. -/
inductive Setting (V : Type) where
  | value (v : V)
  | flag (b : Bool)
deriving Repr, DecidableEq

/-- A value as the field has it. -/
def Field.read (cl : CommandLine V) (field : Field) (v : V) : Setting V :=
  match field with
  | .enableJIT => .flag (!cl.jitOff v)
  | .forceJIT => .flag (cl.jitForce v)
  | _ => .value v

def Forced.setting : Forced V → Setting V
  | .byDefault b => .flag b
  | .given v => .value v

/-- What the mapping writes into a field, if it does. -/
def RuntimeConfig.written (config : RuntimeConfig V) : Field → Option (Setting V)
  | .initHeapSize => config.gcConfig.initHeapSize.map .value
  | .maxHeapSize => config.gcConfig.maxHeapSize.map .value
  | .occupancyTarget => config.gcConfig.occupancyTarget.map .value
  | .sanitizeRate => config.gcConfig.sanitizeConfig.map fun both => .value both.1
  | .sanitizeRandomSeed => config.gcConfig.sanitizeConfig.map fun both => .value both.2
  | .allocInYoung => config.gcConfig.allocInYoung.map .value
  | .revertToYGAtTTI => config.gcConfig.revertToYGAtTTI.map .value
  | .maxNumRegisters => config.maxNumRegisters.map .value
  | .enableJIT => config.enableJIT.map .flag
  | .forceJIT => config.forceJIT.map .flag
  | .jitThreshold => config.jitThreshold.map .value
  | .jitMemoryLimit => config.jitMemoryLimit.map .value
  | .enableEval => config.enableEval.map .value
  | .verifyEvalIR => config.verifyEvalIR.map .value
  | .optimizedEval => config.optimizedEval.map .value
  | .asyncBreakCheckInEval => config.asyncBreakCheckInEval.map .value
  | .vmExperimentFlags => config.vmExperimentFlags.map .value
  | .es6Proxy => config.es6Proxy.map .value
  | .intl => config.intl.map .value
  | .randomizeMemoryLayout => config.randomizeMemoryLayout.map .value
  | .enableHermesInternal => config.enableHermesInternal.map .value
  | .enableHermesInternalTestMethods => config.enableHermesInternalTestMethods.map .value
  | .test262 => config.test262.map .value
  | .es6BlockScoping => some config.es6BlockScoping.setting
  | .enableAsyncGenerators => some config.enableAsyncGenerators.setting
  | .microtaskQueue => some config.microtaskQueue.setting

/-- A field of the built configuration, over the builder's defaults. -/
def RuntimeConfig.field (config : RuntimeConfig V) (defaults : Field → Setting V) (field : Field) :
    Setting V :=
  (config.written field).getD (defaults field)

/-- What a field should be: what the last option that names its flag says, else the default. -/
def fieldFor (cl : CommandLine V) (defaults : Field → Setting V) (options : List Bytes)
    (field : Field) : Setting V :=
  match lastNamed options (ascii field.flag) with
  | some opt => field.read cl (cl.valueOf opt)
  | none => if field.isForced then .flag true else defaults field

/-- Where one of the two sanitizer flags is named without the other, the default registered for the
other is the builder's. -/
def SanitizeAgrees (cl : CommandLine V) (defaults : Field → Setting V) (options : List Bytes) :
    Prop :=
  (lastNamed options (ascii "gc-sanitize-handles") = none →
      lastNamed options (ascii "gc-sanitize-handles-random-seed") ≠ none →
      defaults .sanitizeRate = .value (cl.init (ascii "gc-sanitize-handles"))) ∧
    (lastNamed options (ascii "gc-sanitize-handles-random-seed") = none →
      lastNamed options (ascii "gc-sanitize-handles") ≠ none →
      defaults .sanitizeRandomSeed =
        .value (cl.init (ascii "gc-sanitize-handles-random-seed")))

theorem wasGiven_lastGiven (cl : CommandLine V) (options : List Bytes) (name : Bytes) :
    wasGiven (lastGiven cl options) name = (lastNamed options name).isSome := by
  unfold wasGiven lastGiven
  cases lastNamed options name with
  | none => rfl
  | some opt => rfl

theorem given_lastGiven (cl : CommandLine V) (options : List Bytes) (name : String) :
    given (lastGiven cl options) name = (lastNamed options (ascii name)).map cl.valueOf := by
  rw [given, wasGiven_lastGiven, lastGiven]
  cases lastNamed options (ascii name) with
  | none => rfl
  | some opt => rfl

theorem forced_lastGiven (cl : CommandLine V) (options : List Bytes) (name : String) (b : Bool) :
    forced (lastGiven cl options) name b =
      match lastNamed options (ascii name) with
      | some opt => .given (cl.valueOf opt)
      | none => .byDefault b := by
  rw [forced, wasGiven_lastGiven, lastGiven]
  cases lastNamed options (ascii name) with
  | none => rfl
  | some opt => rfl

/-- The values of the sanitizer are written together, each its own or the registered default. -/
theorem sanitize_lastGiven (cl : CommandLine V) (options : List Bytes) :
    (configOf cl (lastGiven cl options)).gcConfig.sanitizeConfig =
      if (lastNamed options (ascii "gc-sanitize-handles")).isSome ||
          (lastNamed options (ascii "gc-sanitize-handles-random-seed")).isSome then
        some (((lastNamed options (ascii "gc-sanitize-handles")).map cl.valueOf).getD
              (cl.init (ascii "gc-sanitize-handles")),
          ((lastNamed options (ascii "gc-sanitize-handles-random-seed")).map cl.valueOf).getD
              (cl.init (ascii "gc-sanitize-handles-random-seed")))
      else none := by
  have hvalue : ∀ name, (lastGiven cl options name).value =
      ((lastNamed options name).map cl.valueOf).getD (cl.init name) := by
    intro name
    unfold lastGiven
    cases lastNamed options name with
    | none => rfl
    | some opt => rfl
  simp only [configOf, wasGiven_lastGiven, hvalue]

/-- Every field but the two of the sanitizer follows its flag. -/
theorem field_lastGiven (cl : CommandLine V) (defaults : Field → Setting V) (options : List Bytes)
    {field : Field} (hrate : field ≠ .sanitizeRate) (hseed : field ≠ .sanitizeRandomSeed) :
    (configOf cl (lastGiven cl options)).field defaults field =
      fieldFor cl defaults options field := by
  have hplain : ∀ name : String,
      ((given (lastGiven cl options) name).map Setting.value).getD (defaults field) =
        match lastNamed options (ascii name) with
        | some opt => .value (cl.valueOf opt)
        | none => defaults field := by
    intro name
    rw [given_lastGiven]
    cases lastNamed options (ascii name) with
    | none => rfl
    | some opt => rfl
  cases field with
  | sanitizeRate => exact absurd rfl hrate
  | sanitizeRandomSeed => exact absurd rfl hseed
  | enableJIT | forceJIT =>
      simp only [RuntimeConfig.field, RuntimeConfig.written, fieldFor, Field.flag, Field.read,
        Field.isForced, configOf, given_lastGiven]
      cases lastNamed options (ascii "Xjit") with
      | none => rfl
      | some opt => rfl
  | es6BlockScoping | enableAsyncGenerators | microtaskQueue =>
      simp only [RuntimeConfig.field, RuntimeConfig.written, fieldFor, Field.flag, Field.read,
        Field.isForced, configOf, forced_lastGiven, Option.getD_some]
      split
      · rfl
      · exact (if_pos trivial).symm
  | _ => exact hplain _

/-- All fields follow their flags exactly when the registered defaults of the sanitizer's values are
the builder's wherever they show. -/
theorem fields_iff (cl : CommandLine V) (defaults : Field → Setting V) (options : List Bytes) :
    (∀ field, (configOf cl (lastGiven cl options)).field defaults field =
        fieldFor cl defaults options field) ↔ SanitizeAgrees cl defaults options := by
  have hrate : (configOf cl (lastGiven cl options)).field defaults .sanitizeRate =
        fieldFor cl defaults options .sanitizeRate ↔
      (lastNamed options (ascii "gc-sanitize-handles") = none →
        lastNamed options (ascii "gc-sanitize-handles-random-seed") ≠ none →
        defaults .sanitizeRate = .value (cl.init (ascii "gc-sanitize-handles"))) := by
    simp only [RuntimeConfig.field, RuntimeConfig.written, sanitize_lastGiven, fieldFor, Field.flag,
      Field.read, Field.isForced]
    cases lastNamed options (ascii "gc-sanitize-handles") with
    | some opt => simp
    | none =>
        cases lastNamed options (ascii "gc-sanitize-handles-random-seed") with
        | none => simp
        | some opt => simp [eq_comm]
  have hseed : (configOf cl (lastGiven cl options)).field defaults .sanitizeRandomSeed =
        fieldFor cl defaults options .sanitizeRandomSeed ↔
      (lastNamed options (ascii "gc-sanitize-handles-random-seed") = none →
        lastNamed options (ascii "gc-sanitize-handles") ≠ none →
        defaults .sanitizeRandomSeed =
          .value (cl.init (ascii "gc-sanitize-handles-random-seed"))) := by
    simp only [RuntimeConfig.field, RuntimeConfig.written, sanitize_lastGiven, fieldFor, Field.flag,
      Field.read, Field.isForced]
    cases lastNamed options (ascii "gc-sanitize-handles-random-seed") with
    | some opt => simp
    | none =>
        cases lastNamed options (ascii "gc-sanitize-handles") with
        | none => simp
        | some opt => simp [eq_comm]
  constructor
  · intro h
    exact ⟨hrate.mp (h .sanitizeRate), hseed.mp (h .sanitizeRandomSeed)⟩
  · intro h field
    by_cases hf : field = .sanitizeRate
    · rw [hf]
      exact hrate.mpr h.1
    · by_cases hf' : field = .sanitizeRandomSeed
      · rw [hf']
        exact hseed.mpr h.2
      · exact field_lastGiven cl defaults options hf hf'

/-! ### The order of the options -/

theorem result_ok_iff (P : OptionParser V) (calls : List (List Bytes)) {options : List Bytes}
    {config : RuntimeConfig V} :
    resultAfter P calls options = .ok config ↔
      Runnable P.commandLine options ∧
        config = configOf P.commandLine (lastGiven P.commandLine options) := by
  rw [← runHermesNode_started (commandLine_parsesDistinct P)
    (r := callsFrom P (registered P) calls), runHermesNode, resultAfter]
  cases (buildVmRuntimeConfig P.commandLine (callsFrom P (registered P) calls) options).2 with
  | error e => simp
  | ok built => simp

/-- Where no flag is repeated, the last option that names a flag is the only one. -/
theorem lastNamed_of_nodup {options : List Bytes} (h : (options.map vmOptionFlagName).Nodup)
    {name opt : Bytes} :
    lastNamed options name = some opt ↔ opt ∈ options ∧ vmOptionFlagName opt = name := by
  constructor
  · intro hlast
    exact ⟨mem_of_lastNamed hlast, lastNamed_name hlast⟩
  · rintro ⟨hmem, rfl⟩
    cases hlast : lastNamed options (vmOptionFlagName opt) with
    | none =>
        have hnone := List.find?_eq_none.mp hlast opt (by simpa using hmem)
        simp [named] at hnone
    | some other =>
        have hname := lastNamed_name hlast
        rw [List.inj_on_of_nodup_map h (mem_of_lastNamed hlast) hmem hname]

theorem lastNamed_perm {options options' : List Bytes} (hperm : options.Perm options')
    (h : (options.map vmOptionFlagName).Nodup) (name : Bytes) :
    lastNamed options name = lastNamed options' name := by
  have h' : (options'.map vmOptionFlagName).Nodup := (hperm.map _).nodup_iff.mp h
  ext opt
  rw [lastNamed_of_nodup h, lastNamed_of_nodup h', hperm.mem_iff]

/-! ### History, fields and order -/

/-- What a configuration should depend on. -/
structure Independent (P : OptionParser V) (defaults : Field → Setting V) (options : List Bytes) :
    Prop where
  history : ∀ calls calls', resultAfter P calls options = resultAfter P calls' options
  fields : ∀ calls config, resultAfter P calls options = .ok config →
    ∀ field, config.field defaults field = fieldFor P.commandLine defaults options field
  order : ∀ calls options' config, options.Perm options' → (options.map vmOptionFlagName).Nodup →
    resultAfter P calls options = .ok config → resultAfter P calls options' = .ok config

theorem resultAfter_perm {calls : List (List Bytes)} {options options' : List Bytes}
    {config : RuntimeConfig V} (hperm : options.Perm options')
    (hnodup : (options.map vmOptionFlagName).Nodup)
    (h : resultAfter P calls options = .ok config) : resultAfter P calls options' = .ok config := by
  rw [result_ok_iff] at h ⊢
  obtain ⟨hrun, rfl⟩ := h
  have hlast := lastNamed_perm hperm hnodup
  refine ⟨⟨?_, ?_⟩, ?_⟩
  · intro opt hopt
    exact hrun.honoured opt (hperm.mem_iff.mpr hopt)
  · intro name opt hopt
    exact hrun.accepted name opt (hlast name ▸ hopt)
  · have hsame : lastGiven P.commandLine options = lastGiven P.commandLine options' := by
      funext name
      rw [lastGiven, lastGiven, hlast]
    rw [hsame]

/-- Earlier calls and the order of the options never show. Every field follows its own flag exactly
when, for options a runtime can be configured with, the sanitizer's registered defaults are the
builder's wherever one of its flags is named without the other. -/
theorem independent_iff (P : OptionParser V) (defaults : Field → Setting V) (options : List Bytes) :
    Independent P defaults options ↔
      (Runnable P.commandLine options → SanitizeAgrees P.commandLine defaults options) := by
  constructor
  · intro h hrun
    rw [← fields_iff]
    exact h.fields [] _ ((result_ok_iff P []).mpr ⟨hrun, rfl⟩)
  · intro h
    constructor
    · intro calls calls'
      exact build_independent P _ _ options
    · intro calls config hresult
      obtain ⟨hrun, rfl⟩ := (result_ok_iff P calls).mp hresult
      exact (fields_iff P.commandLine defaults options).mpr (h hrun)
    · intro calls options' config hperm hnodup hresult
      exact resultAfter_perm hperm hnodup hresult

/-- A build that sanitizes handles: the rate is registered with a default of `0.01`. -/
def sanitizerBuild : OptionParser Bytes where
  init name := if name = ascii "gc-sanitize-handles" then ascii "0.01" else ascii "0"
  found arg := arg.take 1 == [45] && arg.take 3 != [45, 45, 45]
  parseValue arg := some (textValue arg)
  errText _ := []
  jitOff mode := mode == ascii "off"
  jitForce mode := mode == ascii "force"

/-- The defaults of the builders, where the rate is `0.0`. -/
def builderDefaults : Field → Setting Bytes
  | .sanitizeRate => .value (ascii "0.0")
  | .forceJIT => .flag false
  | .enableJIT => .flag false
  | _ => .value (ascii "0")

/-- A seed alone changes the rate. -/
theorem seed_changes_rate :
    ∃ config, resultAfter sanitizerBuild [] [ascii "-gc-sanitize-handles-random-seed=7"] =
        .ok config ∧
      lastNamed [ascii "-gc-sanitize-handles-random-seed=7"] (ascii "gc-sanitize-handles") = none ∧
      config.field builderDefaults .sanitizeRate = .value (ascii "0.01") ∧
      config.field builderDefaults .sanitizeRate ≠ builderDefaults .sanitizeRate := by
  have hrun : Runnable sanitizerBuild.commandLine
      [ascii "-gc-sanitize-handles-random-seed=7"] :=
    ⟨by decide, dedupe_all_accepts.mp (by decide)⟩
  have hrate : (configOf sanitizerBuild.commandLine (lastGiven sanitizerBuild.commandLine
      [ascii "-gc-sanitize-handles-random-seed=7"])).field builderDefaults .sanitizeRate =
      .value (ascii "0.01") := by
    decide
  refine ⟨_, (result_ok_iff sanitizerBuild []).mpr ⟨hrun, rfl⟩, by decide, hrate, ?_⟩
  rw [hrate]
  decide

end HermesNode.VmOptions
