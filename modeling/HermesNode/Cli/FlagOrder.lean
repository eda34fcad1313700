/-
Module: HermesNode.Cli.FlagOrder
Purpose: A flag edits the slots of its own family, and turns `inspect` and `inspectBrk` on. So flags of
  different families can change places.
Trusted boundary: none
Main exports: Flag.family, Slot, Flag.take_eq, parseLoop_shuffled
-/
import HermesNode.Cli.ParseLoop
import HermesNode.Lib.Shuffle

namespace HermesNode.Cli

/-- The flag a family is named after: the spellings of one option, and the two flags that take an
address. -/
def Flag.family : Flag → Flag
  | e | eval | evalEq => evalEq
  | inspectEq | inspectBrkEq => inspectEq
  | vmEq | vm => vmEq
  | r | require => require
  | flag => flag

def OptionUnit.family (u : OptionUnit) : Flag := u.flag.family

/-! ### The slots -/

/-- The fields of what the loop sets. -/
inductive Slot where
  | nodeVersion | compileCacheDir | disableCompileCache | optimize | vmOptions
  | scriptPath | buildBundlePath | verbose | includeModules | preloadModules
  | allowVmOptionsOverride | bundlePath | evalCode | argv | requireModules | enableRepl
  | inspect | inspectBrk | inspectHost | inspectPort | inspectOpen
  | dump | extractModule | dumpBytecode | out | verifyNatives | buildExe | kitDir | cc
  | hasEvalCode
deriving Repr, DecidableEq

namespace Slot

abbrev Content : Slot → Type
  | nodeVersion | compileCacheDir | scriptPath | buildBundlePath | bundlePath | evalCode
  | inspectHost => Bytes
  | disableCompileCache | verbose | allowVmOptionsOverride | enableRepl | inspect | inspectBrk
  | inspectOpen | dump | verifyNatives | hasEvalCode => Bool
  | optimize => OptimizeMode
  | vmOptions | includeModules | preloadModules | argv | requireModules => List Bytes
  | inspectPort => Int
  | extractModule | dumpBytecode | out | buildExe | kitDir | cc => Option Bytes

/-- The family that writes a slot. -/
def owner : Slot → Option Flag
  | nodeVersion => some .nodeVersion
  | compileCacheDir => some .compileCache
  | disableCompileCache => some .noCompileCache
  | optimize => some .optimize
  | vmOptions => some .vmEq
  | buildBundlePath => some .buildBundle
  | verbose => some .verbose
  | includeModules => some .includeModule
  | preloadModules => some .preloadModule
  | allowVmOptionsOverride => some .allowVmOptionsOverride
  | bundlePath => some .bundle
  | evalCode | hasEvalCode => some .evalEq
  | requireModules => some .require
  | inspectHost | inspectPort => some .inspectEq
  | inspectOpen => some .inspectOpen
  | dump => some .dump
  | extractModule => some .extractModule
  | dumpBytecode => some .dumpBytecode
  | out => some .out
  | verifyNatives => some .verifyNatives
  | buildExe => some .buildExe
  | kitDir => some .kit
  | cc => some .cc
  | scriptPath | argv | enableRepl | inspect | inspectBrk => none

end Slot

namespace ParseState

def slots (s : ParseState) : (i : Slot) → i.Content
  | .nodeVersion => s.config.process.nodeVersion
  | .compileCacheDir => s.config.process.compileCacheDir
  | .disableCompileCache => s.config.process.disableCompileCache
  | .optimize => s.config.process.optimize
  | .vmOptions => s.config.process.vmOptions
  | .scriptPath => s.config.scriptPath
  | .buildBundlePath => s.config.buildBundlePath
  | .verbose => s.config.verbose
  | .includeModules => s.config.includeModules
  | .preloadModules => s.config.preloadModules
  | .allowVmOptionsOverride => s.config.allowVmOptionsOverride
  | .bundlePath => s.config.bundlePath
  | .evalCode => s.config.evalCode
  | .argv => s.config.argv
  | .requireModules => s.config.requireModules
  | .enableRepl => s.config.enableRepl
  | .inspect => s.config.inspect
  | .inspectBrk => s.config.inspectBrk
  | .inspectHost => s.config.inspectHost
  | .inspectPort => s.config.inspectPort
  | .inspectOpen => s.config.inspectOpen
  | .dump => s.tools.dump
  | .extractModule => s.tools.extractModule
  | .dumpBytecode => s.tools.dumpBytecode
  | .out => s.tools.out
  | .verifyNatives => s.tools.verifyNatives
  | .buildExe => s.tools.buildExe
  | .kitDir => s.tools.kitDir
  | .cc => s.tools.cc
  | .hasEvalCode => s.hasEvalCode

def ofSlots (d : (i : Slot) → i.Content) : ParseState where
  config :=
    { process :=
        { nodeVersion := d .nodeVersion
          compileCacheDir := d .compileCacheDir
          disableCompileCache := d .disableCompileCache
          optimize := d .optimize
          vmOptions := d .vmOptions }
      scriptPath := d .scriptPath
      buildBundlePath := d .buildBundlePath
      verbose := d .verbose
      includeModules := d .includeModules
      preloadModules := d .preloadModules
      allowVmOptionsOverride := d .allowVmOptionsOverride
      bundlePath := d .bundlePath
      evalCode := d .evalCode
      argv := d .argv
      requireModules := d .requireModules
      enableRepl := d .enableRepl
      inspect := d .inspect
      inspectBrk := d .inspectBrk
      inspectHost := d .inspectHost
      inspectPort := d .inspectPort
      inspectOpen := d .inspectOpen }
  tools :=
    { dump := d .dump
      extractModule := d .extractModule
      dumpBytecode := d .dumpBytecode
      out := d .out
      verifyNatives := d .verifyNatives
      buildExe := d .buildExe
      kitDir := d .kitDir
      cc := d .cc }
  hasEvalCode := d .hasEvalCode

theorem slots_ofSlots (d : (i : Slot) → i.Content) : (ofSlots d).slots = d := by
  funext i
  cases i <;> rfl

/-- Some slots are edited. -/
def edited (s : ParseState) (edits : List (Edit Slot.Content)) : ParseState :=
  ofSlots (Edit.runAll s.slots edits)

theorem edited_edited (s : ParseState) (edits others : List (Edit Slot.Content)) :
    (s.edited edits).edited others = ofSlots (Edit.runAll (Edit.runAll s.slots edits) others) := by
  unfold edited
  rw [slots_ofSlots]

end ParseState

/-! ### What a flag edits -/

def put (slot : Slot) (content : slot.Content) : Edit Slot.Content := ⟨slot, fun _ => content⟩

/-- Turning the inspector on, which several families do. -/
def inspectOn : Edit Slot.Content := put .inspect true

def inspectBrkOn : Edit Slot.Content := put .inspectBrk true

/-- The host and the port an address sets, if it sets them. -/
def addressEdits (value : Bytes) : Except Bytes (List (Edit Slot.Content)) :=
  if value.isEmpty then .ok []
  else if value.all CString.isDigit then
    let port := CString.strtol value
    if port < 0 ∨ port > 65535 then .error (ascii "Error: invalid port number '" ++ value ++ ascii "'\n")
    else .ok [put .inspectPort port]
  else
    match CString.strrchr 58 value with
    | none => .error (ascii "Error: invalid inspect address '" ++ value ++ ascii "'\n")
    | some ([], _) => .error (ascii "Error: invalid inspect address '" ++ value ++ ascii "'\n")
    | some (host, portStr) =>
        if portStr.isEmpty then .error (ascii "Error: missing port in '" ++ value ++ ascii "'\n")
        else
          let port := CString.strtol portStr
          if port < 0 ∨ port > 65535 then
            .error (ascii "Error: invalid port number '" ++ portStr ++ ascii "'\n")
          else .ok [put .inspectHost host, put .inspectPort port]

/-- The edits of a flag with its value. -/
def Flag.edits (value : Bytes) : Flag → Except Bytes (List (Edit Slot.Content))
  | version | v | help | h | vmHelp => .ok []
  | e | eval | evalEq => .ok [put .evalCode value, put .hasEvalCode true]
  | inspect => .ok [inspectOn]
  | inspectEq => (addressEdits value).map fun es => inspectOn :: es
  | inspectBrk => .ok [inspectOn, inspectBrkOn]
  | inspectBrkEq => (addressEdits value).map fun es => inspectOn :: inspectBrkOn :: es
  | inspectOpen => .ok [inspectOn, put .inspectOpen true]
  | compileCache => .ok [put .compileCacheDir value]
  | noCompileCache => .ok [put .disableCompileCache true]
  | buildBundle => .ok [put .buildBundlePath value]
  | includeModule => .ok [⟨.includeModules, fun old => old ++ [value]⟩]
  | preloadModule => .ok [⟨.preloadModules, fun old => old ++ [value]⟩]
  | vmEq | vm => .ok [⟨.vmOptions, fun old => old ++ [value]⟩]
  | allowVmOptionsOverride => .ok [put .allowVmOptionsOverride true]
  | verbose => .ok [put .verbose true]
  | bundle => .ok [put .bundlePath value]
  | dump => .ok [put .dump true]
  | extractModule => .ok [put .extractModule (some value)]
  | dumpBytecode => .ok [put .dumpBytecode (some value)]
  | out => .ok [put .out (some value)]
  | verifyNatives => .ok [put .verifyNatives true]
  | buildExe => .ok [put .buildExe (some value)]
  | cc => .ok [put .cc (some value)]
  | kit => .ok [put .kitDir (some value)]
  | optimize =>
      if value = ascii "default" then .ok [put .optimize .kDefault]
      else if value = ascii "on" then .ok [put .optimize .kOn]
      else if value = ascii "off" then .ok [put .optimize .kOff]
      else .error (ascii "Error: --optimize expects default, on or off (got '" ++ value ++ ascii "')\n")
  | nodeVersion => .ok [put .nodeVersion value]
  | r | require => .ok [⟨.requireModules, fun old => old ++ [value]⟩]

/-- An address edits the host and the port, whatever the configuration is. -/
theorem inspectAt_eq (value : Bytes) (s : ParseState) :
    inspectAt value s = (addressEdits value).map s.edited := by
  unfold inspectAt addressEdits parseInspectHostPort
  by_cases hempty : value.isEmpty = true
  · rw [if_pos hempty, if_pos hempty]
    rfl
  rw [if_neg hempty, if_neg hempty]
  by_cases hdigits : value.all CString.isDigit = true
  · rw [if_pos hdigits, if_pos hdigits]
    dsimp only
    by_cases hrange : CString.strtol value < 0 ∨ CString.strtol value > 65535
    · rw [if_pos hrange, if_pos hrange]
      rfl
    · rw [if_neg hrange, if_neg hrange]
      rfl
  rw [if_neg hdigits, if_neg hdigits]
  cases CString.strrchr 58 value with
  | none => rfl
  | some parts =>
      rcases parts with ⟨_ | ⟨b, host⟩, portStr⟩
      · rfl
      · dsimp only
        by_cases hport : portStr.isEmpty = true
        · rw [if_pos hport, if_pos hport]
          rfl
        rw [if_neg hport, if_neg hport]
        by_cases hrange : CString.strtol portStr < 0 ∨ CString.strtol portStr > 65535
        · rw [if_pos hrange, if_pos hrange]
          rfl
        · rw [if_neg hrange, if_neg hrange]
          rfl

/-- Every branch of the loop is its edits. -/
theorem Flag.take_eq (flag : Flag) (value : Bytes) (s : ParseState) :
    flag.take value s = (flag.edits value).map s.edited := by
  cases flag with
  | inspectEq =>
      simp only [take, edits, inspectAt_eq]
      cases addressEdits value with
      | error message => rfl
      | ok es => exact congrArg Except.ok (s.edited_edited [inspectOn] es)
  | inspectBrkEq =>
      simp only [take, edits, inspectAt_eq]
      cases addressEdits value with
      | error message => rfl
      | ok es => exact congrArg Except.ok (s.edited_edited [inspectOn, inspectBrkOn] es)
  | optimize =>
      simp only [take, edits]
      split_ifs <;> rfl
  | _ => rfl

/-! ### Who edits what -/

section

variable {value : Bytes} {edit : Edit Slot.Content} {edits : List (Edit Slot.Content)}

/-- An address sets the host, or the port. -/
theorem addressEdits_owned (h : addressEdits value = .ok edits) (hedit : edit ∈ edits) :
    edit.slot.owner = some .inspectEq := by
  have hports : ∀ host port, edit ∈ [put .inspectHost host, put .inspectPort port] →
      edit.slot.owner = some .inspectEq := by
    intro host port hin
    simp only [List.mem_cons, List.not_mem_nil, or_false] at hin
    rcases hin with rfl | rfl <;> rfl
  unfold addressEdits at h
  split at h
  · cases h
    cases hedit
  · split at h
    · dsimp only at h
      split at h
      · cases h
      · cases h
        exact hports [] _ (List.mem_cons_of_mem _ hedit)
    · split at h
      · cases h
      · cases h
      · split at h
        · cases h
        · dsimp only at h
          split at h
          · cases h
          · cases h
            exact hports _ _ hedit

theorem edits_owned {flag : Flag} (h : flag.edits value = .ok edits) (hedit : edit ∈ edits) :
    edit.slot.owner = some flag.family ∨ edit = inspectOn ∨ edit = inspectBrkOn := by
  cases flag with
  | inspectEq =>
      simp only [Flag.edits] at h
      cases haddress : addressEdits value with
      | error message =>
          rw [haddress] at h
          cases h
      | ok es =>
          rw [haddress] at h
          cases h
          rcases List.mem_cons.mp hedit with rfl | hin
          · exact .inr (.inl rfl)
          · exact .inl (addressEdits_owned haddress hin)
  | inspectBrkEq =>
      simp only [Flag.edits] at h
      cases haddress : addressEdits value with
      | error message =>
          rw [haddress] at h
          cases h
      | ok es =>
          rw [haddress] at h
          cases h
          rcases List.mem_cons.mp hedit with rfl | hin
          · exact .inr (.inl rfl)
          rcases List.mem_cons.mp hin with rfl | hin
          · exact .inr (.inr rfl)
          · exact .inl (addressEdits_owned haddress hin)
  | optimize =>
      simp only [Flag.edits] at h
      split_ifs at h <;> (cases h; cases List.mem_singleton.mp hedit; exact .inl rfl)
  | inspect =>
      cases h
      exact .inr (.inl (List.mem_singleton.mp hedit))
  | inspectBrk =>
      cases h
      rcases List.mem_cons.mp hedit with rfl | hin
      · exact .inr (.inl rfl)
      · exact .inr (.inr (List.mem_singleton.mp hin))
  | inspectOpen =>
      cases h
      rcases List.mem_cons.mp hedit with rfl | hin
      · exact .inr (.inl rfl)
      · cases List.mem_singleton.mp hin
        exact .inl rfl
  | e | eval | evalEq =>
      cases h
      rcases List.mem_cons.mp hedit with rfl | hin
      · exact .inl rfl
      · cases List.mem_singleton.mp hin
        exact .inl rfl
  | version | v | help | h | vmHelp =>
      cases h
      cases hedit
  | _ =>
      cases h
      cases List.mem_singleton.mp hedit
      exact .inl rfl

/-- Flags of different families edit different slots, but for turning the inspector on. -/
theorem edits_agree {flag other : Flag} {value' : Bytes} {others : List (Edit Slot.Content)}
    (hfamily : flag.family ≠ other.family) (h : flag.edits value = .ok edits)
    (hother : other.edits value' = .ok others) :
    ∀ e ∈ edits, ∀ o ∈ others, e.slot = o.slot → e = o := by
  intro e he o ho hslot
  rcases edits_owned h he with howner | rfl | rfl
  · rcases edits_owned hother ho with howner' | rfl | rfl
    · rw [hslot, howner'] at howner
      cases hfamily (Option.some.inj howner).symm
    · rw [hslot] at howner
      cases howner
    · rw [hslot] at howner
      cases howner
  · rcases edits_owned hother ho with howner' | rfl | rfl
    · rw [← hslot] at howner'
      cases howner'
    · rfl
    · cases hslot
  · rcases edits_owned hother ho with howner' | rfl | rfl
    · rw [← hslot] at howner'
      cases howner'
    · cases hslot
    · rfl

end

/-! ### Shuffles of accepted units -/

/-- The edits of a unit, none if it is refused. -/
def OptionUnit.edits (u : OptionUnit) : List (Edit Slot.Content) :=
  match u.flag.edits u.value with
  | .ok edits => edits
  | .error _ => []

/-- The loop takes the unit, and goes on. -/
def OptionUnit.Accepted (u : OptionUnit) : Prop :=
  u.flag.form ≠ .stop ∧ u.flag.edits u.value = .ok u.edits

theorem edited_comm {u u' : OptionUnit} (h : u.family ≠ u'.family) (s : ParseState) :
    (s.edited u.edits).edited u'.edits = (s.edited u'.edits).edited u.edits := by
  rw [s.edited_edited, s.edited_edited]
  refine congrArg ParseState.ofSlots (Edit.runAll_comm ?_ s.slots)
  unfold OptionUnit.edits
  cases hu : u.flag.edits u.value with
  | error message => exact fun e he => absurd he List.not_mem_nil
  | ok edits =>
      cases hu' : u'.flag.edits u'.value with
      | error message => exact fun e _ o ho => absurd ho List.not_mem_nil
      | ok others => exact edits_agree h hu hu'

/-- The arguments of some units. -/
def unitArgs (units : List OptionUnit) : List Bytes := units.flatMap OptionUnit.args

def Parsed.Accepted (p : Parsed) : Prop := ∃ s scriptArgs programArgs, p = .parsed s scriptArgs programArgs

/-- Accepted units are all edited in, and the loop goes on behind them. -/
theorem parseLoop_units {units : List OptionUnit} (h : ∀ u ∈ units, u.Accepted) (more : List Bytes)
    (s : ParseState) :
    parseLoop (unitArgs units ++ more) s =
      parseLoop more (units.foldl (fun s u => s.edited u.edits) s) := by
  induction units generalizing s with
  | nil => rfl
  | cons u units ih =>
      rcases h u List.mem_cons_self with ⟨hstop, hedits⟩
      rw [unitArgs, List.flatMap_cons, List.append_assoc, parseLoop_unit hstop, Flag.take_eq, hedits]
      exact ih (fun v hv => h v (List.mem_cons_of_mem u hv)) (s.edited u.edits)

theorem accepted_of_parseLoop {units : List OptionUnit} {s : ParseState}
    (hstop : ∀ u ∈ units, u.flag.form ≠ .stop) (h : (parseLoop (unitArgs units) s).Accepted) :
    ∀ u ∈ units, u.Accepted := by
  induction units generalizing s with
  | nil => exact fun u hu => absurd hu List.not_mem_nil
  | cons u units ih =>
      have hfirst := hstop u List.mem_cons_self
      rw [unitArgs, List.flatMap_cons, parseLoop_unit hfirst, Flag.take_eq] at h
      cases hedits : u.flag.edits u.value with
      | error message =>
          rw [hedits] at h
          rcases h with ⟨s', scriptArgs, programArgs, hparsed⟩
          cases hparsed
      | ok edits =>
          rw [hedits] at h
          intro v hv
          rcases List.mem_cons.mp hv with rfl | hin
          · refine ⟨hfirst, ?_⟩
            rw [OptionUnit.edits, hedits]
          · exact ih (fun w hw => hstop w (List.mem_cons_of_mem u hw)) h v hin

/-- The loop comes to the same end behind a shuffle of accepted units. -/
theorem parseLoop_shuffled {units shuffled : List OptionUnit} {s : ParseState}
    (hstop : ∀ u ∈ units, u.flag.form ≠ .stop)
    (h : (parseLoop (unitArgs units) s).Accepted)
    (hshuffled : Shuffled OptionUnit.family units shuffled) (more : List Bytes) :
    parseLoop (unitArgs units ++ more) s = parseLoop (unitArgs shuffled ++ more) s := by
  have haccepted := accepted_of_parseLoop hstop h
  rw [parseLoop_units haccepted, parseLoop_units fun u hu => haccepted u (hshuffled.perm.mem_iff.mpr hu),
    foldl_shuffled (fun u u' s hfamily => edited_comm hfamily s) hshuffled]

end HermesNode.Cli
