/-
Module: HermesNode.Loader.ClosedWorld
Purpose: When the three entry points of the loader stay inside the container. A run is closed when it
  looks for nothing on the disk. For every argument the run is closed exactly when the predicates
  below say that no lookup is asked for; they follow the arguments, not the container: a string
  leaks only with an `options.paths` that the wrappers take for malformed and Node does not reject,
  anything else leaks through the search for the importer's own package.
Trusted boundary: none
Main exports: Run.Closed, loadAsksDisk, closed_world_iff
-/
import HermesNode.Loader.Requests

namespace HermesNode.Loader

open HermesNode.Bundle Resolve

/-- The run asked the disk for nothing and its answer does not come from there. -/
def Run.Closed (run : Run) : Prop := run.lookups = [] ∧ ∀ filename, run.reply ≠ .disk filename

/-! ### What is asked of the disk -/

/-- `x` finishes and what follows asks. -/
def Js.leadsTo {α : Type} (x : Js α) (calls : Calls) (asks : α → Calls → Bool) : Bool :=
  match x.run calls with
  | .error _ => false
  | .ok (a, calls') => asks a calls'

/-- The search for the package of `path` asks, unless it starts right in a `node_modules`. -/
def packageAsked (path : Option Value) (next : Calls → Bool) (calls : Calls) : Bool :=
  match path with
  | none => next calls
  | some path => (firstDirectory path).leadsTo calls fun (_, _, dir) calls =>
      !endsInNodeModules dir || next calls

/-- Self-resolution of the importer's package asks, and so does the walk that only a string gets
to. -/
def resolveAsksDisk (host : Host) (request : Value) (parent : Option Parent) (calls : Calls) :
    Bool :=
  packageAsked (importsPath host request parent)
    (packageAsked (trySelfParentPath host parent) fun _ => request.isString) calls

/-- Node's resolver asks for everything but a builtin, once it has computed where to look. -/
def originalAsksDisk (host : Host) (request : Value) (parent : Option Parent) (options : Options)
    (turns : Nat) (calls : Calls) : Bool :=
  match request with
  | .string s => (normalizeRequirableId s).isNone &&
      (reachPaths s options).leadsTo calls fun reached calls =>
        match reached with
        | .lookupPaths => true
        | .paths => resolveAsksDisk host request parent calls
  | _ => (computePaths request parent options turns).leadsTo calls fun _ calls =>
      resolveAsksDisk host request parent calls

/-- The `_resolveFilename` wrapper asks through what it forwards: a string whose `options.paths` it
takes for malformed, and whatever is no string. -/
def wrapperAsksDisk (host : Host) (request : Value) (parent : Option Parent) (options : Options)
    (turns : Nat) (calls : Calls) : Bool :=
  match request with
  | .string s => (normalizeRequirableId s).isNone &&
      (malformedPaths options).leadsTo calls fun (_, malformed) calls =>
        malformed && originalAsksDisk host request parent options turns calls
  | _ => options.hasPaths.leadsTo calls fun _ calls =>
      originalAsksDisk host request parent options turns calls

/-- The `_load` wrapper asks for no string. -/
def loadAsksDisk (host : Host) (request : Value) (parent : Option Parent) (turns : Nat) : Bool :=
  match request with
  | .string _ => false
  | _ => (cacheKey request parent).leadsTo {} fun _ calls =>
      request.coerce.leadsTo calls fun text calls =>
        !startsWithNode text && wrapperAsksDisk host request parent .undefined turns calls

/-- `require.resolve` of a bundled module rejects what is no string by itself. -/
def requireResolveAsksDisk (host : Host) (mod : Parent) (request : Value) (options : Options)
    (turns : Nat) : Bool :=
  match request with
  | .string s => (normalizeRequirableId s).isNone &&
      (malformedPaths options).leadsTo {} fun (_, malformed) calls =>
        malformed && wrapperAsksDisk host request (some mod) options turns calls
  | _ => false

/-! ### Closed runs -/

theorem closed_threw (failure : Failure) : (Run.threw failure).Closed := by
  constructor
  · rfl
  · intro filename h
    cases h

theorem closed_container (identity : JsString) : Run.Closed { reply := .container identity } := by
  constructor
  · rfl
  · intro filename h
    cases h

theorem closed_binary (request : JsString) : Run.Closed { reply := .binary request } := by
  constructor
  · rfl
  · intro filename h
    cases h

theorem not_closed_of_lookup {run : Run} (h : run.lookups ≠ []) : ¬ run.Closed := by
  intro hclosed
  exact h hclosed.1

theorem andThen_closed_iff {α : Type} {x : Js α} {calls : Calls} {next : α → Calls → Run}
    {asks : α → Calls → Bool} (hnext : ∀ a calls, (next a calls).Closed ↔ asks a calls = false) :
    (x.andThen calls next).Closed ↔ x.leadsTo calls asks = false := by
  unfold Js.andThen Js.leadsTo
  cases x.run calls with
  | error failure => simp [closed_threw]
  | ok result =>
      rcases result with ⟨a, calls'⟩
      exact hnext a calls'

theorem andThen_closed {α : Type} {x : Js α} {calls : Calls} {next : α → Calls → Run}
    (hnext : ∀ a calls, (next a calls).Closed) : (x.andThen calls next).Closed := by
  unfold Js.andThen
  cases x.run calls with
  | error failure => exact closed_threw failure
  | ok result =>
      rcases result with ⟨a, calls'⟩
      exact hnext a calls'

theorem climb_nodeModules {isFile : JsString → Bool} {root sep : Option Nat} {fuel : Nat}
    {dir : JsString} (h : endsInNodeModules dir = true) :
    climb isFile root (fuel + 1) sep dir = ([], none) := by
  simp [climb, h]

theorem climb_files_ne_nil {isFile : JsString → Bool} {root sep : Option Nat} {fuel : Nat}
    {dir : JsString} (h : endsInNodeModules dir = false) :
    (climb isFile root (fuel + 1) sep dir).1 ≠ [] := by
  rw [climb, if_neg (by simp [h])]
  cases hfile : isFile (dir ++ ascii "/package.json") with
  | true => simp [hfile]
  | false =>
      cases separatorBehind root sep with
      | true => simp [hfile]
      | false => simp [hfile]

theorem findParentPackageJSON_run (disk : Disk) (path : Value) (calls : Calls) :
    (findParentPackageJSON disk path).run calls =
      match (firstDirectory path).run calls with
      | .error failure => .error failure
      | .ok ((root, sep, dir), calls') =>
          .ok (climb disk.isFile root (dir.length + 1) sep dir, calls') := by
  unfold findParentPackageJSON
  rw [StateT.run_bind]
  cases (firstDirectory path).run calls with
  | error failure => rfl
  | ok result => rfl

/-- A search for a package is closed when it is not asked for and what follows is closed. -/
theorem searchPackage_closed_iff {host : Host} {path : Option Value}
    {found : JsString → Option Reply} {next : Calls → Run} {asks : Calls → Bool}
    (hnext : ∀ calls, (next calls).Closed ↔ asks calls = false) (calls : Calls) :
    (searchPackage host path found next calls).Closed ↔ packageAsked path asks calls = false := by
  cases path with
  | none => exact hnext calls
  | some path =>
      unfold searchPackage packageAsked Js.andThen Js.leadsTo
      simp only [findParentPackageJSON_run]
      cases (firstDirectory path).run calls with
      | error failure => simp [closed_threw]
      | ok result =>
          rcases result with ⟨⟨root, sep, dir⟩, calls'⟩
          cases hdir : endsInNodeModules dir with
          | true =>
              simp only [climb_nodeModules hdir]
              simpa [Run.afterFiles, hdir] using hnext calls'
          | false =>
              have hfiles := @climb_files_ne_nil host.disk.isFile root sep dir.length dir hdir
              simp only [hdir, Bool.not_false, Bool.true_or, Bool.true_eq_false, iff_false]
              apply not_closed_of_lookup
              split
              · simpa using hfiles
              · simp [Run.afterFiles, hfiles]

theorem resolveWithPaths_closed_iff (host : Host) (request : Value) (parent : Option Parent)
    (calls : Calls) : (resolveWithPaths host request parent calls).Closed ↔
      resolveAsksDisk host request parent calls = false := by
  apply searchPackage_closed_iff
  intro calls
  apply searchPackage_closed_iff
  intro calls
  cases request with
  | string s => simp [Value.isString, Run.Closed]
  | undefined => simp [Value.isString, closed_threw]
  | null => simp [Value.isString, closed_threw]
  | exotic e => simp [Value.isString, closed_threw]

theorem originalResolveFilename_closed_iff (host : Host) (request : Value)
    (parent : Option Parent) (options : Options) (turns : Nat) (calls : Calls) :
    (originalResolveFilename host request parent options turns calls).Closed ↔
      originalAsksDisk host request parent options turns calls = false := by
  have hother : ((computePaths request parent options turns).andThen calls fun _ calls =>
      resolveWithPaths host request parent calls).Closed ↔
      ((computePaths request parent options turns).leadsTo calls fun _ calls =>
        resolveAsksDisk host request parent calls) = false := by
    apply andThen_closed_iff
    intro _ calls
    exact resolveWithPaths_closed_iff host request parent calls
  cases request with
  | string s =>
      unfold originalResolveFilename originalAsksDisk
      cases hid : normalizeRequirableId s with
      | some id => simp [hid, closed_binary]
      | none =>
          simp only [hid, Option.isSome_none, Bool.false_eq_true, if_false, Option.isNone_none,
            Bool.true_and]
          apply andThen_closed_iff
          intro reached calls
          cases reached with
          | lookupPaths => simp [Run.Closed]
          | paths => exact resolveWithPaths_closed_iff host (.string s) parent calls
  | undefined => exact hother
  | null => exact hother
  | exotic e => exact hother

/-! ### Forwarded builtins -/

/-- The name a vendored package or builtin is forwarded under is accepted by the original loader. -/
theorem normalizeRequirableId_embeddedRequest {s : JsString} (h : isEmbedded s = true) :
    (normalizeRequirableId (embeddedRequest s)).isSome = true := by
  -- no name in the list carries the scheme itself
  have hids : ∀ id ∈ allRequirableIds, startsWithNode id = false := by
    decide
  unfold embeddedRequest normalizeRequirableId
  simp only [isEmbedded, Bool.or_eq_true, Bool.and_eq_true, List.contains_iff_mem] at h
  cases hnode : startsWithNode s with
  | true =>
      rcases h with hmem | ⟨_, hmem⟩
      · rw [hids s hmem] at hnode
        cases hnode
      · simp [hnode, hmem]
  | false =>
      rcases h with hmem | ⟨hcontra, _⟩
      · have hscheme : startsWithNode (ascii "node:" ++ s) = true := by
          simp [startsWithNode, ascii]
        have hdrop : (ascii "node:" ++ s).drop 5 = s := by
          simp [ascii]
        simp [hscheme, hdrop, hmem]
      · rw [hnode] at hcontra
        cases hcontra

/-- A string the original resolver takes for a builtin never leaves the binary. -/
theorem builtin_closed (host : Host) {s : JsString} (h : (normalizeRequirableId s).isSome = true)
    (parent : Option Parent) (options : Options) (turns : Nat) (calls : Calls) :
    (originalResolveFilename host (.string s) parent options turns calls).Closed := by
  rw [originalResolveFilename, if_pos h]
  exact closed_binary s

/-! ### The entry points -/

theorem moduleResolveFilename_closed_iff (host : Host) (b : OpenBundle) (request : Value)
    (parent : Option Parent) (options : Options) (turns : Nat) (calls : Calls) :
    (moduleResolveFilename host b request parent options turns calls).Closed ↔
      wrapperAsksDisk host request parent options turns calls = false := by
  have hother : (options.hasPaths.andThen calls fun _ calls =>
      originalResolveFilename host request parent options turns calls).Closed ↔
      (options.hasPaths.leadsTo calls fun _ calls =>
        originalAsksDisk host request parent options turns calls) = false := by
    apply andThen_closed_iff
    intro _ calls
    exact originalResolveFilename_closed_iff host request parent options turns calls
  cases request with
  | string s =>
      cases hid : normalizeRequirableId s with
      | some id =>
          have hbuiltin : (normalizeRequirableId s).isSome = true := by rw [hid]; rfl
          simp only [wrapperAsksDisk, hid, Option.isNone_some, Bool.false_and, iff_true]
          apply andThen_closed
          intro flags calls
          simp only [hid, Option.isSome_some, Bool.or_true, if_true]
          exact builtin_closed host hbuiltin parent options turns calls
      | none =>
          simp only [wrapperAsksDisk, hid, Option.isNone_none, Bool.true_and]
          apply andThen_closed_iff
          intro flags calls
          rcases flags with ⟨hasPaths, malformed⟩
          cases malformed with
          | true =>
              simpa [hid] using
                originalResolveFilename_closed_iff host (.string s) parent options turns calls
          | false =>
              -- the container answers, or the binary does, or the loader throws
              have hembedded : ∀ calls, Run.Closed
                  (if isEmbedded s then originalResolveFilename host
                    (.string (embeddedRequest s)) parent options turns calls
                  else Run.threw .moduleNotFound) := by
                intro calls
                split
                · rename_i hemb
                  exact builtin_closed host (normalizeRequirableId_embeddedRequest hemb) parent
                    options turns calls
                · exact closed_threw _
              simp only [hid, Option.isSome_none, Bool.or_false, Bool.false_eq_true, if_false,
                Bool.false_and, iff_true]
              split
              · exact hembedded calls
              · split
                · exact closed_container _
                · apply andThen_closed
                  intro paths calls
                  split
                  · exact closed_container _
                  · exact hembedded calls
  | undefined => exact hother
  | null => exact hother
  | exotic e => exact hother

theorem originalLoad_builtin_closed (host : Host) (b : OpenBundle) {s : JsString}
    (h : (normalizeRequirableId s).isSome = true) (parent : Option Parent) (turns : Nat) :
    (originalLoad host b (.string s) parent turns).Closed := by
  apply andThen_closed
  intro _ calls
  apply andThen_closed
  intro text calls
  split
  · simpa [h] using closed_binary s
  · rw [moduleResolveFilename_closed_iff]
    simp only [wrapperAsksDisk, Option.isNone_eq_false_iff.mpr h, Bool.false_and]

theorem moduleLoad_closed_iff (host : Host) (b : OpenBundle) (request : Value)
    (parent : Option Parent) (turns : Nat) :
    (moduleLoad host b request parent turns).Closed ↔
      loadAsksDisk host request parent turns = false := by
  have hother (hstring : request.isString = false) :
      (originalLoad host b request parent turns).Closed ↔
      ((cacheKey request parent).leadsTo {} fun _ calls =>
        request.coerce.leadsTo calls fun text calls =>
          !startsWithNode text && wrapperAsksDisk host request parent .undefined turns calls) =
        false := by
    apply andThen_closed_iff
    intro _ calls
    apply andThen_closed_iff
    intro text calls
    cases startsWithNode text with
    | true =>
        cases request with
        | string s => cases hstring
        | undefined => simp [closed_threw]
        | null => simp [closed_threw]
        | exotic e => simp [closed_threw]
    | false =>
        simpa using moduleResolveFilename_closed_iff host b request parent .undefined turns calls
  cases request with
  | string s =>
      simp only [loadAsksDisk, iff_true]
      cases hid : normalizeRequirableId s with
      | some id =>
          have hbuiltin : (normalizeRequirableId s).isSome = true := by rw [hid]; rfl
          rw [moduleLoad, if_pos hbuiltin]
          exact originalLoad_builtin_closed host b hbuiltin parent turns
      | none =>
          have hembedded : Run.Closed
              (if isEmbedded s then originalLoad host b (.string (embeddedRequest s)) parent turns
              else Run.threw .moduleNotFound) := by
            split
            · rename_i hemb
              exact originalLoad_builtin_closed host b
                (normalizeRequirableId_embeddedRequest hemb) parent turns
            · exact closed_threw _
          simp only [moduleLoad, hid, Option.isSome_none, Bool.false_eq_true, if_false]
          split
          · exact hembedded
          · split
            · exact closed_container _
            · split
              · exact closed_container _
              · exact hembedded
  | undefined => exact hother rfl
  | null => exact hother rfl
  | exotic e => exact hother rfl

theorem requireResolve_closed_iff (host : Host) (b : OpenBundle) (identity : JsString)
    (mod : Parent) (request : Value) (options : Options) (turns : Nat) :
    (requireResolve host b identity mod request options turns).Closed ↔
      requireResolveAsksDisk host mod request options turns = false := by
  have hother : ((malformedPaths options).andThen {} fun _ _ =>
      Run.threw .invalidArgument).Closed := by
    apply andThen_closed
    intro _ _
    exact closed_threw _
  cases request with
  | string s =>
      cases hid : normalizeRequirableId s with
      | some id =>
          simp only [requireResolveAsksDisk, hid, Option.isNone_some, Bool.false_and, iff_true]
          apply andThen_closed
          intro flags calls
          simp only [hid, Option.isSome_some, Bool.or_true, if_true]
          rw [baseResolve, moduleResolveFilename_closed_iff]
          simp only [wrapperAsksDisk, hid, Option.isNone_some, Bool.false_and]
      | none =>
          simp only [requireResolveAsksDisk, hid, Option.isNone_none, Bool.true_and]
          apply andThen_closed_iff
          intro flags calls
          rcases flags with ⟨hasPaths, malformed⟩
          cases malformed with
          | true =>
              simpa [hid, baseResolve] using
                moduleResolveFilename_closed_iff host b (.string s) (some mod) options turns calls
          | false =>
              simp only [hid, Option.isSome_none, Bool.or_false, Bool.false_eq_true, if_false,
                Bool.false_and, iff_true]
              split
              · exact closed_container _
              · apply andThen_closed
                intro paths calls
                split
                · exact closed_container _
                · split
                  · rename_i hemb
                    rw [baseResolve, moduleResolveFilename_closed_iff]
                    simp only [wrapperAsksDisk, Option.isNone_eq_false_iff.mpr
                      (normalizeRequirableId_embeddedRequest hemb), Bool.false_and]
                  · exact closed_threw _
  | undefined => exact iff_of_true hother rfl
  | null => exact iff_of_true hother rfl
  | exotic e => exact iff_of_true hother rfl

/-- Each entry point looks nothing up on the disk exactly when its arguments do not ask for it. -/
theorem closed_world_iff (host : Host) (b : OpenBundle) (turns : Nat) :
    (∀ request parent, (moduleLoad host b request parent turns).Closed ↔
      loadAsksDisk host request parent turns = false) ∧
    (∀ request parent options,
      (moduleResolveFilename host b request parent options turns {}).Closed ↔
        wrapperAsksDisk host request parent options turns {} = false) ∧
    (∀ identity mod request options,
      (requireResolve host b identity mod request options turns).Closed ↔
        requireResolveAsksDisk host mod request options turns = false) := by
  refine ⟨?_, ?_, ?_⟩
  · intro request parent
    exact moduleLoad_closed_iff host b request parent turns
  · intro request parent options
    exact moduleResolveFilename_closed_iff host b request parent options turns {}
  · intro identity mod request options
    exact requireResolve_closed_iff host b identity mod request options turns

/-! ### What asks, for plain arguments -/

/-- A value of `options.paths` that is neither absent nor an array. -/
def PathsValue.malformed : PathsValue → Bool
  | .undefined => false
  | .list true _ => false
  | _ => true

/-- With an `options.paths` that every read answers alike, Node rejects what the wrapper forwards
unless `options` is a function: that is what its own test looks at and the wrapper's does not. -/
theorem wrapperAsksDisk_plain (host : Host) {s : JsString} (hid : normalizeRequirableId s = none)
    (parent : Option Parent) (callable conditionsThrow : Bool) (v : PathsValue) (turns : Nat)
    (calls : Calls) :
    wrapperAsksDisk host (.string s) parent
        (.object callable conditionsThrow fun _ => .value v) turns calls =
      (v.malformed && callable && !conditionsThrow) := by
  cases v with
  | undefined =>
      simp only [wrapperAsksDisk, hid]
      rfl
  | null =>
      cases callable <;> cases conditionsThrow <;>
        simp only [wrapperAsksDisk, originalAsksDisk, hid] <;> rfl
  | list isArray elements =>
      cases isArray <;> cases callable <;> cases conditionsThrow <;>
        simp only [wrapperAsksDisk, originalAsksDisk, hid] <;> rfl

theorem firstDirectory_string (f : JsString) (calls : Calls) :
    (firstDirectory (.string f)).run calls =
      .ok ((firstSlash f, lastSlash f, sliceTo f (lastSlash f)), calls) := rfl

/-- From a module with a filename, self-resolution of a request that is no string asks unless that
file lies right in a `node_modules`. -/
theorem resolveAsksDisk_filename (host : Host) (e : Exotic) {parent : Parent} {f : JsString}
    (hf : parent.filename = .string f) (hne : f ≠ []) (calls : Calls) :
    resolveAsksDisk host (.exotic e) (some parent) calls =
      !endsInNodeModules (sliceTo f (lastSlash f)) := by
  have htruthy : parent.filename.truthy = true := by
    simpa [hf, Value.truthy] using hne
  have hself : trySelfParentPath host (some parent) = some (.string f) := by
    rw [trySelfParentPath, if_pos htruthy, hf]
  have hasked : ∀ calls, packageAsked (some (.string f)) (fun _ => false) calls =
      !endsInNodeModules (sliceTo f (lastSlash f)) := by
    intro calls
    simp [packageAsked, Js.leadsTo, firstDirectory_string]
  unfold resolveAsksDisk
  rw [hself]
  cases hhash : e.hash with
  | false =>
      have himports : importsPath host (.exotic e) (some parent) = none := by
        simp [importsPath, Value.startsWithHash, hhash]
      rw [himports]
      exact hasked calls
  | true =>
      have himports : importsPath host (.exotic e) (some parent) = some (.string f) := by
        rw [importsPath, if_pos (by simp [Value.startsWithHash, hhash, htruthy]), hf]
      rw [himports]
      simp [packageAsked, Js.leadsTo, firstDirectory_string, Value.isString]

/-- A computation that never throws. -/
def Js.Returns {α : Type} (x : Js α) : Prop := ∀ calls, ∃ a calls', x.run calls = .ok (a, calls')

theorem returns_pure {α : Type} (a : α) : Js.Returns (pure a) := by
  intro calls
  exact ⟨a, calls, rfl⟩

theorem returns_bind {α β : Type} {x : Js α} {f : α → Js β} (hx : x.Returns)
    (hf : ∀ a, (f a).Returns) : (x >>= f).Returns := by
  intro calls
  rcases hx calls with ⟨a, calls', hrun⟩
  rcases hf a calls' with ⟨b, calls'', hnext⟩
  refine ⟨b, calls'', ?_⟩
  rw [StateT.run_bind, hrun]
  exact hnext

/-- Where program code runs before the disk is asked, the question is asked if the code returns. -/
theorem Js.Returns.leadsTo {α : Type} {x : Js α} (hx : x.Returns) {asks : α → Calls → Bool}
    {answer : Bool} (hasks : ∀ a calls, asks a calls = answer) (calls : Calls) :
    x.leadsTo calls asks = answer := by
  rcases hx calls with ⟨a, calls', hrun⟩
  rw [Js.leadsTo, hrun]
  exact hasks a calls'

theorem coerce_returns {e : Exotic} (htext : ∀ n, (e.text n).isSome) :
    (Value.coerce (.exotic e)).Returns := by
  intro calls
  rcases Option.isSome_iff_exists.mp (htext calls.conversions) with ⟨text, heq⟩
  refine ⟨text, { calls with conversions := calls.conversions + 1 }, ?_⟩
  simp [Value.coerce, StateT.run, heq]

/-- The lookup paths of a request with a text can be computed from a module with a filename. -/
theorem resolveLookupPaths_returns {e : Exotic} (htext : ∀ n, (e.text n).isSome)
    {parent : Parent} (hf : parent.filename.isString = true) :
    (resolveLookupPaths (.exotic e) (some parent)).Returns := by
  have hmodules : (requestsModules (.exotic e)).Returns := by
    unfold requestsModules
    apply returns_bind (coerce_returns htext)
    intro text
    split
    · exact returns_pure _
    · split
      · exact returns_pure _
      · apply returns_bind (coerce_returns htext)
        intro text
        split
        · exact returns_pure _
        · apply returns_bind (coerce_returns htext)
          intro text
          exact returns_pure _
  apply returns_bind hmodules
  intro modules
  cases modules with
  | true => exact returns_pure _
  | false => simpa [hf] using returns_pure ()

/-- `Module._load` of a number, an object, or whatever else has a text that is no `node:` name: it
gets as far as the search for the importer's package. -/
theorem loadAsksDisk_plain (host : Host) {e : Exotic} (htext : ∀ n, (e.text n).isSome)
    (hnode : ∀ n text, e.text n = some text → startsWithNode text = false) {parent : Parent}
    {f dir : JsString} (hf : parent.filename = .string f) (hne : f ≠ [])
    (hpath : parent.path = .string dir) (turns : Nat) :
    loadAsksDisk host (.exotic e) (some parent) turns =
      !endsInNodeModules (sliceTo f (lastSlash f)) := by
  have hstring : parent.filename.isString = true := by
    rw [hf]
    rfl
  have hkey : (cacheKey (.exotic e) (some parent)).Returns := by
    simp only [cacheKey, hpath]
    apply returns_bind (returns_pure dir)
    intro _
    apply returns_bind (coerce_returns htext)
    intro _
    exact returns_pure ()
  apply hkey.leadsTo
  intro _ calls
  rcases Option.isSome_iff_exists.mp (htext calls.conversions) with ⟨text, heq⟩
  have hcoerce : (Value.coerce (.exotic e)).run calls =
      .ok (text, { calls with conversions := calls.conversions + 1 }) := by
    simp [Value.coerce, StateT.run, heq]
  rw [Js.leadsTo, hcoerce]
  simp only [hnode _ _ heq, Bool.not_false, Bool.true_and]
  have hpaths : Options.hasPaths .undefined = pure false := rfl
  simp only [wrapperAsksDisk, hpaths]
  apply (returns_pure false).leadsTo
  intro _ calls
  apply (resolveLookupPaths_returns htext hstring).leadsTo
  intro _ calls
  exact resolveAsksDisk_filename host e hf hne calls

/-! ### Two leaks -/

/-- Strings cross the native boundary unchanged; nothing is on the disk. -/
def plainHost : Host where
  napi := { toUtf8 := id, ofUtf8 := id }
  disk := { isFile := fun _ => false, imports := fun _ _ => none, self := fun _ _ => none,
            walk := fun _ => .threw .moduleNotFound }
  cwd := ascii "/srv"
  relative := fun _ path => path

/-- A container at `/srv` with the one module `a`. -/
def plainBundle : OpenBundle where
  reader := { data := singleModuleContainer, header := singleModuleHeader }
  root := ascii "/srv"

/-- The record of that module. -/
def plainRecord : Parent where
  bundleIdentity := .string (ascii "a")
  filename := .string (ascii "/srv/a")
  id := .string (ascii "/srv/a")
  path := .string (ascii "/srv")

/-- `Object.assign(function() {}, { paths: 5 })`. -/
def functionOptions : Options := .object true false fun _ => .value (.list false [])

/-- The number 123. -/
def number123 : Value :=
  .exotic { truthy := true, text := fun _ => some (ascii "123"), length := 0, hash := false }

/-- `require.resolve('./dep.js', f)` with a function `f` that has a `paths` which is no array walks
the disk, and `module.constructor._load(123, module)` looks for `package.json` next to the bundle. -/
theorem disk_asked :
    ¬ (requireResolve plainHost plainBundle (ascii "a") plainRecord (.string (ascii "./dep.js"))
      functionOptions 1).Closed ∧
    ¬ (moduleResolveFilename plainHost plainBundle (.string (ascii "./dep.js"))
      (some plainRecord) functionOptions 1 {}).Closed ∧
    ¬ (moduleLoad plainHost plainBundle number123 (some plainRecord) 1).Closed := by
  rw [requireResolve_closed_iff, moduleResolveFilename_closed_iff, moduleLoad_closed_iff]
  decide

end HermesNode.Loader
