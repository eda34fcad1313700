/-
Module: HermesNode.Cli.ParseLoop
Purpose: The loop of `main` over the arguments. A flag stands on its own, has its value behind `=` or in
  the next argument, or ends the program with a page of text. The loop ends at `--`, at the first argument
  that does not begin with `-`, or with an error.
Trusted boundary: human-reviewed spec (transcribed from `tools/hermes-node/hermes-node.cpp`)
Main exports: Flag, Flag.take, parseLoop_unit
-/
import HermesNode.Cli.InspectAddress

namespace HermesNode.Cli

/-- The flags, in the order in which the loop tests for them. -/
inductive Flag where
  | version | v | help | h
  | e | eval | evalEq
  | inspect | inspectEq | inspectBrk | inspectBrkEq | inspectOpen
  | compileCache | noCompileCache
  | buildBundle | includeModule | preloadModule
  | vmEq | vm | vmHelp | allowVmOptionsOverride
  | verbose | bundle | dump | extractModule | dumpBytecode | out | verifyNatives
  | buildExe | cc | kit
  | optimize | nodeVersion | r | require
deriving Repr, DecidableEq

/-- Where the value of a flag is. -/
inductive Form where
  | stop
  | bare
  | joined
  | separate
deriving Repr, DecidableEq

namespace Flag

def all : List Flag :=
  [version, v, help, h, e, eval, evalEq, inspect, inspectEq, inspectBrk, inspectBrkEq, inspectOpen,
    compileCache, noCompileCache, buildBundle, includeModule, preloadModule, vmEq, vm, vmHelp,
    allowVmOptionsOverride, verbose, bundle, dump, extractModule, dumpBytecode, out, verifyNatives,
    buildExe, cc, kit, optimize, nodeVersion, r, require]

def text : Flag → Bytes
  | version => ascii "--version"
  | v => ascii "-v"
  | help => ascii "--help"
  | h => ascii "-h"
  | e => ascii "-e"
  | eval => ascii "--eval"
  | evalEq => ascii "--eval="
  | inspect => ascii "--inspect"
  | inspectEq => ascii "--inspect="
  | inspectBrk => ascii "--inspect-brk"
  | inspectBrkEq => ascii "--inspect-brk="
  | inspectOpen => ascii "--inspect-open"
  | compileCache => ascii "--compile-cache="
  | noCompileCache => ascii "--no-compile-cache"
  | buildBundle => ascii "--build-bundle="
  | includeModule => ascii "--include="
  | preloadModule => ascii "--preload="
  | vmEq => ascii "--vm="
  | vm => ascii "--vm"
  | vmHelp => ascii "--vm-help"
  | allowVmOptionsOverride => ascii "--allow-vm-options-override"
  | verbose => ascii "--verbose"
  | bundle => ascii "--bundle="
  | dump => ascii "--dump"
  | extractModule => ascii "--extract-module="
  | dumpBytecode => ascii "--dump-bytecode="
  | out => ascii "--out="
  | verifyNatives => ascii "--verify-natives"
  | buildExe => ascii "--build-exe="
  | cc => ascii "--cc="
  | kit => ascii "--kit="
  | optimize => ascii "--optimize="
  | nodeVersion => ascii "--node-version"
  | r => ascii "-r"
  | require => ascii "--require"

def form : Flag → Form
  | version | v | help | h | vmHelp => .stop
  | inspect | inspectBrk | inspectOpen | noCompileCache | allowVmOptionsOverride | verbose | dump
  | verifyNatives => .bare
  | e | eval | vm | nodeVersion | r | require => .separate
  | evalEq | inspectEq | inspectBrkEq | compileCache | buildBundle | includeModule | preloadModule
  | vmEq | bundle | extractModule | dumpBytecode | out | buildExe | cc | kit | optimize => .joined

/-- `strncmp` over the text of a flag whose value follows it, `strcmp` for the others. -/
def Matches (flag : Flag) (arg : Bytes) : Bool :=
  if flag.form = .joined then flag.text.isPrefixOf arg else arg == flag.text

/-- The branch of the loop an argument takes. -/
def branch (arg : Bytes) : Option Flag := all.find? (·.Matches arg)

end Flag

/-- What the loop has set. -/
structure ParseState where
  config : HermesNodeConfig := {}
  tools : ToolOptions := {}
  hasEvalCode : Bool := false
deriving Repr, DecidableEq

/-- `--inspect=` and `--inspect-brk=`, once the inspector is turned on. -/
def inspectAt (value : Bytes) (s : ParseState) : Except Bytes ParseState :=
  match parseInspectHostPort value s.config with
  | (config, none) => .ok { s with config }
  | (_, some message) => .error message

/-- The body of a branch, with the value of the flag. -/
def Flag.take (value : Bytes) (s : ParseState) : Flag → Except Bytes ParseState
  | version | v | help | h | vmHelp => .ok s
  | e | eval | evalEq => .ok { s with config := { s.config with evalCode := value }, hasEvalCode := true }
  | inspect => .ok { s with config := { s.config with inspect := true } }
  | inspectEq => inspectAt value { s with config := { s.config with inspect := true } }
  | inspectBrk => .ok { s with config := { s.config with inspect := true, inspectBrk := true } }
  | inspectBrkEq =>
      inspectAt value { s with config := { s.config with inspect := true, inspectBrk := true } }
  | inspectOpen => .ok { s with config := { s.config with inspect := true, inspectOpen := true } }
  | compileCache =>
      .ok { s with config := { s.config with
        process := { s.config.process with compileCacheDir := value } } }
  | noCompileCache =>
      .ok { s with config := { s.config with
        process := { s.config.process with disableCompileCache := true } } }
  | buildBundle => .ok { s with config := { s.config with buildBundlePath := value } }
  | includeModule =>
      .ok { s with config := { s.config with includeModules := s.config.includeModules ++ [value] } }
  | preloadModule =>
      .ok { s with config := { s.config with preloadModules := s.config.preloadModules ++ [value] } }
  | vmEq | vm =>
      .ok { s with config := { s.config with
        process := { s.config.process with vmOptions := s.config.process.vmOptions ++ [value] } } }
  | allowVmOptionsOverride =>
      .ok { s with config := { s.config with allowVmOptionsOverride := true } }
  | verbose => .ok { s with config := { s.config with verbose := true } }
  | bundle => .ok { s with config := { s.config with bundlePath := value } }
  | dump => .ok { s with tools := { s.tools with dump := true } }
  | extractModule => .ok { s with tools := { s.tools with extractModule := some value } }
  | dumpBytecode => .ok { s with tools := { s.tools with dumpBytecode := some value } }
  | out => .ok { s with tools := { s.tools with out := some value } }
  | verifyNatives => .ok { s with tools := { s.tools with verifyNatives := true } }
  | buildExe => .ok { s with tools := { s.tools with buildExe := some value } }
  | cc => .ok { s with tools := { s.tools with cc := some value } }
  | kit => .ok { s with tools := { s.tools with kitDir := some value } }
  | optimize =>
      let under (optimize : OptimizeMode) : ParseState :=
        { s with config := { s.config with process := { s.config.process with optimize } } }
      if value = ascii "default" then .ok (under .kDefault)
      else if value = ascii "on" then .ok (under .kOn)
      else if value = ascii "off" then .ok (under .kOff)
      else .error (ascii "Error: --optimize expects default, on or off (got '" ++ value ++ ascii "')\n")
  | nodeVersion =>
      .ok { s with config := { s.config with process := { s.config.process with nodeVersion := value } } }
  | r | require =>
      .ok { s with config := { s.config with requireModules := s.config.requireModules ++ [value] } }

/-- How the loop ends. -/
inductive Parsed where
  /-- A page of text was printed. -/
  | printed (flag : Flag)
  | refused (message : Bytes)
  /-- The arguments from `scriptArgIndex` and those from `argvStartIndex` on. -/
  | parsed (s : ParseState) (scriptArgs programArgs : List Bytes)
deriving Repr, DecidableEq

def parseLoop : List Bytes → ParseState → Parsed
  | [], s => .parsed s [] []
  | arg :: rest, s =>
      match Flag.branch arg with
      | some flag =>
          match flag.form with
          | .stop => .printed flag
          | .bare =>
              match flag.take [] s with
              | .error message => .refused message
              | .ok s => parseLoop rest s
          | .joined =>
              match flag.take (arg.drop flag.text.length) s with
              | .error message => .refused message
              | .ok s => parseLoop rest s
          | .separate =>
              match rest with
              | [] => .refused (ascii "Error: " ++ arg ++ ascii " requires a value\n")
              | value :: rest =>
                  match flag.take value s with
                  | .error message => .refused message
                  | .ok s => parseLoop rest s
      | none =>
          if arg = ascii "--" then .parsed s (if s.hasEvalCode then [] else rest) rest
          else if arg.head? = some 45 then
            .refused (ascii "Error: unknown option '" ++ arg ++ ascii "'\n")
          else .parsed s (if s.hasEvalCode then [] else arg :: rest) (arg :: rest)

/-! ### A flag with its value -/

/-- No flag's text hides another flag from the loop. -/
theorem branch_text (flag : Flag) : Flag.branch flag.text = some flag := by
  cases flag <;> rfl

theorem branch_joined {flag : Flag} (h : flag.form = .joined) (value : Bytes) :
    Flag.branch (flag.text ++ value) = some flag := by
  cases flag <;> first | contradiction | rfl

theorem take_bare {flag : Flag} (h : flag.form = .bare) (value : Bytes) (s : ParseState) :
    flag.take value s = flag.take [] s := by
  cases flag <;> first | contradiction | rfl

/-- A flag, and the value it is given where it takes one. -/
structure OptionUnit where
  flag : Flag
  value : Bytes
deriving Repr, DecidableEq

/-- The arguments that say so. -/
def OptionUnit.args (u : OptionUnit) : List Bytes :=
  match u.flag.form with
  | .stop | .bare => [u.flag.text]
  | .joined => [u.flag.text ++ u.value]
  | .separate => [u.flag.text, u.value]

/-- The loop goes through a unit in one or two arguments, and through nothing else. -/
theorem parseLoop_unit {u : OptionUnit} (hstop : u.flag.form ≠ .stop) (more : List Bytes)
    (s : ParseState) :
    parseLoop (u.args ++ more) s =
      match u.flag.take u.value s with
      | .error message => .refused message
      | .ok s => parseLoop more s := by
  cases hform : u.flag.form with
  | stop => exact absurd hform hstop
  | bare =>
      simp only [OptionUnit.args, hform, List.cons_append, List.nil_append, parseLoop, branch_text,
        take_bare hform u.value]
  | joined =>
      simp only [OptionUnit.args, hform, List.cons_append, List.nil_append, parseLoop,
        branch_joined hform, List.drop_left]
  | separate =>
      simp only [OptionUnit.args, hform, List.cons_append, List.nil_append, parseLoop, branch_text]

end HermesNode.Cli
