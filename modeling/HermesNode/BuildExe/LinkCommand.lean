/-
Module: HermesNode.BuildExe.LinkCommand
Purpose: From a link line to the command of the final link. `make-kit.py` writes down what it took
  from the line, and `build-exe` puts the command together from what it reads back: driver flags,
  objects, force-load groups, the merged archive, system libraries. What gives way is the merged
  archive when the force-loaded one has its name, and an argument with the placeholder of the kit
  directory in it.
Trusted boundary: human-reviewed spec (transcribed from `utils/make-kit.py` and
  `lib/build-exe/build_exe.cpp`); a text is given by its UTF-8 bytes
Main exports: CutKit, makeKit, buildLinkCommand_iff
-/
import HermesNode.BuildExe.LinkLine

namespace HermesNode.BuildExe

/-! ### Cutting the kit -/

/-- `[a for a in archives if not (a in seen or seen.add(a))]` -/
def distinct (seen : List Bytes) : List Bytes → List Bytes
  | [] => []
  | a :: rest => if a ∈ seen then distinct seen rest else a :: distinct (a :: seen) rest

def Buckets.empty : Buckets := ⟨[], [], [], [], none, none⟩

/-- What of an argument becomes a link argument. -/
def Arg.linked : Arg → List Bytes
  | .forced flag lib => [flag, filename lib]
  | .forcedEnd flag => [flag]
  | .framework name => [ascii "-framework", name]
  | .library a =>
      match asLinkFlags a with
      | some (dir, lib) => [dir, lib]
      | none => [a]
  | _ => []

/-- The line as a list of arguments around one force-loaded archive. -/
structure Taken (decimals : List Bytes) (argv : List Bytes) (cc : Bytes) (args : List Arg)
    (lib : Bytes) : Prop where
  line : argv = cc :: args.flatMap Arg.tokens ∨
    argv = ascii "--" :: cc :: args.flatMap Arg.tokens
  proper : ∀ arg ∈ args, arg.Proper decimals
  closed : Closed args
  forced : ∃ flag, Arg.forced flag lib ∈ args
  single : ∀ flag other, Arg.forced flag other ∈ args → other = lib

end HermesNode.BuildExe
