/-
Module: HermesNode.BuildExe.LinkLine
Purpose: How `make-kit.py` takes a link line apart. One scan with lookahead sorts the arguments into
  lists; read backwards, an accepted line is a list of arguments, each of which goes to the end of the
  list it belongs to.
Trusted boundary: human-reviewed spec (transcribed from `utils/make-kit.py`); a text is given by its
  UTF-8 bytes
Main exports: Arg, Buckets, parseLinkLine_args, foldl_syslibs
-/
import HermesNode.BuildExe.Manifest
import HermesNode.Lib.Path

namespace HermesNode.BuildExe

/-! ### Libraries by name -/

def sharedExtensions : List Bytes := [ascii ".so", ascii ".dylib", ascii ".tbd"]

/-- The bytes of the decimal digit a text starts with. `decimals` are the digits beyond ASCII that
`\d` matches. -/
def digitWidth (decimals : List Bytes) (text : Bytes) : Nat :=
  match text with
  | [] => 0
  | c :: _ =>
      if 48 ≤ c ∧ c ≤ 57 then 1 else ((decimals.find? (· <+: text)).map List.length).getD 0

inductive VersionMode where
  | dotOrEnd
  | behindDot
  | digits
deriving Repr, DecidableEq

/-- Whether `(\.\d+)*$` matches, `skip` bytes of a digit ahead. -/
def isVersions (decimals : List Bytes) : VersionMode → Nat → Bytes → Bool
  | mode, _, [] => mode != .behindDot
  | mode, skip + 1, _ :: rest => isVersions decimals mode skip rest
  | mode, 0, c :: rest =>
      let width := digitWidth decimals (c :: rest)
      (mode != .behindDot && c == 10 && rest.isEmpty) ||
        (mode != .behindDot && c == 46 && isVersions decimals .behindDot 0 rest) ||
        (mode != .dotOrEnd && width != 0 && isVersions decimals .digits (width - 1) rest)

/-- `SHARED_LIB_RE.search(base)` -/
def isSharedLib (decimals : List Bytes) (base : Bytes) : Bool :=
  base.tails.any fun tail => sharedExtensions.any fun ext =>
    ext.isPrefixOf tail && isVersions decimals .dotOrEnd 0 (tail.drop ext.length)

/-- `LINKABLE_LIB_RE.match(base)`, as the group it captures. -/
def linkableName (base : Bytes) : Option Bytes :=
  let body := if base.getLast? = some 10 then base.dropLast else base
  if (ascii "lib").isPrefixOf body then
    sharedExtensions.findSome? fun ext =>
      let name := (body.drop 3).take (body.length - 3 - ext.length)
      if ext.isSuffixOf body && !name.isEmpty && !name.contains 10 then some name else none
  else none

/-- `os.path.dirname` -/
def dirname (path : Bytes) : Bytes :=
  let head := path.take (path.length - (filename path).length)
  if head.all (· == slash) then head else (head.reverse.dropWhile (· == slash)).reverse

def asLinkFlags (arg : Bytes) : Option (Bytes × Bytes) :=
  if isAbsolute arg then
    (linkableName (filename arg)).map fun name => (ascii "-L" ++ dirname arg, ascii "-l" ++ name)
  else none

example : asLinkFlags (ascii "/usr/lib/libicui18n.so") =
    some (ascii "-L/usr/lib", ascii "-licui18n") := by decide

example : isSharedLib [] (ascii "libicui18n.so.74.2") = true ∧
    asLinkFlags (ascii "/usr/lib/libicui18n.so.74.2") = none := by decide

/-! ### The scan -/

def forceFlagsPre : List Bytes := [ascii "-force_load", ascii "-Wl,--whole-archive"]

def forceFlagsPost : List Bytes := [ascii "-Wl,--no-whole-archive"]

/-- What one turn of the scan takes from the line. -/
inductive Arg where
  | output (operand : Bytes)
  | forced (flag lib : Bytes)
  | forcedEnd (flag : Bytes)
  | archive (a : Bytes)
  | object (a : Bytes)
  | framework (name : Bytes)
  | library (a : Bytes)
  | driver (a : Bytes)
deriving Repr, DecidableEq

/-- The lists the scan fills. -/
structure Buckets where
  archives : List Bytes
  linkargs : List LinkArg
  syslibs : List Bytes
  driverflags : List Bytes
  forceLoaded : Option Bytes
  stamp : Option Bytes
deriving Repr, DecidableEq

/-- What one turn does to the lists. A directory flag stands before the first library that needs
it. -/
def Buckets.add (p : Buckets) : Arg → Buckets
  | .output operand => { p with stamp := some operand }
  | .forced flag lib =>
      { p with
        linkargs := p.linkargs ++ [.plain flag, .kitRelative (filename lib)]
        forceLoaded := some lib }
  | .forcedEnd flag => { p with linkargs := p.linkargs ++ [.plain flag] }
  | .archive a => { p with archives := p.archives ++ [a] }
  | .object _ => p
  | .framework name => { p with syslibs := p.syslibs ++ [ascii "-framework", name] }
  | .library a =>
      match asLinkFlags a with
      | some (dir, lib) =>
          { p with syslibs := p.syslibs ++ if dir ∈ p.syslibs then [lib] else [dir, lib] }
      | none => { p with syslibs := p.syslibs ++ [a] }
  | .driver a => { p with driverflags := p.driverflags ++ [a] }

def isLibraryArg (decimals : List Bytes) (a : Bytes) : Bool :=
  (ascii "-l").isPrefixOf a || isSharedLib decimals (filename a)

def Arg.tokens : Arg → List Bytes
  | .output operand => [ascii "-o", operand]
  | .forced flag lib => [flag, lib]
  | .forcedEnd flag => [flag]
  | .archive a => [a]
  | .object a => [a]
  | .framework name => [ascii "-framework", name]
  | .library a => [a]
  | .driver a => [a]

/-- No option that the scan looks behind. -/
def Ordinary (a : Bytes) : Prop := a ≠ ascii "-o" ∧ a ∉ forceFlagsPre ∧ a ∉ forceFlagsPost

/-- The argument is what its tokens say. -/
def Arg.Proper (decimals : List Bytes) : Arg → Prop
  | .output _ => True
  | .forced flag lib => flag ∈ forceFlagsPre ∧ ascii ".a" <:+ lib
  | .forcedEnd flag => flag ∈ forceFlagsPost
  | .archive a => Ordinary a ∧ ascii ".a" <:+ a
  | .object a => Ordinary a ∧ ¬ ascii ".a" <:+ a ∧ ascii ".o" <:+ a
  | .framework _ => True
  | .library a => Ordinary a ∧ ¬ ascii ".a" <:+ a ∧ ¬ ascii ".o" <:+ a ∧ a ≠ ascii "-framework" ∧
      isLibraryArg decimals a = true
  | .driver a => Ordinary a ∧ ¬ ascii ".a" <:+ a ∧ ¬ ascii ".o" <:+ a ∧ a ≠ ascii "-framework" ∧
      isLibraryArg decimals a = false

/-- A whole-archive group holds one archive. -/
def Closed : List Arg → Prop
  | [] => True
  | .forced flag _ :: args =>
      (flag = ascii "-Wl,--whole-archive" → ∃ last more, args = .forcedEnd last :: more) ∧ Closed args
  | _ :: args => Closed args

/-- A line that is accepted is read as a list of arguments, and each goes where it belongs. -/
structure Reading (decimals : List Bytes) (p : Buckets) (rest : List Bytes) (q : Buckets)
    (args : List Arg) : Prop where
  tokens : args.flatMap Arg.tokens = rest
  proper : ∀ arg ∈ args, arg.Proper decimals
  closed : Closed args
  forced : ∀ flag lib, Arg.forced flag lib ∈ args → q.forceLoaded = some lib
  filled : q = args.foldl Buckets.add p

/-- A group that must be closed is closed by the next argument. -/
theorem Arg.Proper.forcedEnd {decimals : List Bytes} {arg : Arg} (h : arg.Proper decimals)
    {last : Bytes} {more : List Bytes} (htokens : arg.tokens = last :: more)
    (hlast : last ∈ forceFlagsPost) : arg = .forcedEnd last := by
  have hpre : ∀ flag ∈ forceFlagsPre, flag ∉ forceFlagsPost := by decide
  cases arg with
  | output operand =>
      cases htokens
      exact absurd hlast (by decide)
  | forced flag lib =>
      cases htokens
      exact absurd hlast (hpre _ h.1)
  | forcedEnd flag =>
      cases htokens
      rfl
  | framework name =>
      cases htokens
      exact absurd hlast (by decide)
  | archive a | object a | library a | driver a =>
      cases htokens
      exact absurd hlast h.1.2.2

end HermesNode.BuildExe
