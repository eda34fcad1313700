/-
Module: HermesNode.Resolve.Resolver
Purpose: `resolveSpecifier` of `bundle_resolve.cpp` over an arbitrary `FileSource`. A source answers
  three questions about a tree; the resolver returns its answer together with the directories whose
  `package.json` it asked for, in order. The depth cap of `resolveBase` is the fuel: depth `d` runs
  with `33 - d`.
Trusted boundary: human-reviewed spec (transcribed from `lib/bundle/bundle_resolve.cpp` and
  `file_source.h`)
Main exports: FileSource, resolveBase, resolveSpecifier, isBuiltinSpecifier
-/
import HermesNode.Lib.Path
import HermesNode.Resolve.PackageJson

namespace HermesNode.Resolve

/-- Trim exactly one trailing slash, unless the path is the root itself. -/
def trimOneTrailingSlash (s : Bytes) : Bytes :=
  if 1 < s.length && endsInSlash s then s.dropLast else s

/-- Everything module resolution needs to know about a file tree. -/
structure FileSource where
  isRegularFile : Bytes → Bool
  isDirectory : Bytes → Bool
  readPackageJson : Bytes → Option Bytes

/-- An answer of the resolver and the directories whose `package.json` it consulted. -/
structure Resolution where
  target : Option Bytes
  consulted : List Bytes
deriving Repr, DecidableEq

namespace Resolution

def found (path : Bytes) : Resolution := { target := some path, consulted := [] }

def nothing : Resolution := { target := none, consulted := [] }

/-- Remember that `dir` was consulted first. -/
def consult (dir : Bytes) (r : Resolution) : Resolution :=
  { r with consulted := dir :: r.consulted }

/-- The first resolution if it found something, else the next one, remembering both. -/
def orElse (r : Resolution) (next : Resolution) : Resolution :=
  match r.target with
  | some path => { target := some path, consulted := r.consulted }
  | none => { target := next.target, consulted := r.consulted ++ next.consulted }

end Resolution

def joinNormalized (base rel : Bytes) : Bytes := lexicallyNormal (pathAppend base rel)

/-- The paths probed for `base` itself: exact, then with each extension. -/
def extensionCandidates (base : Bytes) : List Bytes :=
  [base, base ++ ascii ".js", base ++ ascii ".ts", base ++ ascii ".json"]

def indexCandidates (base : Bytes) : List Bytes :=
  [ascii "index.js", ascii "index.ts", ascii "index.json"].map (pathAppend base)

/-- The first candidate that is a regular file. -/
def probe (src : FileSource) (candidates : List Bytes) : Resolution :=
  match candidates.find? src.isRegularFile with
  | some path => Resolution.found path
  | none => Resolution.nothing

def kMaxResolveDepth : Nat := 32

/-- Probe `base` as a file, then as a directory: its `main`, then its index files. -/
def resolveBase (src : FileSource) : Nat → Bytes → Resolution
  | 0, _ => Resolution.nothing
  | fuel + 1, base =>
      (probe src (extensionCandidates base)).orElse <|
        if src.isDirectory base then
          Resolution.consult base <|
            match (src.readPackageJson base).bind packageMain with
            | some main =>
                (resolveBase src fuel (joinNormalized base main)).orElse
                  (probe src (indexCandidates base))
            | none => probe src (indexCandidates base)
        else Resolution.nothing

/-- `resolveBase` at depth 0. -/
def resolveFrom (src : FileSource) (base : Bytes) : Resolution :=
  resolveBase src (kMaxResolveDepth + 1) base

/-- Relative in Node's sense: `.`, or a dot followed by a dot or a slash. -/
def isRelative (specifier : Bytes) : Bool :=
  match specifier with
  | [] => false
  | [c] => c == 46
  | c :: d :: _ => c == 46 && (d == 46 || d == slash)

/-- The `node_modules` walk from `dir` up to the root. The fuel is one more than the length of the
path, which every step to a different parent shortens. -/
def nodeModulesWalk (src : FileSource) (specifier : Bytes) : Nat → Bytes → Resolution
  | 0, _ => Resolution.nothing
  | fuel + 1, dir =>
      let here :=
        if filename dir != ascii "node_modules" then
          resolveFrom src (joinNormalized (pathAppend dir (ascii "node_modules")) specifier)
        else Resolution.nothing
      here.orElse <|
        if parentPath dir = dir then Resolution.nothing
        else nodeModulesWalk src specifier fuel (parentPath dir)

/-- Resolve `specifier` as written in `fromFile`. -/
def resolveSpecifier (src : FileSource) (fromFile specifier : Bytes) : Resolution :=
  let fromDir := parentPath fromFile
  if isRelative specifier then resolveFrom src (joinNormalized fromDir specifier)
  else if specifier.head? == some slash then
    resolveFrom src (joinNormalized [slash] specifier)
  else nodeModulesWalk src specifier (fromDir.length + 1) fromDir

/-- The embedded builtin module names. -/
def builtinIds : List Bytes :=
  ["assert", "assert/strict", "async_hooks", "buffer", "child_process", "cluster", "console",
    "constants", "dgram", "diagnostics_channel", "dns", "dns/promises", "domain", "events", "fs",
    "fs/promises", "http", "https", "net", "os", "path", "path/posix", "path/win32", "process",
    "querystring", "readline", "readline/promises", "repl", "module", "crypto", "stream",
    "stream/consumers", "stream/promises", "stream/web", "string_decoder", "timers",
    "timers/promises", "tls", "tty", "url", "util", "util/types", "vm", "zlib"].map ascii

/-- Strip a leading `node:`. -/
def stripNodeScheme (specifier : Bytes) : Bytes :=
  if specifier.take 5 == ascii "node:" then specifier.drop 5 else specifier

def isBuiltinSpecifier (specifier : Bytes) : Bool :=
  builtinIds.contains (stripNodeScheme specifier)

def vendoredIds : List Bytes := [ascii "ws"]

end HermesNode.Resolve
