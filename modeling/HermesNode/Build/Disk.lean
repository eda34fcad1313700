/-
Module: HermesNode.Build.Disk
Purpose: The machine a bundle is built on, as the producer sees it: a file tree that stays as it is
  during the build, asked through the C library, and the parser and compiler of the engine. Every
  call takes a C string, so a path is cut at its first NUL before the system looks at it.
  `DiskFileSource` is the tree as the resolver sees it.
Trusted boundary: human-reviewed spec (transcribed from `lib/bundle/disk_file_source.cpp`,
  `native_digest.h`, `cjs_wrapper.h`, `require_scanner.cpp` and the helpers of `bundle_build.cpp`);
  the answers of the system and of the engine are parameters
Main exports: cstr, Disk, Disk.source, Disk.readFile
-/
import HermesNode.Lib.Relative
import HermesNode.Lib.Text
import HermesNode.Lib.WorkList
import HermesNode.Bundle.Format
import HermesNode.Resolve.Resolver

namespace HermesNode.Build

open HermesNode.Bundle Resolve WorkList

/-- What a C function sees of a string: everything before the first NUL. -/
def cstr (p : Bytes) : Bytes := p.takeWhile (· != 0)

theorem cstr_of_no_nul {p : Bytes} (h : 0 ∉ p) : cstr p = p := by
  induction p with
  | nil => rfl
  | cons c cs ih =>
      have hc : c ≠ 0 := fun heq => h (by simp [heq])
      have hcs : 0 ∉ cs := fun hmem => h (List.mem_cons_of_mem _ hmem)
      have hrest : cs.takeWhile (· != 0) = cs := ih hcs
      simp [cstr, hc, hrest]

/-- Length and SHA-256 of an addon. -/
structure NativeDigest where
  byteLength : UInt32
  raw : Bytes
  raw_length : raw.length = kNativeDigestBytes

/-- The file tree behind the system calls. -/
structure Disk where
  /-- `stat` succeeds and finds a regular file. -/
  isRegularFile : Bytes → Bool
  /-- `stat` succeeds and finds a directory. -/
  isDirectory : Bytes → Bool
  /-- What an `ifstream` opened on the path delivers, if it can be opened. A directory can be: it
  delivers nothing. -/
  read : Bytes → Option Bytes
  /-- `nativeFileDigest`, or the reason why there is none. -/
  digest : Bytes → Except Bytes NativeDigest
  /-- The two paths name one inode. -/
  isSameFile : Bytes → Bytes → Bool
  isSymlink : Bytes → Bool
  /-- What `writeFileAtomically` reports when it cannot place a file here. -/
  writeError : Bytes → Option Bytes
  /-- The working directory, or why there is none. -/
  currentPath : Except Bytes Bytes
  /-- What ends in a separator, a dot or a dot-dot is no regular file. -/
  regular_end : ∀ p, isRegularFile p = true → endsInDirectory p = false
  currentPath_abs : ∀ p, currentPath = .ok p → isAbsolute p = true ∧ 0 ∉ p
  root_dir : isDirectory [slash] = true
  trailing_dir : ∀ p, p ≠ [] → isDirectory (p ++ [slash]) = isDirectory p
  /-- What a name is looked up in is a directory. -/
  dir_above : ∀ p name, p ≠ [] → name ≠ [] → slash ∉ name →
    isRegularFile (p ++ slash :: name) = true ∨ isDirectory (p ++ slash :: name) = true →
    isDirectory p = true

namespace Disk

/-- `DiskFileSource`. -/
def source (disk : Disk) : FileSource where
  isRegularFile path := disk.isRegularFile (cstr path)
  isDirectory path := disk.isDirectory (cstr path)
  readPackageJson dir := disk.read (cstr (trimOneTrailingSlash dir ++ ascii "/package.json"))

/-- `readFile` of the producer. -/
def readFile (disk : Disk) (path : Bytes) : Option Bytes := disk.read (cstr path)

/-- `readPackageJsonPaths()`: the path of every `package.json` that could be opened, from the
directories that were consulted, each once. -/
def readPackageJsonPaths (disk : Disk) (consulted : List Bytes) : List Bytes :=
  discover [] <|
    (consulted.filter fun dir => (disk.source.readPackageJson dir).isSome).map fun dir =>
      trimOneTrailingSlash dir ++ ascii "/package.json"

/-- A path without the separators at its end. -/
def trimSlashes (p : Bytes) : Bytes := (p.reverse.dropWhile (· == slash)).reverse

theorem trimSlashes_spec (p : Bytes) :
    ∃ tail, p = trimSlashes p ++ tail ∧ ∀ c ∈ tail, c = slash := by
  refine ⟨(p.reverse.takeWhile (· == slash)).reverse, ?_, ?_⟩
  · rw [trimSlashes, ← List.reverse_append, List.takeWhile_append_dropWhile, List.reverse_reverse]
  · intro c hc
    have hall := List.all_eq_true.mp List.all_takeWhile c (List.mem_reverse.mp hc)
    simpa using hall

theorem trimSlashes_starts (p rest : Bytes) :
    trimSlashes p ++ [slash] <+: p ++ slash :: rest := by
  rcases trimSlashes_spec p with ⟨tail, htail, hslashes⟩
  have hbegins : ∃ more, tail ++ slash :: rest = slash :: more := by
    cases tail with
    | nil => exact ⟨rest, rfl⟩
    | cons c cs => exact ⟨cs ++ slash :: rest, by rw [hslashes c (by simp)]; rfl⟩
  rcases hbegins with ⟨more, hmore⟩
  refine ⟨more, ?_⟩
  conv_rhs => rw [htail]
  rw [List.append_assoc, List.append_assoc, hmore]
  rfl

theorem currentPath_root (p : Bytes) (h : (.ok [slash] : Except Bytes Bytes) = .ok p) :
    isAbsolute p = true ∧ 0 ∉ p := by
  cases h
  decide

/-- The directories that hold one of the files, at any depth. -/
def isDirectoryOf (files : List (Bytes × Bytes)) (p : Bytes) : Bool :=
  !p.isEmpty && (trimSlashes p == [] ||
    files.any fun file => (trimSlashes p ++ [slash]).isPrefixOf file.1)

/-- The tree that holds the listed files and the directories they need, with no native addon in
it, no links, and room for every output. -/
def ofFiles (files : List (Bytes × Bytes))
    (hfiles : ∀ file ∈ files, endsInDirectory file.1 = false) : Disk where
  isRegularFile p := files.any fun file => file.1 == p
  isDirectory p := isDirectoryOf files p
  read p := (files.lookup p).or (if isDirectoryOf files p then some [] else none)
  digest p := .error (ascii "cannot open " ++ p ++ ascii ": No such file or directory")
  isSameFile p q := p == q && files.any fun file => file.1 == p
  isSymlink _ := false
  writeError _ := none
  currentPath := .ok [slash]
  regular_end p h := by
    rcases List.any_eq_true.mp h with ⟨file, hmem, heq⟩
    rw [← eq_of_beq heq]
    exact hfiles file hmem
  currentPath_abs := currentPath_root
  root_dir := rfl
  trailing_dir p hne := by
    have htrim : trimSlashes (p ++ [slash]) = trimSlashes p := by
      simp [trimSlashes]
    have hempty : (p ++ [slash]).isEmpty = p.isEmpty := by
      cases p with
      | nil => exact absurd rfl hne
      | cons c cs => rfl
    rw [isDirectoryOf, isDirectoryOf, htrim, hempty]
  dir_above p name hp hname hfree h := by
    -- either way some file starts with the name's path
    have hfile : ∃ file ∈ files, p ++ slash :: name <+: file.1 := by
      rcases h with hregular | hdir
      · rcases List.any_eq_true.mp hregular with ⟨file, hmem, heq⟩
        exact ⟨file, hmem, by rw [eq_of_beq heq]⟩
      · have htrim : trimSlashes (p ++ slash :: name) = p ++ slash :: name := by
          rcases List.eq_nil_or_concat name with hnil | ⟨front, c, hconcat⟩
          · exact absurd hnil hname
          · rw [List.concat_eq_append] at hconcat
            have hc : c ≠ slash := by
              rintro rfl
              exact hfree (by simp [hconcat])
            simp [trimSlashes, hconcat, hc]
        simp only [isDirectoryOf, htrim, Bool.and_eq_true, Bool.or_eq_true] at hdir
        rcases hdir.2 with hnil | hany
        · simp at hnil
        · rcases List.any_eq_true.mp hany with ⟨file, hmem, hstarts⟩
          have hlonger := List.isPrefixOf_iff_prefix.mp hstarts
          exact ⟨file, hmem, (List.prefix_append _ [slash]).trans hlonger⟩
    rcases hfile with ⟨file, hmem, hstarts⟩
    simp only [isDirectoryOf, Bool.and_eq_true, Bool.or_eq_true]
    refine ⟨by simpa using hp, Or.inr (List.any_eq_true.mpr ⟨file, hmem, ?_⟩)⟩
    exact List.isPrefixOf_iff_prefix.mpr ((trimSlashes_starts p name).trans hstarts)

end Disk

/-- The engine behind the producer. -/
structure Toolchain where
  /-- The texts of the literal arguments of `require` and `require.resolve` calls, in the order the
  visitor of the scanner meets them, or why the wrapped text does not parse. -/
  literals : (enableTS : Bool) → (wrapped : Bytes) → Except Bytes (List Bytes)
  /-- `hermes_compile_to_bytecode`, or the text of the exception it leaves. -/
  compile : (enableTS : Bool) → (wrapped sourceURL : Bytes) → Except Bytes Bytes

/-! ### Kinds of files -/

inductive Packageability where
  | kJavaScript
  | kJSON
  | kNative
  | kSkip
deriving Repr, DecidableEq

/-- By extension; no extension is JavaScript. -/
def classifyFile (path : Bytes) : Packageability :=
  let ext := extension path
  if ext = [] ∨ ext = ascii ".js" ∨ ext = ascii ".cjs" ∨ ext = ascii ".ts" then .kJavaScript
  else if ext = ascii ".json" then .kJSON
  else if ext = ascii ".node" then .kNative
  else .kSkip

def formatSkipReason (resolvedPath : Bytes) : Bytes :=
  if extension resolvedPath = ascii ".mjs" then ascii ".mjs is ESM, not packageable"
  else extension resolvedPath ++ ascii " is not packageable"

def hasExtension (path ext : Bytes) : Bool := ext.isSuffixOf path

/-! ### Source texts -/

/-- Remove a leading `#!` line, keeping its newline. -/
def stripShebang (text : Bytes) : Bytes :=
  if text.take 2 == ascii "#!" then text.dropWhile (· != 10) else text

def kCJSWrapperPrefix : Bytes :=
  ascii "(function(exports, require, module, __filename, __dirname) \x7b"

def kCJSWrapperSuffix : Bytes := ascii "\n\x7d)"

def wrapCJS (text : Bytes) : Bytes := kCJSWrapperPrefix ++ text ++ kCJSWrapperSuffix

/-- One byte inside a double-quoted JavaScript string. -/
def quoteByte (c : UInt8) : Bytes :=
  if c = 34 then ascii "\\\""
  else if c = 92 then ascii "\\\\"
  else if c = 10 then ascii "\\n"
  else if c = 13 then ascii "\\r"
  else if c = 9 then ascii "\\t"
  else if c < 32 then ascii "\\u" ++ hexPadded 4 c.toNat
  else [c]

def quoteForJSString (s : Bytes) : Bytes := s.flatMap quoteByte

/-- The module that stands in for a file that is no JavaScript: it throws when required. -/
def makeThrowingStub (path error : Bytes) : Bytes :=
  let message :=
    if error.take 13 == ascii "SyntaxError: " then error.drop 13 else error
  ascii "throw new SyntaxError(\"" ++ quoteForJSString (path ++ ascii ": " ++ message) ++
    ascii "\");\n"

/-- The specifiers of a text, each where it occurs first. -/
def scanRequires (tools : Toolchain) (text : Bytes) (enableTS : Bool) :
    Except Bytes (List Bytes) :=
  (tools.literals enableTS (wrapCJS text)).map (discover [])

end HermesNode.Build
