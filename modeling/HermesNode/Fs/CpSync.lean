/-
Module: HermesNode.Fs.CpSync
Purpose: The recursive copy of the `fs` binding. It walks the directories below the source and makes,
  overwrites, skips or links an entry at the destination for each of theirs. An operation that is
  refused leaves an exception pending and ends the walk; a directory that cannot be listed is passed
  over, because the loop over its entries is never entered.
Trusted boundary: human-reviewed spec (transcribed from `lib/bindings/node_file.cpp`;
  `std::filesystem` on a POSIX system: `directory_iterator`, `create_directory`, `copy_file`,
  `copy_symlink`, `create_symlink`, `weakly_canonical`; a directory is listed as it is when its
  iterator is made)
Main exports: CopyOptions, Troubles, Progress, Folder
-/
import HermesNode.Fs.CpCheck
import HermesNode.Fs.MkdirRecursive

namespace HermesNode.Fs.Cp

open Build (routeNames)
open MkdirRecursive (Errno)

/-! ### The system -/

/-- What goes wrong: directories that cannot be listed, the operations that are refused, by their
number, and why a path leads nowhere. -/
structure Troubles where
  unreadable : Locus → Option Errno
  refuse : Nat → Option Errno
  lost : Bytes → Errno

/-- A directory by its path, and its place if it is there. -/
structure Folder where
  path : Bytes
  place : Option Locus
deriving DecidableEq

namespace Folder

variable (dir : Folder) (files : Hierarchy) (name : Bytes)

/-- What an entry stands for, where a link is not followed. -/
def entry : Option Node := dir.place.bind fun place => files.node (place ++ [name])

/-- The place an entry leads to. -/
def follow : Option Locus := dir.place.bind fun place => files.walk files.limit place [name]

/-- What an entry leads to. -/
def kind : Option Node := (dir.follow files name).bind files.node

def pathOf : Bytes := pathAppend dir.path name

/-- The directory an entry leads to. -/
def sub : Folder where
  path := dir.pathOf name
  place := if dir.kind files name = some .directory then dir.follow files name else none

end Folder

section

variable (troubles : Troubles) (files : Hierarchy) (dir : Folder) (name : Bytes)

/-- What is done in the directory, which may lead nowhere. -/
def within (act : Locus → Except Nat Hierarchy) : Except Nat Hierarchy :=
  match dir.place with
  | none => .error (troubles.lost (dir.pathOf name)).value
  | some place => act place

/-- `remove` of an entry that is no directory. -/
def removeEntry : Except Nat Hierarchy :=
  within troubles dir name fun place => .ok (files.erase (place ++ [name]))

end

/-- Where a file is created that is opened through links to nothing. -/
def creationPlace (files : Hierarchy) : Nat → Locus → Bytes → Option Locus
  | 0, place, name => if files.node (place ++ [name]) = none then some (place ++ [name]) else none
  | limit + 1, place, name =>
      match files.node (place ++ [name]) with
      | none => some (place ++ [name])
      | some (.link target) =>
          match (routeNames target).getLast? with
          | none => none
          | some last =>
              if last = dot ∨ last = dotDot then none
              else do
                let dir ← files.walk files.limit (if isAbsolute target then [] else place)
                  (routeNames target).dropLast
                if files.node dir = some .directory then creationPlace files limit dir last else none
      | some _ => none

structure CopyOptions where
  force : Bool
  dereference : Bool
  errorOnExist : Bool
  verbatimSymlinks : Bool
  preserveTimestamps : Bool

namespace CopyOptions

/-- `overwrite_existing`. -/
def overwrites (opts : CopyOptions) : Bool := opts.force

/-- `skip_existing`. -/
def skips (opts : CopyOptions) : Bool := !opts.force && !opts.errorOnExist

end CopyOptions

/-- `copy_file` of a file at `source` to an entry, which follows a link there. -/
def copyFile (troubles : Troubles) (opts : CopyOptions) (files : Hierarchy) (source : Locus)
    (content : Bytes) (dir : Folder) (name : Bytes) : Except Nat Hierarchy :=
  within troubles dir name fun place =>
    match dir.follow files name with
    | some found =>
        match files.node found with
        | some (.file _) =>
            if found = source then .error EEXIST
            else if opts.skips then .ok files
            else if !opts.overwrites then .error EEXIST
            else .ok (files.put found (.file content))
        | _ => .error ENOTSUP
    | none =>
        if opts.overwrites then
          match creationPlace files files.limit place name with
          | some created => .ok (files.put created (.file content))
          | none => .error (troubles.lost (dir.pathOf name)).value
        else if (files.node (place ++ [name])).isSome then .error EEXIST
        else .ok (files.put (place ++ [name]) (.file content))

/-! ### Paths of links -/

/-- `absolute(path)`. -/
def absolute (files : Hierarchy) (path : Bytes) : Bytes :=
  if isAbsolute path then path else pathAppend (absPath files.cwd) path

/-- The files so far, how many operations there were, the error code `err` of the loop that runs, and
the exception that is pending. -/
structure Progress where
  files : Hierarchy
  clock : Nat := 0
  err : Option Nat := none
  pending : Option CpError := none

namespace Progress

variable (troubles : Troubles) (s : Progress)

def throw (e : CpError) : Progress := { s with pending := some e }

/-- What an operation does, unless it is refused. -/
def attempt (act : Hierarchy → Except Nat Hierarchy) : Except Nat Hierarchy :=
  match troubles.refuse s.clock with
  | some e => .error e.value
  | none => act s.files

/-- What comes next if no exception is pending. -/
def next (f : Progress → Progress) : Progress :=
  match s.pending with
  | some _ => s
  | none => f s

end Progress

section

variable (troubles : Troubles) (opts : CopyOptions) (src dest : Folder) (name : Bytes)

end

/-- The directory a path leads to. -/
def folderOf (files : Hierarchy) (path : Bytes) : Folder where
  path
  place := (files.resolve path).filter fun place => files.node place == some .directory

section

variable {troubles : Troubles} {opts : CopyOptions} {files after : Hierarchy} {dir : Folder}
  {name : Bytes}

end

namespace Progress

variable {troubles : Troubles} {s : Progress} {asError : Nat → Option CpError}
  {act : Hierarchy → Except Nat Hierarchy}

theorem next_keeps {P : Hierarchy → Prop} {f : Progress → Progress} (hs : P s.files)
    (hf : P (f s).files) : P (s.next f).files := by
  unfold next
  cases s.pending with
  | some e => exact hs
  | none => exact hf

end Progress

end HermesNode.Fs.Cp
