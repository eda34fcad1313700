/-
Module: HermesNode.CompileCache.Cache
Purpose: The on-disk compile cache of `compile_cache.cpp` as a machine of single system calls. Any
  number of saves, lookups, invalidations and prunes are in flight at once, of any number of
  processes; an event lets one of them perform its next system call, which may transfer fewer bytes
  than asked or fail, or stops it for good. `stored` is the history of the renames that succeeded.
Trusted boundary: human-reviewed spec (transcribed from `lib/compile-cache/compile_cache.cpp`);
  zlib's `crc32` is a parameter
Main exports: Entry, Record, cacheFilePath, tempName
-/
import HermesNode.Lib.FileSys
import HermesNode.Lib.Machine
import HermesNode.Lib.Segments
import HermesNode.Lib.Text

namespace HermesNode.CompileCache

/-- Which entry point produced a cache entry. -/
inductive CompileCacheKind where
  | kCommonJS
  | kLoaderWrapped
  | kLoaderWrappedTS
deriving Repr, DecidableEq

def CompileCacheKind.toU8 : CompileCacheKind → UInt8
  | kCommonJS => 0
  | kLoaderWrapped => 1
  | kLoaderWrappedTS => 2

section Keys

-- zlib's `crc32(crc, buf, len)`, which starts from 0 and takes a 32-bit length
variable (crc32 : UInt32 → Bytes → UInt32)

def compileCacheCrc32 (data : Bytes) : UInt32 :=
  if data.isEmpty then 0 else crc32 0 (data.take (data.length % 2 ^ 32))

def compileCacheKey (filename : Bytes) (kind : CompileCacheKind) : UInt32 :=
  let crc := crc32 0 [kind.toU8]
  if filename.isEmpty then crc else crc32 crc (filename.take (filename.length % 2 ^ 32))

end Keys

/-- The identity of a cache entry: what `lookup` fills in before it looks. -/
structure Entry where
  generationDir : Bytes
  key : UInt32
  sourceCrc : UInt32
  sourceSize : UInt32
deriving Repr, DecidableEq

/-- `generationDir_` followed by `"/%02x/%08x"`. -/
def cacheFilePath (generationDir : Bytes) (key : UInt32) : Bytes :=
  generationDir ++
    (slash :: hexPadded 2 (key.toNat / 2 ^ 24 % 256) ++ slash :: hexPadded 8 key.toNat)

def Entry.path (e : Entry) : Bytes := cacheFilePath e.generationDir e.key

/-- `CompileCache::lookup`'s identity of `(source, filename, kind)` in a generation. -/
def Entry.ofSource (crc32 : UInt32 → Bytes → UInt32) (generationDir source filename : Bytes)
    (kind : CompileCacheKind) : Entry where
  generationDir := generationDir
  key := compileCacheKey crc32 filename kind
  sourceCrc := compileCacheCrc32 crc32 source
  sourceSize := UInt32.ofNat source.length

def kCompileCacheMagic : UInt32 := 0x4343484e

def kCompileCacheHeaderVersion : UInt32 := 1

def kCompileCacheHeaderSize : Nat := 24

/-- An entry with the bytecode a `save` was given for it. -/
structure Record where
  entry : Entry
  bytecode : Bytes
deriving Repr, DecidableEq

namespace Record

/-- `EntryHeader`: six words. -/
def header (r : Record) : Bytes :=
  wordsLE [kCompileCacheMagic, kCompileCacheHeaderVersion, r.entry.sourceCrc, r.entry.sourceSize,
    UInt32.ofNat r.bytecode.length, 0]

/-- The complete file. -/
def image (r : Record) : Bytes := r.header ++ r.bytecode

end Record

/-- `path + "." + pid + "." + counter + ".tmp"`. -/
def tempName (path : Bytes) (pid counter : Nat) : Bytes :=
  path ++ ascii "." ++ decimal pid ++ ascii "." ++ decimal counter ++ ascii ".tmp"

/-- Where a `compileCacheWriteEntry` stands. With an inode it also knows how much it has written. -/
inductive SavePc where
  /-- Before `open` of the temporary name. -/
  | opening
  /-- In one of the two `writeAll` calls, or behind them and before `rename`. -/
  | writing (inode offset : Nat)
  /-- Before the `unlink` that follows a failed write or rename. -/
  | cleanup (inode offset : Nat)
  /-- Stopped after `open`: a crash, or the end of a failed save. -/
  | abandoned (inode offset : Nat)
  /-- `open` failed. -/
  | failed
  /-- `rename` succeeded. -/
  | renamed
deriving Repr, DecidableEq

/-- The inode a save has written to, with the number of bytes written. -/
def SavePc.inode? : SavePc → Option (Nat × Nat)
  | .writing inode offset | .cleanup inode offset | .abandoned inode offset => some (inode, offset)
  | .opening | .failed | .renamed => none

structure Save where
  record : Record
  pid : Nat
  counter : Nat
  pc : SavePc
deriving Repr, DecidableEq

def Save.temp (sv : Save) : Bytes := tempName sv.record.entry.path sv.pid sv.counter

/-- Where a `compileCacheReadEntry` stands. -/
inductive LookupPc where
  | opening
  /-- In `readAll` of the header, with what it has read. -/
  | reading (inode : Nat) (got : Bytes)
  /-- Before `fstat`; the header named this bytecode size. -/
  | statting (inode bytecodeSize : Nat)
  /-- Before `mmap`. -/
  | mapping (inode bytecodeSize : Nat)
  | hit (inode bytecodeSize : Nat)
  | miss
deriving Repr, DecidableEq

structure Lookup where
  entry : Entry
  pc : LookupPc
deriving Repr, DecidableEq

/-- One operation in flight. -/
inductive Op where
  | save (sv : Save)
  | lookup (lk : Lookup)
  | invalidate (entry : Entry) (pending : Bool)
  /-- `compileCachePruneGenerations` in `removeTree` of one of these directories. -/
  | prune (victims : List Bytes)
deriving Repr, DecidableEq

structure State where
  fs : FileSys
  /-- `g_tempCounter` of each process. -/
  counters : Nat → Nat
  /-- Every operation ever started, in order. -/
  ops : List Op
  stored : List Record

def init : State :=
  { fs := FileSys.empty, counters := fun _ => 0, ops := [], stored := [] }

/-- How a system call ends: it transfers up to `n` bytes, or it fails. -/
inductive Outcome where
  | ok (n : Nat)
  | fail
deriving Repr, DecidableEq

inductive Event where
  | startSave (pid : Nat) (record : Record)
  | startLookup (entry : Entry)
  | startInvalidate (entry : Entry)
  /-- The prune of a process that keeps `keepName`; `readdir` and the file times chose `names`. -/
  | startPrune (versionedRoot keepName : Bytes) (names : List Bytes)
  /-- The next system call of operation `op`. -/
  | syscall (op : Nat) (outcome : Outcome)
  /-- The next `unlink` of a prune, of a name `readdir` returned. -/
  | removeTree (op : Nat) (name : Bytes)
  /-- The process of operation `op` dies. -/
  | crash (op : Nat)
deriving Repr, DecidableEq

/-- The end of the `writeAll` call that `offset` is in: the header is written before the
bytecode. -/
def writeEnd (r : Record) (offset : Nat) : Nat :=
  if offset < kCompileCacheHeaderSize then kCompileCacheHeaderSize else r.image.length

def setOp (s : State) (i : Nat) (op : Op) : State := { s with ops := s.ops.set i op }

/-- The next system call of a save. -/
def stepSave (s : State) (i : Nat) (sv : Save) (outcome : Outcome) : Option State :=
  match sv.pc, outcome with
  | .opening, .fail => some (setOp s i (.save { sv with pc := .failed }))
  | .opening, .ok _ =>
      let opened := s.fs.create sv.temp
      some (setOp { s with fs := opened.2 } i (.save { sv with pc := .writing opened.1 0 }))
  | .writing inode offset, .ok n =>
      if offset < sv.record.image.length then
        -- a short write: between nothing and all of what this `writeAll` still has
        if offset + n ≤ writeEnd sv.record offset then
          let data := (sv.record.image.drop offset).take n
          some (setOp { s with fs := s.fs.writeAt inode offset data } i
            (.save { sv with pc := .writing inode (offset + n) }))
        else none
      else
        match s.fs.rename sv.temp sv.record.entry.path with
        | some fs =>
            some (setOp { s with fs, stored := sv.record :: s.stored } i
              (.save { sv with pc := .renamed }))
        | none => some (setOp s i (.save { sv with pc := .cleanup inode offset }))
  | .writing inode offset, .fail => some (setOp s i (.save { sv with pc := .cleanup inode offset }))
  | .cleanup inode offset, .ok _ =>
      some (setOp { s with fs := s.fs.unlink sv.temp } i
        (.save { sv with pc := .abandoned inode offset }))
  | .cleanup inode offset, .fail =>
      some (setOp s i (.save { sv with pc := .abandoned inode offset }))
  | .abandoned _ _, _ | .failed, _ | .renamed, _ => none

/-- The header checks of `compileCacheReadEntry`: the bytecode size of a header that passes. -/
def checkHeader (e : Entry) (got : Bytes) : Option Nat := do
  let words ← readWords got 0 6
  if words.getD 0 0 = kCompileCacheMagic ∧ words.getD 1 0 = kCompileCacheHeaderVersion ∧
      words.getD 3 0 = e.sourceSize ∧ words.getD 2 0 = e.sourceCrc ∧ words.getD 4 0 ≠ 0 then
    some (words.getD 4 0).toNat
  else none

/-- The next system call of a lookup. -/
def stepLookup (s : State) (i : Nat) (lk : Lookup) (outcome : Outcome) : Option State :=
  let goto (pc : LookupPc) : Option State := some (setOp s i (.lookup { lk with pc }))
  match lk.pc, outcome with
  | .hit _ _, _ | .miss, _ => none
  | _, .fail => goto .miss
  | .opening, .ok _ =>
      match s.fs.names lk.entry.path with
      | some inode => goto (.reading inode [])
      | none => goto .miss
  | .reading inode got, .ok n =>
      let rest := (s.fs.content inode).drop got.length
      if rest.isEmpty then goto .miss
      else if n = 0 then none
      else
        let got := got ++ (rest.take n).take (kCompileCacheHeaderSize - got.length)
        if got.length < kCompileCacheHeaderSize then goto (.reading inode got)
        else
          match checkHeader lk.entry got with
          | some bytecodeSize => goto (.statting inode bytecodeSize)
          | none => goto .miss
  | .statting inode bytecodeSize, .ok _ =>
      if (s.fs.content inode).length < kCompileCacheHeaderSize + bytecodeSize then goto .miss
      else goto (.mapping inode bytecodeSize)
  | .mapping inode bytecodeSize, .ok _ => goto (.hit inode bytecodeSize)

/-- The bytes a mapping made by a hit shows, in the filesystem as it is now. -/
def mappedBytecode (fs : FileSys) (inode bytecodeSize : Nat) : Bytes :=
  ((fs.content inode).drop kCompileCacheHeaderSize).take bytecodeSize

def step (s : State) : Event → Option State
  | .startSave pid record =>
      if record.bytecode.isEmpty ∨ 2 ^ 32 ≤ record.bytecode.length then none
      else
        let sv : Save := { record, pid, counter := s.counters pid, pc := .opening }
        some { s with
          counters := Function.update s.counters pid (s.counters pid + 1)
          ops := s.ops ++ [.save sv] }
  | .startLookup entry =>
      some { s with ops := s.ops ++ [.lookup { entry, pc := .opening }] }
  | .startInvalidate entry => some { s with ops := s.ops ++ [.invalidate entry true] }
  | .startPrune versionedRoot keepName names =>
      if keepName ∈ names then none
      else
        some { s with
          ops := s.ops ++ [.prune (names.map fun name => versionedRoot ++ slash :: name)] }
  | .syscall i outcome =>
      match s.ops[i]? with
      | some (.save sv) => stepSave s i sv outcome
      | some (.lookup lk) => stepLookup s i lk outcome
      | some (.invalidate entry true) =>
          match outcome with
          | .ok _ => some (setOp { s with fs := s.fs.unlink entry.path } i (.invalidate entry false))
          | .fail => some (setOp s i (.invalidate entry false))
      | some (.invalidate _ false) | some (.prune _) | none => none
  | .removeTree i name =>
      match s.ops[i]? with
      | some (.prune victims) =>
          if victims.any fun dir => (dir ++ [slash]).isPrefixOf name then
            some { s with fs := s.fs.unlink name }
          else none
      | _ => none
  | .crash i =>
      match s.ops[i]? with
      | some (.save sv) =>
          match sv.pc with
          | .opening => some (setOp s i (.save { sv with pc := .failed }))
          | .writing inode offset | .cleanup inode offset | .abandoned inode offset =>
              some (setOp s i (.save { sv with pc := .abandoned inode offset }))
          | .failed | .renamed => none
      | some (.lookup lk) => some (setOp s i (.lookup { lk with pc := .miss }))
      | some (.invalidate entry _) => some (setOp s i (.invalidate entry false))
      | some (.prune _) => some (setOp s i (.prune []))
      | none => none

end HermesNode.CompileCache
