/-
Module: HermesNode.Fs.Functions
Purpose: The functions of the `fs` binding that take a request: what each of them asks libuv for, what
  its synchronous variant returns or throws, and what the one completion routine of all asynchronous
  variants makes of the same outcome. The two make the same of it, but for an empty path, which the
  routine leaves out of an error.
Trusted boundary: human-reviewed spec (transcribed from `lib/bindings/node_file.cpp`); the work of
  libuv and its error texts are parameters
Main exports: UvFs, UvReq, fsAfterAsync_eq_iff, mkdirAsync_eq_iff
-/
import HermesNode.Fs.Transfer

namespace HermesNode.Fs.Requests

/-! ### libuv -/

/-- `uv_fs_type`. -/
inductive FsType where
  | unknown
  | openFile
  | close
  | read
  | write
  | stat
  | lstat
  | fstat
  | ftruncate
  | utime
  | futime
  | lutime
  | access
  | chmod
  | fchmod
  | fsync
  | fdatasync
  | unlink
  | rmdir
  | mkdir
  | mkdtemp
  | rename
  | scandir
  | link
  | symlink
  | readlink
  | chown
  | fchown
  | lchown
  | realpath
  | copyfile
  | statfs
deriving Repr, DecidableEq

/-- Memory handed to libuv: a part of a view, a view as its typed array query reports it, or a
`std::string` of the binding's own. -/
inductive Data where
  | part (view : Nat) (offset length : Int)
  | view (view : Nat)
  | own (bytes : Bytes)
deriving Repr, DecidableEq

inductive Arg where
  | str (s : Bytes)
  | int (n : Int)
  /-- The bits of a `double`. -/
  | double (bits : UInt64)
  | bufs (bufs : List Data)
deriving Repr, DecidableEq

/-- A call of one of the `uv_fs` functions. -/
structure UvFs where
  type : FsType
  args : List Arg
deriving Repr, DecidableEq

structure UvStat where
  dev : Nat
  mode : Nat
  nlink : Nat
  uid : Nat
  gid : Nat
  rdev : Nat
  ino : Nat
  size : Nat
  blksize : Nat
  blocks : Nat
  atimSec : Int
  atimNsec : Int
  mtimSec : Int
  mtimNsec : Int
  ctimSec : Int
  ctimNsec : Int
  birthtimSec : Int
  birthtimNsec : Int
deriving Repr, DecidableEq, Inhabited

structure UvStatfs where
  type : Nat
  bsize : Nat
  blocks : Nat
  bfree : Nat
  bavail : Nat
  files : Nat
  ffree : Nat
deriving Repr, DecidableEq, Inhabited

/-- What libuv has put into a request. -/
structure UvReq where
  result : Int
  statbuf : UvStat := default
  statfs : UvStatfs := default
  path : Bytes := []
  ptr : Bytes := []
  dirents : List (Bytes × Int) := []
deriving Repr, DecidableEq

/-- The work of libuv on the system, and its names and texts of errors. `uv_fs_mkdir` returns 0 or a
negative error. -/
structure Libuv (σ : Type) where
  work : UvFs → σ → σ × UvReq
  errName : Int → Bytes
  strerror : Int → Bytes
  mkdir_nonpos : ∀ args sys, toInt32 (work ⟨.mkdir, args⟩ sys).2.result ≤ 0

/-! ### Errors -/

structure UVException where
  message : Bytes
  errno : Int
  code : Bytes
  syscall : Bytes
  path : Option Bytes
  dest : Option Bytes
deriving Repr, DecidableEq

def quoted : Option Bytes → Bytes → Bytes
  | some s, before => before ++ s ++ ascii "'"
  | none, _ => []

def createUVException {σ : Type} (uv : Libuv σ) (errorno : Int) (syscall : String)
    (path dest : Option Bytes) : UVException where
  message := uv.errName errorno ++ ascii ": " ++ uv.strerror errorno ++ ascii ", " ++
    ascii syscall ++ quoted path (ascii " '") ++ quoted dest (ascii " -> '")
  errno := errorno
  code := uv.errName errorno
  syscall := ascii syscall
  path := path
  dest := dest

/-- The names `fsAfterAsync` gives to the types of requests. -/
def syscallName : FsType → String
  | .stat => "stat"
  | .lstat => "lstat"
  | .fstat => "fstat"
  | .openFile => "open"
  | .close => "close"
  | .read => "read"
  | .write => "write"
  | .rename => "rename"
  | .unlink => "unlink"
  | .mkdir => "mkdir"
  | .rmdir => "rmdir"
  | .scandir => "scandir"
  | .chmod => "chmod"
  | .fchmod => "fchmod"
  | .chown => "chown"
  | .fchown => "fchown"
  | .lchown => "lchown"
  | .link => "link"
  | .symlink => "symlink"
  | .readlink => "readlink"
  | .realpath => "realpath"
  | .ftruncate => "ftruncate"
  | .utime => "utime"
  | .futime => "futime"
  | .lutime => "lutime"
  | .mkdtemp => "mkdtemp"
  | .copyfile => "copyfile"
  | .access => "access"
  | .fsync => "fsync"
  | .fdatasync => "fdatasync"
  | .statfs => "statfs"
  | .unknown => "unknown"

/-! ### Results -/

/-- `FSReqResultType`. -/
inductive ResultType where
  | void
  | integer
  | fileHandle
  | stat
  | statFs
  | stringPath
  | stringPtr
  | readdir
  | mkdirResult
deriving Repr, DecidableEq

/-- An element of a `Float64Array` or a `BigInt64Array`, by the integer it was made from. -/
inductive Cell where
  | double (n : Int)
  | int64 (n : Int)
deriving Repr, DecidableEq

def cell (useBigint : Bool) (n : Int) : Cell := if useBigint then .int64 n else .double n

/-- `fillStatValues` and `fillBigIntStatValues`. -/
def fillStatValues (useBigint : Bool) (s : UvStat) : List Cell :=
  [(s.dev : Int), s.mode, s.nlink, s.uid, s.gid, s.rdev, s.blksize, s.ino, s.size, s.blocks,
    s.atimSec, s.atimNsec, s.mtimSec, s.mtimNsec, s.ctimSec, s.ctimNsec, s.birthtimSec,
    s.birthtimNsec].map (cell useBigint)

def fillStatFs (useBigint : Bool) (sf : UvStatfs) : List Cell :=
  [(sf.type : Int), sf.bsize, sf.blocks, sf.bfree, sf.bavail, sf.files, sf.ffree].map
    (cell useBigint)

inductive JsValue where
  | undefined
  | int (n : Int)
  | fileHandle (fd : Int)
  | array (cells : List Cell)
  | string (s : Bytes)
  | names (names : List Bytes)
  | namesAndTypes (names : List Bytes) (types : List Int)
deriving Repr, DecidableEq

/-- What a call ends with: a value, or an error. -/
abbrev Report := Except UVException JsValue

/-- What the shared arrays hold where results are written to. -/
structure Shared where
  statValues : Bool → List Cell
  statFsValues : Bool → List Cell

instance : Inhabited Shared := ⟨⟨fun _ => [], fun _ => []⟩⟩

def Shared.setStat (shared : Shared) (useBigint : Bool) (cells : List Cell) : Shared :=
  { shared with statValues := Function.update shared.statValues useBigint cells }

def Shared.setStatFs (shared : Shared) (useBigint : Bool) (cells : List Cell) : Shared :=
  { shared with statFsValues := Function.update shared.statFsValues useBigint cells }

/-! ### Functions -/

/-- A call of a function of the binding: what it asks libuv for, what it notes in the `FSReqWrap`
(an empty string where it notes nothing), and what its synchronous variant throws. -/
structure FsCall where
  uv : UvFs
  resultType : ResultType := .void
  useBigint : Bool := false
  withFileTypes : Bool := false
  wrapPath : Bytes := []
  wrapDest : Bytes := []
  syscall : String
  path : Option Bytes := none
  dest : Option Bytes := none

/-- A function of a path. -/
def onPath (type : FsType) (syscall : String) (path : Bytes) (args : List Arg)
    (resultType : ResultType) : FsCall where
  uv := ⟨type, .str path :: args⟩
  resultType := resultType
  wrapPath := path
  syscall := syscall
  path := some path

/-- A function of a file descriptor. -/
def onFd (type : FsType) (syscall : String) (fd : Int) (args : List Arg)
    (resultType : ResultType) : FsCall where
  uv := ⟨type, .int fd :: args⟩
  resultType := resultType
  syscall := syscall

/-- A function of two paths. -/
def onPaths (type : FsType) (syscall : String) (path dest : Bytes) (args : List Arg) : FsCall where
  uv := ⟨type, .str path :: .str dest :: args⟩
  wrapPath := path
  wrapDest := dest
  syscall := syscall
  path := some path
  dest := some dest

def fsAccess (path : Bytes) (mode : Int) : FsCall := onPath .access "access" path [.int mode] .void

def fsOpen (path : Bytes) (flags mode : Int) : FsCall :=
  onPath .openFile "open" path [.int flags, .int mode] .integer

def fsOpenFileHandle (path : Bytes) (flags mode : Int) : FsCall :=
  onPath .openFile "open" path [.int flags, .int mode] .fileHandle

def fsClose (fd : Int) : FsCall := onFd .close "close" fd [] .void

/-- `close()` of a file handle that is open. The synchronous function beside it is `fsClose`. -/
def fileHandleClose (fd : Int) : FsCall := onFd .close "close" fd [] .void

def fsRead (fd : Int) (buffer : Nat) (offset length position : Int) : FsCall :=
  onFd .read "read" fd [.bufs [.part buffer offset length], .int position] .integer

def fsWriteBuffer (fd : Int) (buffer : Nat) (offset length position : Int) : FsCall :=
  onFd .write "write" fd [.bufs [.part buffer offset length], .int position] .integer

def fsWriteString (fd : Int) (str : Bytes) (position : Int) : FsCall :=
  onFd .write "write" fd [.bufs [.own str], .int position] .integer

def fsStat (path : Bytes) (useBigint : Bool) : FsCall :=
  { onPath .stat "stat" path [] .stat with useBigint := useBigint }

def fsLstat (path : Bytes) (useBigint : Bool) : FsCall :=
  { onPath .lstat "lstat" path [] .stat with useBigint := useBigint }

def fsFstat (fd : Int) (useBigint : Bool) : FsCall :=
  { onFd .fstat "fstat" fd [] .stat with useBigint := useBigint }

def fsStatFs (path : Bytes) (useBigint : Bool) : FsCall :=
  { onPath .statfs "statfs" path [] .statFs with useBigint := useBigint }

def fsRename (oldPath newPath : Bytes) : FsCall := onPaths .rename "rename" oldPath newPath []

def fsUnlink (path : Bytes) : FsCall := onPath .unlink "unlink" path [] .void

/-- `mkdir` that is not recursive. -/
def fsMkdir (path : Bytes) (mode : Int) : FsCall := onPath .mkdir "mkdir" path [.int mode] .void

def fsRmdir (path : Bytes) : FsCall := onPath .rmdir "rmdir" path [] .void

def fsReaddir (path : Bytes) (withFileTypes : Bool) : FsCall :=
  { onPath .scandir "scandir" path [.int 0] .readdir with withFileTypes := withFileTypes }

def fsChmod (path : Bytes) (mode : Int) : FsCall := onPath .chmod "chmod" path [.int mode] .void

def fsFchmod (fd mode : Int) : FsCall := onFd .fchmod "fchmod" fd [.int mode] .void

def fsChown (path : Bytes) (uid gid : Int) : FsCall :=
  onPath .chown "chown" path [.int uid, .int gid] .void

def fsFchown (fd uid gid : Int) : FsCall := onFd .fchown "fchown" fd [.int uid, .int gid] .void

def fsLchown (path : Bytes) (uid gid : Int) : FsCall :=
  onPath .lchown "lchown" path [.int uid, .int gid] .void

def fsLink (existingPath newPath : Bytes) : FsCall := onPaths .link "link" existingPath newPath []

def fsSymlink (target path : Bytes) (flags : Int) : FsCall :=
  onPaths .symlink "symlink" target path [.int flags]

def fsReadlink (path : Bytes) : FsCall := onPath .readlink "readlink" path [] .stringPtr

def fsRealpath (path : Bytes) : FsCall := onPath .realpath "realpath" path [] .stringPtr

def fsFtruncate (fd len : Int) : FsCall := onFd .ftruncate "ftruncate" fd [.int len] .void

def fsUtimes (path : Bytes) (atime mtime : UInt64) : FsCall :=
  onPath .utime "utime" path [.double atime, .double mtime] .void

def fsFutimes (fd : Int) (atime mtime : UInt64) : FsCall :=
  onFd .futime "futime" fd [.double atime, .double mtime] .void

def fsLutimes (path : Bytes) (atime mtime : UInt64) : FsCall :=
  onPath .lutime "lutime" path [.double atime, .double mtime] .void

/-- The path of an error is the prefix, without the six letters to be replaced. -/
def fsMkdtemp (pathPrefix : Bytes) : FsCall :=
  { onPath .mkdtemp "mkdtemp" pathPrefix [] .stringPath with
    uv := ⟨.mkdtemp, [.str (pathPrefix ++ ascii "XXXXXX")]⟩ }

def fsCopyFile (src dest : Bytes) (flags : Int) : FsCall :=
  onPaths .copyfile "copyfile" src dest [.int flags]

def fsFsync (fd : Int) : FsCall := onFd .fsync "fsync" fd [] .void

def fsFdatasync (fd : Int) : FsCall := onFd .fdatasync "fdatasync" fd [] .void

def fsReadBuffers (fd : Int) (buffers : List Nat) (position : Int) : FsCall :=
  onFd .read "read" fd [.bufs (buffers.map .view), .int position] .integer

def fsWriteBuffers (fd : Int) (buffers : List Nat) (position : Int) : FsCall :=
  onFd .write "write" fd [.bufs (buffers.map .view), .int position] .integer

/-! ### How a request ends -/

/-- The result of a request that has succeeded, in an array of its own or in the shared one. -/
def FsCall.value (call : FsCall) (fresh : Bool) (firstCreated : Bytes) (result : Int) (req : UvReq)
    (shared : Shared) : Shared × JsValue :=
  match call.resultType with
  | .void => (shared, .undefined)
  | .integer => (shared, .int result)
  | .fileHandle => (shared, .fileHandle result)
  | .stat =>
      let cells := fillStatValues call.useBigint req.statbuf
      if fresh then (shared, .array cells)
      else
        let shared := shared.setStat call.useBigint cells
        (shared, .array (shared.statValues call.useBigint))
  | .statFs =>
      let cells := fillStatFs call.useBigint req.statfs
      if fresh then (shared, .array cells)
      else
        let shared := shared.setStatFs call.useBigint cells
        (shared, .array (shared.statFsValues call.useBigint))
  | .stringPath => (shared, .string req.path)
  | .stringPtr => (shared, .string req.ptr)
  | .readdir =>
      if call.withFileTypes then
        (shared, .namesAndTypes (req.dirents.map Prod.fst) (req.dirents.map Prod.snd))
      else (shared, .names (req.dirents.map Prod.fst))
  | .mkdirResult =>
      (shared, if firstCreated.isEmpty then .undefined else .string firstCreated)

/-- `empty() ? nullptr : c_str()`. -/
def unlessEmpty (s : Bytes) : Option Bytes := if s.isEmpty then none else some s

section

variable {σ : Type} (uv : Libuv σ)

/-- What `oncomplete` is called with, or the promise is settled with. -/
def fsAfterAsync (call : FsCall) (firstCreated : Bytes) (isPromise : Bool) (req : UvReq)
    (shared : Shared) : Shared × Report :=
  let result := toInt32 req.result
  if result < 0 then
    (shared, .error (createUVException uv result (syscallName call.uv.type)
      (unlessEmpty call.wrapPath) (unlessEmpty call.wrapDest)))
  else
    let (shared, value) := call.value isPromise firstCreated result req shared
    (shared, .ok value)

/-- The end of a synchronous variant. -/
def FsCall.syncEnd (call : FsCall) (req : UvReq) (shared : Shared) : Shared × Report :=
  let result := toInt32 req.result
  if result < 0 then
    (shared, .error (createUVException uv result call.syscall call.path call.dest))
  else
    let (shared, value) := call.value false [] result req shared
    (shared, .ok value)

/-! ### Recursive `mkdir` -/

def UV_EEXIST : Int := -17

def UV_ENOTDIR : Int := -20

/-- `(st_mode & S_IFMT) == S_IFDIR`. -/
def UvStat.isDir (s : UvStat) : Bool := s.mode &&& 0o170000 == 0o040000

structure Made where
  result : Int
  firstCreated : Bytes
  errPath : Bytes
deriving Repr, DecidableEq

/-- `current` with a component behind it. -/
def extended (current component : Bytes) : Bytes :=
  (if current = [] ∨ current.getLast? = some 0x2F then current else current ++ [0x2F]) ++ component

/-- Where the components start. -/
def rootOf (path : Bytes) : Bytes := if path.head? = some 0x2F then [0x2F] else []

/-- The loop over the components: what went wrong, and what was created first. -/
def mkdirComponents (mode : Int) : List Bytes → Bytes → Bytes → σ → σ × Int × Bytes
  | [], _, firstCreated, sys => (sys, 0, firstCreated)
  | component :: components, current, firstCreated, sys =>
      if component = [] ∨ component = ascii "." then
        mkdirComponents mode components current firstCreated sys
      else
        let current := extended current component
        let (sys, req) := uv.work (fsMkdir current mode).uv sys
        let result := toInt32 req.result
        if result = 0 then
          mkdirComponents mode components current
            (if firstCreated = [] then current else firstCreated) sys
        else if result = UV_EEXIST then mkdirComponents mode components current firstCreated sys
        else (sys, result, firstCreated)

def mkdirRecursive (path : Bytes) (mode : Int) (sys : σ) : σ × Made :=
  let (sys, result, firstCreated) :=
    mkdirComponents uv mode (path.splitOn 0x2F) (rootOf path) [] sys
  if result ≠ 0 then (sys, ⟨result, firstCreated, path⟩)
  else
    let (sys, req) := uv.work (fsStat path false).uv sys
    if toInt32 req.result ≠ 0 then (sys, ⟨UV_ENOTDIR, firstCreated, path⟩)
    else if req.statbuf.isDir then (sys, ⟨0, firstCreated, []⟩)
    else (sys, ⟨UV_EEXIST, firstCreated, path⟩)

/-- The `FSReqWrap` of the asynchronous variant, whose request never goes to libuv. -/
def mkdirWrap (path errPath : Bytes) (result : Int) : FsCall where
  uv := ⟨.mkdir, []⟩
  resultType := .mkdirResult
  wrapPath := if result ≠ 0 then errPath else path
  syscall := "mkdir"
  path := some errPath

/-- The asynchronous variant: the work is done inline, then the completion routine is called. -/
def mkdirAsync (path : Bytes) (mode : Int) (isPromise : Bool) (sys : σ) (shared : Shared) :
    σ × Shared × Report :=
  let (sys, made) := mkdirRecursive uv path mode sys
  (sys, fsAfterAsync uv (mkdirWrap path made.errPath made.result) made.firstCreated isPromise
    { result := if made.result ≠ 0 then made.result else 0 } shared)

def mkdirSync (path : Bytes) (mode : Int) (sys : σ) (shared : Shared) : σ × Shared × Report :=
  let (sys, made) := mkdirRecursive uv path mode sys
  if made.result ≠ 0 then
    (sys, shared, .error (createUVException uv made.result "mkdir" (some made.errPath) none))
  else if made.firstCreated ≠ [] then (sys, shared, .ok (.string made.firstCreated))
  else (sys, shared, .ok .undefined)

end

/-! ### Operations -/

/-- A call of the binding with its arguments; `buffers` is a JavaScript array of views. -/
inductive Op where
  | access (path : Bytes) (mode : Int)
  | openFile (path : Bytes) (flags mode : Int)
  | openFileHandle (path : Bytes) (flags mode : Int)
  | close (fd : Int)
  | fileHandleClose (fd : Int)
  | read (fd : Int) (buffer : Nat) (offset length position : Int)
  | writeBuffer (fd : Int) (buffer : Nat) (offset length position : Int)
  | writeString (fd : Int) (str : Bytes) (position : Int)
  | stat (path : Bytes) (useBigint : Bool)
  | lstat (path : Bytes) (useBigint : Bool)
  | fstat (fd : Int) (useBigint : Bool)
  | statfs (path : Bytes) (useBigint : Bool)
  | rename (oldPath newPath : Bytes)
  | unlink (path : Bytes)
  | mkdir (path : Bytes) (mode : Int) (recursive : Bool)
  | rmdir (path : Bytes)
  | readdir (path : Bytes) (withFileTypes : Bool)
  | chmod (path : Bytes) (mode : Int)
  | fchmod (fd mode : Int)
  | chown (path : Bytes) (uid gid : Int)
  | fchown (fd uid gid : Int)
  | lchown (path : Bytes) (uid gid : Int)
  | link (existingPath newPath : Bytes)
  | symlink (target path : Bytes) (flags : Int)
  | readlink (path : Bytes)
  | realpath (path : Bytes)
  | ftruncate (fd len : Int)
  | utimes (path : Bytes) (atime mtime : UInt64)
  | futimes (fd : Int) (atime mtime : UInt64)
  | lutimes (path : Bytes) (atime mtime : UInt64)
  | mkdtemp (pathPrefix : Bytes)
  | copyFile (src dest : Bytes) (flags : Int)
  | fsync (fd : Int)
  | fdatasync (fd : Int)
  | readBuffers (fd : Int) (buffers : Nat) (position : Int)
  | writeBuffers (fd : Int) (buffers : Nat) (position : Int)
deriving Repr, DecidableEq

/-- What is done for an operation that goes to libuv, with what the arrays hold. -/
def Op.call (arrays : Nat → List Nat) : Op → FsCall
  | .access path mode => fsAccess path mode
  | .openFile path flags mode => fsOpen path flags mode
  | .openFileHandle path flags mode => fsOpenFileHandle path flags mode
  | .close fd => fsClose fd
  | .fileHandleClose fd => HermesNode.Fs.Requests.fileHandleClose fd
  | .read fd buffer offset length position => fsRead fd buffer offset length position
  | .writeBuffer fd buffer offset length position => fsWriteBuffer fd buffer offset length position
  | .writeString fd str position => fsWriteString fd str position
  | .stat path useBigint => fsStat path useBigint
  | .lstat path useBigint => fsLstat path useBigint
  | .fstat fd useBigint => fsFstat fd useBigint
  | .statfs path useBigint => fsStatFs path useBigint
  | .rename oldPath newPath => fsRename oldPath newPath
  | .unlink path => fsUnlink path
  | .mkdir path mode _ => fsMkdir path mode
  | .rmdir path => fsRmdir path
  | .readdir path withFileTypes => fsReaddir path withFileTypes
  | .chmod path mode => fsChmod path mode
  | .fchmod fd mode => fsFchmod fd mode
  | .chown path uid gid => fsChown path uid gid
  | .fchown fd uid gid => fsFchown fd uid gid
  | .lchown path uid gid => fsLchown path uid gid
  | .link existingPath newPath => fsLink existingPath newPath
  | .symlink target path flags => fsSymlink target path flags
  | .readlink path => fsReadlink path
  | .realpath path => fsRealpath path
  | .ftruncate fd len => fsFtruncate fd len
  | .utimes path atime mtime => fsUtimes path atime mtime
  | .futimes fd atime mtime => fsFutimes fd atime mtime
  | .lutimes path atime mtime => fsLutimes path atime mtime
  | .mkdtemp pathPrefix => fsMkdtemp pathPrefix
  | .copyFile src dest flags => fsCopyFile src dest flags
  | .fsync fd => fsFsync fd
  | .fdatasync fd => fsFdatasync fd
  | .readBuffers fd buffers position => fsReadBuffers fd (arrays buffers) position
  | .writeBuffers fd buffers position => fsWriteBuffers fd (arrays buffers) position

/-- The operation that is done inline. -/
def Op.inline : Op → Option (Bytes × Int)
  | .mkdir path mode true => some (path, mode)
  | _ => none

/-- The synchronous variant. -/
def Op.sync {σ : Type} (uv : Libuv σ) (op : Op) (arrays : Nat → List Nat) (sys : σ)
    (shared : Shared) : σ × Shared × Report :=
  match op.inline with
  | some (path, mode) => mkdirSync uv path mode sys shared
  | none =>
      let (sys, req) := uv.work (op.call arrays).uv sys
      (sys, (op.call arrays).syncEnd uv req shared)

/-! ### Both variants make the same of an outcome -/

/-- No path of the call is empty. -/
def FsCall.Named (call : FsCall) : Prop := call.path ≠ some [] ∧ call.dest ≠ some []

/-- The completion routine names the call like its synchronous variant. -/
structure FsCall.Consistent (call : FsCall) : Prop where
  syscall : syscallName call.uv.type = call.syscall
  path : call.wrapPath = call.path.getD []
  dest : call.wrapDest = call.dest.getD []
  resultType : call.resultType ≠ .mkdirResult

theorem Op.consistent (arrays : Nat → List Nat) (op : Op) : (op.call arrays).Consistent := by
  cases op <;> exact ⟨rfl, rfl, rfl, nofun⟩

theorem unlessEmpty_getD (path : Option Bytes) :
    unlessEmpty (path.getD []) = path ↔ path ≠ some [] := by
  cases path with
  | none => simp [unlessEmpty]
  | some s =>
      cases s with
      | nil => simp [unlessEmpty]
      | cons b s => simp [unlessEmpty]

/-- A result is the same in a fresh array and in the shared one, whatever that held. -/
theorem FsCall.value_eq {call : FsCall} (h : call.resultType ≠ .mkdirResult) (fresh fresh' : Bool)
    (firstCreated firstCreated' : Bytes) (result : Int) (req : UvReq) (shared shared' : Shared) :
    (call.value fresh firstCreated result req shared).2 =
      (call.value fresh' firstCreated' result req shared').2 := by
  unfold FsCall.value
  cases hresult : call.resultType with
  | mkdirResult => exact absurd hresult h
  | stat => cases fresh <;> cases fresh' <;> simp [Shared.setStat]
  | statFs => cases fresh <;> cases fresh' <;> simp [Shared.setStatFs]
  | readdir => cases call.withFileTypes <;> rfl
  | void | integer | fileHandle | stringPath | stringPtr => rfl

/-- An asynchronous request is told what the synchronous variant would have returned or thrown, but
for an error about an empty path. -/
theorem fsAfterAsync_eq_iff {σ : Type} (uv : Libuv σ) {call : FsCall} (hcall : call.Consistent)
    (firstCreated : Bytes) (isPromise : Bool) (req : UvReq) (shared shared' : Shared) :
    (fsAfterAsync uv call firstCreated isPromise req shared).2 =
        (call.syncEnd uv req shared').2 ↔
      0 ≤ toInt32 req.result ∨ call.Named := by
  unfold fsAfterAsync FsCall.syncEnd
  by_cases hfailed : toInt32 req.result < 0
  · have hnot : ¬ 0 ≤ toInt32 req.result := by omega
    simp only [if_pos hfailed, hnot, false_or, Except.error.injEq, hcall.syscall, hcall.path,
      hcall.dest]
    unfold FsCall.Named
    rw [← unlessEmpty_getD, ← unlessEmpty_getD]
    constructor
    · intro hsame
      exact ⟨congrArg UVException.path hsame, congrArg UVException.dest hsame⟩
    · rintro ⟨hpath, hdest⟩
      rw [hpath, hdest]
  · have hpos : 0 ≤ toInt32 req.result := by omega
    simp only [if_neg hfailed, hpos, true_or, iff_true, Except.ok.injEq]
    exact FsCall.value_eq hcall.resultType _ _ _ _ _ _ _ _

theorem toInt32_idem (n : Int) : toInt32 (toInt32 n) = toInt32 n := by
  unfold toInt32
  omega

/-- The loop ends well or with an error of `uv_fs_mkdir`. -/
theorem mkdirComponents_result {σ : Type} (uv : Libuv σ) (mode : Int) (components : List Bytes)
    (current firstCreated : Bytes) (sys : σ) :
    (mkdirComponents uv mode components current firstCreated sys).2.1 ≤ 0 ∧
      toInt32 (mkdirComponents uv mode components current firstCreated sys).2.1 =
        (mkdirComponents uv mode components current firstCreated sys).2.1 := by
  induction components generalizing current firstCreated sys with
  | nil => exact ⟨Int.le_refl 0, rfl⟩
  | cons component components ih =>
      unfold mkdirComponents
      split
      · exact ih current firstCreated sys
      · dsimp only
        split
        · exact ih _ _ _
        · split
          · exact ih _ _ _
          · exact ⟨uv.mkdir_nonpos _ _, toInt32_idem _⟩

/-- An error of a recursive `mkdir` is negative and about the path that was asked for. -/
theorem mkdirRecursive_result {σ : Type} (uv : Libuv σ) (path : Bytes) (mode : Int) (sys : σ)
    (h : (mkdirRecursive uv path mode sys).2.result ≠ 0) :
    (mkdirRecursive uv path mode sys).2.result < 0 ∧
      toInt32 (mkdirRecursive uv path mode sys).2.result =
        (mkdirRecursive uv path mode sys).2.result ∧
      (mkdirRecursive uv path mode sys).2.errPath = path := by
  have hcomponents := mkdirComponents_result uv mode (path.splitOn 0x2F) (rootOf path) [] sys
  revert h
  unfold mkdirRecursive
  dsimp only
  split
  · rename_i hresult
    intro _
    exact ⟨Int.lt_iff_le_and_ne.mpr ⟨hcomponents.1, hresult⟩, hcomponents.2, rfl⟩
  · split
    · intro _
      exact ⟨show UV_ENOTDIR < 0 by decide, show toInt32 UV_ENOTDIR = UV_ENOTDIR by decide, rfl⟩
    · split
      · intro h
        exact absurd rfl h
      · intro _
        exact ⟨show UV_EEXIST < 0 by decide, show toInt32 UV_EEXIST = UV_EEXIST by decide, rfl⟩

theorem mkdirAsync_eq_iff {σ : Type} (uv : Libuv σ) (path : Bytes) (mode : Int) (isPromise : Bool)
    (sys : σ) (shared shared' : Shared) :
    (mkdirAsync uv path mode isPromise sys shared).2.2 = (mkdirSync uv path mode sys shared').2.2 ↔
      path ≠ [] ∨ (mkdirRecursive uv path mode sys).2.result = 0 := by
  unfold mkdirAsync mkdirSync
  dsimp only
  by_cases hresult : (mkdirRecursive uv path mode sys).2.result = 0
  · simp only [hresult, ne_eq, not_true_eq_false, if_false, or_true, iff_true]
    unfold fsAfterAsync FsCall.value mkdirWrap
    rw [if_neg (by decide)]
    by_cases hcreated : (mkdirRecursive uv path mode sys).2.firstCreated = []
    · simp [hcreated]
    · simp [hcreated]
  · obtain ⟨hnegative, hint32, hpath⟩ := mkdirRecursive_result uv path mode sys hresult
    simp only [hresult, ne_eq, not_false_eq_true, if_true, or_false]
    unfold fsAfterAsync
    simp only [hint32, if_pos hnegative, mkdirWrap, hpath, Except.error.injEq]
    rw [if_pos hresult]
    constructor
    · intro hsame hempty
      have hfield := congrArg UVException.path hsame
      rw [hempty] at hfield
      cases hfield
    · intro hnonempty
      have hkept : unlessEmpty path = some path := by simp [unlessEmpty, hnonempty]
      rw [hkept]
      rfl

/-- A path that is a directory. -/
def IsDirectory {σ : Type} (uv : Libuv σ) (path : Bytes) (sys : σ) : Prop :=
  toInt32 (uv.work (fsStat path false).uv sys).2.result = 0 ∧
    (uv.work (fsStat path false).uv sys).2.statbuf.isDir = true

/-- For the empty path nothing is made. -/
theorem mkdirRecursive_nil {σ : Type} (uv : Libuv σ) (mode : Int) (sys : σ) :
    (mkdirRecursive uv [] mode sys).2.result = 0 ↔ IsDirectory uv [] sys := by
  have hnone : mkdirComponents uv mode (List.splitOn 0x2F ([] : Bytes)) (rootOf []) [] sys =
      (sys, 0, []) := rfl
  unfold mkdirRecursive IsDirectory
  simp only [hnone, ne_eq, not_true_eq_false, if_false]
  split
  · rename_i hresult
    exact ⟨fun h => absurd h (show UV_ENOTDIR ≠ 0 by decide), fun h => absurd h.1 hresult⟩
  · rename_i hresult
    split
    · rename_i hdir
      exact ⟨fun _ => ⟨not_not.mp hresult, hdir⟩, fun _ => rfl⟩
    · rename_i hdir
      exact ⟨fun h => absurd h (show UV_EEXIST ≠ 0 by decide), fun h => absurd h.2 hdir⟩

end HermesNode.Fs.Requests
