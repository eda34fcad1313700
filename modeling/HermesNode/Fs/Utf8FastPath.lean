/-
Module: HermesNode.Fs.Utf8FastPath
Purpose: The calls that read and write a whole file as UTF-8 text without a buffer in between, beside
  the general path of `readFileSync`. The file named by a string is read whole when its size is
  unknown, and otherwise as far as one `read` gets; text is written whole when its length fits 32
  bits; a file named by a Buffer or by a descriptor is not reached at all. Whatever the system
  answers, a descriptor that was opened is closed.
Trusted boundary: human-reviewed spec (transcribed from `lib/bindings/node_file.cpp` and
  `libjs-node/fs.js`; what the system opens, what it says of the size of a file and how much each
  `read` or `write` moves are parameters)
Main exports: FileArg, OpenFile, utf8_fast_paths_iff
-/
import HermesNode.Lib.Patch
import HermesNode.Lib.Utf8
import HermesNode.Streams.Writes

namespace HermesNode.Fs.Utf8

open Streams (utf8Bytes)

/-! ### The system -/

/-- A file as `readFileSync` and `writeFileSync` take it. The paths have passed `validatePath`, so that
no byte of theirs is zero. -/
inductive FileArg where
  | path (name : JsString)
  | buffer (bytes : Bytes)
  | descriptor (fd : Int)
deriving Repr, DecidableEq

/-- An open file. There is no size where `fstat` fails, and it need not be the length of the content. -/
structure OpenFile where
  content : Bytes
  position : Nat
  append : Bool
  regular : Bool
  size : Option Nat
deriving Repr, DecidableEq

/-- What the system makes of a `read` or a `write`: it fails, or moves at most one byte more than
`limit`. No byte is moved only where none is asked for or none is left. -/
inductive Answer where
  | failed (errno : Nat)
  | moved (limit : Nat)
deriving Repr, DecidableEq

/-- What is left of a file behind where it stands. -/
def OpenFile.rest (file : OpenFile) : Bytes := file.content.drop file.position

/-- A file `n` bytes further. -/
def OpenFile.advance (file : OpenFile) (n : Nat) : OpenFile :=
  { file with position := file.position + n }

/-- A `read` of `length` bytes at an offset, or from where the file stands. -/
def OpenFile.read (file : OpenFile) (offset : Option Nat) (length limit : Nat) : Bytes × OpenFile :=
  match offset with
  | some offset => ((file.content.drop offset).take (min length (limit + 1)), file)
  | none =>
      let bytes := file.rest.take (min length (limit + 1))
      (bytes, file.advance bytes.length)

/-- Where the next `write` goes. -/
def OpenFile.tail (file : OpenFile) : Nat :=
  if file.append then file.content.length else file.position

/-- A `write` of some bytes where the file stands. -/
def OpenFile.write (file : OpenFile) (bytes : Bytes) : OpenFile :=
  { file with
    content := patch file.content file.tail bytes
    position := file.tail + bytes.length }

def ENOENT : Nat := 2

/-- What can be opened, with flags and a mode, and what is open already. A file that was opened holds
what the flags keep of it. -/
structure System where
  openFile : Bytes → Int → Int → Except Nat (Nat × OpenFile)
  descriptor : Int → Option OpenFile
  no_name : ∀ flags mode, openFile [] flags mode = .error ENOENT
  at_start : ∀ {path flags mode fd file}, openFile path flags mode = .ok (fd, file) →
    file.position = 0

/-- The file an argument is about. -/
def System.file (sys : System) (arg : FileArg) (flags mode : Int) : Option OpenFile :=
  match arg with
  | .path name => ((sys.openFile (utf8Bytes name) flags mode).map Prod.snd).toOption
  | .buffer bytes => ((sys.openFile bytes flags mode).map Prod.snd).toOption
  | .descriptor fd => sys.descriptor fd

/-! ### The calls of the binding -/

inductive Event where
  | opened (fd : Nat)
  | closed (fd : Nat)
deriving Repr, DecidableEq

/-- What `throwUVException` throws. -/
structure UVException where
  errno : Nat
  syscall : String
  path : Bytes
deriving Repr, DecidableEq

/-- The descriptors a call opens and closes, and what it returns or throws. -/
structure Outcome (ε α : Type) where
  events : List Event
  result : Except ε α
deriving Repr

/-- The bytes of a string, and none of anything else. -/
def getStringArg : FileArg → Bytes
  | .path name => utf8Bytes name
  | .buffer _ | .descriptor _ => []

/-- The reads of 8192 bytes up to one that finds nothing. -/
def readChunks (answers : Nat → Answer) : Nat → Nat → OpenFile → Bytes →
    Option (Except Nat Bytes)
  | 0, _, _, _ => none
  | fuel + 1, i, file, content =>
      match answers i with
      | .failed errno => some (.error errno)
      | .moved limit =>
          let (bytes, next) := file.read none 8192 limit
          if bytes = [] then some (.ok content)
          else readChunks answers fuel (i + 1) next (content ++ bytes)

/-- `fsReadFileUtf8`. -/
def readFileUtf8 (sys : System) (answers : Nat → Answer) (arg : FileArg) (flags : Int) (fuel : Nat) :
    Option (Outcome UVException JsString) :=
  let path := getStringArg arg
  match sys.openFile path flags 0o666 with
  | .error errno => some ⟨[], .error ⟨errno, "open", path⟩⟩
  | .ok (fd, file) =>
      let fileSize := file.size.getD 0
      if 0 < fileSize then
        match answers 0 with
        | .failed errno => some ⟨[.opened fd, .closed fd], .error ⟨errno, "read", path⟩⟩
        | .moved limit =>
            -- `uv_buf_init` takes an `unsigned int`
            let content := (file.read (some 0) (fileSize % 2 ^ 32) limit).1
            some ⟨[.opened fd, .closed fd], .ok (decodeUtf8 content)⟩
      else
        match readChunks answers fuel 0 file [] with
        | none => none
        | some (.error errno) => some ⟨[.opened fd, .closed fd], .error ⟨errno, "read", path⟩⟩
        | some (.ok content) => some ⟨[.opened fd, .closed fd], .ok (decodeUtf8 content)⟩

/-- The loop of `fsWriteFileUtf8`, `offset` bytes of the data being written. -/
def writeAll (answers : Nat → Answer) (data : Bytes) : Nat → Nat → Nat → OpenFile →
    Option (Except Nat OpenFile)
  | fuel, i, offset, file =>
      if offset < data.length then
        match fuel with
        | 0 => none
        | fuel + 1 =>
            match answers i with
            | .failed errno => some (.error errno)
            | .moved limit =>
                let length := (data.length - offset) % 2 ^ 32
                let bytes := (data.drop offset).take (min length (limit + 1))
                writeAll answers data fuel (i + 1) (offset + bytes.length) (file.write bytes)
      else some (.ok file)

/-- `fsWriteFileUtf8`, with the file it leaves. -/
def writeFileUtf8 (sys : System) (answers : Nat → Answer) (arg : FileArg) (text : JsString)
    (flags mode : Int) (fuel : Nat) : Option (Outcome UVException OpenFile) :=
  let path := getStringArg arg
  match sys.openFile path flags mode with
  | .error errno => some ⟨[], .error ⟨errno, "open", path⟩⟩
  | .ok (fd, file) =>
      match writeAll answers (utf8Bytes text) fuel 0 0 file with
      | none => none
      | some (.error errno) => some ⟨[.opened fd, .closed fd], .error ⟨errno, "write", path⟩⟩
      | some (.ok file) => some ⟨[.opened fd, .closed fd], .ok file⟩

/-! ### The general path -/

def kIoMaxLength : Nat := 2 ^ 31 - 1

inductive JsError where
  | uv (errno : Nat) (syscall : String)
  /-- `stats[1]` of an `undefined`. -/
  | typeError
  | fileTooLarge (size : Nat)
deriving Repr, DecidableEq

/-- The reads into one buffer, up to its size or to one that finds nothing. -/
def readSized (answers : Nat → Answer) (size : Nat) : Nat → Nat → OpenFile → Bytes →
    Option (Except Nat Bytes)
  | 0, _, _, _ => none
  | fuel + 1, i, file, buffer =>
      match answers i with
      | .failed errno => some (.error errno)
      | .moved limit =>
          let (bytes, next) := file.read none (size - buffer.length) limit
          if bytes ≠ [] ∧ (buffer ++ bytes).length < size then
            readSized answers size fuel (i + 1) next (buffer ++ bytes)
          else some (.ok (buffer ++ bytes))

/-- `readFileSync` from the descriptor on, which it closes where it has opened it itself. -/
def readOpen (answers : Nat → Answer) (own : List Event) (file : Option OpenFile) (fuel : Nat) :
    Option (Except JsError Bytes × List Event) :=
  match file.bind fun file => file.size.map fun size => (file, size) with
  | none => some (.error .typeError, own)
  | some (file, st_size) =>
      let size := if file.regular then st_size else 0
      if size = 0 then
        match readChunks answers fuel 0 file [] with
        | none => none
        | some (.error errno) => some (.error (.uv errno "read"), own)
        | some (.ok buffer) => some (.ok buffer, own)
      else if kIoMaxLength < size then some (.error (.fileTooLarge size), own)
      else
        match readSized answers size fuel 0 file [] with
        | none => none
        | some (.error errno) => some (.error (.uv errno "read"), own)
        | some (.ok buffer) => some (.ok buffer, own)

/-- `readFileSync` without an encoding, and `toString('utf8')` of the buffer. -/
def readFileSync (sys : System) (answers : Nat → Answer) (arg : FileArg) (flags : Int) (fuel : Nat) :
    Option (Outcome JsError JsString) :=
  match arg with
  | .descriptor fd =>
      (readOpen answers [] (sys.descriptor fd) fuel).map fun read =>
        ⟨read.2, read.1.map decodeUtf8⟩
  | _ =>
      match sys.openFile (getStringArg arg) flags 0o666 with
      | .error errno => some ⟨[], .error (.uv errno "open")⟩
      | .ok (fd, file) =>
          (readOpen answers [.closed fd] (some file) fuel).map fun read =>
            ⟨.opened fd :: read.2, read.1.map decodeUtf8⟩

/-! ### Every call moves something -/

/-- The answers of a system on which nothing fails. -/
def moving (limits : Nat → Nat) (i : Nat) : Answer := .moved (limits i)

section

variable {limits : Nat → Nat} {fuel i : Nat} {file : OpenFile}

@[simp] theorem OpenFile.advance_rest (file : OpenFile) (n : Nat) :
    (file.advance n).rest = file.rest.drop n := List.drop_drop.symm

/-- A `read` from where the file stands moves a byte at least, if it can, and no more than it is
asked for. -/
theorem OpenFile.read_spec (file : OpenFile) (length limit : Nat) :
    ∃ n ≤ length, n ≤ file.rest.length ∧ (n = 0 → length = 0 ∨ file.rest = []) ∧
      file.read none length limit = (file.rest.take n, file.advance n) := by
  refine ⟨min (min length (limit + 1)) file.rest.length, by omega, by omega, fun hzero => ?_, ?_⟩
  · rw [← List.length_eq_zero_iff]
    omega
  · simp only [OpenFile.read, List.length_take]
    congr 1
    exact List.take_eq_take_iff.mpr (by omega)

theorem readChunks_spec (hfuel : file.rest.length < fuel) (content : Bytes) :
    readChunks (moving limits) fuel i file content = some (.ok (content ++ file.rest)) := by
  induction fuel generalizing i file content with
  | zero => exact absurd hfuel (Nat.not_lt_zero _)
  | succ fuel ih =>
      obtain ⟨n, -, hleft, hzero, hread⟩ := file.read_spec 8192 (limits i)
      simp only [readChunks, moving, hread]
      by_cases hnil : file.rest.take n = []
      · have hend : file.rest = [] := by
          obtain rfl | hend := List.take_eq_nil_iff.mp hnil
          · exact (hzero rfl).resolve_left (by decide)
          · exact hend
        simp [hend]
      · have hn : n ≠ 0 := by
          rintro rfl
          exact hnil rfl
        have hshort : (file.advance n).rest.length < fuel := by
          rw [OpenFile.advance_rest, List.length_drop]
          omega
        rw [if_neg hnil, ih hshort, OpenFile.advance_rest, List.append_assoc,
          List.take_append_drop]

/-- The reads into a buffer go on to its size or to the end of the file. -/
theorem readSized_spec {size : Nat} {buffer : Bytes} (hfuel : size - buffer.length < fuel)
    (hsize : buffer.length < size) :
    readSized (moving limits) size fuel i file buffer =
      some (.ok (buffer ++ file.rest.take (size - buffer.length))) := by
  induction fuel generalizing i file buffer with
  | zero => exact absurd hfuel (Nat.not_lt_zero _)
  | succ fuel ih =>
      obtain ⟨n, hn, hleft, hzero, hread⟩ := file.read_spec (size - buffer.length) (limits i)
      have hbytes : (file.rest.take n).length = n := by
        rw [List.length_take]
        omega
      have hgrown : (buffer ++ file.rest.take n).length = buffer.length + n := by
        rw [List.length_append, hbytes]
      simp only [readSized, moving, hread]
      by_cases hmore : file.rest.take n ≠ [] ∧ (buffer ++ file.rest.take n).length < size
      · have hpos := List.length_pos_iff.mpr hmore.1
        have hshort : size - (buffer ++ file.rest.take n).length < fuel := by omega
        rw [if_pos hmore, ih hshort hmore.2, OpenFile.advance_rest, List.append_assoc,
          ← List.take_add, hgrown]
        congr 4
        omega
      · rw [if_neg hmore]
        have hwhole : file.rest.take n = file.rest.take (size - buffer.length) := by
          rw [List.take_eq_take_iff]
          obtain rfl | hn := Nat.eq_zero_or_pos n
          · simp [(hzero rfl).resolve_left (by omega)]
          · have hfull : ¬ (buffer ++ file.rest.take n).length < size := fun hlt =>
              hmore ⟨List.ne_nil_of_length_pos (by omega), hlt⟩
            omega
        rw [hwhole]

/-! ### What is written -/

theorem OpenFile.write_tail (file : OpenFile) (bytes : Bytes) :
    (file.write bytes).tail = file.tail + bytes.length := by
  rcases file with ⟨content, position, append, regular, size⟩
  cases append with
  | true => simp [OpenFile.tail, OpenFile.write, patch]
  | false => simp [OpenFile.tail, OpenFile.write]

theorem OpenFile.write_write (h : file.tail ≤ file.content.length) (bytes more : Bytes) :
    (file.write bytes).write more = file.write (bytes ++ more) := by
  have htail := file.write_tail bytes
  simp only [OpenFile.write] at htail ⊢
  rw [htail, patch_append h, List.length_append, Nat.add_assoc]

theorem OpenFile.write_inside (h : file.tail ≤ file.content.length) (bytes : Bytes) :
    (file.write bytes).tail ≤ (file.write bytes).content.length := by
  rw [OpenFile.write_tail]
  simp only [OpenFile.write, patch, List.length_append, List.length_take, List.length_drop]
  omega

/-- Data whose length fits 32 bits is written to its end, by writes that are all asked for the rest
of it. -/
theorem writeAll_spec {data : Bytes} (h : file.tail ≤ file.content.length) {offset : Nat}
    (hlength : data.length - offset < 2 ^ 32) (hfuel : data.length - offset ≤ fuel) :
    ∃ left, writeAll (moving limits) data fuel i offset file = some (.ok left) ∧
      left.content = (file.write (data.drop offset)).content := by
  induction fuel generalizing i offset file with
  | zero =>
      have hend : data.drop offset = [] := List.drop_eq_nil_iff.mpr (by omega)
      rw [writeAll, if_neg (by omega), hend]
      exact ⟨file, rfl, patch_nil.symm⟩
  | succ fuel ih =>
      by_cases hmore : offset < data.length
      · obtain ⟨n, hn, hpos, hle⟩ : ∃ n, min (data.length - offset) (limits i + 1) = n ∧ 0 < n ∧
            n ≤ data.length - offset := ⟨_, rfl, by omega, Nat.min_le_left _ _⟩
        have hbytes : ((data.drop offset).take n).length = n := by
          rw [List.length_take, List.length_drop, Nat.min_eq_left hle]
        have hrest : data.length - (offset + n) < 2 ^ 32 := by omega
        obtain ⟨left, hwrite, hcontent⟩ :=
          ih (i := i + 1) (OpenFile.write_inside h ((data.drop offset).take n)) hrest (by omega)
        rw [OpenFile.write_write h, ← List.drop_drop, List.take_append_drop] at hcontent
        rw [writeAll, if_pos hmore]
        simp only [moving, Nat.mod_eq_of_lt hlength, hn, hbytes]
        exact ⟨left, hwrite, hcontent⟩
      · have hend : data.drop offset = [] := List.drop_eq_nil_iff.mpr (by omega)
        rw [writeAll, if_neg hmore, hend]
        exact ⟨file, rfl, patch_nil.symm⟩

/-- No write gets past the last point from which a multiple of 2³² bytes is left. -/
theorem writeAll_stuck {data : Bytes} {offset : Nat} (h : 2 ^ 32 ≤ data.length - offset) :
    writeAll (moving limits) data fuel i offset file = none := by
  induction fuel generalizing i offset file with
  | zero => rw [writeAll, if_pos (by omega)]
  | succ fuel ih =>
      rw [writeAll, if_pos (by omega)]
      simp only [moving]
      refine ih ?_
      have hmod := Nat.mod_add_div (data.length - offset) (2 ^ 32)
      have hdiv : 0 < (data.length - offset) / 2 ^ 32 := Nat.div_pos h (by decide)
      rw [List.length_take, List.length_drop]
      omega

end

/-! ### Descriptors -/

/-- A descriptor that was opened is closed, and no other one. -/
def ClosedAsOpened (events : List Event) : Prop :=
  events = [] ∨ ∃ fd, events = [.opened fd, .closed fd]

section

variable {sys : System} {answers : Nat → Answer} {arg : FileArg} {flags : Int} {fuel : Nat}

theorem readFileUtf8_closed {out : Outcome UVException JsString}
    (h : readFileUtf8 sys answers arg flags fuel = some out) : ClosedAsOpened out.events := by
  unfold readFileUtf8 at h
  dsimp only at h
  split at h
  · cases h
    exact Or.inl rfl
  · split at h
    · split at h
      · cases h
        exact Or.inr ⟨_, rfl⟩
      · cases h
        exact Or.inr ⟨_, rfl⟩
    · split at h
      · cases h
      · cases h
        exact Or.inr ⟨_, rfl⟩
      · cases h
        exact Or.inr ⟨_, rfl⟩

theorem writeFileUtf8_closed {text : JsString} {mode : Int} {out : Outcome UVException OpenFile}
    (h : writeFileUtf8 sys answers arg text flags mode fuel = some out) :
    ClosedAsOpened out.events := by
  unfold writeFileUtf8 at h
  dsimp only at h
  split at h
  · cases h
    exact Or.inl rfl
  · split at h
    · cases h
    · cases h
      exact Or.inr ⟨_, rfl⟩
    · cases h
      exact Or.inr ⟨_, rfl⟩

end

/-! ### The paths agree -/

/-- A call returns a value, and does not go on for ever. -/
def Returns {ε α : Type} (call : Nat → Option (Outcome ε α)) (value : α) : Prop :=
  ∃ fuel events, call fuel = some ⟨events, .ok value⟩

section

variable {sys : System} {arg : FileArg} {name : JsString} {flags mode : Int} {fd : Nat}
  {file : OpenFile} {limits : Nat → Nat}

/-- The bytes one `read` gets, when the buffer is sized by `fstat`. -/
def OpenFile.readable (file : OpenFile) (limit : Nat) : Nat :=
  min (file.size.getD 0 % 2 ^ 32) (limit + 1)

/-- What a file holds behind `n` bytes does not show in its text. -/
def OpenFile.ReadAt (file : OpenFile) (n : Nat) : Prop :=
  Unseen (file.content.take n) (file.content.drop n)

theorem OpenFile.readAt_iff {n : Nat} :
    file.ReadAt n ↔ decodeUtf8 (file.content.take n) = decodeUtf8 file.content := by
  rw [OpenFile.ReadAt, ← decodeUtf8_append_eq_iff, List.take_append_drop, eq_comm]

theorem OpenFile.ReadAt.mono {n m : Nat} (h : file.ReadAt n) (hle : n ≤ m) : file.ReadAt m := by
  have hsplit : file.content.drop n =
      (file.content.drop n).take (m - n) ++ file.content.drop m := by
    have hdrop : file.content.drop m = (file.content.drop n).drop (m - n) := by
      rw [List.drop_drop, Nat.add_sub_cancel' hle]
    rw [hdrop, List.take_append_drop]
  have hrest := h
  rw [OpenFile.ReadAt, hsplit] at hrest
  have hshown := hrest.rest
  rw [← List.take_add, Nat.add_sub_cancel' hle] at hshown
  exact hshown

theorem readChunks_opened (hopen : sys.openFile (utf8Bytes name) flags 0o666 = .ok (fd, file)) :
    readChunks (moving limits) (file.content.length + 1) 0 file [] = some (.ok file.content) := by
  have hrest : file.rest = file.content := by
    rw [OpenFile.rest, sys.at_start hopen, List.drop_zero]
  rw [readChunks_spec (by rw [hrest]; exact Nat.lt_succ_self _), List.nil_append, hrest]

theorem readSized_opened (hopen : sys.openFile (utf8Bytes name) flags 0o666 = .ok (fd, file))
    {size : Nat} (hsize : 0 < size) :
    readSized (moving limits) size (size + 1) 0 file [] = some (.ok (file.content.take size)) := by
  have hrest : file.rest = file.content := by
    rw [OpenFile.rest, sys.at_start hopen, List.drop_zero]
  rw [readSized_spec (Nat.lt_succ_of_le (Nat.sub_le _ _)) hsize, List.nil_append, hrest]
  rfl

theorem readSized_mono {answers : Nat → Answer} {size fuel more i : Nat} {file : OpenFile}
    {buffer : Bytes} {read : Except Nat Bytes}
    (h : readSized answers size fuel i file buffer = some read) (hle : fuel ≤ more) :
    readSized answers size more i file buffer = some read := by
  induction fuel generalizing more i file buffer with
  | zero => cases h
  | succ fuel ih =>
      obtain ⟨more, rfl⟩ : ∃ k, more = k + 1 := ⟨more - 1, by omega⟩
      simp only [readSized] at h ⊢
      split at h
      · exact h
      · split_ifs at h ⊢ with hmore
        · exact ih h (Nat.le_of_succ_le_succ hle)
        · exact h

theorem readFileUtf8_path_iff (hopen : sys.openFile (utf8Bytes name) flags 0o666 = .ok (fd, file)) :
    Returns (readFileUtf8 sys (moving limits) (.path name) flags) (decodeUtf8 file.content) ↔
      file.size.getD 0 = 0 ∨ file.ReadAt (file.readable (limits 0)) := by
  by_cases hsize : file.size.getD 0 = 0
  · refine iff_of_true ⟨file.content.length + 1, [.opened fd, .closed fd], ?_⟩ (Or.inl hsize)
    simp only [readFileUtf8, getStringArg, hopen, hsize, lt_irrefl, ↓reduceIte,
      readChunks_opened hopen]
  · have hpos : 0 < file.size.getD 0 := Nat.pos_of_ne_zero hsize
    simp only [Returns, readFileUtf8, getStringArg, hopen, hpos, ↓reduceIte, moving, OpenFile.read,
      List.drop_zero, Option.some.injEq, Outcome.mk.injEq, Except.ok.injEq, hsize, false_or,
      OpenFile.readAt_iff, OpenFile.readable]
    constructor
    · rintro ⟨-, -, -, htext⟩
      exact htext
    · exact fun htext => ⟨0, _, rfl, htext⟩

/-- What the general path makes of an opened file. -/
theorem readOpen_iff (hopen : sys.openFile (utf8Bytes name) flags 0o666 = .ok (fd, file))
    (own : List Event) :
    (∃ fuel read closed, readOpen (moving limits) own (some file) fuel = some (.ok read, closed) ∧
        decodeUtf8 read = decodeUtf8 file.content) ↔
      ∃ size, file.size = some size ∧ (file.regular = false ∨ size = 0 ∨
        size ≤ kIoMaxLength ∧ file.ReadAt size) := by
  cases hsize : file.size with
  | none => simp [readOpen, hsize]
  | some size =>
      by_cases hzero : (if file.regular then size else 0) = 0
      · have hkind : file.regular = false ∨ size = 0 := by simpa [imp_iff_not_or] using hzero
        refine iff_of_true ⟨file.content.length + 1, file.content, own, ?_, rfl⟩ ⟨size, rfl, ?_⟩
        · simp [readOpen, hsize, hzero, readChunks_opened hopen]
        · exact hkind.imp_right Or.inl
      · have hregular : file.regular = true ∧ size ≠ 0 := by simpa using hzero
        by_cases hlarge : kIoMaxLength < size
        · simp [readOpen, hsize, hregular, hlarge, Nat.not_le.mpr hlarge]
        · have hsized : readSized (moving limits) size (size + 1) 0 file [] =
              some (.ok (file.content.take size)) :=
            readSized_opened hopen (Nat.pos_of_ne_zero hregular.2)
          simp only [readOpen, hsize, hregular, hlarge, Option.bind_some, Option.map_some,
            ↓reduceIte, Option.some.injEq, Bool.true_eq_false, false_or, Nat.not_lt.mp hlarge,
            true_and, exists_eq_left', OpenFile.readAt_iff]
          constructor
          · rintro ⟨fuel, read, closed, hread, htext⟩
            rcases hrun : readSized (moving limits) size fuel 0 file [] with - | ⟨errno | buffer⟩
            · simp [hrun] at hread
            · simp [hrun] at hread
            · have hboth := (readSized_mono hrun (Nat.le_max_left fuel (size + 1))).symm.trans
                (readSized_mono hsized (Nat.le_max_right fuel (size + 1)))
              simp only [hrun, Option.some.injEq, Prod.mk.injEq, Except.ok.injEq] at hread hboth
              rw [← htext, ← hread.1, hboth]
          · exact fun htext => ⟨size + 1, file.content.take size, own, by rw [hsized], htext⟩

theorem readFileSync_path_iff (hopen : sys.openFile (utf8Bytes name) flags 0o666 = .ok (fd, file)) :
    Returns (readFileSync sys (moving limits) (.path name) flags) (decodeUtf8 file.content) ↔
      ∃ size, file.size = some size ∧ (file.regular = false ∨ size = 0 ∨
        size ≤ kIoMaxLength ∧ file.ReadAt size) := by
  rw [← readOpen_iff hopen [.closed fd]]
  simp only [Returns, readFileSync, getStringArg, hopen, Option.map_eq_some_iff]
  constructor
  · rintro ⟨fuel, events, ⟨result, closed⟩, hread, hout⟩
    simp only [Outcome.mk.injEq] at hout
    rcases result with e | read
    · cases hout.2
    · exact ⟨fuel, read, closed, hread, Except.ok.inj hout.2⟩
  · rintro ⟨fuel, read, closed, hread, htext⟩
    exact ⟨fuel, .opened fd :: closed, (.ok read, closed), hread, by simp [Except.map, htext]⟩

theorem writeFileUtf8_path_iff {text : JsString}
    (hopen : sys.openFile (utf8Bytes name) flags mode = .ok (fd, file)) :
    (∃ left, Returns (writeFileUtf8 sys (moving limits) (.path name) text flags mode) left ∧
        left.content = (file.write (utf8Bytes text)).content) ↔
      (utf8Bytes text).length < 2 ^ 32 := by
  constructor
  · rintro ⟨left, ⟨fuel, events, hwrite⟩, -⟩
    by_contra hlong
    have hstuck : writeAll (moving limits) (utf8Bytes text) fuel 0 0 file = none :=
      writeAll_stuck (by omega)
    simp [writeFileUtf8, getStringArg, hopen, hstuck] at hwrite
  · intro hshort
    have htail : file.tail ≤ file.content.length := by
      unfold OpenFile.tail
      split
      · exact Nat.le_refl _
      · rw [sys.at_start hopen]
        exact Nat.zero_le _
    have hlength : (utf8Bytes text).length - 0 < 2 ^ 32 := hshort
    obtain ⟨left, hwrite, hcontent⟩ :
        ∃ left, writeAll (moving limits) (utf8Bytes text) (utf8Bytes text).length 0 0 file =
          some (.ok left) ∧ left.content = (file.write (utf8Bytes text)).content :=
      writeAll_spec htail hlength (Nat.sub_le _ _)
    refine ⟨left, ⟨(utf8Bytes text).length, [.opened fd, .closed fd], ?_⟩, hcontent⟩
    simp only [writeFileUtf8, getStringArg, hopen, hwrite]

end

/-! ### Every file argument -/

/-- The condition under which the text of a file is read whole by both paths. `fstat` tells the size;
it is zero, or what one `read` leaves does not show, and a buffer for the size can be made. -/
def OpenFile.ReadsWhole (file : OpenFile) (limit : Nat) : Prop :=
  ∃ size, file.size = some size ∧ (size = 0 ∨
    file.ReadAt (min (size % 2 ^ 32) (limit + 1)) ∧ (file.regular = true → size ≤ kIoMaxLength))

theorem OpenFile.readsWhole_iff (file : OpenFile) {limit : Nat} :
    ((file.size.getD 0 = 0 ∨ file.ReadAt (file.readable limit)) ∧
      ∃ size, file.size = some size ∧ (file.regular = false ∨ size = 0 ∨
        size ≤ kIoMaxLength ∧ file.ReadAt size)) ↔ file.ReadsWhole limit := by
  cases hsize : file.size with
  | none => simp [OpenFile.ReadsWhole, hsize]
  | some size =>
      have hmono : file.ReadAt (min (size % 2 ^ 32) (limit + 1)) → file.ReadAt size := fun h =>
        h.mono (Nat.le_trans (Nat.min_le_left _ _) (Nat.mod_le _ _))
      simp only [OpenFile.ReadsWhole, OpenFile.readable, hsize, Option.getD_some,
        Option.some.injEq, exists_eq_left']
      cases file.regular with
      | false => simp
      | true =>
          simp only [Bool.true_eq_false, false_or, forall_const]
          constructor
          · rintro ⟨hzero | hread, hkind⟩
            · exact Or.inl hzero
            · exact hkind.imp_right fun hlarge => ⟨hread, hlarge.1⟩
          · rintro (hzero | ⟨hread, hlarge⟩)
            · exact ⟨Or.inl hzero, Or.inl hzero⟩
            · exact ⟨Or.inr hread, Or.inr ⟨hlarge, hmono hread⟩⟩

theorem not_reached {sys : System} {arg : FileArg} (harg : ∀ name, arg ≠ .path name)
    {answers : Nat → Answer} {flags : Int} {text : JsString} :
    ¬ Returns (readFileUtf8 sys answers arg flags) text := by
  rintro ⟨fuel, events, hread⟩
  have hname : getStringArg arg = [] := by
    cases arg with
    | path name => exact absurd rfl (harg name)
    | buffer _ => rfl
    | descriptor _ => rfl
  simp [readFileUtf8, hname, sys.no_name] at hread

theorem System.opened {sys : System} {name : JsString} {flags mode : Int} {file : OpenFile}
    (h : sys.file (.path name) flags mode = some file) :
    ∃ fd, sys.openFile (utf8Bytes name) flags mode = .ok (fd, file) := by
  unfold System.file at h
  rcases hopen : sys.openFile (utf8Bytes name) flags mode with e | ⟨fd, opened⟩
  · simp [hopen, Except.map, Except.toOption] at h
  · simp only [hopen, Except.map, Except.toOption, Option.some.injEq] at h
    exact ⟨fd, by rw [h]⟩

/-- **The fast paths agree with the general path.** A file is read and written as the general path
would, whatever the system moves at a time, exactly when a string names it, what one `read` leaves of
it does not show, a buffer for its size can be made and the length of the text fits 32 bits. A
descriptor is closed in any case. -/
theorem utf8_fast_paths_iff (sys : System) (arg : FileArg) (readFlags writeFlags mode : Int)
    (text : JsString) (fast slow short : Nat → Nat) {file target : OpenFile}
    (hfile : sys.file arg readFlags 0o666 = some file)
    (htarget : sys.file arg writeFlags mode = some target) :
    (Returns (readFileUtf8 sys (moving fast) arg readFlags) (decodeUtf8 file.content) ∧
      Returns (readFileSync sys (moving slow) arg readFlags) (decodeUtf8 file.content) ∧
      (∃ left, Returns (writeFileUtf8 sys (moving short) arg text writeFlags mode) left ∧
        left.content = (target.write (utf8Bytes text)).content) ∧
      (∀ answers fuel out, readFileUtf8 sys answers arg readFlags fuel = some out →
        ClosedAsOpened out.events) ∧
      ∀ answers fuel out, writeFileUtf8 sys answers arg text writeFlags mode fuel = some out →
        ClosedAsOpened out.events) ↔
    (∃ name, arg = .path name) ∧ file.ReadsWhole (fast 0) ∧ (utf8Bytes text).length < 2 ^ 32 := by
  by_cases harg : ∃ name, arg = .path name
  · obtain ⟨name, rfl⟩ := harg
    obtain ⟨fd, hopen⟩ := System.opened hfile
    obtain ⟨fd', hopen'⟩ := System.opened htarget
    rw [readFileUtf8_path_iff hopen, readFileSync_path_iff hopen, writeFileUtf8_path_iff hopen']
    rw [← file.readsWhole_iff]
    constructor
    · rintro ⟨hfast, hslow, hwrite, -⟩
      exact ⟨⟨name, rfl⟩, ⟨hfast, hslow⟩, hwrite⟩
    · rintro ⟨-, ⟨hfast, hslow⟩, hwrite⟩
      exact ⟨hfast, hslow, hwrite, fun _ _ _ => readFileUtf8_closed,
        fun _ _ _ => writeFileUtf8_closed⟩
  · refine iff_of_false (fun h => not_reached (fun name hname => harg ⟨name, hname⟩) h.1) fun h => ?_
    exact harg h.1

/-- A system on which the file `a` can be opened, and nothing else. -/
def oneFile (content : Bytes) (size : Option Nat) : System where
  openFile path _ _ := if path = [97] then .ok (3, ⟨content, 0, false, true, size⟩) else .error ENOENT
  descriptor _ := none
  no_name _ _ := rfl
  at_start h := by
    split_ifs at h
    cases h
    rfl

/-- A file that is read in one go, and written a byte at a time. -/
theorem utf8_fast_paths_named :
    Returns (readFileUtf8 (oneFile [104, 105] (some 2)) (moving fun _ => 7) (.path [97]) 0)
        (decodeUtf8 [104, 105]) ∧
      Returns (readFileSync (oneFile [104, 105] (some 2)) (moving fun _ => 0) (.path [97]) 0)
        (decodeUtf8 [104, 105]) ∧
      ∃ left, Returns (writeFileUtf8 (oneFile [104, 105] (some 2)) (moving fun _ => 0) (.path [97])
          [111, 107] 1 0o666) left ∧ left.content = utf8Bytes [111, 107] := by
  have hfile : (oneFile [104, 105] (some 2)).file (.path [97]) 0 0o666 =
      some ⟨[104, 105], 0, false, true, some 2⟩ := rfl
  have htarget : (oneFile [104, 105] (some 2)).file (.path [97]) 1 0o666 =
      some ⟨[104, 105], 0, false, true, some 2⟩ := rfl
  have hwhole : (⟨[104, 105], 0, false, true, some 2⟩ : OpenFile).ReadsWhole 7 :=
    ⟨2, rfl, Or.inr ⟨Or.inl rfl, fun _ => by decide⟩⟩
  obtain ⟨hfast, hslow, hwrite, -⟩ := (utf8_fast_paths_iff (oneFile [104, 105] (some 2))
    (.path [97]) 0 1 0o666 [111, 107] (fun _ => 7) (fun _ => 0) (fun _ => 0) hfile htarget).mpr
      ⟨⟨[97], rfl⟩, hwhole, by decide⟩
  exact ⟨hfast, hslow, hwrite⟩

/-- A Buffer that names the file does not reach it. -/
theorem utf8_fast_path_buffer :
    ¬ ∀ (sys : System) (arg : FileArg) (flags : Int) (limits : Nat → Nat) (file : OpenFile),
      sys.file arg flags 0o666 = some file →
        Returns (readFileUtf8 sys (moving limits) arg flags) (decodeUtf8 file.content) := by
  intro h
  obtain ⟨fuel, events, hread⟩ :=
    h (oneFile [104, 105] (some 2)) (.buffer [97]) 0 (fun _ => 7) _ rfl
  cases hread

end HermesNode.Fs.Utf8
