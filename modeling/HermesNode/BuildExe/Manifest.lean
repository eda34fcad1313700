/-
Module: HermesNode.BuildExe.Manifest
Purpose: The manifest of a kit: the text `make-kit.py` writes and the reader of `build-exe`. What was
  written is read back key by key, in order. The one value that may come back changed is a link
  argument in which the placeholder of the kit directory stands where the writer did not put it: the
  reader replaces every occurrence.
Trusted boundary: human-reviewed spec (transcribed from `utils/make-kit.py` and
  `lib/build-exe/kit_manifest.cpp`); a text is given by its UTF-8 bytes
Main exports: KitManifest, LinkArg, readKitManifest_write_iff
-/
import HermesNode.Lib.Replace
import HermesNode.Lib.Text

namespace HermesNode.BuildExe

/-! ### The writer -/

/-- `{kit}` -/
def kPlaceholder : Bytes := ascii "\x7bkit\x7d"

/-- A link argument as `make-kit.py` puts it together. -/
inductive LinkArg where
  | kitRelative (name : Bytes)
  | plain (text : Bytes)
deriving Repr, DecidableEq

def LinkArg.text : LinkArg → Bytes
  | .kitRelative name => kPlaceholder ++ ascii "/" ++ name
  | .plain text => text

/-- What `main` writes down. -/
structure Kit where
  version : Bytes
  cc : Bytes
  driverflags : List Bytes
  linkargs : List LinkArg
deriving Repr, DecidableEq

/-- `f.write("%s: %s\n" % …)` -/
def writeLine (key value : Bytes) : Bytes := key ++ ascii ": " ++ value ++ [10]

def writeManifest (kit : Kit) : Bytes :=
  ascii "# hermes-node kit manifest -- generated by utils/make-kit.py, do not edit\n" ++
    writeLine (ascii "version") kit.version ++ writeLine (ascii "cc") kit.cc ++
    kit.driverflags.flatMap (writeLine (ascii "driverflag")) ++
    kit.linkargs.flatMap fun arg => writeLine (ascii "linkarg") arg.text

/-! ### The reader -/

structure KitManifest where
  kitDir : Bytes
  version : Bytes
  cc : Bytes
  driverFlags : List Bytes
  linkArgs : List Bytes
deriving Repr, DecidableEq

def substituteKitDir (value kitDir : Bytes) : Bytes := replaceAll kPlaceholder kitDir value

def trimTrailingCR (line : Bytes) : Bytes :=
  if line.getLast? = some 13 then line.dropLast else line

def isBlankOrComment (line : Bytes) : Bool :=
  match line.dropWhile fun c => c == 32 || c == 9 with
  | [] => true
  | c :: _ => c == 35

/-- The lines `std::getline` returns. -/
def getLines : Bytes → List Bytes
  | [] => []
  | c :: rest =>
      if c = 10 then [] :: getLines rest
      else
        match getLines rest with
        | [] => [[c]]
        | line :: lines => (c :: line) :: lines

/-- The line before and behind the first `": "`. -/
def splitSeparator : Bytes → Option (Bytes × Bytes)
  | [] => none
  | c :: rest =>
      if ascii ": " <+: c :: rest then some ([], rest.drop 1)
      else (splitSeparator rest).map fun (key, value) => (c :: key, value)

/-- What the loop has seen. -/
structure Seen where
  version : Option Bytes
  cc : Option Bytes
  driverFlags : List Bytes
  linkArgs : List Bytes
deriving Repr, DecidableEq

def manifestPath (kitDir : Bytes) : Bytes := kitDir ++ ascii "/kit.manifest"

/-- One turn of the loop. -/
def readLine (kitDir : Bytes) (lineNo : Nat) (seen : Seen) (rawLine : Bytes) :
    Except Bytes Seen :=
  let line := trimTrailingCR rawLine
  if isBlankOrComment line then .ok seen
  else
    match splitSeparator line with
    | none => .error (manifestPath kitDir ++ ascii ":" ++ decimal lineNo ++
        ascii ": malformed line (expected 'key: value'): " ++ line)
    | some (key, value) =>
        if key = ascii "version" then
          if seen.version.isSome then .error (manifestPath kitDir ++ ascii ": duplicate key 'version'")
          else .ok { seen with version := some value }
        else if key = ascii "cc" then
          if seen.cc.isSome then .error (manifestPath kitDir ++ ascii ": duplicate key 'cc'")
          else .ok { seen with cc := some value }
        else if key = ascii "driverflag" then
          .ok { seen with driverFlags := seen.driverFlags ++ [value] }
        else if key = ascii "linkarg" then
          .ok { seen with linkArgs := seen.linkArgs ++ [substituteKitDir value kitDir] }
        else .error (manifestPath kitDir ++ ascii ": unknown key '" ++ key ++ ascii "'")

/-- The lines behind line `lineNo`. -/
def readLines (kitDir : Bytes) : Nat → Seen → List Bytes → Except Bytes Seen
  | _, seen, [] => .ok seen
  | lineNo, seen, line :: lines =>
      match readLine kitDir (lineNo + 1) seen line with
      | .error e => .error e
      | .ok seen => readLines kitDir (lineNo + 1) seen lines

/-- `readKitManifest`, where `file` is the content of the manifest if it can be opened. -/
def readKitManifest (kitDir : Bytes) (file : Option Bytes) : Except Bytes KitManifest :=
  match file with
  | none => .error (ascii "cannot open kit manifest: " ++ manifestPath kitDir)
  | some text =>
      match readLines kitDir 0 ⟨none, none, [], []⟩ (getLines text) with
      | .error e => .error e
      | .ok seen =>
          match seen.version, seen.cc with
          | none, _ => .error (manifestPath kitDir ++ ascii ": missing required key 'version'")
          | some _, none => .error (manifestPath kitDir ++ ascii ": missing required key 'cc'")
          | some version, some cc => .ok ⟨kitDir, version, cc, seen.driverFlags, seen.linkArgs⟩

/-! ### One line -/

/-- A value that stands on a line of its own. -/
def OneLine (value : Bytes) : Prop := 10 ∉ value ∧ value.getLast? ≠ some 13

instance (value : Bytes) : Decidable (OneLine value) := inferInstanceAs (Decidable (_ ∧ _))

theorem getLines_append {line : Bytes} (h : (10 : UInt8) ∉ line) (rest : Bytes) :
    getLines (line ++ 10 :: rest) = line :: getLines rest := by
  induction line with
  | nil => simp [getLines]
  | cons c line ih =>
      simp only [List.mem_cons, not_or] at h
      rw [List.cons_append, getLines, if_neg (Ne.symm h.1), ih h.2]

/-- A key has no colon, so that the first separator of its line is the writer's. -/
theorem splitSeparator_line {key : Bytes} (h : (58 : UInt8) ∉ key) (value : Bytes) :
    splitSeparator (key ++ ascii ": " ++ value) = some (key, value) := by
  induction key with
  | nil => rfl
  | cons c key ih =>
      simp only [List.mem_cons, not_or] at h
      have hcolon : ¬ ascii ": " <+: c :: (key ++ ascii ": " ++ value) := by
        intro hfront
        exact h.1 (List.cons_prefix_cons.mp hfront).1
      rw [List.cons_append, List.cons_append, splitSeparator, if_neg hcolon, ih h.2]
      rfl

/-- The keys of the writer. -/
def keys : List Bytes := ["version", "cc", "driverflag", "linkarg"].map ascii

/-- What the reader sees of a written line is its key and its value. -/
theorem line_of_key {key value : Bytes} (hkey : key ∈ keys) (hvalue : OneLine value) :
    trimTrailingCR (key ++ ascii ": " ++ value) = key ++ ascii ": " ++ value ∧
      isBlankOrComment (key ++ ascii ": " ++ value) = false ∧
      splitSeparator (key ++ ascii ": " ++ value) = some (key, value) ∧
      (10 : UInt8) ∉ key ++ ascii ": " ++ value := by
  have hplain : keys.all (fun key => !key.contains 58 && !key.contains 10) = true := by decide
  have hblank : ∀ key ∈ keys, isBlankOrComment (key ++ ascii ": " ++ value) = false := by
    simp only [keys, List.map_cons, List.map_nil, List.mem_cons, List.not_mem_nil, or_false]
    rintro key (rfl | rfl | rfl | rfl) <;> rfl
  have hbytes := List.all_eq_true.mp hplain key hkey
  simp only [Bool.and_eq_true, Bool.not_eq_true', List.contains_eq_mem, decide_eq_false_iff_not]
    at hbytes
  have hlast : (key ++ ascii ": " ++ value).getLast? ≠ some 13 := by
    cases value with
    | nil => simp [ascii, List.getLast?_append]
    | cons c value =>
        have hvalueLast := hvalue.2
        rw [List.getLast?_append]
        cases hlast : (c :: value).getLast? with
        | none => simp at hlast
        | some d => rwa [hlast] at hvalueLast
  refine ⟨if_neg hlast, hblank key hkey, splitSeparator_line hbytes.1 value, ?_⟩
  simp [ascii, hbytes.2, hvalue.1]

/-- The reader's turn at a written line. -/
theorem getLines_writeLine {key value : Bytes} (hkey : key ∈ keys) (hvalue : OneLine value)
    (rest : Bytes) :
    getLines (writeLine key value ++ rest) = (key ++ ascii ": " ++ value) :: getLines rest := by
  rw [writeLine, List.append_assoc]
  exact getLines_append (line_of_key hkey hvalue).2.2.2 rest

section

variable {kitDir : Bytes} {lineNo : Nat} {seen : Seen} {value : Bytes}

theorem readLine_version (hvalue : OneLine value) (hseen : seen.version = none) :
    readLine kitDir lineNo seen (ascii "version" ++ ascii ": " ++ value) =
      .ok { seen with version := some value } := by
  have hkey : ascii "version" ∈ keys := by decide
  obtain ⟨htrim, hblank, hsplit, -⟩ := line_of_key hkey hvalue
  simp only [readLine, htrim, hblank, hsplit, Bool.false_eq_true, ↓reduceIte, hseen,
    Option.isSome_none]

theorem readLine_cc (hvalue : OneLine value) (hseen : seen.cc = none) :
    readLine kitDir lineNo seen (ascii "cc" ++ ascii ": " ++ value) =
      .ok { seen with cc := some value } := by
  have hne : ascii "cc" ≠ ascii "version" := by decide
  have hkey : ascii "cc" ∈ keys := by decide
  obtain ⟨htrim, hblank, hsplit, -⟩ := line_of_key hkey hvalue
  simp only [readLine, htrim, hblank, hsplit, Bool.false_eq_true, ↓reduceIte, hseen,
    Option.isSome_none, hne]

theorem readLine_driverflag (hvalue : OneLine value) :
    readLine kitDir lineNo seen (ascii "driverflag" ++ ascii ": " ++ value) =
      .ok { seen with driverFlags := seen.driverFlags ++ [value] } := by
  have hversion : ascii "driverflag" ≠ ascii "version" := by decide
  have hcc : ascii "driverflag" ≠ ascii "cc" := by decide
  have hkey : ascii "driverflag" ∈ keys := by decide
  obtain ⟨htrim, hblank, hsplit, -⟩ := line_of_key hkey hvalue
  simp only [readLine, htrim, hblank, hsplit, Bool.false_eq_true, ↓reduceIte, hversion,
    hcc]

theorem readLine_linkarg (hvalue : OneLine value) :
    readLine kitDir lineNo seen (ascii "linkarg" ++ ascii ": " ++ value) =
      .ok { seen with linkArgs := seen.linkArgs ++ [substituteKitDir value kitDir] } := by
  have hversion : ascii "linkarg" ≠ ascii "version" := by decide
  have hcc : ascii "linkarg" ≠ ascii "cc" := by decide
  have hflag : ascii "linkarg" ≠ ascii "driverflag" := by decide
  have hkey : ascii "linkarg" ∈ keys := by decide
  obtain ⟨htrim, hblank, hsplit, -⟩ := line_of_key hkey hvalue
  simp only [readLine, htrim, hblank, hsplit, Bool.false_eq_true, ↓reduceIte, hversion,
    hcc, hflag]

end

theorem readLines_cons {kitDir line : Bytes} {lineNo : Nat} {seen next : Seen}
    (h : readLine kitDir (lineNo + 1) seen line = .ok next) (lines : List Bytes) :
    readLines kitDir lineNo seen (line :: lines) = readLines kitDir (lineNo + 1) next lines := by
  simp [readLines, h]

/-! ### The whole manifest -/

/-- The flags come back in order, whatever follows them. -/
theorem readLines_driverflags {kitDir : Bytes} {flags : List Bytes} (h : ∀ flag ∈ flags, OneLine flag)
    (lineNo : Nat) (seen : Seen) (rest : Bytes) :
    readLines kitDir lineNo seen
        (getLines (flags.flatMap (writeLine (ascii "driverflag")) ++ rest)) =
      readLines kitDir (lineNo + flags.length)
        { seen with driverFlags := seen.driverFlags ++ flags } (getLines rest) := by
  induction flags generalizing lineNo seen with
  | nil => simp
  | cons flag flags ih =>
      have hflag := h flag List.mem_cons_self
      rw [List.flatMap_cons, List.append_assoc, getLines_writeLine (by decide) hflag,
        readLines_cons (readLine_driverflag hflag),
        ih fun other hother => h other (List.mem_cons_of_mem _ hother)]
      have hlength : lineNo + 1 + flags.length = lineNo + (flag :: flags).length := by
        rw [List.length_cons]
        omega
      rw [hlength, List.append_assoc]
      rfl

theorem readLines_linkargs {kitDir : Bytes} {args : List LinkArg}
    (h : ∀ arg ∈ args, OneLine arg.text) (lineNo : Nat) (seen : Seen) :
    readLines kitDir lineNo seen
        (getLines (args.flatMap fun arg => writeLine (ascii "linkarg") arg.text)) =
      .ok { seen with
        linkArgs := seen.linkArgs ++ args.map (fun arg => substituteKitDir arg.text kitDir) } := by
  induction args generalizing lineNo seen with
  | nil => simp [getLines, readLines]
  | cons arg args ih =>
      have harg := h arg List.mem_cons_self
      rw [List.flatMap_cons, getLines_writeLine (by decide) harg,
        readLines_cons (readLine_linkarg harg),
        ih fun other hother => h other (List.mem_cons_of_mem _ hother)]
      simp

/-- The values of a kit stand on a line each. -/
structure Kit.OneLines (kit : Kit) : Prop where
  version : OneLine kit.version
  cc : OneLine kit.cc
  driverflags : ∀ flag ∈ kit.driverflags, OneLine flag
  linkargs : ∀ arg ∈ kit.linkargs, OneLine arg.text

/-- The written manifest is accepted, and what comes back is what was written, with the placeholder
replaced in the link arguments. -/
theorem readKitManifest_write {kit : Kit} (h : kit.OneLines) (kitDir : Bytes) :
    readKitManifest kitDir (some (writeManifest kit)) =
      .ok ⟨kitDir, kit.version, kit.cc, kit.driverflags,
        kit.linkargs.map fun arg => substituteKitDir arg.text kitDir⟩ := by
  have hcomment : ∀ rest : Bytes, getLines
      (ascii "# hermes-node kit manifest -- generated by utils/make-kit.py, do not edit\n" ++ rest) =
      ascii "# hermes-node kit manifest -- generated by utils/make-kit.py, do not edit" ::
        getLines rest := fun rest => by
    have hline : ascii "# hermes-node kit manifest -- generated by utils/make-kit.py, do not edit\n" =
        ascii "# hermes-node kit manifest -- generated by utils/make-kit.py, do not edit" ++ [10] := by
      decide
    rw [hline, List.append_assoc]
    exact getLines_append (by decide) rest
  have hskipped : readLine kitDir (0 + 1) ⟨none, none, [], []⟩
      (ascii "# hermes-node kit manifest -- generated by utils/make-kit.py, do not edit") =
      .ok ⟨none, none, [], []⟩ := by
    rfl
  simp only [readKitManifest, writeManifest, List.append_assoc]
  rw [hcomment, readLines_cons hskipped, getLines_writeLine (by decide) h.version,
    readLines_cons (readLine_version h.version rfl), getLines_writeLine (by decide) h.cc,
    readLines_cons (readLine_cc h.cc rfl), readLines_driverflags h.driverflags,
    readLines_linkargs h.linkargs]
  simp

/-! ### The placeholder -/

/-- The argument as the writer means it, with the kit in `kitDir`. -/
def LinkArg.located (kitDir : Bytes) : LinkArg → Bytes
  | .kitRelative name => kitDir ++ ascii "/" ++ name
  | .plain text => text

/-- What of an argument the writer did not put there. -/
def LinkArg.own : LinkArg → Bytes
  | .kitRelative name => name
  | .plain text => text

/-- The reader makes of an argument what the writer meant exactly when the placeholder is only where
the writer put it. -/
theorem substituteKitDir_iff (arg : LinkArg) (kitDir : Bytes) :
    substituteKitDir arg.text kitDir = arg.located kitDir ↔
      ¬ kPlaceholder <:+: arg.own ∨ kitDir = kPlaceholder := by
  have hplaceholder : kPlaceholder ≠ [] := by decide
  cases arg with
  | plain text => exact replaceAll_eq_self_iff hplaceholder
  | kitRelative name =>
      have hslash : ¬ kPlaceholder <+: ascii "/" ++ name := fun hfront =>
        absurd (List.cons_prefix_cons.mp hfront).1 (by decide)
      have htext : substituteKitDir (LinkArg.text (.kitRelative name)) kitDir =
          kitDir ++ (ascii "/" ++ substituteKitDir name kitDir) := by
        rw [LinkArg.text, substituteKitDir, List.append_assoc, replaceAll_append hplaceholder]
        exact congrArg (kitDir ++ ·) (replaceAll_cons hslash)
      rw [htext, LinkArg.located, List.append_assoc, List.append_cancel_left_eq,
        List.append_cancel_left_eq]
      exact replaceAll_eq_self_iff hplaceholder

/-- **A kit comes back from its manifest exactly when no link argument has a placeholder of its own,
or the kit directory is spelled as the placeholder.** -/
theorem readKitManifest_write_iff {kit : Kit} (h : kit.OneLines) (kitDir : Bytes) :
    readKitManifest kitDir (some (writeManifest kit)) =
        .ok ⟨kitDir, kit.version, kit.cc, kit.driverflags, kit.linkargs.map (·.located kitDir)⟩ ↔
      (∀ arg ∈ kit.linkargs, ¬ kPlaceholder <:+: arg.own) ∨ kitDir = kPlaceholder := by
  rw [readKitManifest_write h]
  simp only [Except.ok.injEq, KitManifest.mk.injEq, true_and, List.map_inj_left,
    substituteKitDir_iff]
  by_cases hdir : kitDir = kPlaceholder
  · simp [hdir]
  · simp [hdir]

theorem readKitManifest_write_kit : readKitManifest (ascii "/k") (some (writeManifest
      ⟨ascii "1.0", ascii "c: c", [ascii " -arch", []],
        [.kitRelative (ascii "a.a"), .plain (ascii "#x")]⟩)) =
    .ok ⟨ascii "/k", ascii "1.0", ascii "c: c", [ascii " -arch", []],
      [ascii "/k/a.a", ascii "#x"]⟩ := by
  have hlines : Kit.OneLines ⟨ascii "1.0", ascii "c: c", [ascii " -arch", []],
      [.kitRelative (ascii "a.a"), .plain (ascii "#x")]⟩ :=
    ⟨by decide, by decide, by decide, by decide⟩
  exact (readKitManifest_write_iff hlines (ascii "/k")).mpr (Or.inl (by decide))

/-- A library below a directory named like the placeholder is looked for in the kit. -/
theorem readKitManifest_placeholder :
    ¬ ∀ (kit : Kit) (kitDir : Bytes), kit.OneLines →
      readKitManifest kitDir (some (writeManifest kit)) =
        .ok ⟨kitDir, kit.version, kit.cc, kit.driverflags, kit.linkargs.map (·.located kitDir)⟩ := by
  intro h
  have hread := h ⟨ascii "1.0", ascii "c++", [],
    [.plain (ascii "-L/opt/\x7bkit\x7d/lib")]⟩ (ascii "/k")
    ⟨by decide, by decide, by decide, by decide⟩
  revert hread
  decide

end HermesNode.BuildExe
