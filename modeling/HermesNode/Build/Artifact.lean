/-
Module: HermesNode.Build.Artifact
Purpose: The writing half of `buildBundle`. The artifact is a container and the sidecars beside it,
  each placed atomically, one after the other, the container last. A build that fails before the
  first sidecar is in place leaves everything as it was; one that fails later leaves the sidecars
  it has already replaced.
Trusted boundary: human-reviewed spec (transcribed from steps 5b and 6 of
  `lib/bundle/bundle_build.cpp`)
Main exports: Planned, planBuild, failed_build_intact_iff
-/
import HermesNode.Build.AtomicWrite
import HermesNode.Build.Closure

namespace HermesNode.Build

open HermesNode.Bundle Resolve WorkList

/-! ### Before anything is written -/

/-- What the build has decided when it starts to write. -/
structure Planned where
  root : Bytes
  files : List PackagedFile
  calls : List Call
  placements : List NativePlacement

/-- `assemble` up to step 5b. -/
def planAssembly (disk : Disk) (tools : Toolchain) (opts : Options) (start : Start)
    (walked : State Bytes Visited) : Except BuildError Planned := do
  let modules := List.zipWith (fun path visited => PackagedFile.mk path visited.info)
    walked.items walked.visited
  let consulted := start.consulted ++ walked.visited.flatMap (·.consulted)
  let files := modules ++ packageInputs disk walked.items consulted
  let root := commonAncestor (files.map (·.path))
  let placements ← placeNatives disk opts root files
  let compiled ← compileFiles tools start.preloadPaths files
  pure { root, files := compiled, calls := callsOf opts start root compiled placements, placements }

/-- The build up to step 5b. -/
def planBuild (disk : Disk) (tools : Toolchain) (opts : Options) (fuel : Nat) :
    Option (Except BuildError Planned) :=
  match startOf disk opts with
  | .error e => some (.error e)
  | .ok start =>
      match walk disk tools start fuel with
      | .running _ => none
      | .failed e => some (.error e)
      | .finished walked => some (planAssembly disk tools opts start walked)

/-- The container of a plan. -/
def Planned.container (plan : Planned) (generation : UInt32) : Bytes :=
  ((BundleWriter.run plan.calls).serialize generation).1

/-- Steps 5b and 6 when the system only says which files it cannot place. -/
def Planned.finish (disk : Disk) (opts : Options) (generation : UInt32) (plan : Planned) :
    Except BuildError Built := do
  let sidecars ← plan.placements.mapM (copyNative disk)
  match disk.writeError (cstr opts.outPath) with
  | some report => .error (.cannotWrite report)
  | none => pure { root := plan.root, files := plan.files, calls := plan.calls
                   sidecars := sidecars.filterMap id, container := plan.container generation }

theorem assemble_eq_planAssembly (disk : Disk) (tools : Toolchain) (opts : Options)
    (generation : UInt32) (start : Start) (walked : State Bytes Visited) :
    assemble disk tools opts generation start walked =
      (planAssembly disk tools opts start walked).bind (Planned.finish disk opts generation) := by
  unfold assemble planAssembly
  simp only [bind, Except.bind, pure, Except.pure, Planned.finish, Planned.container]
  cases placeNatives disk opts _ _ with
  | error e => rfl
  | ok placements => cases compileFiles tools start.preloadPaths _ <;> rfl

theorem buildBundle_eq_planBuild (disk : Disk) (tools : Toolchain) (opts : Options)
    (generation : UInt32) (fuel : Nat) :
    buildBundle disk tools opts generation fuel =
      (planBuild disk tools opts fuel).map (·.bind (Planned.finish disk opts generation)) := by
  unfold buildBundle planBuild
  cases startOf disk opts with
  | error e => rfl
  | ok start =>
      simp only
      cases walk disk tools start fuel with
      | running w => rfl
      | failed e => rfl
      | finished w => simp only [Option.map_some, assemble_eq_planAssembly]

/-! ### Writing -/

/-- The process that builds: its `getpid()`, the temporary names it has used up, and what the system
calls of each further `writeFileAtomically` return. -/
structure Process where
  pid : Nat
  tempCounter : Nat
  sys : Nat → SysCalls

section

variable (disk : Disk) (process : Process)

/-- Step 5b: the addons in order, each read and placed before the next one is looked at. The answer
is the next value of the counter. -/
def copyNatives : List NativePlacement → Nat → FileSys →
    Option (Except BuildError Nat × FileSys)
  | [], counter, fs => some (.ok counter, fs)
  | copy :: rest, counter, fs =>
      if copy.inPlace then copyNatives rest counter fs
      else
        match disk.readFile copy.path with
        | none => some (.error (.cannotRead copy.path), fs)
        | some contents =>
            match writeFileAtomically process.pid counter (process.sys counter) copy.dst contents
                fs with
            | none => none
            | some (.error report, fs) => some (.error (.cannotWrite report), fs)
            | some (.ok (), fs) => copyNatives rest (counter + 1) fs

/-- Steps 5b and 6. -/
def placeArtifact (opts : Options) (generation : UInt32) (plan : Planned) (fs : FileSys) :
    Option (Except BuildError Unit × FileSys) :=
  match copyNatives disk process plan.placements process.tempCounter fs with
  | none => none
  | some (.error e, fs) => some (.error e, fs)
  | some (.ok counter, fs) =>
      match writeFileAtomically process.pid counter (process.sys counter) opts.outPath
          (plan.container generation) fs with
      | none => none
      | some (.error report, fs) => some (.error (.cannotWrite report), fs)
      | some (.ok (), fs) => some (.ok (), fs)

/-- `buildBundle` and what it does to the files: `.ok` is 0 and an error is 1. -/
def buildInto (tools : Toolchain) (opts : Options) (generation : UInt32) (fuel : Nat)
    (fs : FileSys) : Option (Except BuildError Unit × FileSys) :=
  match planBuild disk tools opts fuel with
  | none => none
  | some (.error e) => some (.error e, fs)
  | some (.ok plan) => placeArtifact disk process opts generation plan fs

/-- The sidecars that are in place, with their new bytes, when the copying stops: those before the
first addon that cannot be read or placed. -/
def replaced : List NativePlacement → Nat → List (Bytes × Bytes)
  | [], _ => []
  | copy :: rest, counter =>
      if copy.inPlace then replaced rest counter
      else
        match disk.readFile copy.path with
        | none => []
        | some contents =>
            if (process.sys counter).succeed contents then
              (cstr copy.dst, contents) :: replaced rest (counter + 1)
            else []

/-- The sidecars a build puts in place, whether or not it then goes on. -/
def replacedSidecars (tools : Toolchain) (opts : Options) (fuel : Nat) : List (Bytes × Bytes) :=
  match planBuild disk tools opts fuel with
  | some (.ok plan) => replaced disk process plan.placements process.tempCounter
  | _ => []

end

/-- The bytes a list of writes leaves behind a name. -/
def lastWritten (writes : List (Bytes × Bytes)) (name : Bytes) : Option Bytes :=
  writes.reverse.lookup name

@[simp] theorem lastWritten_nil (name : Bytes) : lastWritten [] name = none := rfl

theorem lastWritten_cons (target data : Bytes) (writes : List (Bytes × Bytes)) (name : Bytes) :
    lastWritten ((target, data) :: writes) name =
      (lastWritten writes name).or (if name = target then some data else none) := by
  unfold lastWritten
  rw [List.reverse_cons, List.lookup_append]
  by_cases hname : name = target
  · simp [hname]
  · simp [hname, List.lookup_cons, beq_eq_false_iff_ne.mpr hname]

/-- The temporary names the process can use for the target are no names of the artifact and no links
to other files. -/
def TempsApart (process : Process) (artifact : Bytes → Prop) (fs : FileSys) (target : Bytes) :
    Prop :=
  ∀ counter, process.tempCounter ≤ counter →
    ¬ artifact (cstr (tempName target process.pid counter)) ∧
      fs.Alone (cstr (tempName target process.pid counter))

/-- The names of the artifact: the container, the sidecars the build may write, and any others. The
temporary names of the build are none of them. -/
structure ArtifactNames (disk : Disk) (process : Process) (tools : Toolchain) (opts : Options)
    (fuel : Nat) (fs : FileSys) (artifact : Bytes → Prop) : Prop where
  container : artifact (cstr opts.outPath)
  temps : TempsApart process artifact fs opts.outPath
  sidecars : ∀ plan, planBuild disk tools opts fuel = some (.ok plan) →
    ∀ copy ∈ plan.placements, copy.inPlace = false →
      artifact (cstr copy.dst) ∧ TempsApart process artifact fs copy.dst

/-! ### What a failed build leaves -/

section

variable {disk : Disk} {process : Process} {artifact : Bytes → Prop}

theorem TempsApart.installed {fs fs' : FileSys} {target name data : Bytes}
    (h : TempsApart process artifact fs target) (hname : artifact name)
    (hinstalled : Installed fs fs' name data) : TempsApart process artifact fs' target := by
  intro counter hcounter
  obtain ⟨hnot, halone⟩ := h counter hcounter
  refine ⟨hnot, hinstalled.alone _ ?_ halone⟩
  rintro rfl
  exact hnot hname

/-- One `writeFileAtomically` of a build, on the names of the artifact. -/
theorem write_artifact {counter : Nat} {target data : Bytes} {fs fs' : FileSys}
    {outcome : Except Bytes Unit} (hb : fs.Bounded) (hcounter : process.tempCounter ≤ counter)
    (htarget : artifact (cstr target)) (htemps : TempsApart process artifact fs target)
    (h : writeFileAtomically process.pid counter (process.sys counter) target data fs =
      some (outcome, fs')) :
    (outcome = .ok () ↔ (process.sys counter).succeed data = true) ∧
      (outcome = .ok () → Installed fs fs' (cstr target) data) ∧
      ∀ n, artifact n → (outcome = .ok () → n ≠ cstr target) → fs'.read n = fs.read n := by
  obtain ⟨hnot, halone⟩ := htemps counter hcounter
  have hne : ∀ n, artifact n → n ≠ cstr (tempName target process.pid counter) := by
    rintro n hn rfl
    exact hnot hn
  obtain ⟨hiff, hinstalled, hothers⟩ :=
    writeFileAtomically_spec hb halone (hne _ htarget).symm h
  exact ⟨hiff, hinstalled, fun n hn => hothers n (hne n hn)⟩

/-- The copying loop: behind every name of the artifact stands what the loop wrote there last, else
what stood there before. -/
theorem copyNatives_spec {copies : List NativePlacement} {counter : Nat} {fs fs' : FileSys}
    {outcome : Except BuildError Nat} (hb : fs.Bounded) (hcounter : process.tempCounter ≤ counter)
    (htargets : ∀ copy ∈ copies, copy.inPlace = false → artifact (cstr copy.dst) ∧
      TempsApart process artifact fs copy.dst)
    (h : copyNatives disk process copies counter fs = some (outcome, fs')) :
    (∀ n, artifact n →
      fs'.read n = (lastWritten (replaced disk process copies counter) n).or (fs.read n)) ∧
    ∀ next, outcome = .ok next → fs'.Bounded ∧ process.tempCounter ≤ next ∧
      ∀ target, TempsApart process artifact fs target → TempsApart process artifact fs' target := by
  induction copies generalizing counter fs with
  | nil =>
      simp only [copyNatives, Option.some.injEq, Prod.mk.injEq] at h
      obtain ⟨rfl, rfl⟩ := h
      refine ⟨fun n _ => by simp [replaced], ?_⟩
      rintro next hnext
      cases hnext
      exact ⟨hb, hcounter, fun _ htemps => htemps⟩
  | cons copy rest ih =>
      have hrest : ∀ c ∈ rest, c.inPlace = false → artifact (cstr c.dst) ∧
          TempsApart process artifact fs c.dst := fun c hc => htargets c (List.mem_cons_of_mem _ hc)
      simp only [copyNatives] at h
      simp only [replaced]
      by_cases hplace : copy.inPlace = true
      · rw [if_pos hplace] at h ⊢
        exact ih hb hcounter hrest h
      · rw [if_neg hplace] at h ⊢
        obtain ⟨htarget, htemps⟩ := htargets copy List.mem_cons_self (by simpa using hplace)
        cases hread : disk.readFile copy.path with
        | none =>
            simp only [hread, Option.some.injEq, Prod.mk.injEq] at h
            obtain ⟨rfl, rfl⟩ := h
            exact ⟨fun n _ => by simp, nofun⟩
        | some contents =>
            simp only [hread] at h ⊢
            split at h
            · cases h
            · -- the write failed: no name of the artifact has changed
              rename_i report fs₁ hwrite
              cases h
              obtain ⟨hiff, _, hothers⟩ := write_artifact hb hcounter htarget htemps hwrite
              have hfails : (process.sys counter).succeed contents = false := by
                simpa using hiff
              refine ⟨?_, nofun⟩
              intro n hn
              simpa [hfails] using hothers n hn nofun
            · rename_i fs₁ hwrite
              obtain ⟨hiff, hinstalled, hothers⟩ :=
                write_artifact hb hcounter htarget htemps hwrite
              have hinstalled := hinstalled rfl
              have hsucceeds : (process.sys counter).succeed contents = true := hiff.mp rfl
              obtain ⟨hreads, hnext⟩ := ih hinstalled.bounded (Nat.le_succ_of_le hcounter)
                (fun c hc hcopy => ⟨(hrest c hc hcopy).1,
                  (hrest c hc hcopy).2.installed htarget hinstalled⟩) h
              refine ⟨?_, ?_⟩
              · intro n hn
                rw [if_pos hsucceeds, lastWritten_cons, hreads n hn, Option.or_assoc]
                by_cases hsame : n = cstr copy.dst
                · rw [hsame, hinstalled.read]
                  simp
                · rw [hothers n hn fun _ => hsame]
                  simp [hsame]
              · intro next hok
                obtain ⟨hb', hle, hkeep⟩ := hnext next hok
                exact ⟨hb', hle, fun target ht => hkeep target (ht.installed htarget hinstalled)⟩

theorem replaced_target {copies : List NativePlacement} {counter : Nat} {write : Bytes × Bytes}
    (h : write ∈ replaced disk process copies counter) :
    ∃ copy ∈ copies, copy.inPlace = false ∧ write.1 = cstr copy.dst := by
  induction copies generalizing counter with
  | nil => cases h
  | cons copy rest ih =>
      have hlater : ∀ {c}, write ∈ replaced disk process rest c →
          ∃ copy' ∈ copy :: rest, copy'.inPlace = false ∧ write.1 = cstr copy'.dst := by
        intro c hmem
        obtain ⟨copy', hcopy', hfound⟩ := ih hmem
        exact ⟨copy', List.mem_cons_of_mem _ hcopy', hfound⟩
      simp only [replaced] at h
      split at h
      · exact hlater h
      · rename_i hplace
        split at h
        · cases h
        · split at h
          · rcases List.mem_cons.mp h with rfl | hmem
            · exact ⟨copy, List.mem_cons_self, by simpa using hplace, rfl⟩
            · exact hlater hmem
          · cases h

theorem mem_of_lastWritten {writes : List (Bytes × Bytes)} {name bytes : Bytes}
    (h : lastWritten writes name = some bytes) : (name, bytes) ∈ writes := by
  induction writes with
  | nil => cases h
  | cons write writes ih =>
      obtain ⟨target, data⟩ := write
      rw [lastWritten_cons] at h
      cases hlater : lastWritten writes name with
      | some later =>
          rw [hlater, Option.some_or, Option.some.injEq] at h
          exact List.mem_cons_of_mem _ (ih (by rw [hlater, h]))
      | none =>
          rw [hlater, Option.none_or] at h
          split at h
          · rename_i hname
            cases h
            rw [hname]
            exact List.mem_cons_self
          · cases h

/-- A build that returns 1 leaves behind every name of the artifact the bytes of the last sidecar it
put there, and where it put none the bytes that were there. -/
theorem failed_build_reads {tools : Toolchain} {opts : Options} {generation : UInt32} {fuel : Nat}
    {fs fs' : FileSys} {e : BuildError} (hb : fs.Bounded)
    (hnames : ArtifactNames disk process tools opts fuel fs artifact)
    (h : buildInto disk process tools opts generation fuel fs = some (.error e, fs')) {n : Bytes}
    (hn : artifact n) :
    fs'.read n =
      (lastWritten (replacedSidecars disk process tools opts fuel) n).or (fs.read n) := by
  unfold buildInto at h
  unfold replacedSidecars
  cases hplan : planBuild disk tools opts fuel with
  | none => simp [hplan] at h
  | some planned =>
      cases planned with
      | error reason =>
          simp only [hplan, Option.some.injEq, Prod.mk.injEq] at h
          rw [← h.2]
          simp
      | ok plan =>
          simp only [hplan, placeArtifact] at h ⊢
          split at h
          · cases h
          · rename_i reason fs₁ hcopies
            cases h
            exact (copyNatives_spec hb (Nat.le_refl _) (hnames.sidecars plan hplan) hcopies).1 n hn
          · rename_i counter fs₁ hcopies
            obtain ⟨hreads, hnext⟩ :=
              copyNatives_spec hb (Nat.le_refl _) (hnames.sidecars plan hplan) hcopies
            obtain ⟨hb₁, hcounter, hkeep⟩ := hnext counter rfl
            split at h
            · cases h
            · rename_i report fs₂ hwrite
              cases h
              obtain ⟨_, _, hothers⟩ :=
                write_artifact hb₁ hcounter hnames.container (hkeep _ hnames.temps) hwrite
              rw [hothers n hn nofun]
              exact hreads n hn
            · cases h

theorem replacedSidecars_artifact {tools : Toolchain} {opts : Options} {fuel : Nat} {fs : FileSys}
    (hnames : ArtifactNames disk process tools opts fuel fs artifact) {write : Bytes × Bytes}
    (h : write ∈ replacedSidecars disk process tools opts fuel) : artifact write.1 := by
  unfold replacedSidecars at h
  cases hplan : planBuild disk tools opts fuel with
  | none => simp [hplan] at h
  | some planned =>
      cases planned with
      | error reason => simp [hplan] at h
      | ok plan =>
          simp only [hplan] at h
          obtain ⟨copy, hcopy, hplace, htarget⟩ := replaced_target h
          rw [htarget]
          exact (hnames.sidecars plan hplan copy hcopy hplace).1

end

/-- A build that returns 1 leaves the artifact intact exactly when every sidecar it had put in place
by then has the bytes it had before. -/
theorem failed_build_intact_iff (disk : Disk) (process : Process) (tools : Toolchain)
    (opts : Options) (generation : UInt32) (fuel : Nat) (fs fs' : FileSys) (e : BuildError)
    (artifact : Bytes → Prop) (hb : fs.Bounded)
    (hnames : ArtifactNames disk process tools opts fuel fs artifact)
    (h : buildInto disk process tools opts generation fuel fs = some (.error e, fs')) :
    (∀ n, artifact n → fs'.read n = fs.read n) ↔
      ∀ n bytes, lastWritten (replacedSidecars disk process tools opts fuel) n = some bytes →
        fs.read n = some bytes := by
  constructor
  · intro hintact n bytes hlast
    have hn : artifact n := replacedSidecars_artifact hnames (mem_of_lastWritten hlast)
    rw [← hintact n hn, failed_build_reads hb hnames h hn, hlast, Option.some_or]
  · intro hsame n hn
    rw [failed_build_reads hb hnames h hn]
    cases hlast : lastWritten (replacedSidecars disk process tools opts fuel) n with
    | none => rw [Option.none_or]
    | some bytes => rw [Option.some_or, hsame n bytes hlast]

/-! ### An addon beside an older build -/

/-- A program with one native addon, built into another directory. -/
def addonText : Bytes := ascii "require('./add.node');"

def addonFiles : List (Bytes × Bytes) :=
  [(ascii "/app/main.js", addonText), (ascii "/app/add.node", ascii "new")]

def addonDisk : Disk :=
  { Disk.ofFiles addonFiles (by decide) with
    digest := fun _ => .ok { byteLength := 3, raw := List.replicate 32 7, raw_length := rfl } }

def addonTools : Toolchain := sampleTools addonText [ascii "./add.node"]

def addonOptions : Options where
  entryPath := ascii "/app/main.js"
  outPath := ascii "/out/app.hnb"
  entry_nul := mainPath_nul

/-- The sidecar is placed, and there is no room left for the container. -/
def fullProcess : Process where
  pid := 42
  tempCounter := 0
  sys
    | 0 => { writes := [.wrote 1, .interrupted, .wrote 2] }
    | _ => { openError := some (ascii "No space left on device") }

def outName : Bytes := ascii "/out/app.hnb"

def addonName : Bytes := ascii "/out/add.node"

/-- An older container beside a sidecar with the given bytes. -/
def olderBuild (sidecar : Bytes) : FileSys where
  names n := if n = outName then some 0 else if n = addonName then some 1 else none
  content
    | 0 => ascii "older container"
    | _ => sidecar
  next := 2

/-- The reason a build gave, with what stands behind the two names of the artifact. -/
def leaves (result : Option (Except BuildError Unit × FileSys)) :
    Option (Option BuildError × Option Bytes × Option Bytes) :=
  result.map fun r =>
    (match r.1 with
      | .error e => some e
      | .ok () => none, r.2.read outName, r.2.read addonName)

/-- The copies a plan asks for. -/
def copiesOf (planned : Option (Except BuildError Planned)) : List Bytes :=
  match planned with
  | some (.ok plan) => (plan.placements.filter (!·.inPlace)).map (·.dst)
  | _ => []

theorem fullProcess_runs :
    (∀ sidecar ∈ [ascii "old", ascii "new"],
      leaves (buildInto addonDisk fullProcess addonTools addonOptions 7 4 (olderBuild sidecar)) =
        some (some (.cannotWrite (ascii
          "error: cannot open /out/app.hnb.42.1.tmp for writing: No space left on device\n")),
          some (ascii "older container"), some (ascii "new"))) ∧
    copiesOf (planBuild addonDisk addonTools addonOptions 4) = [addonName] ∧
    replacedSidecars addonDisk fullProcess addonTools addonOptions 4 =
      [(addonName, ascii "new")] := by
  decide

theorem zero_not_mem_decimal (n : Nat) : (0 : UInt8) ∉ decimal n := by
  intro h
  have hrange := decimal_digits h
  simp at hrange

theorem tempName_ends (target : Bytes) (pid counter : Nat) (h : 0 ∉ target) :
    (cstr (tempName target pid counter)).getLast? = some 112 := by
  have hnul : 0 ∉ tempName target pid counter := by
    simp only [tempName, List.mem_append, not_or]
    exact ⟨⟨⟨⟨⟨h, by decide⟩, zero_not_mem_decimal pid⟩, by decide⟩, zero_not_mem_decimal counter⟩,
      by decide⟩
  rw [cstr_of_no_nul hnul, tempName, List.getLast?_append]
  rfl

def outNames (n : Bytes) : Prop := n = outName ∨ n = addonName

theorem olderBuild_temps (sidecar : Bytes) {target : Bytes} (h : 0 ∉ target) :
    TempsApart fullProcess outNames (olderBuild sidecar) target := by
  intro counter _
  have hends := tempName_ends target fullProcess.pid counter h
  have hout : cstr (tempName target fullProcess.pid counter) ≠ outName := by
    intro heq
    rw [heq] at hends
    exact absurd hends (by decide)
  have haddon : cstr (tempName target fullProcess.pid counter) ≠ addonName := by
    intro heq
    rw [heq] at hends
    exact absurd hends (by decide)
  refine ⟨fun hname => hname.elim hout haddon, ?_⟩
  intro other inode hbound
  simp [olderBuild, hout, haddon] at hbound

theorem olderBuild_names (sidecar : Bytes) :
    ArtifactNames addonDisk fullProcess addonTools addonOptions 4 (olderBuild sidecar)
      outNames where
  container := Or.inl (by decide)
  temps := olderBuild_temps sidecar (by decide)
  sidecars plan hplan copy hcopy hplace := by
    have hdst : copy.dst ∈ copiesOf (planBuild addonDisk addonTools addonOptions 4) := by
      rw [hplan]
      exact List.mem_map_of_mem (List.mem_filter.mpr ⟨hcopy, by simp [hplace]⟩)
    rw [fullProcess_runs.2.1, List.mem_singleton] at hdst
    rw [hdst]
    exact ⟨Or.inr (by decide), olderBuild_temps sidecar (by decide)⟩

theorem olderBuild_bounded (sidecar : Bytes) : (olderBuild sidecar).Bounded := by
  intro name inode h
  unfold olderBuild at h ⊢
  simp only at h ⊢
  split at h
  · cases h
    decide
  · split at h
    · cases h
      decide
    · cases h

theorem leaves_error {result : Option (Except BuildError Unit × FileSys)} {e : BuildError}
    {out addon : Option Bytes} (h : leaves result = some (some e, out, addon)) :
    ∃ fs', result = some (.error e, fs') ∧ fs'.read outName = out ∧ fs'.read addonName = addon := by
  cases result with
  | none => cases h
  | some r =>
      obtain ⟨outcome, fs'⟩ := r
      cases outcome with
      | ok u => simp [leaves] at h
      | error reason =>
          simp only [leaves, Option.map_some, Option.some.injEq, Prod.mk.injEq] at h
          obtain ⟨rfl, hout, haddon⟩ := h
          exact ⟨fs', rfl, hout, haddon⟩

/-- The older container is left beside the new sidecar. -/
theorem fullProcess_mixes_builds : ∃ e fs',
    buildInto addonDisk fullProcess addonTools addonOptions 7 4 (olderBuild (ascii "old")) =
      some (.error e, fs') ∧
    ArtifactNames addonDisk fullProcess addonTools addonOptions 4 (olderBuild (ascii "old"))
      outNames ∧
    fs'.read outName = (olderBuild (ascii "old")).read outName ∧
    (olderBuild (ascii "old")).read addonName = some (ascii "old") ∧
    fs'.read addonName = some (ascii "new") := by
  have hleaves := fullProcess_runs.1 (ascii "old") (by simp)
  obtain ⟨fs', hbuild, hout, haddon⟩ := leaves_error hleaves
  refine ⟨_, fs', hbuild, olderBuild_names _, ?_, by decide, haddon⟩
  rw [hout]
  decide

/-- A failed build that had replaced the addon by the same addon leaves everything as it was. -/
theorem fullProcess_intact : ∃ e fs',
    buildInto addonDisk fullProcess addonTools addonOptions 7 4 (olderBuild (ascii "new")) =
      some (.error e, fs') ∧
    ∀ n, outNames n → fs'.read n = (olderBuild (ascii "new")).read n := by
  have hleaves := fullProcess_runs.1 (ascii "new") (by simp)
  obtain ⟨fs', hbuild, _, _⟩ := leaves_error hleaves
  refine ⟨_, fs', hbuild, ?_⟩
  apply (failed_build_intact_iff addonDisk fullProcess addonTools addonOptions 7 4 _ fs' _ outNames
    (olderBuild_bounded _) (olderBuild_names _) hbuild).mpr
  intro n bytes hlast
  rw [fullProcess_runs.2.2] at hlast
  have hmem := mem_of_lastWritten hlast
  rw [List.mem_singleton, Prod.mk.injEq] at hmem
  rw [hmem.1, hmem.2]
  decide

end HermesNode.Build
