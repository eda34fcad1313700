/-
Module: HermesNode.CompileCache.Readers
Purpose: The two readers of a cache entry: `compileCacheReadEntry`, which a run trusts, and the
  `classifyInput` of `--dump-bytecode`, which is given a file and nothing to compare it with. Both
  are functions of the content of the file here; `lookup_hits_iff` says that the first one is what
  the system calls of a lookup come to while nobody else touches the file.
Trusted boundary: human-reviewed spec (transcribed from `lib/bytecode-dump/bytecode_dump.cpp` and
  `lib/compile-cache/compile_cache.cpp`)
Main exports: classifyInput, compileCacheReadEntry, cut_entry_hits_iff, lookup_hits_iff,
  readers_agree
-/
import HermesNode.Bundle.Format
import HermesNode.CompileCache.Safety

namespace HermesNode.CompileCache

/-! ### `--dump-bytecode` -/

inductive InputKind where
  | kRawBytecode
  | kCacheEntry
  | kRejectedCacheEntry
  | kBundle
deriving Repr, DecidableEq

structure Input where
  kind : InputKind := .kRawBytecode
  /-- `kCacheEntry`: how many bytes of bytecode follow the header. -/
  bytecodeSize : Nat := 0
  /-- `kRejectedCacheEntry`: which check the header failed. -/
  reason : Bytes := []
deriving Repr, DecidableEq

/-- `memcpy` of a word that the caller knows to be inside the file. -/
def wordAt (data : Bytes) (off : Nat) : UInt32 := (readU32 data off).getD 0

def classifyInput (data : Bytes) : Input :=
  if data.length ≥ Bundle.kBundleMagic.length ∧
      data.take Bundle.kBundleMagic.length = Bundle.kBundleMagic then
    { kind := .kBundle }
  else if data.length < 4 then {}
  else if wordAt data 0 ≠ kCompileCacheMagic then {}
  else
    let rejected (reason : Bytes) : Input := { kind := .kRejectedCacheEntry, reason }
    let headerVersion := wordAt data 4
    let bytecodeSize := (wordAt data 16).toNat
    if data.length < kCompileCacheHeaderSize then
      rejected (ascii "truncated: " ++ decimal data.length ++ ascii " bytes, shorter than the " ++
        decimal kCompileCacheHeaderSize ++ ascii "-byte entry header")
    else if headerVersion ≠ kCompileCacheHeaderVersion then
      rejected (ascii "header version " ++ decimal headerVersion.toNat ++
        ascii ", this binary reads version " ++ decimal kCompileCacheHeaderVersion.toNat)
    else if bytecodeSize = 0 then rejected (ascii "header records no bytecode")
    else if bytecodeSize > data.length - kCompileCacheHeaderSize then
      rejected (ascii "header claims " ++ decimal bytecodeSize ++
        ascii " bytes of bytecode, but only " ++
        decimal (data.length - kCompileCacheHeaderSize) ++ ascii " bytes follow its header")
    else { kind := .kCacheEntry, bytecodeSize }

/-- What is copied out of a file for Hermes, when it is a cache entry. -/
def Input.extent (input : Input) : Option (Nat × Nat) :=
  if input.kind = .kCacheEntry then
    some (kCompileCacheHeaderSize, kCompileCacheHeaderSize + input.bytecodeSize)
  else none

/-! ### A lookup -/

/-- `compileCacheReadEntry` of a file with this content: what `entry.bytecode` points at. -/
def compileCacheReadEntry (e : Entry) (content : Bytes) : Option (Nat × Nat) :=
  let header := content.take kCompileCacheHeaderSize
  if header.length < kCompileCacheHeaderSize then none
  else
    match checkHeader e header with
    | none => none
    | some bytecodeSize =>
        let mapSize := kCompileCacheHeaderSize + bytecodeSize
        if content.length < mapSize then none else some (kCompileCacheHeaderSize, mapSize)

theorem readU32_take {data : Bytes} {off n : Nat} (h : off + 4 ≤ n) :
    readU32 (data.take n) off = readU32 data off := by
  unfold readU32 readBytes
  by_cases hlen : off + 4 ≤ data.length
  · have htake : off + 4 ≤ (data.take n).length := by
      rw [List.length_take]
      omega
    rw [if_pos hlen, if_pos htake, List.drop_take, List.take_take, Nat.min_eq_left (by omega)]
  · have htake : ¬ off + 4 ≤ (data.take n).length := by
      rw [List.length_take]
      omega
    rw [if_neg hlen, if_neg htake]

theorem readU32_eq_wordAt {data : Bytes} {off : Nat} (h : off + 4 ≤ data.length) :
    readU32 data off = some (wordAt data off) := by
  obtain ⟨w, hw⟩ := readU32_of_le h
  rw [wordAt, hw, Option.getD_some]

theorem checkHeader_eq {e : Entry} {data : Bytes} (h : kCompileCacheHeaderSize ≤ data.length) :
    checkHeader e (data.take kCompileCacheHeaderSize) =
      if wordAt data 0 = kCompileCacheMagic ∧ wordAt data 4 = kCompileCacheHeaderVersion ∧
          wordAt data 12 = e.sourceSize ∧ wordAt data 8 = e.sourceCrc ∧ wordAt data 16 ≠ 0 then
        some (wordAt data 16).toNat
      else none := by
  have hword : ∀ off, off + 4 ≤ kCompileCacheHeaderSize →
      readU32 (data.take kCompileCacheHeaderSize) off = some (wordAt data off) := by
    intro off hoff
    rw [readU32_take hoff, readU32_eq_wordAt (Nat.le_trans hoff h)]
  have hwords : readWords (data.take kCompileCacheHeaderSize) 0 6 =
      some [wordAt data 0, wordAt data 4, wordAt data 8, wordAt data 12, wordAt data 16,
        wordAt data 20] := by
    simp [readWords, hword 0 (by decide), hword 4 (by decide), hword 8 (by decide),
      hword 12 (by decide), hword 16 (by decide), hword 20 (by decide)]
  rw [checkHeader, hwords]
  rfl

/-- The two magics differ in their second byte. -/
theorem bundle_not_cache {data : Bytes}
    (h : data.take Bundle.kBundleMagic.length = Bundle.kBundleMagic) :
    wordAt data 0 ≠ kCompileCacheMagic := by
  have hword : readU32 data 0 = readU32 Bundle.kBundleMagic 0 := by
    rw [← h, readU32_take (by decide)]
  rw [wordAt, hword]
  decide

/-- The header of a cache entry that both readers accept, and the bytecode behind it. -/
def EntryAt (data : Bytes) (bytecodeSize : Nat) : Prop :=
  kCompileCacheHeaderSize + bytecodeSize ≤ data.length ∧ wordAt data 0 = kCompileCacheMagic ∧
    wordAt data 4 = kCompileCacheHeaderVersion ∧ (wordAt data 16).toNat = bytecodeSize ∧
    bytecodeSize ≠ 0

theorem classifyInput_extent_iff {data : Bytes} {extent : Nat × Nat} :
    (classifyInput data).extent = some extent ↔
      ∃ n, EntryAt data n ∧ extent = (kCompileCacheHeaderSize, kCompileCacheHeaderSize + n) := by
  unfold classifyInput
  by_cases hbundle : data.length ≥ Bundle.kBundleMagic.length ∧
      data.take Bundle.kBundleMagic.length = Bundle.kBundleMagic
  · rw [if_pos hbundle]
    have hmagic := bundle_not_cache hbundle.2
    refine iff_of_false nofun ?_
    rintro ⟨n, hentry, _⟩
    exact absurd hentry.2.1 hmagic
  · rw [if_neg hbundle]
    have hsize : kCompileCacheHeaderSize = 24 := rfl
    split
    · rename_i hshort
      refine iff_of_false nofun ?_
      rintro ⟨n, ⟨hlen, _⟩, _⟩
      omega
    · split
      · rename_i hmagic
        refine iff_of_false nofun ?_
        rintro ⟨n, hentry, _⟩
        exact absurd hentry.2.1 hmagic
      · rename_i hmagic
        rw [not_not] at hmagic
        dsimp only
        split
        · rename_i htruncated
          refine iff_of_false nofun ?_
          rintro ⟨n, ⟨hlen, _⟩, _⟩
          omega
        · rename_i hlong
          split
          · rename_i hversion
            refine iff_of_false nofun ?_
            rintro ⟨n, hentry, _⟩
            exact absurd hentry.2.2.1 hversion
          · rename_i hversion
            rw [not_not] at hversion
            split
            · rename_i hzero
              refine iff_of_false nofun ?_
              rintro ⟨n, ⟨_, _, _, hn, hne⟩, _⟩
              exact absurd (hn.symm.trans hzero) hne
            · rename_i hzero
              split
              · rename_i hclaims
                refine iff_of_false nofun ?_
                rintro ⟨n, ⟨hlen, _, _, hn, _⟩, _⟩
                omega
              · rename_i hfits
                constructor
                · intro h
                  refine ⟨(wordAt data 16).toNat, ⟨by omega, hmagic, hversion, rfl, hzero⟩, ?_⟩
                  exact (Option.some.inj h).symm
                · rintro ⟨n, ⟨_, _, _, rfl, _⟩, rfl⟩
                  rfl

theorem compileCacheReadEntry_eq_some_iff {e : Entry} {data : Bytes} {extent : Nat × Nat} :
    compileCacheReadEntry e data = some extent ↔
      ∃ n, EntryAt data n ∧ wordAt data 12 = e.sourceSize ∧ wordAt data 8 = e.sourceCrc ∧
        extent = (kCompileCacheHeaderSize, kCompileCacheHeaderSize + n) := by
  unfold compileCacheReadEntry
  by_cases hlen : kCompileCacheHeaderSize ≤ data.length
  · have hheader : ¬ (data.take kCompileCacheHeaderSize).length < kCompileCacheHeaderSize := by
      rw [List.length_take]
      omega
    simp only [if_neg hheader, checkHeader_eq hlen]
    by_cases hcheck : wordAt data 0 = kCompileCacheMagic ∧
        wordAt data 4 = kCompileCacheHeaderVersion ∧ wordAt data 12 = e.sourceSize ∧
        wordAt data 8 = e.sourceCrc ∧ wordAt data 16 ≠ 0
    · simp only [if_pos hcheck]
      obtain ⟨hmagic, hversion, hsize, hcrc, hzero⟩ := hcheck
      have hne : (wordAt data 16).toNat ≠ 0 := fun h => hzero (UInt32.toNat_inj.mp h)
      split
      · rename_i hshort
        refine iff_of_false nofun ?_
        rintro ⟨n, ⟨hle, _, _, rfl, _⟩, _⟩
        omega
      · rename_i hfits
        constructor
        · intro h
          exact ⟨_, ⟨Nat.le_of_not_lt hfits, hmagic, hversion, rfl, hne⟩, hsize, hcrc,
            (Option.some.inj h).symm⟩
        · rintro ⟨n, ⟨_, _, _, rfl, _⟩, _, _, rfl⟩
          rfl
    · simp only [if_neg hcheck]
      refine iff_of_false nofun ?_
      rintro ⟨n, ⟨_, hmagic, hversion, rfl, hne⟩, hsize, hcrc, _⟩
      refine absurd ⟨hmagic, hversion, hsize, hcrc, ?_⟩ hcheck
      intro hzero
      exact hne (by rw [hzero]; rfl)
  · have hheader : (data.take kCompileCacheHeaderSize).length < kCompileCacheHeaderSize := by
      rw [List.length_take]
      omega
    rw [if_pos hheader]
    refine iff_of_false nofun ?_
    rintro ⟨n, ⟨hle, _⟩, _⟩
    omega

/-! ### System calls -/

/-- Where a lookup of a file with this content can stand. -/
def ReadsOn (e : Entry) (inode : Nat) (content : Bytes) : LookupPc → Prop
  | .opening | .miss => True
  | .reading j got => j = inode ∧ got = content.take got.length ∧
      got.length < kCompileCacheHeaderSize
  | .statting j n => j = inode ∧ kCompileCacheHeaderSize ≤ content.length ∧
      checkHeader e (content.take kCompileCacheHeaderSize) = some n
  | .mapping j n | .hit j n => j = inode ∧ compileCacheReadEntry e content =
      some (kCompileCacheHeaderSize, kCompileCacheHeaderSize + n)

theorem stepLookup_readsOn {s s' : State} {i inode : Nat} {lk : Lookup} {outcome : Outcome}
    (hname : s.fs.names lk.entry.path = some inode)
    (hreads : ReadsOn lk.entry inode (s.fs.content inode) lk.pc)
    (h : stepLookup s i lk outcome = some s') :
    ∃ pc, s' = setOp s i (.lookup { lk with pc }) ∧
      ReadsOn lk.entry inode (s.fs.content inode) pc := by
  unfold stepLookup at h
  obtain ⟨entry, pc⟩ := lk
  cases outcome with
  | fail =>
      cases pc with
      | hit | miss => cases h
      | opening | reading | statting | mapping =>
          cases h
          exact ⟨.miss, rfl, trivial⟩
  | ok n =>
      cases pc with
      | hit | miss => cases h
      | opening =>
          simp only [hname] at h
          cases h
          exact ⟨.reading inode [], rfl, rfl, rfl, by decide⟩
      | reading j got =>
          obtain ⟨rfl, hgot, hshort⟩ := hreads
          simp only at h
          split at h
          · cases h
            exact ⟨.miss, rfl, trivial⟩
          · split at h
            · cases h
            · -- what is read extends the part of the header that was there
              have hgrows : got ++ (((s.fs.content j).drop got.length).take n).take
                  (kCompileCacheHeaderSize - got.length) = (s.fs.content j).take
                    (got.length + min (kCompileCacheHeaderSize - got.length) n) := by
                rw [List.take_take, List.take_add, ← hgot]
              rw [hgrows] at h
              split at h
              · rename_i hshort'
                cases h
                refine ⟨.reading j _, rfl, rfl, ?_, hshort'⟩
                simp [List.take_eq_take_iff]
              · rename_i hfull
                rw [List.length_take] at hfull
                have hheader : (s.fs.content j).take
                    (got.length + min (kCompileCacheHeaderSize - got.length) n) =
                      (s.fs.content j).take kCompileCacheHeaderSize := by
                  rw [List.take_eq_take_iff]
                  omega
                rw [hheader] at h
                cases hcheck : checkHeader entry
                    ((s.fs.content j).take kCompileCacheHeaderSize) with
                | none =>
                    simp only [hcheck] at h
                    cases h
                    exact ⟨.miss, rfl, trivial⟩
                | some m =>
                    simp only [hcheck] at h
                    cases h
                    exact ⟨.statting j m, rfl, rfl, by omega, hcheck⟩
      | statting j m =>
          obtain ⟨rfl, hlen, hcheck⟩ := hreads
          simp only at h
          split at h
          · cases h
            exact ⟨.miss, rfl, trivial⟩
          · rename_i hfits
            cases h
            refine ⟨.mapping j m, rfl, rfl, ?_⟩
            have hheader : ¬ ((s.fs.content j).take kCompileCacheHeaderSize).length <
                kCompileCacheHeaderSize := by
              rw [List.length_take]
              omega
            simp only [compileCacheReadEntry, if_neg hheader, hcheck, if_neg hfits]
      | mapping j m =>
          cases h
          exact ⟨.hit j m, rfl, hreads⟩

/-- The system calls of one lookup, while nobody else runs, keep to its file. -/
theorem runLookup_readsOn {s t : State} {i inode : Nat} {lk : Lookup} {outcomes : List Outcome}
    (hop : s.ops[i]? = some (.lookup lk)) (hname : s.fs.names lk.entry.path = some inode)
    (hreads : ReadsOn lk.entry inode (s.fs.content inode) lk.pc)
    (hrun : runEvents step s (outcomes.map (Event.syscall i)) = some t) :
    ∃ pc, t.ops[i]? = some (.lookup { lk with pc }) ∧
      ReadsOn lk.entry inode (s.fs.content inode) pc := by
  induction outcomes generalizing s lk with
  | nil =>
      cases hrun
      exact ⟨lk.pc, hop, hreads⟩
  | cons outcome rest ih =>
      rcases runEvents_cons hrun with ⟨s', hs', hrest⟩
      simp only [step, hop] at hs'
      obtain ⟨pc, rfl, hreads'⟩ := stepLookup_readsOn hname hreads hs'
      have hlt := (List.getElem?_eq_some_iff.mp hop).1
      have hop' : (setOp s i (.lookup { lk with pc })).ops[i]? = some (.lookup { lk with pc }) := by
        simp [setOp, hlt]
      have hdone := ih hop' hname hreads' hrest
      exact hdone

/-- A lookup whose system calls find the file as it is can end in a hit exactly when
`compileCacheReadEntry` accepts the content, and then with that extent. -/
theorem lookup_hits_iff {s : State} {i inode n : Nat} {e : Entry}
    (hop : s.ops[i]? = some (.lookup { entry := e, pc := .opening }))
    (hname : s.fs.names e.path = some inode) :
    (∃ (outcomes : List Outcome) (t : State),
      runEvents step s (outcomes.map (Event.syscall i)) = some t ∧
        t.ops[i]? = some (.lookup { entry := e, pc := .hit inode n })) ↔
    compileCacheReadEntry e (s.fs.content inode) =
      some (kCompileCacheHeaderSize, kCompileCacheHeaderSize + n) := by
  constructor
  · rintro ⟨outcomes, t, hrun, hhit⟩
    obtain ⟨pc, hpc, hreads⟩ := runLookup_readsOn hop hname trivial hrun
    rw [hpc, Option.some.injEq, Op.lookup.injEq, Lookup.mk.injEq] at hhit
    obtain ⟨_, rfl⟩ := hhit
    exact hreads.2
  · intro h
    obtain ⟨m, hentry, hsize, hcrc, hextent⟩ := compileCacheReadEntry_eq_some_iff.mp h
    have hm : m = n := by
      have hends := congrArg Prod.snd hextent
      simp only at hends
      omega
    subst hm
    obtain ⟨hle, hmagic, hversion, hwords, hne⟩ := hentry
    have hlen : kCompileCacheHeaderSize ≤ (s.fs.content inode).length := by omega
    have hcheck : checkHeader e ((s.fs.content inode).take kCompileCacheHeaderSize) = some m := by
      have hzero : wordAt (s.fs.content inode) 16 ≠ 0 := by
        intro hzero
        exact hne (by rw [← hwords, hzero]; rfl)
      rw [checkHeader_eq hlen, if_pos ⟨hmagic, hversion, hsize, hcrc, hzero⟩, hwords]
    have hlt := (List.getElem?_eq_some_iff.mp hop).1
    -- `open`, one `read` of the whole header, `fstat`, `mmap`
    let stands (pc : LookupPc) : State := setOp s i (.lookup { entry := e, pc })
    have hat : ∀ pc, (stands pc).ops[i]? = some (.lookup { entry := e, pc }) := by
      intro pc
      simp [stands, setOp, hlt]
    have hset : ∀ pc pc', setOp (stands pc) i (.lookup { entry := e, pc := pc' }) = stands pc' := by
      intro pc pc'
      simp [stands, setOp]
    have hopen : step s (.syscall i (.ok 0)) = some (stands (.reading inode [])) := by
      simp [step, hop, stepLookup, hname, stands]
    have hread : step (stands (.reading inode [])) (.syscall i (.ok 24)) =
        some (stands (.statting inode m)) := by
      have hne : (s.fs.content inode).isEmpty = false := by
        cases hcontent : s.fs.content inode with
        | nil =>
            rw [hcontent] at hlen
            exact absurd hlen (by decide)
        | cons c cs => rfl
      have hfull : ¬ ((s.fs.content inode).take kCompileCacheHeaderSize).length <
          kCompileCacheHeaderSize := by
        rw [List.length_take]
        omega
      have htwice : ((s.fs.content inode).take 24).take kCompileCacheHeaderSize =
          (s.fs.content inode).take kCompileCacheHeaderSize := by
        rw [List.take_take]
        rfl
      have hcontent : (stands (.reading inode [])).fs.content = s.fs.content := rfl
      simp only [step, hat, stepLookup, hcontent, List.length_nil, List.drop_zero, hne,
        Bool.false_eq_true, if_false, List.nil_append, Nat.sub_zero]
      rw [if_neg (by decide), htwice, if_neg hfull, hcheck]
      simp only [hset]
    have hstat : step (stands (.statting inode m)) (.syscall i (.ok 0)) =
        some (stands (.mapping inode m)) := by
      have hcontent : (stands (.statting inode m)).fs.content = s.fs.content := rfl
      simp only [step, hat, stepLookup, hcontent, if_neg (Nat.not_lt.mpr hle), hset]
    have hmap : step (stands (.mapping inode m)) (.syscall i (.ok 0)) =
        some (stands (.hit inode m)) := by
      simp only [step, hat, stepLookup, hset]
    refine ⟨[.ok 0, .ok 24, .ok 0, .ok 0], stands (.hit inode m), ?_, hat _⟩
    simp [runEvents, hopen, hread, hstat, hmap]

/-- A cut entry is accepted exactly when nothing is missing, it holds bytecode and is for the same
source. -/
theorem cut_entry_hits_iff {e : Entry} {r : Record} {k : Nat} {extent : Nat × Nat}
    (hsize : r.bytecode.length < 2 ^ 32) :
    compileCacheReadEntry e (r.image.take k) = some extent ↔
      r.image.length ≤ k ∧ r.bytecode ≠ [] ∧ r.entry.sourceSize = e.sourceSize ∧
        r.entry.sourceCrc = e.sourceCrc ∧ extent = (24, r.image.length) := by
  have himage : r.image.length = 24 + r.bytecode.length := List.length_append
  have hheader : r.image.take 24 = r.header := image_take_header r
  simp only [compileCacheReadEntry, kCompileCacheHeaderSize, List.length_take, himage]
  by_cases hk : 24 ≤ k
  · rw [if_neg (by omega), List.take_take, Nat.min_eq_left hk, hheader, checkHeader_eq_ite hsize]
    by_cases hsame : r.entry.sourceSize = e.sourceSize ∧ r.entry.sourceCrc = e.sourceCrc ∧
        r.bytecode ≠ []
    · simp [hsame, eq_comm, Nat.le_min]
    · rw [if_neg hsame]
      exact iff_of_false (Option.some_ne_none extent).symm fun h => hsame ⟨h.2.2.1, h.2.2.2.1, h.2.1⟩
  · rw [if_pos (by omega)]
    refine iff_of_false (Option.some_ne_none extent).symm fun h => ?_
    omega

def oneByte : Record := ⟨⟨[], 7, 1, 2⟩, [9]⟩

theorem oneByte_cut : compileCacheReadEntry oneByte.entry (oneByte.image.take 24) ≠ some (24, 25) :=
  fun h => absurd ((cut_entry_hits_iff (by decide)).mp h).1 (by decide)

theorem oneByte_hit : ∃ (outcomes : List Outcome) (t : State),
    runEvents step
      { init with
        fs := ⟨fun _ => some 0, fun _ => oneByte.image, 1⟩
        ops := [.lookup ⟨oneByte.entry, .opening⟩] } (outcomes.map (.syscall 0)) = some t ∧
      t.ops[0]? = some (.lookup ⟨oneByte.entry, .hit 0 1⟩) :=
  (lookup_hits_iff rfl rfl).mpr (by decide)

/-- The dump reports an extent of bytecode exactly where a lookup for some source would map that
extent; it lies in the file behind the header and is not empty. -/
theorem readers_agree (data generationDir : Bytes) (key : UInt32) (extent : Nat × Nat) :
    ((classifyInput data).extent = some extent ↔ ∃ sourceSize sourceCrc,
      compileCacheReadEntry { generationDir, key, sourceCrc, sourceSize } data = some extent) ∧
    ((classifyInput data).extent = some extent →
      extent.1 = 24 ∧ extent.1 < extent.2 ∧ extent.2 ≤ data.length) := by
  constructor
  · rw [classifyInput_extent_iff]
    constructor
    · rintro ⟨n, hentry, hextent⟩
      exact ⟨_, _, compileCacheReadEntry_eq_some_iff.mpr ⟨n, hentry, rfl, rfl, hextent⟩⟩
    · rintro ⟨sourceSize, sourceCrc, h⟩
      obtain ⟨n, hentry, _, _, hextent⟩ := compileCacheReadEntry_eq_some_iff.mp h
      exact ⟨n, hentry, hextent⟩
  · intro h
    obtain ⟨n, ⟨hle, _, _, _, hne⟩, rfl⟩ := classifyInput_extent_iff.mp h
    have hsize : kCompileCacheHeaderSize = 24 := rfl
    refine ⟨rfl, ?_, hle⟩
    dsimp only
    omega

end HermesNode.CompileCache
