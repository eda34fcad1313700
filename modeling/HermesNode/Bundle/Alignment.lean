/-
Module: HermesNode.Bundle.Alignment
Purpose: Where the parts of an accepted container lie in memory. Every table the reader reads through
  a pointer cast is aligned, since the validation pass looks at the offsets of the tables. It does not
  look at those of the payloads, so that a payload is aligned for being executed in place exactly when
  the two offsets its start is the sum of say so.
Trusted boundary: human-reviewed spec (transcribed from `lib/bundle/bundle_reader.cpp` and
  `lib/bundle/bundle_run.cpp`; addresses are natural numbers, and no sum reaches 2^64)
Main exports: BundleReader.payloadData, BundleReader.TablesAligned, executed_payloads_aligned_iff
-/
import HermesNode.Bundle.ReaderSafety

namespace HermesNode.Bundle

open Check

namespace BundleReader

/-- The address `payload` hands out, in a buffer at `base`. -/
def payloadData (r : BundleReader) (base moduleIndex : Nat) : Option Nat := do
  let m ← moduleAt r.data r.header moduleIndex
  pure (base + r.header.payloadOffset.toNat + m.payloadOffset.toNat)

/-- What `bundleLoadCallback` hands to `hermes_run_bytecode`: the payloads of JavaScript modules. -/
def executed (r : BundleReader) (base moduleIndex : Nat) : Option Nat := do
  match ← r.kind moduleIndex with
  | .kJavaScript => r.payloadData base moduleIndex
  | .kJSON | .kNative => none

/-- The tables read through a pointer cast start where their records may. All of these are records of
32-bit words. -/
def TablesAligned (r : BundleReader) (base : Nat) : Prop :=
  base % kTableAlign = 0 ∧ (base + r.header.moduleTableOffset.toNat) % kTableAlign = 0 ∧
    (base + r.header.edgeTableOffset.toNat) % kTableAlign = 0 ∧
    (base + r.header.preloadTableOffset.toNat) % kTableAlign = 0 ∧
    (base + r.header.nativeTableOffset.toNat) % kTableAlign = 0 ∧
    (base + r.header.vmOptionsTableOffset.toNat) % kTableAlign = 0

variable {r : BundleReader} {base i : Nat}

/-- A module is executed where its payload starts, if its record says JavaScript. -/
theorem executed_eq_some_iff {start : Nat} :
    r.executed base i = some start ↔ ∃ m, moduleAt r.data r.header i = some m ∧
      m.kind = ModuleKind.kJavaScript.toU32 ∧
      base + r.header.payloadOffset.toNat + m.payloadOffset.toNat = start := by
  cases hm : moduleAt r.data r.header i with
  | none => simp [executed, kind, hm]
  | some m =>
      cases hkind : ModuleKind.ofU32? m.kind with
      | none =>
          have hother : m.kind ≠ ModuleKind.kJavaScript.toU32 := by
            intro heq
            rw [heq, ModuleKind.ofU32?_toU32] at hkind
            cases hkind
          simp [executed, kind, hm, hkind, hother]
      | some k =>
          have hword := ModuleKind.ofU32?_eq_some_iff.mp hkind
          cases k with
          | kJavaScript => simp [executed, kind, payloadData, hm, hword]
          | kJSON =>
              have hother : ModuleKind.kJSON.toU32 ≠ ModuleKind.kJavaScript.toU32 := by decide
              simp [executed, kind, hm, hword, hother]
          | kNative =>
              have hother : ModuleKind.kNative.toU32 ≠ ModuleKind.kJavaScript.toU32 := by decide
              simp [executed, kind, hm, hword, hother]

end BundleReader

theorem Valid.tablesAligned {data : Bytes} {r : BundleReader} {base : Nat}
    (hv : Valid data r.header) (hbase : base % kBundlePayloadAlign = 0) : r.TablesAligned base := by
  have haligned := hv.aligned
  simp only [BundleReader.TablesAligned, kTableAlign, kBundlePayloadAlign] at *
  omega

/-- **Executed payloads are aligned.** In an accepted container at an aligned address every table is
aligned, and every JavaScript payload is exactly when each of their records has an offset that makes
up for the remainder of the header's. -/
theorem executed_payloads_aligned_iff {data : Bytes} {generation : UInt32} {r : BundleReader}
    (hopen : Accepts (BundleReader.open data generation) r) {base : Nat}
    (hbase : base % kBundlePayloadAlign = 0) :
    (r.TablesAligned base ∧ ∀ i < r.moduleCount, ∀ start, r.executed base i = some start →
        start % kBundlePayloadAlign = 0) ↔
      ∀ i < r.moduleCount, ∀ m, moduleAt r.data r.header i = some m →
        m.kind = ModuleKind.kJavaScript.toU32 →
        (r.header.payloadOffset.toNat % kBundlePayloadAlign +
          m.payloadOffset.toNat % kBundlePayloadAlign) % kBundlePayloadAlign = 0 := by
  obtain ⟨-, hvalid, -⟩ := openImpl_accepts_iff.mp hopen
  have hstart : ∀ m : BundleModuleRecord,
      (base + r.header.payloadOffset.toNat + m.payloadOffset.toNat) % kBundlePayloadAlign = 0 ↔
        (r.header.payloadOffset.toNat % kBundlePayloadAlign +
          m.payloadOffset.toNat % kBundlePayloadAlign) % kBundlePayloadAlign = 0 := by
    intro m
    simp only [kBundlePayloadAlign] at *
    omega
  constructor
  · rintro ⟨-, haligned⟩ i hi m hm hkind
    exact (hstart m).mp (haligned i hi _ (BundleReader.executed_eq_some_iff.mpr ⟨m, hm, hkind, rfl⟩))
  · intro hoffsets
    refine ⟨hvalid.tablesAligned hbase, fun i hi start hexecuted => ?_⟩
    obtain ⟨m, hm, hkind, rfl⟩ := BundleReader.executed_eq_some_iff.mp hexecuted
    exact (hstart m).mpr (hoffsets i hi m hm hkind)

theorem singleModule_accepted : Accepts (BundleReader.open singleModuleContainer 7)
    { data := singleModuleContainer, header := singleModuleHeader } := by
  unfold Accepts
  decide

/-- The payload of the single module is executed at the end of its container. -/
theorem singleModule_executed_aligned :
    BundleReader.TablesAligned { data := singleModuleContainer, header := singleModuleHeader } 4096 ∧
      ∀ start, BundleReader.executed { data := singleModuleContainer, header := singleModuleHeader } 4096 0 =
        some start → start % kBundlePayloadAlign = 0 := by
  refine And.imp_right (fun h => h 0 (by decide))
    ((executed_payloads_aligned_iff singleModule_accepted (by decide)).mpr ?_)
  intro i hi m hm _
  obtain rfl : i = 0 := Nat.lt_one_iff.mp hi
  have hrecord : moduleAt singleModuleContainer singleModuleHeader 0 =
      some { identityString := 0, kind := 0, flags := 1, payloadOffset := 0, payloadSize := 0 } := by
    decide
  cases hm.symm.trans hrecord
  decide

/-- The header of a container whose one payload starts behind its table, at an odd offset. -/
def oddPayloadHeader : BundleHeader :=
  { singleModuleHeader with payloadOffset := 109, payloadSize := 3 }

def oddPayloadContainer : Bytes :=
  oddPayloadHeader.encode ++ u32le 1 ++ ascii "a" ++ [0, 0, 0] ++
    BundleModuleRecord.encode
      { identityString := 0, kind := 0, flags := 1, payloadOffset := 0, payloadSize := 3 } ++
    [0, 1, 2, 3]

theorem oddPayload_executed : ¬ ∀ (data : Bytes) (generation : UInt32) (r : BundleReader),
    Accepts (BundleReader.open data generation) r → ∀ base, base % kBundlePayloadAlign = 0 →
      ∀ i < r.moduleCount, ∀ start, r.executed base i = some start →
        start % kBundlePayloadAlign = 0 := by
  intro h
  have hopen : Accepts (BundleReader.open oddPayloadContainer 7)
      { data := oddPayloadContainer, header := oddPayloadHeader } := by
    unfold Accepts
    decide
  have haligned := h _ _ _ hopen 4096 (by decide) 0 (by decide) 4205 (by decide)
  exact absurd haligned (by decide)

end HermesNode.Bundle
