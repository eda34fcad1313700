/-
Module: HermesNode.CompileCache.Keys
Purpose: The key of a file in the compile cache, with the check that zlib computes. The kind is the
  first byte that is checked, so the keys of one file differ from kind to kind, whatever its name.
Trusted boundary: human-reviewed spec (transcribed from `lib/compile-cache/compile_cache.cpp`; zlib's
  `crc32` by its documentation)
Main exports: StringView, crc32OfView, keyOf_kinds
-/
import HermesNode.CompileCache.Safety
import HermesNode.Lib.Crc

namespace HermesNode.CompileCache

/-- A `std::string_view`, which may have no data. -/
inductive StringView where
  | null
  | chars (bytes : Bytes)
deriving DecidableEq, Repr

def StringView.bytes : StringView → Bytes
  | null => []
  | chars bytes => bytes

/-- The view up to a length that was cut to 32 bits. -/
def StringView.clipped : StringView → StringView
  | null => null
  | chars bytes => chars (bytes.take (bytes.length % 2 ^ 32))

/-- `crc32` of zlib, which starts anew where there is no buffer. -/
def crc32OfView (crc : UInt32) : StringView → UInt32
  | .null => 0
  | .chars bytes => zlibCrc32 crc bytes

/-- `compileCacheKey`. -/
def keyOf (filename : StringView) (kind : CompileCacheKind) : UInt32 :=
  let crc := crc32OfView 0 .null
  let crc := crc32OfView crc (.chars [kind.toU8])
  if filename.bytes.isEmpty then crc else crc32OfView crc filename.clipped

/-! ### Zlib's check as one over bit vectors -/

theorem odd_iff (c : UInt32) : c &&& 1 = 1 ↔ c.toBitVec.getLsbD 0 = true := by
  rw [← UInt32.toNat_inj, UInt32.toNat_and, BitVec.getLsbD, Nat.testBit_zero, decide_eq_true_eq]
  exact Iff.of_eq (congrArg (· = 1) (Nat.and_one_is_mod c.toNat))

/-- One bit of the two alike. -/
theorem bit_semiconj : Function.Semiconj UInt32.toBitVec
    (fun c => if c &&& 1 = 1 then (c >>> 1) ^^^ 0xedb88320 else c >>> 1)
    (Crc.bitStep 0xEDB88320#32) := by
  intro c
  unfold Crc.bitStep
  by_cases hodd : c &&& 1 = 1
  · rw [if_pos ((odd_iff c).mp hodd)]
    dsimp only
    rw [if_pos hodd]
    rfl
  · rw [if_neg (mt (odd_iff c).mpr hodd)]
    dsimp only
    rw [if_neg hodd]
    rfl

theorem toBitVec_complement (c : UInt32) : (c ^^^ 0xffffffff).toBitVec = ~~~c.toBitVec :=
  BitVec.xor_allOnes

theorem widened (byte : UInt8) :
    (UInt32.ofNat byte.toNat).toBitVec = byte.toBitVec.setWidth 32 := by
  apply BitVec.eq_of_toNat_eq
  simp

theorem zlibCrc32_eq (crc : UInt32) (data : Bytes) : zlibCrc32 crc data = Crc.crc32 crc data := by
  apply UInt32.toBitVec_inj.mp
  unfold zlibCrc32
  dsimp only
  rw [toBitVec_complement]
  show _ = ~~~((data.map UInt8.toBitVec).foldl (Crc.byteStep 0xEDB88320#32) (~~~crc.toBitVec))
  rw [← toBitVec_complement crc]
  congr 1
  generalize crc ^^^ 0xffffffff = register
  induction data generalizing register with
  | nil => rfl
  | cons byte data ih =>
      rw [List.foldl_cons, List.map_cons, List.foldl_cons, ih, List.foldl_const, List.length_range]
      congr 1
      rw [(bit_semiconj.iterate_right 8).eq]
      rw [UInt32.toBitVec_xor, widened, Crc.byteStep]

theorem CompileCacheKind.toU8_injective : Function.Injective CompileCacheKind.toU8 := by
  intro kind kind' h
  cases kind <;> cases kind' <;> first | rfl | exact absurd h (by decide)

/-- Two kinds give one file two keys. -/
theorem keyOf_kinds (filename : StringView) {kind kind' : CompileCacheKind} (h : kind ≠ kind') :
    keyOf filename kind ≠ keyOf filename kind' := by
  have hfirst : zlibCrc32 0 [kind.toU8] ≠ zlibCrc32 0 [kind'.toU8] := by
    rw [zlibCrc32_eq, zlibCrc32_eq]
    intro heq
    exact h (CompileCacheKind.toU8_injective (Crc.crc32_byte_injective 0 heq))
  cases filename with
  | null => exact hfirst
  | chars bytes =>
      unfold keyOf
      dsimp only
      split
      · exact hfirst
      · intro heq
        simp only [StringView.clipped, crc32OfView, zlibCrc32_eq _ (bytes.take _)] at heq
        exact hfirst (Crc.crc32_injective _ heq)

theorem keyOf_kinds_null : keyOf .null .kCommonJS ≠ keyOf .null .kLoaderWrapped :=
  keyOf_kinds .null (by decide)

end HermesNode.CompileCache
