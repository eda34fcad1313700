/-
Module: HermesNode.Lib.Crc
Purpose: Reflected cyclic redundancy checks of any width and polynomial, a bit at a time. A polynomial
  with its constant term never maps two registers to one, so a running value can be told from the check
  of any bytes that follow it.
Trusted boundary: none
Main exports: Crc.bitStep, Crc.byteStep, Crc.update_injective, Crc.update_byte_injective
-/
import HermesNode.Lib.Buffer
import Mathlib.Logic.Function.Iterate

namespace HermesNode.Crc

variable {w : Nat} {poly : BitVec w}

/-- The register is moved by one place, and the polynomial is added if a one is moved out. -/
def bitStep (poly crc : BitVec w) : BitVec w :=
  if crc.getLsbD 0 then (crc >>> 1) ^^^ poly else crc >>> 1

/-- A byte is added to the register, which is then moved by eight places. -/
def byteStep (poly crc : BitVec w) (byte : BitVec 8) : BitVec w :=
  (bitStep poly)^[8] (crc ^^^ byte.setWidth w)

/-- The check of some bytes behind those that gave the running value. -/
def update (poly crc : BitVec w) (bytes : List (BitVec 8)) : BitVec w :=
  ~~~(bytes.foldl (byteStep poly) (~~~crc))

/-- The bit that is moved out comes in again at the top. -/
theorem msb_bitStep (h : poly.msb = true) (crc : BitVec w) :
    (bitStep poly crc).msb = crc.getLsbD 0 := by
  have hshift : (crc >>> 1).msb = false := by
    rw [BitVec.msb_ushiftRight]
    simp
  unfold bitStep
  split
  · rename_i hone
    rw [BitVec.msb_xor, hshift, h, hone]
    rfl
  · rename_i hzero
    rw [hshift]
    exact (Bool.eq_false_iff.mpr hzero).symm

theorem bitStep_injective (h : poly.msb = true) : Function.Injective (bitStep poly) := by
  intro a b heq
  have hlow : a.getLsbD 0 = b.getLsbD 0 := by
    rw [← msb_bitStep h, ← msb_bitStep h, heq]
  have hshift : a >>> 1 = b >>> 1 := by
    unfold bitStep at heq
    rw [hlow] at heq
    split at heq
    · exact (BitVec.xor_left_inj _).mp heq
    · exact heq
  refine BitVec.eq_of_getLsbD_eq fun i hi => ?_
  cases i with
  | zero => exact hlow
  | succ i =>
      have hbit := congrArg (fun c => c.getLsbD i) hshift
      simpa [BitVec.getLsbD_ushiftRight, Nat.add_comm] using hbit

theorem byteStep_injective (h : poly.msb = true) (byte : BitVec 8) :
    Function.Injective fun crc => byteStep poly crc byte := by
  intro a b heq
  exact (BitVec.xor_left_inj _).mp ((bitStep_injective h).iterate 8 heq)

/-- Running values are told apart by every continuation. -/
theorem update_injective (h : poly.msb = true) (bytes : List (BitVec 8)) :
    Function.Injective fun crc => update poly crc bytes := by
  have hfold : ∀ {a b : BitVec w}, bytes.foldl (byteStep poly) a = bytes.foldl (byteStep poly) b →
      a = b := by
    induction bytes with
    | nil => exact id
    | cons byte bytes ih => exact fun heq => byteStep_injective h byte (ih heq)
  intro a b heq
  exact BitVec.not_inj.mp (hfold (BitVec.not_inj.mp heq))

/-- Bytes are told apart in a register that can hold one. -/
theorem update_byte_injective (h : poly.msb = true) (hw : 8 ≤ w) (crc : BitVec w) :
    Function.Injective fun byte => update poly crc [byte] := by
  intro a b heq
  have hstep : byteStep poly (~~~crc) a = byteStep poly (~~~crc) b := BitVec.not_inj.mp heq
  have hwide := (BitVec.xor_right_inj _).mp ((bitStep_injective h).iterate 8 hstep)
  refine BitVec.eq_of_getLsbD_eq fun i hi => ?_
  have hbit := congrArg (fun c => c.getLsbD i) hwide
  simpa [BitVec.getLsbD_setWidth, Nat.lt_of_lt_of_le hi hw] using hbit

/-- The check of zlib, from its running value. -/
def crc32 (crc : UInt32) (data : Bytes) : UInt32 :=
  ⟨update 0xEDB88320#32 crc.toBitVec (data.map UInt8.toBitVec)⟩

example : crc32 0 (ascii "123456789") = 0xCBF43926 := by decide +kernel

theorem crc32_injective (data : Bytes) : Function.Injective fun crc => crc32 crc data := by
  intro a b heq
  exact UInt32.toBitVec_inj.mp (update_injective (by decide) _ (congrArg UInt32.toBitVec heq))

theorem crc32_byte_injective (crc : UInt32) : Function.Injective fun byte => crc32 crc [byte] := by
  intro a b heq
  exact UInt8.toBitVec_inj.mp
    (update_byte_injective (by decide) (by decide) _ (congrArg UInt32.toBitVec heq))

end HermesNode.Crc
