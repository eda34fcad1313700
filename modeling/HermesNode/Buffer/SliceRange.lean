/-
Module: HermesNode.Buffer.SliceRange
Purpose: The calls of the slice methods of the `buffer` binding, and the range that `getSliceArgs` makes
  of their arguments. It moves the end up to the start and then down to the length, and leaves the start
  where it is, so a start behind the end of the buffer is a range that no subtraction may be made of.
Trusted boundary: human-reviewed spec (transcribed from `lib/bindings/node_buffer.cpp`; an argument that
  is no number leaves the variable it is read into as it is)
Main exports: readUint32, sliceCall, slicesInRange_iff
-/
import HermesNode.StringDecoder.Slices

namespace HermesNode.Buffer

open StringDecoder (Encoding SliceArgs getSliceArgs slice convert)

/-- The arguments of a call; there is no value where one is no number. -/
abbrev CallArgs := List (Option UInt32)

/-- `uint32_t v; napi_get_value_uint32(env, arg, &v)`: an argument that is no number leaves in `v` what
the stack holds. -/
def readUint32 (stack : UInt32) (arg : Option UInt32) : UInt32 := arg.getD stack

def startArg (args : CallArgs) (stack : UInt32) : Option UInt32 := args[0]?.map (readUint32 stack)

def endArg (args : CallArgs) (stack : UInt32) : Option UInt32 := args[1]?.map (readUint32 stack)

/-- The range of `buf.<encoding>Slice(...args)`. -/
def rangeOf (data : Bytes) (args : CallArgs) (stack : UInt32) : SliceArgs :=
  getSliceArgs data.length (startArg args stack) (endArg args stack)

/-- `buf.<encoding>Slice(...args)`. -/
def sliceCall (enc : Encoding) (data : Bytes) (args : CallArgs) (stack : UInt32) : Option JsString :=
  slice enc data (startArg args stack) (endArg args stack)

/-- The start that a call asks for. -/
def requestedStart (args : CallArgs) (stack : UInt32) : Nat :=
  ((startArg args stack).map UInt32.toNat).getD 0

/-- The range is one of the buffer, and every slice method converts exactly its bytes: to the empty
string where there are none, as where the range starts behind the end. -/
structure SlicesInRange (data : Bytes) (args : CallArgs) (stack : UInt32) : Prop where
  ordered : (rangeOf data args stack).start ≤ (rangeOf data args stack).stop
  inside : (rangeOf data args stack).stop ≤ data.length
  converts : ∀ enc ≠ Encoding.buffer, sliceCall enc data args stack =
    if (rangeOf data args stack).start = (rangeOf data args stack).stop then some []
    else convert ((data.drop (rangeOf data args stack).start).take
      ((rangeOf data args stack).stop - (rangeOf data args stack).start)) enc
  beyond : ∀ enc ≠ Encoding.buffer, data.length ≤ requestedStart args stack →
    sliceCall enc data args stack = some []

/-- The start stays as it is read, and the end ends up inside the buffer. -/
theorem rangeOf_start (data : Bytes) (args : CallArgs) (stack : UInt32) :
    (rangeOf data args stack).start = requestedStart args stack := rfl

theorem rangeOf_stop_le (data : Bytes) (args : CallArgs) (stack : UInt32) :
    (rangeOf data args stack).stop ≤ data.length := Nat.min_le_right _ _

theorem rangeOf_ordered {data : Bytes} {args : CallArgs} {stack : UInt32}
    (h : requestedStart args stack ≤ data.length) :
    (rangeOf data args stack).start ≤ (rangeOf data args stack).stop := by
  rw [rangeOf_start]
  exact Nat.le_min.mpr ⟨Nat.le_max_right _ _, h⟩

theorem sliceCall_eq {data : Bytes} {args : CallArgs} {stack : UInt32}
    (h : requestedStart args stack ≤ data.length) (enc : Encoding) :
    sliceCall enc data args stack =
      if (rangeOf data args stack).start = (rangeOf data args stack).stop then some []
      else convert ((data.drop (rangeOf data args stack).start).take
        ((rangeOf data args stack).stop - (rangeOf data args stack).start)) enc := by
  have hordered := rangeOf_ordered h
  have hinside := rangeOf_stop_le data args stack
  unfold sliceCall slice
  change ((rangeOf data args stack).bytes data).bind _ = _
  rw [SliceArgs.bytes, if_pos hordered, Option.bind_some]
  congr 1
  rw [List.isEmpty_iff_length_eq_zero, List.length_take, List.length_drop]
  apply propext
  omega

/-- The slice methods stay in the buffer exactly where the start does not lie behind its end. -/
theorem slicesInRange_iff (data : Bytes) (args : CallArgs) (stack : UInt32) :
    SlicesInRange data args stack ↔ requestedStart args stack ≤ data.length := by
  constructor
  · intro h
    have hordered := h.ordered
    have hinside := h.inside
    rw [rangeOf_start] at hordered
    omega
  · intro h
    refine ⟨rangeOf_ordered h, rangeOf_stop_le data args stack, fun enc _ => sliceCall_eq h enc, ?_⟩
    intro enc _ hbeyond
    have hordered := rangeOf_ordered h
    have hinside := rangeOf_stop_le data args stack
    rw [sliceCall_eq h, if_pos]
    rw [rangeOf_start] at hordered ⊢
    omega

/-- `buf.utf8Slice(5)` of two bytes: the range starts three bytes behind its end. -/
theorem utf8Slice_behind :
    rangeOf [104, 105] [some 5] 0 = ⟨5, 2⟩ ∧ sliceCall .utf8 [104, 105] [some 5] 0 = none ∧
      ¬ SlicesInRange [104, 105] [some 5] 0 :=
  ⟨by decide, by decide, fun h => absurd h.ordered (by decide)⟩

end HermesNode.Buffer
