import ChipEight.Instruction.Basic

/-! Byte arithmetic. An operation has a result, and the last five also have a flag: the carry of an
addition, the absence of a borrow in a subtraction, or the bit that a shift loses. The shifts look at
their first operand only. -/

namespace ChipEight.Arithmetic

def result : Arithmetic → UInt8 → UInt8 → UInt8
  | .copy, _, b => b
  | .or, a, b => a ||| b
  | .and, a, b => a &&& b
  | .xor, a, b => a ^^^ b
  | .add, a, b => a + b
  | .subtract, a, b => a - b
  | .shiftRight, a, _ => a >>> 1
  | .subtractFrom, a, b => b - a
  | .shiftLeft, a, _ => a <<< 1

def flag? : Arithmetic → UInt8 → UInt8 → Option Bool
  | .add, a, b => some (255 < a.toNat + b.toNat)
  | .subtract, a, b => some (b ≤ a)
  | .shiftRight, a, _ => some (a.toNat % 2 = 1)
  | .subtractFrom, a, b => some (a ≤ b)
  | .shiftLeft, a, _ => some (128 ≤ a)
  | _, _, _ => none

theorem toNat_toUInt8 (holds : Prop) [Decidable holds] :
    (decide holds).toUInt8.toNat = if holds then 1 else 0 := by
  by_cases truth : holds
  · rw [decide_eq_true truth, if_pos truth]
    rfl
  · rw [decide_eq_false truth, if_neg truth]
    rfl

end ChipEight.Arithmetic
