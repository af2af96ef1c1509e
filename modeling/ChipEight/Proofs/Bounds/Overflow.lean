import ChipEight.Instruction.Arithmetic

/-! Byte arithmetic whose flags are bytes. An addition or a subtraction comes with whether its result left the
bytes, and the bit that a shift loses is masked or shifted out of the operand. -/

namespace ChipEight.Guarded

def overflowingAdd (a b : UInt8) : UInt8 × Bool := (a + b, UInt8.size ≤ a.toNat + b.toNat)

def overflowingSub (a b : UInt8) : UInt8 × Bool := (a - b, a < b)

/-- What goes to the target, and what goes to the flag register if there is a flag. -/
def calculate : Arithmetic → (a b : UInt8) → UInt8 × Option UInt8
  | .copy, _, b => (b, none)
  | .or, a, b => (a ||| b, none)
  | .and, a, b => (a &&& b, none)
  | .xor, a, b => (a ^^^ b, none)
  | .add, a, b =>
    let (sum, carried) := overflowingAdd a b
    (sum, some carried.toUInt8)
  | .subtract, a, b =>
    let (difference, borrowed) := overflowingSub a b
    (difference, some (!borrowed).toUInt8)
  | .shiftRight, a, _ => (a >>> 1, some (a &&& 1))
  | .subtractFrom, a, b =>
    let (difference, borrowed) := overflowingSub b a
    (difference, some (!borrowed).toUInt8)
  | .shiftLeft, a, _ => (a <<< 1, some (a >>> 7))

private theorem low_bit (a : UInt8) : a &&& 1 = (decide (a.toNat % 2 = 1)).toUInt8 := by
  apply UInt8.toNat_inj.mp
  rw [Arithmetic.toNat_toUInt8, UInt8.toNat_and, UInt8.toNat_one, Nat.and_one_is_mod]
  split <;> omega

private theorem high_bit (a : UInt8) : a >>> 7 = (decide (128 ≤ a)).toUInt8 := by
  have bound := a.toNat_lt
  have shifted : (a >>> 7).toNat = a.toNat / 128 :=
    (UInt8.toNat_shiftRight a 7).trans (Nat.shiftRight_eq_div_pow _ 7)
  have high : 128 ≤ a ↔ 128 ≤ a.toNat := UInt8.le_iff_toNat_le
  apply UInt8.toNat_inj.mp
  rw [Arithmetic.toNat_toUInt8, shifted]
  simp only [high]
  split <;> omega

private theorem not_borrowed (a b : UInt8) : (!(overflowingSub a b).2) = decide (b ≤ a) := by
  rw [overflowingSub, ← decide_not]
  simp only [UInt8.not_lt]

theorem calculate_eq (operation : Arithmetic) (a b : UInt8) :
    calculate operation a b = (operation.result a b, (operation.flag? a b).map Bool.toUInt8) := by
  cases operation with
  | copy | or | and | xor | add => rfl
  | subtract => exact congrArg (fun bit : Bool => (a - b, some bit.toUInt8)) (not_borrowed a b)
  | subtractFrom => exact congrArg (fun bit : Bool => (b - a, some bit.toUInt8)) (not_borrowed b a)
  | shiftRight =>
    rw [calculate, low_bit]
    rfl
  | shiftLeft =>
    rw [calculate, high_bit]
    rfl

end ChipEight.Guarded
