import ChipEight.Proofs.Machine.Footprint
import ChipEight.Proofs.Machine.Words

/-! Arithmetic on registers that may coincide. Results and flags are the ones of arithmetic on numbers, taken
from the operands before either is written; where the target is the flag register, the flag is what stays. -/

namespace ChipEight

namespace Arithmetic

/-- The result on numbers. -/
def value : Arithmetic → (a b : Nat) → Nat
  | .copy, _, b => b
  | .or, a, b => a ||| b
  | .and, a, b => a &&& b
  | .xor, a, b => a ^^^ b
  | .add, a, b => (a + b) % 256
  | .subtract, a, b => (((a : Int) - b) % 256).toNat
  | .shiftRight, a, _ => a / 2
  | .subtractFrom, a, b => (((b : Int) - a) % 256).toNat
  | .shiftLeft, a, _ => 2 * a % 256

/-- The flag on numbers, of the operations that have one. -/
def bit? : Arithmetic → (a b : Nat) → Option Nat
  | .add, a, b => some (if 255 < a + b then 1 else 0)
  | .subtract, a, b => some (if b ≤ a then 1 else 0)
  | .shiftRight, a, _ => some (a % 2)
  | .subtractFrom, a, b => some (if a ≤ b then 1 else 0)
  | .shiftLeft, a, _ => some (if 128 ≤ a then 1 else 0)
  | .copy, _, _ | .or, _, _ | .and, _, _ | .xor, _, _ => none

theorem toNat_sub_bytes (a b : UInt8) : (a - b).toNat = (((a.toNat : Int) - b.toNat) % 256).toNat := by
  have high := a.toNat_lt
  have low := b.toNat_lt
  rw [UInt8.toNat_sub]
  omega

theorem toNat_result (operation : Arithmetic) (a b : UInt8) :
    (operation.result a b).toNat = operation.value a.toNat b.toNat := by
  cases operation with
  | copy => rfl
  | or => exact UInt8.toNat_or a b
  | and => exact UInt8.toNat_and a b
  | xor => exact UInt8.toNat_xor a b
  | add => exact UInt8.toNat_add a b
  | subtract => exact toNat_sub_bytes a b
  | subtractFrom => exact toNat_sub_bytes b a
  | shiftRight => simp [result, value, Nat.shiftRight_eq_div_pow]
  | shiftLeft => simp [result, value, Nat.shiftLeft_eq, Nat.mul_comm]

theorem bit?_eq_map (operation : Arithmetic) (a b : UInt8) :
    operation.bit? a.toNat b.toNat =
      (operation.flag? a b).map fun bit : Bool => bit.toUInt8.toNat := by
  cases operation with
  | copy | or | and | xor => rfl
  | add => exact congrArg some (toNat_toUInt8 _).symm
  | subtract => exact congrArg some (toNat_toUInt8 _).symm
  | subtractFrom => exact congrArg some (toNat_toUInt8 _).symm
  | shiftLeft => exact congrArg some (toNat_toUInt8 _).symm
  | shiftRight =>
    refine congrArg some (Eq.trans ?_ (toNat_toUInt8 _).symm)
    split <;> omega

end Arithmetic

namespace Machine

/-- A register has received a value and, if there is a flag, the flag register has received it afterwards.
Nothing else is touched. -/
structure Assigned (before after : Machine) (x : Register) (value : Nat) (bit? : Option Nat) :
    Prop where
  target : x ≠ .flag ∨ bit? = none → (after.register x).toNat = value
  flag : ∀ bit, bit? = some bit → (after.register .flag).toNat = bit
  others : ∀ r, r ≠ x → r ≠ .flag ∨ bit? = none → after.register r = before.register r
  rest : after = { before with registers := after.registers }

theorem setRegister_assigned (machine : Machine) (x : Register) (value : UInt8) :
    machine.Assigned (machine.setRegister x value) x value.toNat none where
  target _ := by rw [register_setRegister, if_pos rfl]
  flag _ absent := by contradiction
  others _ other _ := by rw [register_setRegister, if_neg other.symm]
  rest := rfl

theorem compute_assigned (machine : Machine) (operation : Arithmetic) (x y : Register) :
    machine.Assigned (machine.compute operation x y) x
      (operation.value (machine.register x).toNat (machine.register y).toNat)
      (operation.bit? (machine.register x).toNat (machine.register y).toNat) := by
  rw [← Arithmetic.toNat_result, Arithmetic.bit?_eq_map]
  cases flag : operation.flag? (machine.register x) (machine.register y) with
  | none =>
    simp only [compute, flag]
    exact setRegister_assigned machine x _
  | some bit =>
    have computed := setRegister_assigned machine x
      (operation.result (machine.register x) (machine.register y))
    simp only [compute, flag]
    -- The flag is written last, so it covers the result where both go to one register.
    constructor
    · rintro (apart | none)
      · rw [register_setRegister, if_neg apart.symm]
        exact computed.target (Or.inr rfl)
      · contradiction
    · intro received same
      rw [register_setRegister, if_pos rfl]
      exact Option.some.inj same
    · rintro r other (apart | none)
      · rw [register_setRegister, if_neg apart.symm]
        exact computed.others r other (Or.inr rfl)
      · contradiction
    · rfl

/-- The arithmetic instructions on any two registers, the same one or the flag register included. -/
theorem arithmetic_words (machine : Machine) (source : WordSource) (x y : Register) :
    let a := (machine.register x).toNat
    let b := (machine.register y).toNat
    (∀ operation : Arithmetic, ∃ next,
      machine.executeWord source (Word.ofDigits 0x8 x y operation.digit) = .ok next ∧
        machine.Assigned next x (operation.value a b) (operation.bit? a b)) ∧
    ∀ amount : UInt8, ∃ next, machine.executeWord source (Word.ofByte 0x7 x amount) = .ok next ∧
      machine.Assigned next x ((a + amount.toNat) % 256) none := by
  intro a b
  constructor
  · intro operation
    exact ⟨_, machine.executeWord_encode source (.compute operation x y),
      compute_assigned machine operation x y⟩
  · intro amount
    refine ⟨_, machine.executeWord_encode source (.increase x amount), ?_⟩
    rw [← UInt8.toNat_add]
    exact setRegister_assigned machine x _

end Machine

end ChipEight
