/-! Hexadecimal digits. The sixteen registers and the sixteen keys are named by them, and an instruction
word is four of them. -/

namespace ChipEight

abbrev Digit := Fin 16

/-- Digits can be written as literals. -/
instance Digit.instNeZero : @NeZero Nat Zero.ofOfNat0 16 := ⟨Nat.succ_ne_zero 15⟩

namespace Digit

/-- The last digit of a byte. -/
def low (value : UInt8) : Digit := ⟨value.toNat % 16, Nat.mod_lt _ (by decide)⟩

end Digit

end ChipEight
