import ChipEight.Digit

/-! The instructions of the machine with their operands. Registers are named V0 to VF, the program
addresses of jumps and calls are cells of memory, and constants are bytes. -/

namespace ChipEight

abbrev Register := Digit

namespace Register

/-- The register that receives carries, borrows, lost bits and collisions. -/
def flag : Register := 0xF

end Register

/-- What a skip instruction tests. -/
inductive Condition
  | equalsByte (x : Register) (value : UInt8)
  | differsByte (x : Register) (value : UInt8)
  | equalsRegister (x y : Register)
  | differsRegister (x y : Register)
  | keyHeld (x : Register)
  | keyReleased (x : Register)
  deriving DecidableEq, Repr

inductive Arithmetic
  | copy
  | or
  | and
  | xor
  | add
  | subtract
  | shiftRight
  | subtractFrom
  | shiftLeft
  deriving DecidableEq, Repr

inductive Instruction
  | clearScreen
  | ret
  | jump (target : Fin 4096)
  | call (target : Fin 4096)
  | skip (condition : Condition)
  | load (x : Register) (value : UInt8)
  | increase (x : Register) (value : UInt8)
  | compute (operation : Arithmetic) (x y : Register)
  | setIndex (target : Fin 4096)
  | jumpFromV0 (target : Fin 4096)
  | random (x : Register) (mask : UInt8)
  | draw (x y : Register) (height : Digit)
  | readDelay (x : Register)
  | awaitKey (x : Register)
  | setDelay (x : Register)
  | setSound (x : Register)
  | advanceIndex (x : Register)
  | pointToGlyph (x : Register)
  | storeDecimal (x : Register)
  | storeRegisters (x : Register)
  | restoreRegisters (x : Register)
  deriving DecidableEq, Repr

def Instruction.takesRandomWord : Instruction → Bool
  | .random _ _ => true
  | _ => false

end ChipEight
