import ChipEight.CallStack
import ChipEight.Numeral

/-! What can go wrong. A fault is raised by the running program, which then skips the instruction and
goes on. A refusal answers a request of the host that cannot be met and that leaves everything as it was. -/

namespace ChipEight

/-- A fault names the address of the instruction that raised it. -/
inductive Fault
  | stackOverflow (origin : Address)
  | stackUnderflow (origin : Address)
  | unknownWord (word : UInt16) (origin : Address)
  deriving DecidableEq, Repr

inductive Refusal
  | imageTooLarge (size capacity : Nat)
  | invalidKey (key : UInt8)
  deriving DecidableEq, Repr

inductive Error
  | fault (cause : Fault)
  | refusal (cause : Refusal)
  deriving DecidableEq, Repr

namespace Fault

def message : Fault → String
  | .stackOverflow origin =>
    "call at " ++ Numeral.hexadecimal 3 origin.toNat ++ " would overflow the " ++
      toString CallStack.capacity ++ " entry stack"
  | .stackUnderflow origin =>
    "return at " ++ Numeral.hexadecimal 3 origin.toNat ++ " with an empty stack"
  | .unknownWord word origin =>
    "unknown opcode " ++ Numeral.hexadecimal 4 word.toNat ++ " at " ++ Numeral.hexadecimal 3 origin.toNat

end Fault

namespace Refusal

def message : Refusal → String
  | .imageTooLarge size capacity =>
    "program image is " ++ toString size ++ " bytes but at most " ++ toString capacity ++
      " bytes fit in memory"
  | .invalidKey key => "key " ++ Numeral.hexadecimal 2 key.toNat ++ " is not on the 16 key keypad"

end Refusal

namespace Error

def isFault : Error → Bool
  | .fault _ => true
  | .refusal _ => false

def message : Error → String
  | .fault cause => cause.message
  | .refusal cause => cause.message

end Error

end ChipEight
