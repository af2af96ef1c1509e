import ChipEight.CallStack
import ChipEight.Fault
import ChipEight.Instruction.Basic
import ChipEight.Keypad.Basic
import ChipEight.Memory
import ChipEight.Screen.Basic

/-! One moment of the machine: registers, memory, screen, stack, timers and keypad. When an instruction
runs, the program counter has already moved past it, so the instruction's own address is the one before. -/

namespace ChipEight

structure Machine where
  registers : Vector UInt8 16
  index : Address
  pc : Address
  stack : CallStack
  delay : UInt8
  sound : UInt8
  memory : Memory
  screen : Screen
  /-- Whether the screen may differ from what was last shown. -/
  redraw : Bool
  keypad : Keypad
  /-- The register that waits for a key, while the program is suspended. -/
  awaiting : Option Register
  deriving DecidableEq

namespace Machine

def initial : Machine where
  registers := Vector.replicate 16 0
  index := 0
  pc := .ofNat Memory.programStart
  stack := .empty
  delay := 0
  sound := 0
  memory := .initial
  screen := .dark
  redraw := false
  keypad := .released
  awaiting := none

def register (machine : Machine) (x : Register) : UInt8 := machine.registers[x]

def setRegister (machine : Machine) (x : Register) (value : UInt8) : Machine :=
  { machine with registers := machine.registers.set x.val value x.isLt }

/-- The address of the instruction that is running. -/
def origin (machine : Machine) : Address := machine.pc.previous

def fetch (machine : Machine) : UInt16 × Machine :=
  (machine.memory.readWord machine.pc, { machine with pc := machine.pc.next })

def skipWhen (machine : Machine) (condition : Bool) : Machine :=
  if condition then { machine with pc := machine.pc.next } else machine

def push (machine : Machine) (address : Address) : Except Fault Machine :=
  match machine.stack.push? address with
  | some stack => .ok { machine with stack }
  | none => .error (.stackOverflow machine.origin)

def pop (machine : Machine) : Except Fault (Address × Machine) :=
  match machine.stack.pop? with
  | some (address, stack) => .ok (address, { machine with stack })
  | none => .error (.stackUnderflow machine.origin)

/-- Ends the wait for a key: the waiting register receives the key and the program goes on after the
instruction that waited. Without a wait nothing happens. -/
def deliver (machine : Machine) (key : UInt8) : Machine :=
  match machine.awaiting with
  | some x => { machine.setRegister x key with pc := machine.pc.next, awaiting := none }
  | none => machine

def tick (machine : Machine) : Machine :=
  { machine with
    delay := if machine.delay = 0 then 0 else machine.delay - 1
    sound := if machine.sound = 0 then 0 else machine.sound - 1 }

theorem register_setRegister (machine : Machine) (x y : Register) (value : UInt8) :
    (machine.setRegister x value).register y = if x = y then value else machine.register y := by
  simp [register, setRegister, Vector.getElem_set, Fin.ext_iff]

end Machine

end ChipEight
