import ChipEight.Instruction.Arithmetic
import ChipEight.Machine.Basic
import ChipEight.Randomness.Source
import ChipEight.Screen.Sprite

/-! What each instruction does to a machine that has just fetched it. Only a call on a full stack and a
return from an empty one raise a fault, and then nothing has been written. -/

namespace ChipEight.Machine

def holds (machine : Machine) : Condition → Bool
  | .equalsByte x value => machine.register x == value
  | .differsByte x value => machine.register x != value
  | .equalsRegister x y => machine.register x == machine.register y
  | .differsRegister x y => machine.register x != machine.register y
  | .keyHeld x => machine.keypad.isHeld (.low (machine.register x))
  | .keyReleased x => !machine.keypad.isHeld (.low (machine.register x))

/-- Where the flag register is also the target, it ends up with the flag. -/
def compute (machine : Machine) (operation : Arithmetic) (x y : Register) : Machine :=
  let a := machine.register x
  let b := machine.register y
  let computed := machine.setRegister x (operation.result a b)
  match operation.flag? a b with
  | some bit => computed.setRegister .flag bit.toUInt8
  | none => computed

def sprite (machine : Machine) (x y : Register) (height : Nat) : Screen :=
  .footprint (fun row => machine.memory.read (machine.index + .ofNat row)) height
    (machine.register x).toNat (machine.register y).toNat

def draw (machine : Machine) (x y : Register) (height : Nat) : Machine :=
  let sprite := machine.sprite x y height
  { machine.setRegister .flag (machine.screen.overlaps sprite).toUInt8 with
    screen := machine.screen ^^^ sprite
    redraw := true }

/-- A key that is held already ends the wait before it starts. Otherwise the program counter goes back to
the instruction, which suspends the program. -/
def awaitKey (machine : Machine) (x : Register) : Machine :=
  match machine.keypad.lowest? with
  | some key => machine.setRegister x (.ofNat key.val)
  | none => { machine with awaiting := some x, pc := machine.origin }

def advanceIndex (machine : Machine) (count : Nat) : Machine :=
  { machine with index := .wrap (machine.index + .ofNat count) }

def decimalDigits (value : UInt8) : List UInt8 := [value / 100, value / 10 % 10, value % 10]

def leadingRegisters (machine : Machine) (x : Register) : List UInt8 :=
  machine.registers.toList.take (x.val + 1)

def restore (machine : Machine) (x : Register) : Machine :=
  { machine with
    registers := Vector.ofFn fun register =>
      if register ≤ x then machine.memory.read (machine.index + .ofNat register.val)
      else machine.register register }

/-- The source is consulted by `random` only. -/
def execute (machine : Machine) (source : WordSource) : Instruction → Except Fault Machine
  | .clearScreen => .ok { machine with screen := .dark, redraw := true }
  | .ret => do
    let (address, popped) ← machine.pop
    return { popped with pc := address }
  | .jump target => .ok { machine with pc := .ofNat target.val }
  | .call target => do
    let pushed ← machine.push machine.pc
    return { pushed with pc := .ofNat target.val }
  | .skip condition => .ok (machine.skipWhen (machine.holds condition))
  | .load x value => .ok (machine.setRegister x value)
  | .increase x value => .ok (machine.setRegister x (machine.register x + value))
  | .compute operation x y => .ok (machine.compute operation x y)
  | .setIndex target => .ok { machine with index := .ofNat target.val }
  | .jumpFromV0 target =>
    .ok { machine with pc := .wrap (.ofNat target.val + (machine.register 0).toUInt16) }
  | .random x mask => .ok (machine.setRegister x (source.byte &&& mask))
  | .draw x y height => .ok (machine.draw x y height.val)
  | .readDelay x => .ok (machine.setRegister x machine.delay)
  | .awaitKey x => .ok (machine.awaitKey x)
  | .setDelay x => .ok { machine with delay := machine.register x }
  | .setSound x => .ok { machine with sound := machine.register x }
  | .advanceIndex x => .ok (machine.advanceIndex (machine.register x).toNat)
  | .pointToGlyph x => .ok { machine with index := Glyph.address (.low (machine.register x)) }
  | .storeDecimal x =>
    .ok { machine with
      memory := machine.memory.writeAll machine.index (decimalDigits (machine.register x)) }
  | .storeRegisters x =>
    .ok ({ machine with
      memory := machine.memory.writeAll machine.index (machine.leadingRegisters x) }.advanceIndex
        (x.val + 1))
  | .restoreRegisters x => .ok ((machine.restore x).advanceIndex (x.val + 1))

end ChipEight.Machine
