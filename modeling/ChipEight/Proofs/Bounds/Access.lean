import ChipEight.Machine.Basic

/-! Guarded numbers and guarded access. A number becomes a word only if it fits into it, and a place is
selected by a plain number only if there is such a place; otherwise there is no result. Within the bounds
guarded access agrees with the access that needs no guard. Addresses are cut down by a mask first. -/

namespace ChipEight.Guarded

def byte? (value : Nat) : Option UInt8 := if value < UInt8.size then some (.ofNat value) else none

def word? (value : Nat) : Option UInt16 := if value < UInt16.size then some (.ofNat value) else none

/-- A count that fits into 32 bits. -/
def count? (value : Nat) : Option Nat := if value < UInt32.size then some value else none

def difference? (value amount : Nat) : Option Nat :=
  if amount ≤ value then some (value - amount) else none

def register (machine : Machine) (x : Nat) : Option UInt8 := machine.registers[x]?

def setRegister (machine : Machine) (x : Nat) (value : UInt8) : Option Machine :=
  if inside : x < 16 then some { machine with registers := machine.registers.set x value inside }
  else none

/-- All but the low twelve bits are masked out. -/
def mask (address : Address) : Address := address &&& .ofNat Address.last

def cell (memory : Memory) (address : Address) : Option UInt8 := memory.cells[(mask address).toNat]?

def setCell (memory : Memory) (address : Address) (value : UInt8) : Option Memory :=
  if inside : (mask address).toNat < 4096 then
    some ⟨memory.cells.set (mask address).toNat value inside⟩
  else none

def isHeld (keypad : Keypad) (key : Nat) : Option Bool := keypad.down[key]?

def setKey (keypad : Keypad) (key : Nat) (held : Bool) : Option Keypad :=
  if inside : key < 16 then some ⟨keypad.down.set key held inside⟩ else none

/-- The register that waits for a key, as a byte. -/
def awaiting (machine : Machine) : Option UInt8 := machine.awaiting.map fun x => .ofNat x.val

/-- A machine takes no other registers than the sixteen. -/
def setAwaiting (machine : Machine) (x : UInt8) : Option Machine :=
  if inside : x.toNat < 16 then some { machine with awaiting := some ⟨x.toNat, inside⟩ } else none

theorem byte?_eq (value : Nat) (fits : value < 256) : byte? value = some (.ofNat value) :=
  if_pos fits

theorem word?_eq (value : Nat) (fits : value < 65536) : word? value = some (.ofNat value) :=
  if_pos fits

theorem count?_eq (value : Nat) (fits : value < 4294967296) : count? value = some value :=
  if_pos fits

theorem difference?_eq (value amount : Nat) (covered : amount ≤ value) :
    difference? value amount = some (value - amount) :=
  if_pos covered

theorem register_eq (machine : Machine) (x : Register) :
    register machine x.val = some (machine.register x) :=
  Vector.getElem?_eq_getElem x.isLt

theorem setRegister_eq (machine : Machine) (x : Register) (value : UInt8) :
    setRegister machine x.val value = some (machine.setRegister x value) :=
  dif_pos x.isLt

theorem mask_eq (address : Address) : mask address = address.wrap := by
  apply UInt16.toNat_inj.mp
  rw [mask, UInt16.toNat_and, Address.toNat_wrap]
  exact Nat.and_two_pow_sub_one_eq_mod address.toNat 12

theorem mask_eq_cell (address : Address) : (mask address).toNat = address.cell.val := by
  rw [mask_eq]
  exact Address.toNat_wrap address

theorem cell_eq (memory : Memory) (address : Address) :
    cell memory address = some (memory.read address) := by
  unfold cell
  rw [mask_eq_cell]
  exact Vector.getElem?_eq_getElem address.cell.isLt

theorem setCell_eq (memory : Memory) (address : Address) (value : UInt8) :
    setCell memory address value = some (memory.write address value) := by
  unfold setCell
  rw [dif_pos (by rw [mask_eq_cell]; exact address.cell.isLt)]
  simp only [Memory.write, mask_eq_cell]

theorem isHeld_eq (keypad : Keypad) (key : Key) : isHeld keypad key.val = some (keypad.isHeld key) :=
  Vector.getElem?_eq_getElem key.isLt

theorem setKey_eq (keypad : Keypad) (key : Key) (held : Bool) :
    setKey keypad key.val held = some (keypad.set key held) :=
  dif_pos key.isLt

theorem toNat_register (x : Register) : (UInt8.ofNat x.val).toNat = x.val := by
  rw [UInt8.toNat_ofNat']
  omega

theorem setAwaiting_eq (machine : Machine) (x : Register) :
    setAwaiting machine (.ofNat x.val) = some { machine with awaiting := some x } := by
  simp only [setAwaiting, toNat_register, x.isLt, dif_pos]

end ChipEight.Guarded
