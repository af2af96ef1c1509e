import ChipEight.Glyph

/-! The 4096 cells of memory. Every access wraps around the end, which is the law `read_write`: two
addresses reach the same cell exactly if they agree modulo 4096. -/

namespace ChipEight

structure Memory where
  cells : Vector UInt8 4096
  deriving DecidableEq

namespace Memory

/-- Where images are loaded and where programs start. -/
def programStart : Nat := 0x200

def imageCapacity : Nat := Address.space - programStart

def read (memory : Memory) (address : Address) : UInt8 := memory.cells[address.cell]

def write (memory : Memory) (address : Address) (value : UInt8) : Memory :=
  ⟨memory.cells.set (Address.cell address).val value (Address.cell address).isLt⟩

def writeAll (memory : Memory) (address : Address) : List UInt8 → Memory
  | [] => memory
  | value :: rest => writeAll (memory.write address value) (address + 1) rest

/-- The big-endian word stored at `address` and the cell after it. -/
def readWord (memory : Memory) (address : Address) : UInt16 :=
  (memory.read address).toUInt16 <<< 8 ||| (memory.read (address + 1)).toUInt16

def initial : Memory := ⟨Vector.ofFn fun cell => Glyph.sheet[cell.val]?.getD 0⟩

/-- Copies an image to `programStart`; cells that it does not reach keep their bytes, and what would
lie past the end of memory is dropped. -/
def place (memory : Memory) (image : Array UInt8) : Memory :=
  ⟨Vector.ofFn fun cell =>
    if cell.val < programStart then memory.cells[cell]
    else image[cell.val - programStart]?.getD memory.cells[cell]⟩

theorem read_initial (address : Address) :
    initial.read address = Glyph.sheet[address.toNat % 4096]?.getD 0 := by
  simp [read, initial]

theorem read_write (memory : Memory) (address other : Address) (value : UInt8) :
    (memory.write address value).read other =
      if address.toNat % 4096 = other.toNat % 4096 then value else memory.read other := by
  simp [read, write, Vector.getElem_set]

/-- Among at most 4096 bytes each cell receives the one at its distance from the first address. -/
theorem read_writeAll (memory : Memory) (address other : Address) (values : List UInt8)
    (short : values.length ≤ 4096) :
    (memory.writeAll address values).read other =
      values[(other.toNat + 4096 - address.toNat % 4096) % 4096]?.getD (memory.read other) := by
  induction values generalizing memory address with
  | nil => rfl
  | cons value rest ih =>
    have bound := address.toNat_lt
    have one : (1 : UInt16).toNat = 1 := rfl
    have next : (address + 1).toNat % 4096 = (address.toNat + 1) % 4096 := by
      rw [UInt16.toNat_add, one]
      omega
    simp only [List.length_cons] at short
    rw [writeAll, ih _ _ (by omega), read_write, next]
    by_cases here : address.toNat % 4096 = other.toNat % 4096
    · have first : (other.toNat + 4096 - address.toNat % 4096) % 4096 = 0 := by omega
      have last : (other.toNat + 4096 - (address.toNat + 1) % 4096) % 4096 = 4095 := by omega
      have absent : rest[4095]? = none := List.getElem?_eq_none (by omega)
      rw [if_pos here, first, last, absent]
      rfl
    · have later : (other.toNat + 4096 - address.toNat % 4096) % 4096 =
          (other.toNat + 4096 - (address.toNat + 1) % 4096) % 4096 + 1 := by omega
      rw [if_neg here, later]
      rfl

theorem read_writeAll_inside (memory : Memory) (address : Address) (values : List UInt8) (place : Nat)
    (short : values.length ≤ 4096) (inside : place < values.length) :
    (memory.writeAll address values).read (address + .ofNat place) = values[place] := by
  have distance : ((address + .ofNat place).toNat + 4096 - address.toNat % 4096) % 4096 = place := by
    rw [UInt16.toNat_add, UInt16.toNat_ofNat']
    omega
  rw [read_writeAll _ _ _ _ short, distance, List.getElem?_eq_getElem inside]
  rfl

theorem read_writeAll_outside (memory : Memory) (address other : Address) (values : List UInt8)
    (short : values.length ≤ 4096)
    (outside : ∀ place < values.length, Address.cell other ≠ Address.cell (address + .ofNat place)) :
    (memory.writeAll address values).read other = memory.read other := by
  have far : values.length ≤ (other.toNat + 4096 - address.toNat % 4096) % 4096 := by
    refine Nat.le_of_not_lt fun near => outside _ near ?_
    rw [Address.cell_eq_iff, UInt16.toNat_add, UInt16.toNat_ofNat']
    omega
  rw [read_writeAll _ _ _ _ short, List.getElem?_eq_none far]
  rfl

theorem read_congr (memory : Memory) (left right : Address)
    (same : left.toNat % 4096 = right.toNat % 4096) : memory.read left = memory.read right := by
  simp only [read, (Address.cell_eq_iff left right).mpr same]

theorem write_congr (memory : Memory) (left right : Address) (value : UInt8)
    (same : left.toNat % 4096 = right.toNat % 4096) : memory.write left value = memory.write right value := by
  simp only [write, (Address.cell_eq_iff left right).mpr same]

theorem writeAll_congr (memory : Memory) (left right : Address) (values : List UInt8)
    (same : left.toNat % 4096 = right.toNat % 4096) :
    memory.writeAll left values = memory.writeAll right values := by
  induction values generalizing memory left right with
  | nil => rfl
  | cons value rest ih =>
    have one : (1 : UInt16).toNat = 1 := rfl
    rw [writeAll, writeAll, write_congr memory left right value same]
    apply ih
    rw [UInt16.toNat_add, UInt16.toNat_add, one]
    omega

/-- Bytes that follow others are stored behind them. -/
theorem writeAll_append (memory : Memory) (address : Address) (early late : List UInt8) :
    memory.writeAll address (early ++ late) =
      (memory.writeAll address early).writeAll (address + .ofNat early.length) late := by
  induction early generalizing memory address with
  | nil =>
    have zero : address + UInt16.ofNat 0 = address := UInt16.add_zero address
    rw [List.nil_append, List.length_nil, zero, writeAll]
  | cons first rest ih =>
    have behind : address + 1 + UInt16.ofNat rest.length = address + UInt16.ofNat (rest.length + 1) := by
      rw [UInt16.ofNat_add, UInt16.add_assoc, UInt16.add_comm 1]
      rfl
    rw [List.cons_append, writeAll, ih, List.length_cons, behind, writeAll]

theorem read_succ (memory : Memory) (address : Address) :
    memory.read (.ofNat ((address.toNat + 1) % 4096)) = memory.read (address + 1) := by
  have one : (1 : UInt16).toNat = 1 := rfl
  apply read_congr
  rw [UInt16.toNat_ofNat', UInt16.toNat_add, one]
  omega

theorem ext_read (left right : Memory)
    (same : ∀ address : Address, left.read address = right.read address) : left = right := by
  obtain ⟨cells⟩ := left
  obtain ⟨others⟩ := right
  congr 1
  apply Vector.ext
  intro index inside
  have small : index < 65536 := by omega
  have equal := same (UInt16.ofNat index)
  simpa [read, Nat.mod_eq_of_lt small, Nat.mod_eq_of_lt inside] using equal

theorem toNat_readWord (memory : Memory) (address : Address) :
    (memory.readWord address).toNat =
      (memory.read address).toNat * 256 + (memory.read (address + 1)).toNat := by
  have high := (memory.read address).toNat_lt
  have low := (memory.read (address + 1)).toNat_lt
  simp only [readWord, UInt16.toNat_or, UInt16.toNat_shiftLeft, UInt8.toNat_toUInt16]
  have shifted : (memory.read address).toNat <<< 8 % 2 ^ 16 = (memory.read address).toNat * 256 := by
    rw [Nat.shiftLeft_eq]
    omega
  change ((memory.read address).toNat <<< 8 % 2 ^ 16) ||| _ = _
  rw [shifted, show (256 : Nat) = 2 ^ 8 from rfl, ← Nat.shiftLeft_eq,
    Nat.shiftLeft_add_eq_or_of_lt low]

theorem readWord_eq_ofNat (memory : Memory) (address : Address) :
    memory.readWord address = .ofNat ((memory.read address).toNat * 256 +
      (memory.read (.ofNat ((address.toNat + 1) % 4096))).toNat) := by
  have high := (memory.read address).toNat_lt
  have low := (memory.read (address + 1)).toNat_lt
  apply UInt16.toNat_inj.mp
  rw [toNat_readWord, read_succ, UInt16.toNat_ofNat']
  omega

theorem readWord_wrap (memory : Memory) (address : Address) :
    memory.readWord address.wrap = memory.readWord address := by
  have one : (1 : UInt16).toNat = 1 := rfl
  unfold readWord
  rw [memory.read_congr address.wrap address, memory.read_congr (address.wrap + 1) (address + 1)]
  · rw [UInt16.toNat_add, UInt16.toNat_add, Address.toNat_wrap, one]
    omega
  · rw [Address.toNat_wrap]
    omega

theorem read_place (memory : Memory) (image : Array UInt8) (address : Address) :
    (memory.place image).read address =
      if address.toNat % 4096 < programStart then memory.read address
      else image[address.toNat % 4096 - programStart]?.getD (memory.read address) := by
  simp [read, place]

/-- The word that two bytes of an image become. -/
theorem readWord_place (memory : Memory) (image : Array UInt8) (offset : Nat) (high low : UInt8)
    (word : UInt16) (inside : offset + 1 < imageCapacity) (first : image[offset]? = some high)
    (second : image[offset + 1]? = some low) (value : high.toNat * 256 + low.toNat = word.toNat) :
    (memory.place image).readWord (.ofNat (programStart + offset)) = word := by
  have one : (1 : UInt16).toNat = 1 := rfl
  simp only [imageCapacity, Address.space, programStart] at inside
  have here : (UInt16.ofNat (programStart + offset)).toNat % 4096 = programStart + offset := by
    rw [UInt16.toNat_ofNat', programStart]
    omega
  have next : (UInt16.ofNat (programStart + offset) + 1).toNat % 4096 = programStart + (offset + 1) := by
    rw [UInt16.toNat_add, UInt16.toNat_ofNat', one, programStart]
    omega
  apply UInt16.toNat_inj.mp
  rw [← value, toNat_readWord, read_place, read_place, here, next, if_neg (by omega), if_neg (by omega),
    Nat.add_sub_cancel_left, Nat.add_sub_cancel_left, first, second]
  rfl

end Memory

end ChipEight
