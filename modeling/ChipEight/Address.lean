/-! Addresses of a memory of 4096 cells. An address is a sixteen bit word of which only the residue
modulo 4096 selects a cell, so addresses that differ by a multiple of 4096 name the same cell. An
instruction takes two cells. -/

namespace ChipEight

abbrev Address := UInt16

namespace Address

def space : Nat := 4096

def last : Nat := space - 1

/-- The least address that names the same cell. -/
def wrap (address : Address) : Address := address % 4096

def cell (address : Address) : Fin 4096 := ⟨address.toNat % 4096, Nat.mod_lt _ (by decide)⟩

/-- The address of the instruction after the one stored at `address`. -/
def next (address : Address) : Address := wrap (address + 2)

def previous (address : Address) : Address := wrap (address - 2)

@[simp] theorem toNat_wrap (address : Address) : (wrap address).toNat = address.toNat % 4096 := by
  simp [wrap, UInt16.toNat_mod]

theorem toNat_wrap_lt (address : Address) : (wrap address).toNat < 4096 := by
  rw [toNat_wrap]
  omega

@[simp] theorem val_cell (address : Address) : (cell address).val = address.toNat % 4096 := rfl

theorem toNat_wrap_add (address offset : Address) :
    (wrap (address + offset)).toNat = (address.toNat + offset.toNat) % 4096 := by
  simp only [toNat_wrap, UInt16.toNat_add]
  omega

theorem toNat_next (address : Address) : (next address).toNat = (address.toNat + 2) % 4096 :=
  toNat_wrap_add address 2

theorem ofNat_next (address : Address) : .ofNat ((address.toNat + 2) % 4096) = next address := by
  rw [← toNat_next, UInt16.ofNat_toNat]

theorem toNat_previous (address : Address) :
    (previous address).toNat = (address.toNat + 4094) % 4096 := by
  have two : (2 : UInt16).toNat = 2 := rfl
  simp only [previous, toNat_wrap, UInt16.toNat_sub, two]
  omega

theorem previous_next (address : Address) : previous (next address) = wrap address := by
  apply UInt16.toNat_inj.mp
  rw [toNat_previous, toNat_next, toNat_wrap]
  omega

theorem next_previous (address : Address) : next (previous address) = wrap address := by
  apply UInt16.toNat_inj.mp
  rw [toNat_next, toNat_previous, toNat_wrap]
  omega

theorem wrap_of_lt (address : Address) (inside : address.toNat < 4096) : wrap address = address := by
  apply UInt16.toNat_inj.mp
  rw [toNat_wrap, Nat.mod_eq_of_lt inside]

theorem cell_eq_iff (left right : Address) :
    cell left = cell right ↔ left.toNat % 4096 = right.toNat % 4096 := by
  simp [Fin.ext_iff]

end Address

end ChipEight
