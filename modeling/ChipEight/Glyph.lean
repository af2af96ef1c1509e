import ChipEight.Address
import ChipEight.Digit

/-! Pictures of the sixteen hexadecimal digits. Each glyph is five rows of eight pixels, and the whole
sheet lies at the bottom of memory, glyph after glyph, so that programs can draw digits. -/

namespace ChipEight.Glyph

def height : Nat := 5

def sheetStart : Nat := 0

def sheet : List UInt8 := [
  0xF0, 0x90, 0x90, 0x90, 0xF0,
  0x20, 0x60, 0x20, 0x20, 0x70,
  0xF0, 0x10, 0xF0, 0x80, 0xF0,
  0xF0, 0x10, 0xF0, 0x10, 0xF0,
  0x90, 0x90, 0xF0, 0x10, 0x10,
  0xF0, 0x80, 0xF0, 0x10, 0xF0,
  0xF0, 0x80, 0xF0, 0x90, 0xF0,
  0xF0, 0x10, 0x20, 0x40, 0x40,
  0xF0, 0x90, 0xF0, 0x90, 0xF0,
  0xF0, 0x90, 0xF0, 0x10, 0xF0,
  0xF0, 0x90, 0xF0, 0x90, 0x90,
  0xE0, 0x90, 0xE0, 0x90, 0xE0,
  0xF0, 0x80, 0x80, 0x80, 0xF0,
  0xE0, 0x90, 0x90, 0x90, 0xE0,
  0xF0, 0x80, 0xF0, 0x80, 0xF0,
  0xF0, 0x80, 0xF0, 0x80, 0x80]

def address (digit : Digit) : Address := .ofNat (sheetStart + digit.val * height)

theorem length_sheet : sheet.length = 16 * height := rfl

theorem toNat_address (digit : Digit) : (address digit).toNat = digit.val * 5 := by
  simp only [address, sheetStart, height, UInt16.toNat_ofNat']
  omega

end ChipEight.Glyph
