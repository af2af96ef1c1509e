import ChipEight.Proofs.Bounds.Drawing
import ChipEight.Proofs.Machine.Words

/-! Sprites on a screen without edges. The rows and columns that a sprite covers are the ones at a short
distance from its corner, where distances go around the screen; drawing inverts the pixels that the sprite
lights and no others, whether it is done at once or pixel by pixel. -/

namespace ChipEight.Machine

/-- Whether a sprite lights a pixel. The sprite's rows lie in memory from the index on, and the leftmost
pixel of a row is its most significant bit. -/
def lights (machine : Machine) (x y : Register) (height : Nat) (row : Fin 32) (column : Fin 64) : Bool :=
  let down := (((row.val : Int) - (machine.register y).toNat) % 32).toNat
  let right := (((column.val : Int) - (machine.register x).toNat) % 64).toNat
  if down < height ∧ right < 8 then
    (machine.memory.read (.ofNat ((machine.index.toNat + down) % 4096))).toNat.testBit (7 - right)
  else false

theorem getMsbD_byte (value : UInt8) (place : Nat) (inside : place < 8) :
    value.toBitVec.getMsbD place = value.toNat.testBit (7 - place) := by
  rw [BitVec.getMsbD_eq_getLsbD, decide_eq_true inside, Bool.true_and]
  rfl

theorem pixel_sprite (machine : Machine) (x y : Register) (height : Nat) (row : Fin 32)
    (column : Fin 64) :
    (machine.sprite x y height).pixel row column = machine.lights x y height row column := by
  have down : (row.val + 32 - (machine.register y).toNat % 32) % 32 =
      (((row.val : Int) - (machine.register y).toNat) % 32).toNat := by omega
  have right : (column.val + 64 - (machine.register x).toNat % 64) % 64 =
      (((column.val : Int) - (machine.register x).toNat) % 64).toNat := by omega
  unfold sprite lights
  rw [Screen.pixel_footprint, down, right]
  generalize (((row.val : Int) - (machine.register y).toNat) % 32).toNat = down
  generalize (((column.val : Int) - (machine.register x).toNat) % 64).toNat = right
  have cell : machine.memory.read (machine.index + .ofNat down) =
      machine.memory.read (.ofNat ((machine.index.toNat + down) % 4096)) := by
    apply Memory.read_congr
    rw [UInt16.toNat_add, UInt16.toNat_ofNat', UInt16.toNat_ofNat']
    omega
  dsimp only
  split
  next reached =>
    rw [decide_eq_true reached.1, decide_eq_true reached.2, Bool.true_and, Bool.true_and, cell]
    exact getMsbD_byte _ right reached.2
  next missed =>
    rw [← Bool.and_assoc, ← Bool.decide_and, decide_eq_false missed, Bool.false_and]

/-- Drawing a mark has inverted its pixels, and the flag register tells whether a lit pixel went dark. Apart
from the note that the screen has to be shown, nothing else is touched. -/
structure Draws (before after : Machine) (mark : Fin 32 → Fin 64 → Bool) : Prop where
  pixel : ∀ row column,
    after.screen.pixel row column = (before.screen.pixel row column ^^ mark row column)
  collided : (∃ row column, before.screen.pixel row column = true ∧
    after.screen.pixel row column = false) → after.register .flag = 1
  clear : (∀ row column, before.screen.pixel row column = true →
    after.screen.pixel row column = true) → after.register .flag = 0
  registers : ∀ r, r ≠ .flag → after.register r = before.register r
  redraw : after.redraw = true
  rest : after = { before with
    registers := after.registers, screen := after.screen, redraw := after.redraw }

theorem register_draw (machine : Machine) (x y r : Register) (height : Nat) :
    (machine.draw x y height).register r =
      if .flag = r then (machine.screen.overlaps (machine.sprite x y height)).toUInt8
      else machine.register r :=
  register_setRegister machine .flag r _

theorem pixel_draw (machine : Machine) (x y : Register) (height : Nat) (row : Fin 32)
    (column : Fin 64) :
    (machine.draw x y height).screen.pixel row column =
      (machine.screen.pixel row column ^^ machine.lights x y height row column) := by
  rw [← pixel_sprite]
  exact Screen.pixel_xor machine.screen (machine.sprite x y height) row column

theorem overlaps_sprite_iff (machine : Machine) (x y : Register) (height : Nat) :
    machine.screen.overlaps (machine.sprite x y height) = true ↔
      ∃ row column, machine.screen.pixel row column = true ∧
        machine.lights x y height row column = true := by
  simp only [Screen.overlaps_iff, pixel_sprite]

theorem draw_draws (machine : Machine) (x y : Register) (height : Nat) :
    machine.Draws (machine.draw x y height) (machine.lights x y height) where
  pixel := pixel_draw machine x y height
  collided := by
    rintro ⟨row, column, lit, dark⟩
    rw [pixel_draw, lit, Bool.true_xor, Bool.not_eq_false'] at dark
    have met := (overlaps_sprite_iff machine x y height).mpr ⟨row, column, lit, dark⟩
    rw [register_draw, if_pos rfl, met]
    rfl
  clear := by
    intro stays
    have apart : machine.screen.overlaps (machine.sprite x y height) = false := by
      rw [← Bool.not_eq_true, overlaps_sprite_iff]
      rintro ⟨row, column, lit, lights⟩
      have after := stays row column lit
      rw [pixel_draw, lit, lights] at after
      contradiction
    rw [register_draw, if_pos rfl, apart]
    rfl
  registers r other := by rw [register_draw, if_neg other.symm]
  redraw := rfl
  rest := rfl

/-- A word that draws does so without a fault, to the pixel, and as the loop over rows and pixels does that
writes one pixel after the other. -/
theorem draw_word (machine : Machine) (source : WordSource) (x y : Register) (height : Digit) :
    ∃ next, machine.executeWord source (Word.ofDigits 0xD x y height) = .ok next ∧
      Guarded.draw machine x.val y.val height.val = some next ∧
      machine.Draws next (machine.lights x y height.val) :=
  ⟨machine.draw x y height.val, machine.executeWord_encode source (.draw x y height),
    Guarded.draw_eq machine x y height, draw_draws machine x y height.val⟩

end ChipEight.Machine
