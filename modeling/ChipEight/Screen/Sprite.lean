import ChipEight.Screen.Basic

/-! Sprites are up to fifteen rows of eight pixels. A sprite drawn at a position covers the screen as if
the edges were glued together: what leaves on one side enters on the opposite side. Its footprint is
itself a screen, so drawing is exclusive or with the footprint. -/

namespace ChipEight.Screen

def line (row : UInt8) (column : Nat) : BitVec 64 :=
  (row.toBitVec ++ (0 : BitVec 56) : BitVec 64).rotateRight column

/-- The pixels that a sprite of `height` rows lights when its corner is at column `left` and row `top`. -/
def footprint (rows : Nat → UInt8) (height left top : Nat) : Screen :=
  ⟨Vector.ofFn fun row =>
    let offset := (row.val + 32 - top % 32) % 32
    if offset < height then line (rows offset) left else 0⟩

theorem getMsbD_line (row : UInt8) (left column : Nat) (inside : column < 64) :
    (line row left).getMsbD column =
      (decide ((column + 64 - left % 64) % 64 < 8) &&
        row.toBitVec.getMsbD ((column + 64 - left % 64) % 64)) := by
  have bound : left % 64 < 64 := Nat.mod_lt _ (by decide)
  rw [line, BitVec.getMsbD_rotateRight, BitVec.getMsbD_append, BitVec.getMsbD_append]
  by_cases before : column < left % 64
  · have place : (64 + column - left % 64) % 64 = column + 64 - left % 64 := by omega
    have place' : (column + 64 - left % 64) % 64 = column + 64 - left % 64 := by omega
    simp only [inside, before, decide_true, Bool.true_and, if_true, place, place']
    by_cases far : 8 ≤ column + 64 - left % 64
    · have near : ¬ column + 64 - left % 64 < 8 := by omega
      simp [far, near]
    · have near : column + 64 - left % 64 < 8 := by omega
      simp [far, near]
  · have place : (column + 64 - left % 64) % 64 = column - left % 64 := by omega
    simp only [inside, before, decide_true, Bool.true_and, if_false, place]
    by_cases far : 8 ≤ column - left % 64
    · have near : ¬ column - left % 64 < 8 := by omega
      simp [far, near]
    · have near : column - left % 64 < 8 := by omega
      simp [far, near]

/-- Row `r` and column `c` of the footprint show the sprite pixel at distance `(r - top) mod 32` from
its first row and `(c - left) mod 64` from its first column, if the sprite reaches that far. -/
theorem pixel_footprint (rows : Nat → UInt8) (height left top : Nat) (row : Fin 32) (column : Fin 64) :
    (footprint rows height left top).pixel row column =
      (decide ((row.val + 32 - top % 32) % 32 < height) &&
        (decide ((column.val + 64 - left % 64) % 64 < 8) &&
          (rows ((row.val + 32 - top % 32) % 32)).toBitVec.getMsbD
            ((column.val + 64 - left % 64) % 64))) := by
  simp only [pixel, footprint, Fin.getElem_fin, Vector.getElem_ofFn]
  by_cases reached : (row.val + 32 - top % 32) % 32 < height
  · simp [reached, getMsbD_line]
  · simp [reached]

end ChipEight.Screen
