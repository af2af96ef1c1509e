/-! The screen, 64 columns by 32 rows of pixels that are lit or dark. A row is a 64 bit word whose most
significant bit is the leftmost pixel. Two screens combine row by row with exclusive or, and overlap if
some pixel is lit on both. -/

namespace ChipEight

structure Screen where
  rows : Vector (BitVec 64) 32
  deriving DecidableEq

namespace Screen

def width : Nat := 64

def height : Nat := 32

def dark : Screen := ⟨Vector.replicate 32 0⟩

/-- A screen that shows the given rows from the top, the missing ones dark. -/
def ofRows (rows : List (BitVec 64)) : Screen :=
  ⟨Vector.ofFn fun row => rows[row.val]?.getD 0⟩

def pixel (screen : Screen) (row : Fin 32) (column : Fin 64) : Bool :=
  screen.rows[row].getMsbD column.val

instance : XorOp Screen := ⟨fun left right => ⟨left.rows.zipWith (· ^^^ ·) right.rows⟩⟩

def overlaps (left right : Screen) : Bool :=
  (left.rows.zipWith (· &&& ·) right.rows).any (· != 0)

@[simp] theorem pixel_dark (row : Fin 32) (column : Fin 64) : dark.pixel row column = false := by
  simp [pixel, dark]

@[simp] theorem pixel_xor (left right : Screen) (row : Fin 32) (column : Fin 64) :
    (left ^^^ right).pixel row column = (left.pixel row column ^^ right.pixel row column) := by
  change ((left.rows.zipWith (· ^^^ ·) right.rows)[row]).getMsbD column.val = _
  simp [pixel]

theorem ext_pixel (left right : Screen)
    (same : ∀ row column, left.pixel row column = right.pixel row column) : left = right := by
  obtain ⟨rows⟩ := left
  obtain ⟨others⟩ := right
  congr 1
  apply Vector.ext
  intro row inside
  apply BitVec.eq_of_getMsbD_eq
  intro column bounded
  exact same ⟨row, inside⟩ ⟨column, bounded⟩

theorem overlaps_iff (left right : Screen) :
    left.overlaps right = true ↔
      ∃ row column, left.pixel row column = true ∧ right.pixel row column = true := by
  simp only [overlaps, Vector.any_eq_true, bne_iff_ne, ne_eq, Vector.getElem_zipWith]
  constructor
  · rintro ⟨row, inside, lit⟩
    apply Classical.byContradiction
    intro none
    apply lit
    apply BitVec.eq_of_getMsbD_eq
    intro column bounded
    have apart : ¬ ((left.rows[row]).getMsbD column = true ∧
        (right.rows[row]).getMsbD column = true) := fun both =>
      none ⟨⟨row, inside⟩, ⟨column, bounded⟩, both⟩
    simpa using apart
  · rintro ⟨row, column, first, second⟩
    refine ⟨row.val, row.isLt, fun empty => ?_⟩
    have bit := congrArg (fun word : BitVec 64 => word.getMsbD column.val) empty
    simp only [pixel, Fin.getElem_fin] at first second
    simp [first, second] at bit

end Screen

end ChipEight
