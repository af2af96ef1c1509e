import ChipEight.Machine.Execution
import ChipEight.Proofs.Bounds.Access

/-! Guarded drawing. A sprite is drawn pixel by pixel, each with its own guarded place and with bytes of
which a screen accepts only zero and one. Pixel by pixel the sprite becomes its whole footprint, because no
pixel is visited twice. -/

namespace ChipEight

namespace Screen

def level (screen : Screen) (row : Fin 32) (column : Fin 64) : UInt8 :=
  (screen.pixel row column).toUInt8

def point (row : Fin 32) (column : Fin 64) : Screen := footprint (fun _ => 0x80) 1 column.val row.val

def setPixel (screen : Screen) (row : Fin 32) (column : Fin 64) (lit : Bool) : Screen :=
  if screen.pixel row column = lit then screen else screen ^^^ point row column

theorem pixel_point (row other : Fin 32) (column place : Fin 64) :
    (point row column).pixel other place = (decide (other = row) && decide (place = column)) := by
  have first : (0x80 : UInt8).toBitVec.getMsbD 0 = true := rfl
  have rows : ((other.val + 32 - row.val % 32) % 32 < 1) ↔ other = row := by
    rw [Fin.ext_iff]
    omega
  have columns : ((place.val + 64 - column.val % 64) % 64 = 0) ↔ place = column := by
    rw [Fin.ext_iff]
    omega
  rw [point, pixel_footprint]
  simp only [rows]
  by_cases here : place = column
  · rw [columns.mpr here]
    simp [here]
  · have later : 0 < (place.val + 64 - column.val % 64) % 64 := by
      have apart := mt columns.mp here
      omega
    generalize (place.val + 64 - column.val % 64) % 64 = distance at later
    have dark : ∀ distance, distance < 8 → 0 < distance →
        (0x80 : UInt8).toBitVec.getMsbD distance = false := by decide
    by_cases near : distance < 8
    · rw [dark distance near later]
      simp [here]
    · simp [here, near]

theorem xor_dark (screen : Screen) : screen ^^^ dark = screen := by
  apply ext_pixel
  intro row column
  simp

theorem xor_assoc (first second third : Screen) :
    first ^^^ second ^^^ third = first ^^^ (second ^^^ third) := by
  apply ext_pixel
  intro row column
  simp

theorem overlaps_eq_false_iff (left right : Screen) :
    left.overlaps right = false ↔
      ∀ row column, left.pixel row column = true → right.pixel row column = false := by
  rw [← Bool.not_eq_true, overlaps_iff]
  constructor
  · intro apart row column first
    cases second : right.pixel row column with
    | true => exact absurd ⟨row, column, first, second⟩ apart
    | false => rfl
  · rintro apart ⟨row, column, first, second⟩
    rw [apart row column first] at second
    contradiction

theorem overlaps_point (screen : Screen) (row : Fin 32) (column : Fin 64) :
    screen.overlaps (point row column) = screen.pixel row column := by
  rw [Bool.eq_iff_iff, overlaps_iff]
  constructor
  · rintro ⟨other, place, lit, same⟩
    simp only [pixel_point, Bool.and_eq_true, decide_eq_true_eq] at same
    obtain ⟨rfl, rfl⟩ := same
    exact lit
  · intro lit
    exact ⟨row, column, lit, by simp [pixel_point]⟩

theorem overlaps_dark (screen : Screen) : screen.overlaps dark = false := by
  rw [overlaps_eq_false_iff]
  intro row column lit
  exact pixel_dark row column

theorem overlaps_xor_of_apart (screen first second : Screen) (apart : first.overlaps second = false) :
    screen.overlaps (first ^^^ second) = (screen.overlaps first || screen.overlaps second) := by
  rw [overlaps_eq_false_iff] at apart
  rw [Bool.eq_iff_iff, Bool.or_eq_true, overlaps_iff, overlaps_iff, overlaps_iff]
  constructor
  · rintro ⟨row, column, under, above⟩
    cases covered : first.pixel row column with
    | true => exact Or.inl ⟨row, column, under, covered⟩
    | false => exact Or.inr ⟨row, column, under, by simpa [covered] using above⟩
  · rintro (⟨row, column, under, above⟩ | ⟨row, column, under, above⟩)
    · exact ⟨row, column, under, by simp [above, apart row column above]⟩
    · refine ⟨row, column, under, ?_⟩
      cases covered : first.pixel row column with
      | true => exact absurd above (by simp [apart row column covered])
      | false => simp [covered, above]

/-- The first `count` pixels of a sprite row that starts at column `left`. -/
def stripe (value : UInt8) (left : Nat) (row : Fin 32) : (count : Nat) → Screen
  | 0 => dark
  | count + 1 =>
    stripe value left row count ^^^
      if value.toBitVec.getMsbD count then
        point row ⟨(left + count) % 64, Nat.mod_lt _ (by decide)⟩
      else dark

theorem pixel_stripe (value : UInt8) (left : Nat) (row other : Fin 32) (column : Fin 64) (count : Nat)
    (short : count ≤ 8) :
    (stripe value left row count).pixel other column =
      (decide (other = row) && (decide ((column.val + 64 - left % 64) % 64 < count) &&
        value.toBitVec.getMsbD ((column.val + 64 - left % 64) % 64))) := by
  induction count with
  | zero => simp [stripe]
  | succ count ih =>
    rw [stripe, pixel_xor, ih (by omega)]
    have inside : (left + count) % 64 < 64 := Nat.mod_lt _ (by decide)
    have place : column = ⟨(left + count) % 64, inside⟩ ↔
        (column.val + 64 - left % 64) % 64 = count := by
      rw [Fin.ext_iff]
      dsimp only
      omega
    by_cases here : (column.val + 64 - left % 64) % 64 = count
    · rw [here]
      cases value.toBitVec.getMsbD count with
      | true => simp [pixel_point, place, here]
      | false => simp
    · have same : ((column.val + 64 - left % 64) % 64 < count + 1) ↔
          ((column.val + 64 - left % 64) % 64 < count) := by omega
      simp only [same]
      cases value.toBitVec.getMsbD count with
      | true => simp [pixel_point, place, here]
      | false => simp

theorem footprint_succ (rows : Nat → UInt8) (left top count : Nat) (short : count < 32) :
    footprint rows (count + 1) left top =
      footprint rows count left top ^^^
        stripe (rows count) left ⟨(top + count) % 32, Nat.mod_lt _ (by decide)⟩ 8 := by
  apply ext_pixel
  intro row column
  rw [pixel_xor, pixel_footprint, pixel_footprint, pixel_stripe _ _ _ _ _ _ (Nat.le_refl 8)]
  have inside : (top + count) % 32 < 32 := Nat.mod_lt _ (by decide)
  have place : row = ⟨(top + count) % 32, inside⟩ ↔ (row.val + 32 - top % 32) % 32 = count := by
    rw [Fin.ext_iff]
    dsimp only
    omega
  by_cases here : (row.val + 32 - top % 32) % 32 = count
  · simp [place, here]
  · have same : ((row.val + 32 - top % 32) % 32 < count + 1) ↔
        ((row.val + 32 - top % 32) % 32 < count) := by omega
    simp [place, here, same]

theorem pixel_footprint_below (rows : Nat → UInt8) (left top count : Nat) (short : count < 32)
    (column : Fin 64) :
    (footprint rows count left top).pixel ⟨(top + count) % 32, Nat.mod_lt _ (by decide)⟩ column =
      false := by
  have below : ((top + count) % 32 + 32 - top % 32) % 32 = count := by omega
  rw [pixel_footprint]
  simp [below]

theorem pixel_setPixel (screen : Screen) (row other : Fin 32) (column place : Fin 64) (lit : Bool) :
    (screen.setPixel row column lit).pixel other place =
      if other = row ∧ place = column then lit else screen.pixel other place := by
  unfold setPixel
  by_cases here : other = row ∧ place = column
  · obtain ⟨rfl, rfl⟩ := here
    split
    next same => simpa using same
    next differs => cases lit <;> simp_all [pixel_point]
  · have apart : (point row column).pixel other place = false := by
      rw [pixel_point]
      simpa using here
    rw [if_neg here]
    split
    · rfl
    · simp [apart]

end Screen

namespace Guarded

def pixel (screen : Screen) (row column : Nat) : Option UInt8 :=
  if inside : row < Screen.height ∧ column < Screen.width then
    some (screen.level ⟨row, inside.1⟩ ⟨column, inside.2⟩)
  else none

/-- A screen takes no other bytes than zero and one. -/
def setPixel (screen : Screen) (row column : Nat) (level : UInt8) : Option Screen :=
  if inside : row < Screen.height ∧ column < Screen.width ∧ level ≤ 1 then
    some (screen.setPixel ⟨row, inside.1⟩ ⟨column, inside.2.1⟩ (level == 1))
  else none

/-- Draws one pixel, on a screen and with the byte that tells whether a lit pixel was met so far. -/
def drawPixel (row column : Nat) (bit : UInt8) (drawn : Screen × UInt8) : Option (Screen × UInt8) := do
  let old ← pixel drawn.1 row column
  let screen ← setPixel drawn.1 row column (old ^^^ bit)
  return (screen, drawn.2 ||| bit &&& old)

def drawRow (value : UInt8) (left row : Nat) : (count : Nat) → Screen × UInt8 → Option (Screen × UInt8)
  | 0, drawn => some drawn
  | count + 1, drawn => do
    let before ← drawRow value left row count drawn
    let shift ← difference? 7 count
    let place ← count? (left + count)
    drawPixel row (place % Screen.width) (value >>> .ofNat shift &&& 1) before

def drawRows (machine : Machine) (left top : Nat) : (count : Nat) → Option (Screen × UInt8)
  | 0 => some (machine.screen, 0)
  | count + 1 => do
    let before ← drawRows machine left top count
    let value ← cell machine.memory (machine.index + .ofNat count)
    let place ← count? (top + count)
    drawRow value left (place % Screen.height) 8 before

def draw (machine : Machine) (x y height : Nat) : Option Machine := do
  let left ← register machine x
  let top ← register machine y
  let (screen, hit) ← drawRows machine left.toNat top.toNat height
  let flagged ← setRegister machine 15 hit
  return { flagged with screen, redraw := true }

/-- What drawing a whole mark leaves: the screen and whether a lit pixel was met. -/
def drawn (screen mark : Screen) : Screen × UInt8 := (screen ^^^ mark, (screen.overlaps mark).toUInt8)

private theorem drawn_dark (screen : Screen) : drawn screen .dark = (screen, 0) := by
  rw [drawn, Screen.xor_dark, Screen.overlaps_dark]
  rfl

private theorem bit_eq (value : UInt8) (count : Nat) (inside : count < 8) :
    value >>> .ofNat (7 - count) &&& 1 = (value.toBitVec.getMsbD count).toUInt8 := by
  have values : ∀ (value : Fin 256) (count : Fin 8),
      (UInt8.ofNat value.val) >>> .ofNat (7 - count.val) &&& 1 =
        ((UInt8.ofNat value.val).toBitVec.getMsbD count.val).toUInt8 := by decide +kernel
  have same := values ⟨value.toNat, value.toNat_lt⟩ ⟨count, inside⟩
  rwa [UInt8.ofNat_toNat] at same

private theorem drawPixel_drawn (screen mark : Screen) (row : Fin 32) (column : Fin 64) (lit : Bool)
    (fresh : mark.pixel row column = false) :
    drawPixel row.val column.val lit.toUInt8 (drawn screen mark) =
      some (drawn screen (mark ^^^ if lit then Screen.point row column else .dark)) := by
  have bound : row.val < Screen.height ∧ column.val < Screen.width := ⟨row.isLt, column.isLt⟩
  have old : pixel (drawn screen mark).1 row.val column.val =
      some (screen.pixel row column).toUInt8 := by
    unfold pixel
    rw [dif_pos bound]
    simp [drawn, Screen.level, fresh]
  have level : ∀ old lit : Bool, old.toUInt8 ^^^ lit.toUInt8 ≤ 1 ∧
      (old.toUInt8 ^^^ lit.toUInt8 == 1) = (old ^^ lit) := by decide
  obtain ⟨small, one⟩ := level (screen.pixel row column) lit
  have apart : mark.overlaps (if lit then Screen.point row column else .dark) = false := by
    cases lit with
    | true => exact (Screen.overlaps_point mark row column).trans fresh
    | false => exact Screen.overlaps_dark mark
  unfold drawPixel
  rw [old]
  simp only [Option.bind_eq_bind, Option.bind_some, setPixel, bound, small, and_self, dif_pos, one]
  congr 2
  · apply Screen.ext_pixel
    intro other place
    rw [Screen.pixel_setPixel]
    cases lit with
    | true =>
      by_cases here : other = row ∧ place = column
      · obtain ⟨rfl, rfl⟩ := here
        simp [Screen.pixel_point, fresh]
      · have dark : (Screen.point row column).pixel other place = false := by
          rw [Screen.pixel_point]
          simpa using here
        simp [drawn, here, dark]
    | false =>
      split
      next here =>
        obtain ⟨rfl, rfl⟩ := here
        simp [fresh]
      next => simp [drawn]
  · simp only [drawn]
    rw [Screen.overlaps_xor_of_apart _ _ _ apart]
    cases lit with
    | true =>
      rw [if_pos rfl, Screen.overlaps_point]
      cases screen.overlaps mark <;> cases screen.pixel row column <;> rfl
    | false =>
      rw [if_neg (by decide), Screen.overlaps_dark]
      cases screen.overlaps mark <;> cases screen.pixel row column <;> rfl

private theorem drawRow_drawn (screen mark : Screen) (value : UInt8) (left count : Nat) (row : Fin 32)
    (small : left < 256) (short : count ≤ 8) (fresh : ∀ column, mark.pixel row column = false) :
    drawRow value left row.val count (drawn screen mark) =
      some (drawn screen (mark ^^^ Screen.stripe value left row count)) := by
  induction count with
  | zero => rw [drawRow, Screen.stripe, Screen.xor_dark]
  | succ count ih =>
    have inside : (left + count) % 64 < 64 := Nat.mod_lt _ (by decide)
    -- The pixels of the row that are drawn already lie in other columns.
    have apart : (mark ^^^ Screen.stripe value left row count).pixel row
        ⟨(left + count) % 64, inside⟩ = false := by
      have distance : ((left + count) % 64 + 64 - left % 64) % 64 = count := by omega
      rw [Screen.pixel_xor, fresh, Screen.pixel_stripe _ _ _ _ _ _ (by omega), distance]
      simp
    unfold drawRow
    rw [ih (by omega), difference?_eq 7 count (by omega), count?_eq (left + count) (by omega)]
    simp only [Option.bind_eq_bind, Option.bind_some, Screen.width]
    rw [bit_eq value count (by omega), drawPixel_drawn screen _ row ⟨_, inside⟩ _ apart,
      Screen.xor_assoc]
    rfl

private theorem drawRows_eq (machine : Machine) (left top count : Nat) (narrow : left < 256)
    (low : top < 256) (short : count ≤ 32) :
    drawRows machine left top count =
      some (drawn machine.screen
        (.footprint (fun row => machine.memory.read (machine.index + .ofNat row)) count left top)) := by
  induction count with
  | zero =>
    have empty : Screen.footprint
        (fun row => machine.memory.read (machine.index + .ofNat row)) 0 left top = .dark := by
      apply Screen.ext_pixel
      intro row column
      simp [Screen.pixel_footprint]
    rw [empty, drawn_dark]
    rfl
  | succ count ih =>
    unfold drawRows
    rw [ih (by omega), cell_eq, count?_eq (top + count) (by omega)]
    simp only [Option.bind_eq_bind, Option.bind_some, Screen.height]
    rw [drawRow_drawn machine.screen _ _ left 8 ⟨(top + count) % 32, Nat.mod_lt _ (by decide)⟩ narrow
      (Nat.le_refl 8) (Screen.pixel_footprint_below _ left top count (by omega)),
      Screen.footprint_succ _ left top count (by omega)]

theorem draw_eq (machine : Machine) (x y : Register) (height : Digit) :
    draw machine x.val y.val height.val = some (machine.draw x y height.val) := by
  have flag : (15 : Nat) = (Register.flag).val := rfl
  unfold draw
  rw [register_eq, register_eq]
  simp only [Option.bind_eq_bind, Option.bind_some]
  rw [drawRows_eq machine _ _ height.val (machine.register x).toNat_lt (machine.register y).toNat_lt
    (by omega)]
  simp only [Option.bind_some, drawn, flag, setRegister_eq]
  rfl

end Guarded

end ChipEight
