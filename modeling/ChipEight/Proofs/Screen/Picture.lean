import ChipEight.Screen.Picture

/-! The two renderings of a screen are faithful. Both are blocks of one size laid end to end, a block for each
row and in it one for each pixel, so every symbol and every byte has its place; what is printed there gives
the pixel back, and with it the screen and the other rendering. -/

namespace ChipEight.Screen

section Blocks

variable {α β : Type} (block : α → List β) (width : Nat) (uniform : ∀ item, (block item).length = width)

include uniform

theorem length_flatMap_uniform (items : List α) : (items.flatMap block).length = width * items.length := by
  induction items with
  | nil => rfl
  | cons item rest ih =>
    rw [List.flatMap_cons, List.length_append, uniform, ih, List.length_cons, Nat.mul_succ, Nat.add_comm]

/-- Blocks of one size that are laid end to end start at the multiples of the size. -/
theorem getElem?_flatMap_uniform (items : List α) (place offset : Nat) (inside : offset < width) :
    (items.flatMap block)[width * place + offset]? = items[place]?.bind fun item => (block item)[offset]? := by
  induction items generalizing place with
  | nil => rfl
  | cons item rest ih =>
    rw [List.flatMap_cons]
    cases place with
    | zero =>
      rw [Nat.mul_zero, Nat.zero_add, List.getElem?_append_left (by rw [uniform]; exact inside)]
      rfl
    | succ place =>
      have behind : width * (place + 1) + offset = (block item).length + (width * place + offset) := by
        rw [uniform, Nat.mul_succ]
        omega
      rw [behind, List.getElem?_append_right (Nat.le_add_right _ _), Nat.add_sub_cancel_left, ih]
      rfl

end Blocks

/-- With a separator at the end too, every item has one behind it. -/
theorem intercalate_concat {α : Type} (separator : α) (items : List (List α)) (filled : items ≠ []) :
    [separator].intercalate items ++ [separator] = items.flatMap fun item => item ++ [separator] := by
  induction items with
  | nil => contradiction
  | cons item rest ih =>
    cases rest with
    | nil => simp
    | cons next rest =>
      rw [List.intercalate_cons_cons, List.append_assoc, ih (List.cons_ne_nil _ _)]
      rfl

theorem getElem?_rowPixels (screen : Screen) (row : Fin 32) (column : Fin 64) :
    (screen.rowPixels row)[column.val]? = some (screen.pixel row column) := by
  simp [rowPixels]

theorem length_rowPixels (screen : Screen) (row : Fin 32) : (screen.rowPixels row).length = 64 := by
  rw [rowPixels, List.length_map, List.length_finRange]

/-- A row of symbols and the line break behind it. -/
def lineOf (screen : Screen) (row : Fin 32) : List Char := (screen.rowPixels row).map symbol ++ ['\n']

theorem length_symbols (screen : Screen) (row : Fin 32) :
    ((screen.rowPixels row).map symbol).length = 64 := by
  rw [List.length_map, length_rowPixels]

theorem length_lineOf (screen : Screen) (row : Fin 32) : (screen.lineOf row).length = 65 := by
  rw [lineOf, List.length_append, length_symbols]
  rfl

theorem getElem?_lineOf_break (screen : Screen) (row : Fin 32) :
    (screen.lineOf row)[64]? = some '\n' := by
  rw [lineOf, ← screen.length_symbols row, List.getElem?_concat_length]

theorem getElem?_lineOf (screen : Screen) (row : Fin 32) (column : Fin 64) :
    (screen.lineOf row)[column.val]? = some (symbol (screen.pixel row column)) := by
  rw [lineOf, List.getElem?_append_left (by rw [length_symbols]; exact column.isLt), List.getElem?_map,
    getElem?_rowPixels]
  rfl

theorem characters_concat (screen : Screen) :
    screen.characters ++ ['\n'] = (List.finRange 32).flatMap screen.lineOf := by
  rw [characters, intercalate_concat _ _ (List.ne_nil_of_length_pos (by simp)), List.flatMap_map]
  rfl

theorem length_characters (screen : Screen) : screen.characters.length = 2079 := by
  have whole := congrArg List.length screen.characters_concat
  rw [length_flatMap_uniform _ 65 screen.length_lineOf, List.length_append, List.length_finRange,
    List.length_singleton] at whole
  omega

theorem getElem?_characters (screen : Screen) (row : Fin 32) (offset : Nat) (inside : offset < 65)
    (before : 65 * row.val + offset < 2079) :
    screen.characters[65 * row.val + offset]? = (screen.lineOf row)[offset]? := by
  rw [← screen.length_characters] at before
  have whole : (screen.characters ++ ['\n'])[65 * row.val + offset]? = _ :=
    List.getElem?_append_left before
  rw [← whole, characters_concat, getElem?_flatMap_uniform _ 65 screen.length_lineOf _ _ _ inside]
  simp

/-- The symbol of a pixel. -/
theorem getElem?_characters_pixel (screen : Screen) (row : Fin 32) (column : Fin 64) :
    screen.characters[65 * row.val + column.val]? = some (symbol (screen.pixel row column)) := by
  rw [getElem?_characters _ _ _ (by omega) (by omega), getElem?_lineOf]

theorem symbol_ne_break (lit : Bool) : symbol lit ≠ '\n' := by
  cases lit <;> decide

/-- Every row but the last ends with a line break, and there is no other. -/
theorem getElem?_characters_eq_break (screen : Screen) (place : Nat) :
    screen.characters[place]? = some '\n' ↔ ∃ row < 31, place = 65 * row + 64 := by
  constructor
  · intro found
    have inside := (List.getElem?_eq_some_iff.mp found).1
    rw [length_characters] at inside
    have split : place = 65 * (place / 65) + place % 65 := (Nat.div_add_mod place 65).symm
    by_cases last : place % 65 = 64
    · exact ⟨place / 65, by omega, by omega⟩
    · have shown := screen.getElem?_characters_pixel ⟨place / 65, by omega⟩ ⟨place % 65, by omega⟩
      dsimp only at shown
      rw [← split, found] at shown
      exact absurd (Option.some.inj shown).symm (symbol_ne_break _)
  · rintro ⟨row, notLast, rfl⟩
    have inside : row < 32 := by omega
    rw [screen.getElem?_characters ⟨row, inside⟩ 64 (by decide) (by dsimp only; omega), getElem?_lineOf_break]

def rowBytes (screen : Screen) (row : Fin 32) : List UInt8 :=
  (screen.rowPixels row).flatMap fun lit => List.replicate 3 (intensity lit)

theorem length_rowBytes (screen : Screen) (row : Fin 32) : (screen.rowBytes row).length = 192 := by
  rw [rowBytes, length_flatMap_uniform _ 3 fun lit => List.length_replicate, length_rowPixels]

theorem length_rgb24 (screen : Screen) : screen.rgb24.length = 6144 := by
  change ((List.finRange 32).flatMap screen.rowBytes).length = 6144
  rw [length_flatMap_uniform _ 192 screen.length_rowBytes, List.length_finRange]

/-- The three equal channels of a pixel. -/
theorem getElem?_rgb24 (screen : Screen) (row : Fin 32) (column : Fin 64) (channel : Fin 3) :
    screen.rgb24[3 * (64 * row.val + column.val) + channel.val]? =
      some (intensity (screen.pixel row column)) := by
  have place : 3 * (64 * row.val + column.val) + channel.val =
      192 * row.val + (3 * column.val + channel.val) := by omega
  change ((List.finRange 32).flatMap screen.rowBytes)[_]? = _
  rw [place, getElem?_flatMap_uniform _ 192 screen.length_rowBytes _ _ _ (by omega)]
  simp only [List.getElem?_eq_getElem, List.length_finRange, row.isLt, List.getElem_finRange, Option.bind_some]
  change (screen.rowBytes row)[_]? = _
  rw [rowBytes, getElem?_flatMap_uniform _ 3 (fun lit => List.length_replicate) _ _ _ channel.isLt,
    getElem?_rowPixels, Option.bind_some, List.getElem?_replicate, if_pos channel.isLt]

/-- The screen whose lit pixels are given. -/
def ofPixels (lit : Fin 32 → Fin 64 → Bool) : Screen :=
  ofRows ((List.finRange 32).map fun row =>
    (BitVec.ofBoolListBE ((List.finRange 64).map (lit row))).cast (by simp))

theorem pixel_ofPixels (lit : Fin 32 → Fin 64 → Bool) (row : Fin 32) (column : Fin 64) :
    (ofPixels lit).pixel row column = lit row column := by
  simp [ofPixels, ofRows, pixel, BitVec.getMsbD_cast]

/-- Reads a screen from its text. -/
def ofText (text : String) : Screen :=
  ofPixels fun row column => text.toList[65 * row.val + column.val]? == some '#'

/-- Reads a screen from the bytes of its image. -/
def ofRgb24 (bytes : List UInt8) : Screen :=
  ofPixels fun row column => bytes[3 * (64 * row.val + column.val)]? == some 255

theorem ofText_text (screen : Screen) : ofText screen.text = screen := by
  apply ext_pixel
  intro row column
  rw [ofText, pixel_ofPixels, text, String.toList_ofList, getElem?_characters_pixel]
  cases screen.pixel row column <;> rfl

theorem ofRgb24_rgb24 (screen : Screen) : ofRgb24 screen.rgb24 = screen := by
  apply ext_pixel
  intro row column
  have first := screen.getElem?_rgb24 row column 0
  rw [Fin.val_zero, Nat.add_zero] at first
  rw [ofRgb24, pixel_ofPixels, first]
  cases screen.pixel row column <;> rfl

theorem text_inj (screen other : Screen) : screen.text = other.text ↔ screen = other :=
  ⟨fun same => by rw [← ofText_text screen, same, ofText_text], congrArg text⟩

theorem rgb24_inj (screen other : Screen) : screen.rgb24 = other.rgb24 ↔ screen = other :=
  ⟨fun same => by rw [← ofRgb24_rgb24 screen, same, ofRgb24_rgb24], congrArg rgb24⟩

/-- Both renderings have the same pixels, each at its place, and nothing else but the line breaks of the text.
Either can be read back, so a screen is determined by its text and by its image, and they by each other. -/
theorem pictures_faithful (screen other : Screen) :
    let characters := screen.text.toList
    let bytes := screen.rgb24
    screen.text.length = 2079 ∧ bytes.length = 6144 ∧
    (∀ place, characters[place]? = some '\n' ↔ ∃ row < 31, place = 65 * row + 64) ∧
    (∀ (row : Fin 32) (column : Fin 64),
      characters[65 * row.val + column.val]? = some (if screen.pixel row column then '#' else '.') ∧
      ∀ channel : Fin 3, bytes[3 * (64 * row.val + column.val) + channel.val]? =
        some (if screen.pixel row column then 255 else 0)) ∧
    ofText screen.text = screen ∧ ofRgb24 bytes = screen ∧
    (screen.text = other.text ↔ screen = other) ∧ (bytes = other.rgb24 ↔ screen = other) ∧
    (screen.text = other.text ↔ bytes = other.rgb24) := by
  intro characters bytes
  have printed : characters = screen.characters := String.toList_ofList
  refine ⟨?_, screen.length_rgb24, ?_, ?_, screen.ofText_text, screen.ofRgb24_rgb24,
    screen.text_inj other, screen.rgb24_inj other, ?_⟩
  · rw [text, String.length_ofList, length_characters]
  · rw [printed]
    exact screen.getElem?_characters_eq_break
  · intro row column
    rw [printed]
    exact ⟨screen.getElem?_characters_pixel row column, screen.getElem?_rgb24 row column⟩
  · exact (screen.text_inj other).trans (screen.rgb24_inj other).symm

end ChipEight.Screen
