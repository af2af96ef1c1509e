import ChipEight.Screen.Basic

/-! Two renderings of a screen: lines of text with `#` for a lit pixel and `.` for a dark one, and the
bytes of an image with three equal colour channels a pixel. Both list the pixels row by row. -/

namespace ChipEight.Screen

def rowPixels (screen : Screen) (row : Fin 32) : List Bool :=
  (List.finRange 64).map (screen.pixel row)

def symbol (lit : Bool) : Char := if lit then '#' else '.'

/-- One line for each row, with a line break between lines and none at the end. -/
def characters (screen : Screen) : List Char :=
  List.intercalate ['\n'] ((List.finRange 32).map fun row => (screen.rowPixels row).map symbol)

def text (screen : Screen) : String := String.ofList screen.characters

def intensity (lit : Bool) : UInt8 := if lit then 255 else 0

def rgb24 (screen : Screen) : List UInt8 :=
  (List.finRange 32).flatMap fun row =>
    (screen.rowPixels row).flatMap fun lit => List.replicate 3 (intensity lit)

end ChipEight.Screen
