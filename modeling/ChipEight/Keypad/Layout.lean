import ChipEight.Keypad.Basic

/-! The keypad on a keyboard: its four by four block takes the left four columns of the digits and
letters, so that neighbouring keys stay neighbours. -/

namespace ChipEight.Keypad

def layout : List (Char × Key) := [
  ('1', 0x1), ('2', 0x2), ('3', 0x3), ('4', 0xC),
  ('q', 0x4), ('w', 0x5), ('e', 0x6), ('r', 0xD),
  ('a', 0x7), ('s', 0x8), ('d', 0x9), ('f', 0xE),
  ('z', 0xA), ('x', 0x0), ('c', 0xB), ('v', 0xF)]

/-- The key of a keyboard character. Only the case of the letters A to Z is ignored. -/
def keyOf? (character : Char) : Option Key := layout.lookup character.toLower

end ChipEight.Keypad
