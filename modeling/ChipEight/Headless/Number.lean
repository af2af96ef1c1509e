/-! Decimal numbers on a command line. A sign may come first and zeros may lead; anything but the digits
0 to 9 is refused. -/

namespace ChipEight.Headless

def digits? (text : List Char) : Option Nat :=
  if text.isEmpty || !text.all Char.isDigit then none
  else some (text.foldl (fun value digit => 10 * value + (digit.toNat - '0'.toNat)) 0)

/-- A count of 32 bits. Zero may also carry a minus sign. -/
def count? (text : String) : Option UInt32 :=
  let value? := match text.toList with
    | '+' :: rest => digits? rest
    | '-' :: rest => (digits? rest).filter (· == 0)
    | unsigned => digits? unsigned
  (value?.filter (· < UInt32.size)).map .ofNat

/-- A seed of 64 bits, which never carries a minus sign. -/
def seed? (text : String) : Option UInt64 :=
  let value? := match text.toList with
    | '+' :: rest => digits? rest
    | unsigned => digits? unsigned
  (value?.filter (· < UInt64.size)).map .ofNat

end ChipEight.Headless
