/-! Numbers in messages. -/

namespace ChipEight.Numeral

/-- The hexadecimal text of a number after `0x`, in capitals and with at least `digits` digits. -/
def hexadecimal (digits value : Nat) : String :=
  let text := (Nat.toDigits 16 value).map Char.toUpper
  String.ofList ('0' :: 'x' :: (List.replicate (digits - text.length) '0' ++ text))

end ChipEight.Numeral
