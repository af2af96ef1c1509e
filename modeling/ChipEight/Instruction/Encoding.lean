import ChipEight.Instruction.Word

/-! The words of the instructions. The first digit, and for some instructions the last one or two, select
the operation, and the others are operands. The law `decode_eq_some_iff` says that decoding accepts exactly
the words that encoding produces and loses nothing. -/

namespace ChipEight

namespace Arithmetic

def ofDigit? : Nat → Option Arithmetic
  | 0x0 => some .copy
  | 0x1 => some .or
  | 0x2 => some .and
  | 0x3 => some .xor
  | 0x4 => some .add
  | 0x5 => some .subtract
  | 0x6 => some .shiftRight
  | 0x7 => some .subtractFrom
  | 0xE => some .shiftLeft
  | _ => none

def digit : Arithmetic → Digit
  | .copy => 0x0
  | .or => 0x1
  | .and => 0x2
  | .xor => 0x3
  | .add => 0x4
  | .subtract => 0x5
  | .shiftRight => 0x6
  | .subtractFrom => 0x7
  | .shiftLeft => 0xE

theorem ofDigit?_digit (operation : Arithmetic) : ofDigit? operation.digit.val = some operation := by
  cases operation <;> rfl

theorem digit_of_ofDigit? (digit : Nat) (operation : Arithmetic)
    (found : ofDigit? digit = some operation) : digit = operation.digit.val := by
  unfold ofDigit? at found
  split at found <;> first | contradiction | (obtain rfl := Option.some.inj found; rfl)

end Arithmetic

namespace Instruction

open Word

def decode (word : UInt16) : Option Instruction :=
  match leading word with
  | 0x0 => match word.toNat with
    | 0x00E0 => some .clearScreen
    | 0x00EE => some .ret
    | _ => none
  | 0x1 => some (.jump (target word))
  | 0x2 => some (.call (target word))
  | 0x3 => some (.skip (.equalsByte (x word) (byte word)))
  | 0x4 => some (.skip (.differsByte (x word) (byte word)))
  | 0x5 => if last word = 0 then some (.skip (.equalsRegister (x word) (y word))) else none
  | 0x6 => some (.load (x word) (byte word))
  | 0x7 => some (.increase (x word) (byte word))
  | 0x8 => (Arithmetic.ofDigit? (last word).val).map fun operation =>
      .compute operation (x word) (y word)
  | 0x9 => if last word = 0 then some (.skip (.differsRegister (x word) (y word))) else none
  | 0xA => some (.setIndex (target word))
  | 0xB => some (.jumpFromV0 (target word))
  | 0xC => some (.random (x word) (byte word))
  | 0xD => some (.draw (x word) (y word) (last word))
  | 0xE => match (byte word).toNat with
    | 0x9E => some (.skip (.keyHeld (x word)))
    | 0xA1 => some (.skip (.keyReleased (x word)))
    | _ => none
  | 0xF => match (byte word).toNat with
    | 0x07 => some (.readDelay (x word))
    | 0x0A => some (.awaitKey (x word))
    | 0x15 => some (.setDelay (x word))
    | 0x18 => some (.setSound (x word))
    | 0x1E => some (.advanceIndex (x word))
    | 0x29 => some (.pointToGlyph (x word))
    | 0x33 => some (.storeDecimal (x word))
    | 0x55 => some (.storeRegisters (x word))
    | 0x65 => some (.restoreRegisters (x word))
    | _ => none
  | _ => none

def encode : Instruction → UInt16
  | .clearScreen => 0x00E0
  | .ret => 0x00EE
  | .jump target => ofTarget 0x1 target
  | .call target => ofTarget 0x2 target
  | .skip (.equalsByte x value) => ofByte 0x3 x value
  | .skip (.differsByte x value) => ofByte 0x4 x value
  | .skip (.equalsRegister x y) => ofDigits 0x5 x y 0x0
  | .load x value => ofByte 0x6 x value
  | .increase x value => ofByte 0x7 x value
  | .compute operation x y => ofDigits 0x8 x y operation.digit
  | .skip (.differsRegister x y) => ofDigits 0x9 x y 0x0
  | .setIndex target => ofTarget 0xA target
  | .jumpFromV0 target => ofTarget 0xB target
  | .random x mask => ofByte 0xC x mask
  | .draw x y height => ofDigits 0xD x y height
  | .skip (.keyHeld x) => ofByte 0xE x 0x9E
  | .skip (.keyReleased x) => ofByte 0xE x 0xA1
  | .readDelay x => ofByte 0xF x 0x07
  | .awaitKey x => ofByte 0xF x 0x0A
  | .setDelay x => ofByte 0xF x 0x15
  | .setSound x => ofByte 0xF x 0x18
  | .advanceIndex x => ofByte 0xF x 0x1E
  | .pointToGlyph x => ofByte 0xF x 0x29
  | .storeDecimal x => ofByte 0xF x 0x33
  | .storeRegisters x => ofByte 0xF x 0x55
  | .restoreRegisters x => ofByte 0xF x 0x65

theorem eq_encode_of_decode (word : UInt16) (instruction : Instruction)
    (decoded : decode word = some instruction) : word = encode instruction := by
  have ofTarget := eq_ofTarget word
  have ofByte := eq_ofByte word
  have ofDigits := eq_ofDigits word
  unfold decode at decoded
  split at decoded <;> rename_i first <;> (try rw [first] at ofTarget ofByte ofDigits)
  case h_1 =>
    split at decoded
    next whole => obtain rfl := Option.some.inj decoded; exact UInt16.toNat_inj.mp whole
    next whole => obtain rfl := Option.some.inj decoded; exact UInt16.toNat_inj.mp whole
    next => contradiction
  case h_6 | h_10 =>
    split at decoded
    next final => obtain rfl := Option.some.inj decoded; rw [final] at ofDigits; exact ofDigits
    next => contradiction
  case h_9 =>
    obtain ⟨operation, found, rfl⟩ := Option.map_eq_some_iff.mp decoded
    have final := Arithmetic.digit_of_ofDigit? _ _ found
    rw [Fin.ext final] at ofDigits
    exact ofDigits
  case h_15 | h_16 =>
    split at decoded <;> rename_i final
    all_goals first
      | contradiction
      | (obtain rfl := Option.some.inj decoded
         rw [← UInt8.ofNat_toNat (x := byte word), final] at ofByte
         exact ofByte)
  case h_17 => contradiction
  all_goals
    obtain rfl := Option.some.inj decoded
    first | exact ofTarget | exact ofByte | exact ofDigits

theorem decode_encode (instruction : Instruction) : decode (encode instruction) = some instruction := by
  cases instruction with
  | skip condition =>
    cases condition <;>
      simp [decode, encode, leading_ofByte, x_ofByte, byte_ofByte, leading_ofDigits, x_ofDigits,
        y_ofDigits, last_ofDigits]
  | compute operation x y =>
    simp [decode, encode, leading_ofDigits, x_ofDigits, y_ofDigits, last_ofDigits,
      Arithmetic.ofDigit?_digit]
  | clearScreen | ret => rfl
  | _ =>
    simp [decode, encode, leading_ofTarget, target_ofTarget, leading_ofByte, x_ofByte, byte_ofByte,
      leading_ofDigits, x_ofDigits, y_ofDigits, last_ofDigits]

theorem decode_eq_some_iff (word : UInt16) (instruction : Instruction) :
    decode word = some instruction ↔ word = encode instruction :=
  ⟨eq_encode_of_decode word instruction, fun same => same ▸ decode_encode instruction⟩

end Instruction

end ChipEight
