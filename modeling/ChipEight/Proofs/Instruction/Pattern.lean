import ChipEight.Instruction.Encoding

/-! The instruction set as a table of patterns. A pattern fixes some of the four digits of a word and leaves
the others to operands; the decoder accepts exactly the words that fit one of the patterns. -/

namespace ChipEight

structure Pattern where
  leading : Option Nat
  x : Option Nat
  y : Option Nat
  last : Option Nat
  deriving DecidableEq

namespace Pattern

/-- A place that is not fixed is left to an operand. -/
def Fits : Option Nat → Nat → Prop
  | none, _ => True
  | some fixed, digit => digit = fixed

def Accepts (pattern : Pattern) (word : UInt16) : Prop :=
  Fits pattern.leading (Word.leading word) ∧ Fits pattern.x (Word.x word).val ∧
    Fits pattern.y (Word.y word).val ∧ Fits pattern.last (Word.last word).val

instance (place : Option Nat) (digit : Nat) : Decidable (Fits place digit) :=
  match place with
  | none => inferInstanceAs (Decidable True)
  | some fixed => inferInstanceAs (Decidable (digit = fixed))

instance (pattern : Pattern) (word : UInt16) : Decidable (pattern.Accepts word) :=
  inferInstanceAs (Decidable (_ ∧ _ ∧ _ ∧ _))

def call : Pattern := ⟨some 0x2, none, none, none⟩

def arithmetic (last : Nat) : Pattern := ⟨some 0x8, none, none, some last⟩

def keypad (y last : Nat) : Pattern := ⟨some 0xE, none, some y, some last⟩

def device (y last : Nat) : Pattern := ⟨some 0xF, none, some y, some last⟩

def table : List Pattern := [
  ⟨some 0x0, some 0x0, some 0xE, some 0x0⟩,
  ⟨some 0x0, some 0x0, some 0xE, some 0xE⟩,
  ⟨some 0x1, none, none, none⟩,
  call,
  ⟨some 0x3, none, none, none⟩,
  ⟨some 0x4, none, none, none⟩,
  ⟨some 0x5, none, none, some 0x0⟩,
  ⟨some 0x6, none, none, none⟩,
  ⟨some 0x7, none, none, none⟩,
  arithmetic 0x0, arithmetic 0x1, arithmetic 0x2, arithmetic 0x3, arithmetic 0x4,
  arithmetic 0x5, arithmetic 0x6, arithmetic 0x7, arithmetic 0xE,
  ⟨some 0x9, none, none, some 0x0⟩,
  ⟨some 0xA, none, none, none⟩,
  ⟨some 0xB, none, none, none⟩,
  ⟨some 0xC, none, none, none⟩,
  ⟨some 0xD, none, none, none⟩,
  keypad 0x9 0xE, keypad 0xA 0x1,
  device 0x0 0x7, device 0x0 0xA, device 0x1 0x5, device 0x1 0x8, device 0x1 0xE,
  device 0x2 0x9, device 0x3 0x3, device 0x5 0x5, device 0x6 0x5]

end Pattern

def Instruction.pattern : Instruction → Pattern
  | .clearScreen => ⟨some 0x0, some 0x0, some 0xE, some 0x0⟩
  | .ret => ⟨some 0x0, some 0x0, some 0xE, some 0xE⟩
  | .jump _ => ⟨some 0x1, none, none, none⟩
  | .call _ => .call
  | .skip (.equalsByte _ _) => ⟨some 0x3, none, none, none⟩
  | .skip (.differsByte _ _) => ⟨some 0x4, none, none, none⟩
  | .skip (.equalsRegister _ _) => ⟨some 0x5, none, none, some 0x0⟩
  | .load _ _ => ⟨some 0x6, none, none, none⟩
  | .increase _ _ => ⟨some 0x7, none, none, none⟩
  | .compute operation _ _ => .arithmetic operation.digit.val
  | .skip (.differsRegister _ _) => ⟨some 0x9, none, none, some 0x0⟩
  | .setIndex _ => ⟨some 0xA, none, none, none⟩
  | .jumpFromV0 _ => ⟨some 0xB, none, none, none⟩
  | .random _ _ => ⟨some 0xC, none, none, none⟩
  | .draw _ _ _ => ⟨some 0xD, none, none, none⟩
  | .skip (.keyHeld _) => .keypad 0x9 0xE
  | .skip (.keyReleased _) => .keypad 0xA 0x1
  | .readDelay _ => .device 0x0 0x7
  | .awaitKey _ => .device 0x0 0xA
  | .setDelay _ => .device 0x1 0x5
  | .setSound _ => .device 0x1 0x8
  | .advanceIndex _ => .device 0x1 0xE
  | .pointToGlyph _ => .device 0x2 0x9
  | .storeDecimal _ => .device 0x3 0x3
  | .storeRegisters _ => .device 0x5 0x5
  | .restoreRegisters _ => .device 0x6 0x5

namespace Pattern

open Instruction Word

theorem pattern_mem (instruction : Instruction) : instruction.pattern ∈ table := by
  cases instruction with
  | skip condition => cases condition <;> simp [table, Instruction.pattern]
  | compute operation x y =>
    change arithmetic operation.digit.val ∈ table
    cases operation <;> decide
  | _ => simp [table, Instruction.pattern]

theorem y_ofByte (leading : Nat) (x : Register) (value : UInt8) (small : leading < 16) :
    (Word.y (ofByte leading x value)).val = value.toNat / 16 := by
  have bound := value.toNat_lt
  simp only [Word.y, toNat_ofByte _ _ _ small]
  omega

theorem last_ofByte (leading : Nat) (x : Register) (value : UInt8) (small : leading < 16) :
    (Word.last (ofByte leading x value)).val = value.toNat % 16 := by
  simp only [Word.last, toNat_ofByte _ _ _ small]
  omega

theorem accepts_encode (instruction : Instruction) : instruction.pattern.Accepts (encode instruction) := by
  cases instruction with
  | skip condition =>
    cases condition <;>
      simp [Accepts, Fits, Instruction.pattern, encode, keypad, leading_ofByte, y_ofByte, last_ofByte,
        leading_ofDigits, last_ofDigits]
  | clearScreen => exact ⟨rfl, rfl, rfl, rfl⟩
  | ret => exact ⟨rfl, rfl, rfl, rfl⟩
  | _ =>
    simp [Accepts, Fits, Instruction.pattern, encode, call, arithmetic, device, leading_ofTarget,
      leading_ofByte, y_ofByte, last_ofByte, leading_ofDigits, last_ofDigits]

theorem toNat_byte_eq (word : UInt16) :
    (Word.byte word).toNat = (Word.y word).val * 16 + (Word.last word).val := by
  rw [toNat_byte]
  simp only [Word.y, Word.last]
  omega

theorem toNat_eq (word : UInt16) :
    word.toNat = Word.leading word * 4096 + (Word.x word).val * 256 + (Word.y word).val * 16 +
      (Word.last word).val := by
  simp only [Word.leading, Word.x, Word.y, Word.last]
  omega

theorem eq_ofByte_of_device (word : UInt16) (y last : Nat) (accepted : (device y last).Accepts word) :
    word = ofByte 0xF (Word.x word) (.ofNat (y * 16 + last)) := by
  obtain ⟨leading, -, second, third⟩ := accepted
  simp only [Fits, device] at leading second third
  have low : byte word = .ofNat (y * 16 + last) := by
    rw [← second, ← third, ← toNat_byte_eq, UInt8.ofNat_toNat]
  have whole := eq_ofByte word
  rw [leading, low] at whole
  exact whole

theorem isSome_of_accepts (word : UInt16) (pattern : Pattern) (listed : pattern ∈ table)
    (accepted : pattern.Accepts word) : (decode word).isSome := by
  have whole := toNat_eq word
  have low := toNat_byte_eq word
  obtain ⟨leading, x, y, last⟩ := accepted
  simp only [table, List.mem_cons, List.not_mem_nil, or_false] at listed
  -- Each row of the table fixes the digits that one branch of the decoder looks at.
  repeat' (rcases listed with rfl | listed)
  all_goals
    simp only [Fits, call, arithmetic, keypad, device] at leading x y last
    simp [decode, leading, x, y, last, low, whole, Arithmetic.ofDigit?, Fin.ext_iff]

theorem isSome_decode_iff (word : UInt16) :
    (decode word).isSome ↔ ∃ pattern ∈ table, pattern.Accepts word := by
  constructor
  · intro decoded
    obtain ⟨instruction, found⟩ := Option.isSome_iff_exists.mp decoded
    obtain rfl := eq_encode_of_decode word instruction found
    exact ⟨instruction.pattern, pattern_mem instruction, accepts_encode instruction⟩
  · rintro ⟨pattern, listed, accepted⟩
    exact isSome_of_accepts word pattern listed accepted

theorem decode_eq_none_iff (word : UInt16) :
    decode word = none ↔ ∀ pattern ∈ table, ¬pattern.Accepts word := by
  rw [← Option.not_isSome_iff_eq_none, isSome_decode_iff]
  simp

theorem decode_call_iff (word : UInt16) :
    (∃ target, decode word = some (.call target)) ↔ call.Accepts word := by
  constructor
  · rintro ⟨target, decoded⟩
    obtain rfl := eq_encode_of_decode word _ decoded
    exact accepts_encode (.call target)
  · rintro ⟨leading, -⟩
    simp only [Fits, call] at leading
    exact ⟨Word.target word, by simp only [decode, leading]⟩

end Pattern

end ChipEight
