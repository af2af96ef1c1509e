import ChipEight.Instruction.Basic

/-! Sixteen bit words as four hexadecimal digits. The first digit leads; the others are read as two registers
and a last digit, as a register and a byte of two digits, or as a memory cell of three digits. Each reading
has a builder, and the word is built again from its parts. -/

namespace ChipEight.Word

def leading (word : UInt16) : Nat := word.toNat / 4096

def x (word : UInt16) : Register := ⟨word.toNat / 256 % 16, Nat.mod_lt _ (by decide)⟩

def y (word : UInt16) : Register := ⟨word.toNat / 16 % 16, Nat.mod_lt _ (by decide)⟩

def last (word : UInt16) : Digit := ⟨word.toNat % 16, Nat.mod_lt _ (by decide)⟩

def byte (word : UInt16) : UInt8 := word.toUInt8

def target (word : UInt16) : Fin 4096 := ⟨word.toNat % 4096, Nat.mod_lt _ (by decide)⟩

def ofTarget (leading : Nat) (target : Fin 4096) : UInt16 := .ofNat (leading * 4096 + target.val)

def ofByte (leading : Nat) (x : Register) (value : UInt8) : UInt16 :=
  .ofNat (leading * 4096 + x.val * 256 + value.toNat)

def ofDigits (leading : Nat) (x y : Register) (last : Digit) : UInt16 :=
  .ofNat (leading * 4096 + x.val * 256 + y.val * 16 + last.val)

theorem toNat_ofTarget (leading : Nat) (target : Fin 4096) (small : leading < 16) :
    (ofTarget leading target).toNat = leading * 4096 + target.val := by
  simp only [ofTarget, UInt16.toNat_ofNat']
  omega

theorem toNat_ofByte (leading : Nat) (x : Register) (value : UInt8) (small : leading < 16) :
    (ofByte leading x value).toNat = leading * 4096 + x.val * 256 + value.toNat := by
  have bound := value.toNat_lt
  simp only [ofByte, UInt16.toNat_ofNat']
  omega

theorem toNat_ofDigits (leading : Nat) (x y : Register) (last : Digit) (small : leading < 16) :
    (ofDigits leading x y last).toNat = leading * 4096 + x.val * 256 + y.val * 16 + last.val := by
  simp only [ofDigits, UInt16.toNat_ofNat']
  omega

theorem toNat_byte (word : UInt16) : (byte word).toNat = word.toNat % 256 := by
  simp [byte]

theorem eq_ofTarget (word : UInt16) : word = ofTarget (leading word) (target word) := by
  have bound := word.toNat_lt
  apply UInt16.toNat_inj.mp
  rw [toNat_ofTarget _ _ (by unfold leading; omega)]
  simp only [leading, target]
  omega

theorem eq_ofByte (word : UInt16) : word = ofByte (leading word) (x word) (byte word) := by
  have bound := word.toNat_lt
  apply UInt16.toNat_inj.mp
  rw [toNat_ofByte _ _ _ (by unfold leading; omega), toNat_byte]
  simp only [leading, x]
  omega

theorem eq_ofDigits (word : UInt16) :
    word = ofDigits (leading word) (x word) (y word) (last word) := by
  have bound := word.toNat_lt
  apply UInt16.toNat_inj.mp
  rw [toNat_ofDigits _ _ _ _ (by unfold leading; omega)]
  simp only [leading, x, y, last]
  omega

theorem leading_ofTarget (leading : Nat) (target : Fin 4096) (small : leading < 16) :
    Word.leading (ofTarget leading target) = leading := by
  rw [Word.leading, toNat_ofTarget _ _ small]
  omega

theorem target_ofTarget (leading : Nat) (target : Fin 4096) (small : leading < 16) :
    Word.target (ofTarget leading target) = target := by
  apply Fin.ext
  simp only [Word.target, toNat_ofTarget _ _ small]
  omega

theorem leading_ofByte (leading : Nat) (x : Register) (value : UInt8) (small : leading < 16) :
    Word.leading (ofByte leading x value) = leading := by
  have bound := value.toNat_lt
  rw [Word.leading, toNat_ofByte _ _ _ small]
  omega

theorem x_ofByte (leading : Nat) (x : Register) (value : UInt8) (small : leading < 16) :
    Word.x (ofByte leading x value) = x := by
  have bound := value.toNat_lt
  apply Fin.ext
  simp only [Word.x, toNat_ofByte _ _ _ small]
  omega

theorem byte_ofByte (leading : Nat) (x : Register) (value : UInt8) (small : leading < 16) :
    byte (ofByte leading x value) = value := by
  have bound := value.toNat_lt
  apply UInt8.toNat_inj.mp
  rw [toNat_byte, toNat_ofByte _ _ _ small]
  omega

theorem ofDigits_eq_ofByte (leading : Nat) (x y : Register) (last : Digit) :
    ofDigits leading x y last = ofByte leading x (.ofNat (y.val * 16 + last.val)) := by
  have bound : y.val * 16 + last.val < 256 := by omega
  rw [ofDigits, ofByte, UInt8.toNat_ofNat', Nat.mod_eq_of_lt bound]
  exact congrArg UInt16.ofNat (by omega)

theorem leading_ofDigits (leading : Nat) (x y : Register) (last : Digit) (small : leading < 16) :
    Word.leading (ofDigits leading x y last) = leading := by
  rw [ofDigits_eq_ofByte, leading_ofByte _ _ _ small]

theorem x_ofDigits (leading : Nat) (x y : Register) (last : Digit) (small : leading < 16) :
    Word.x (ofDigits leading x y last) = x := by
  rw [ofDigits_eq_ofByte, x_ofByte _ _ _ small]

theorem y_ofDigits (leading : Nat) (x y : Register) (last : Digit) (small : leading < 16) :
    Word.y (ofDigits leading x y last) = y := by
  apply Fin.ext
  simp only [Word.y, toNat_ofDigits _ _ _ _ small]
  omega

theorem last_ofDigits (leading : Nat) (x y : Register) (last : Digit) (small : leading < 16) :
    Word.last (ofDigits leading x y last) = last := by
  apply Fin.ext
  simp only [Word.last, toNat_ofDigits _ _ _ _ small]
  omega

end ChipEight.Word
