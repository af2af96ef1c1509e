import ChipEight.Randomness.Keystream

/-! Sources of random words. A source is an endless sequence of words together with the number of words
that have been taken from it; a random byte is the low byte of the next word. -/

namespace ChipEight

structure WordSource where
  word : Nat → UInt32
  taken : Nat

namespace WordSource

def ofSeed (seed : UInt64) : WordSource :=
  let key := Keystream.keyOfSeed seed
  ⟨Keystream.word key, 0⟩

/-- Repeats a list of words without end; the empty list yields zeros. -/
def cycle (words : List UInt32) : WordSource :=
  let table := words.toArray
  ⟨fun position => table[position % table.size]?.getD 0, 0⟩

def byte (source : WordSource) : UInt8 := (source.word source.taken).toUInt8

def advance (source : WordSource) : WordSource := { source with taken := source.taken + 1 }

end WordSource

end ChipEight
