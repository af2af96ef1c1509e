/-! The keystream from which a seed makes random words: the ChaCha block function with twelve rounds, run
on the block numbers 0, 1, 2 and so on, under a key that the seed is stretched to. -/

namespace ChipEight.Keystream

abbrev Block := Vector UInt32 16

abbrev Key := Vector UInt32 8

def rotateLeft (word : UInt32) (count : UInt32) : UInt32 := word <<< count ||| word >>> (32 - count)

/-- The block is a square of four rows and four columns, of which the columns wrap around. -/
def position (row column : Nat) : Fin 16 := ⟨(4 * row + column % 4) % 16, Nat.mod_lt _ (by decide)⟩

def quarterRound (a b c d : Fin 16) (block : Block) : Block :=
  let block := block.set a (block[a] + block[b])
  let block := block.set d (rotateLeft (block[d] ^^^ block[a]) 16)
  let block := block.set c (block[c] + block[d])
  let block := block.set b (rotateLeft (block[b] ^^^ block[c]) 12)
  let block := block.set a (block[a] + block[b])
  let block := block.set d (rotateLeft (block[d] ^^^ block[a]) 8)
  let block := block.set c (block[c] + block[d])
  block.set b (rotateLeft (block[b] ^^^ block[c]) 7)

/-- A quarter round on each of four lines, which move to the right by `slope` columns a row. -/
def round (slope : Nat) (block : Block) : Block :=
  (List.range 4).foldl (fun block column =>
    quarterRound (position 0 column) (position 1 (column + slope)) (position 2 (column + 2 * slope))
      (position 3 (column + 3 * slope)) block) block

/-- The columns, then the diagonals. -/
def doubleRound (block : Block) : Block := round 1 (round 0 block)

def initialBlock (key : Key) (number : UInt64) : Block :=
  #v[0x61707865, 0x3320646E, 0x79622D32, 0x6B206574,
    key[0], key[1], key[2], key[3], key[4], key[5], key[6], key[7],
    number.toUInt32, (number >>> 32).toUInt32, 0, 0]

def block (key : Key) (number : UInt64) : Block :=
  let start := initialBlock key number
  (Nat.repeat doubleRound 6 start).zipWith (· + ·) start

def word (key : Key) (position : Nat) : UInt32 :=
  (block key (.ofNat (position / 16))).get ⟨position % 16, Nat.mod_lt _ (by decide)⟩

def advance (state : UInt64) : UInt64 := state * 6364136223846793005 + 11634580027462260723

/-- The word that a generator state yields: its high bits folded, then rotated by its top five. -/
def output (state : UInt64) : UInt32 :=
  let folded := (((state >>> 18) ^^^ state) >>> 27).toUInt32
  let count := (state >>> 59).toUInt32
  folded >>> count ||| folded <<< ((32 - count) % 32)

def keyOfSeed (seed : UInt64) : Key :=
  Vector.ofFn fun index => output (Nat.repeat advance (index.val + 1) seed)

end ChipEight.Keystream
