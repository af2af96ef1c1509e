import ChipEight.Proofs.Machine.Footprint
import ChipEight.Proofs.Machine.Words
import Mathlib.Algebra.GroupWithZero.Nat

/-! Registers that pass through memory. Blocks of registers that are stored one after the other lie in memory
without a gap, around its end if need be, so that the same blocks come back if they are restored in the same
order. Where registers are restored from one place and stored at another, they copy the cells in between. -/

namespace ChipEight

/-- The leading registers of a register file, up to one of them. -/
structure Block where
  last : Register
  registers : Vector UInt8 16

namespace Block

def size (block : Block) : Nat := block.last.val + 1

def bytes (block : Block) : List UInt8 := block.registers.toList.take block.size

/-- The word that stores the block's registers. -/
def storing (block : Block) : UInt16 := Word.ofByte 0xF block.last 0x55

/-- The word that restores the block's registers. -/
def restoring (block : Block) : UInt16 := Word.ofByte 0xF block.last 0x65

def total (blocks : List Block) : Nat := (blocks.map size).sum

/-- The bytes of blocks that follow each other. -/
def stream (blocks : List Block) : List UInt8 := blocks.flatMap bytes

theorem total_cons (block : Block) (rest : List Block) : total (block :: rest) = block.size + total rest := by
  rw [total, List.map_cons, List.sum_cons, total]

theorem stream_cons (block : Block) (rest : List Block) :
    stream (block :: rest) = block.bytes ++ stream rest := by
  rw [stream, List.flatMap_cons, stream]

theorem length_bytes (block : Block) : block.bytes.length = block.size := by
  have bound := block.last.isLt
  rw [bytes, List.length_take, Vector.length_toList, size]
  omega

theorem length_stream (blocks : List Block) : (stream blocks).length = total blocks := by
  induction blocks with
  | nil => rfl
  | cons block rest ih =>
    rw [stream_cons, List.length_append, length_bytes, total_cons, ih]

theorem getElem?_bytes (block : Block) (r : Register) (inside : r ≤ block.last) :
    block.bytes[r.val]? = some (block.registers.get r) := by
  have bound : r.val < block.size := Nat.lt_succ_of_le inside
  rw [bytes, List.getElem?_take_of_lt bound, List.getElem?_eq_getElem (by simp), Vector.getElem_toList]
  rfl

/-- A register of a block is found behind the blocks before it. -/
theorem getElem?_stream (early late : List Block) (block : Block) (r : Register)
    (inside : r ≤ block.last) :
    (stream (early ++ block :: late))[total early + r.val]? = some (block.registers.get r) := by
  have bound : r.val < block.bytes.length := by
    rw [length_bytes]
    exact Nat.lt_succ_of_le inside
  rw [stream, List.flatMap_append, List.flatMap_cons, ← stream,
    List.getElem?_append_right (by rw [length_stream]; omega), length_stream, Nat.add_sub_cancel_left,
    List.getElem?_append_left bound, getElem?_bytes block r inside]

end Block

namespace Machine

variable (machine : Machine) (source : WordSource)

/-- Takes the registers of a block and stores them. -/
def storeBlock (block : Block) : Except Fault Machine :=
  { machine with registers := block.registers }.executeWord source block.storing

def storeBlocks (blocks : List Block) : Except Fault Machine :=
  blocks.foldlM (fun machine block => machine.storeBlock source block) machine

def restoreBlocks (blocks : List Block) : Except Fault Machine :=
  machine.executeWords source (blocks.map Block.restoring)

theorem executeWord_stores (x : Register) :
    ∃ next, machine.executeWord source (Word.ofByte 0xF x 0x55) = .ok next ∧
      machine.StoresRegisters next x :=
  ⟨_, machine.executeWord_encode source (.storeRegisters x), storesRegisters_writeAll machine _ x rfl⟩

theorem executeWord_restores (x : Register) :
    ∃ registers, machine.executeWord source (Word.ofByte 0xF x 0x65) = .ok { machine with
        registers, index := .wrap (machine.index + .ofNat (x.val + 1)) } ∧
      ∀ r : Register, registers.get r =
        if r ≤ x then machine.memory.read (machine.index + .ofNat r.val) else machine.register r := by
  have executed := machine.executeWord_encode source (.restoreRegisters x)
  have loaded := register_restore machine x
  obtain ⟨registers, same⟩ := restore_changes machine x
  rw [same] at loaded
  simp only [execute, same] at executed
  exact ⟨registers, executed, loaded⟩

theorem storeBlock_eq (block : Block) :
    machine.storeBlock source block = .ok { machine with
      registers := block.registers
      memory := machine.memory.writeAll machine.index block.bytes
      index := .wrap (machine.index + .ofNat block.size) } :=
  executeWord_encode _ source (.storeRegisters block.last)

theorem storeBlocks_cons (block : Block) (rest : List Block) :
    machine.storeBlocks source (block :: rest) =
      machine.storeBlock source block >>= fun next => next.storeBlocks source rest := rfl

theorem restoreBlocks_cons (block : Block) (rest : List Block) :
    machine.restoreBlocks source (block :: rest) =
      machine.executeWord source block.restoring >>= fun next => next.restoreBlocks source rest := rfl

/-- The index after blocks of some size is that far ahead of the one before them. -/
theorem toNat_index_ahead (size rest : Nat) :
    ((Address.wrap (machine.index + .ofNat size)).toNat + rest) % 4096 =
      (machine.index.toNat + (size + rest)) % 4096 := by
  rw [Address.toNat_wrap_add, UInt16.toNat_ofNat']
  omega

/-- Stored blocks follow each other in memory. -/
theorem storeBlocks_ok (blocks : List Block) (inside : machine.index.toNat < 4096) :
    ∃ registers index, machine.storeBlocks source blocks = .ok { machine with
      registers, index
      memory := machine.memory.writeAll machine.index (Block.stream blocks) } ∧
      index.toNat = (machine.index.toNat + Block.total blocks) % 4096 := by
  induction blocks generalizing machine with
  | nil => exact ⟨machine.registers, machine.index, rfl, (Nat.mod_eq_of_lt inside).symm⟩
  | cons block rest ih =>
    obtain ⟨registers, index, stored, place⟩ := ih { machine with
      registers := block.registers
      memory := machine.memory.writeAll machine.index block.bytes
      index := .wrap (machine.index + .ofNat block.size) } (Address.toNat_wrap_lt _)
    have behind : (machine.memory.writeAll machine.index block.bytes).writeAll
          (.wrap (machine.index + .ofNat block.size)) (Block.stream rest) =
        machine.memory.writeAll machine.index (Block.stream (block :: rest)) := by
      rw [Block.stream_cons, Memory.writeAll_append, Block.length_bytes]
      apply Memory.writeAll_congr
      rw [Address.toNat_wrap, Nat.mod_mod]
    dsimp only at stored place
    rw [behind] at stored
    refine ⟨registers, index, ?_, ?_⟩
    · rw [storeBlocks_cons, storeBlock_eq]
      exact stored
    · rw [place, toNat_index_ahead, Block.total_cons]

/-- Restored blocks move the index on as stored ones do, and memory stays. -/
theorem restoreBlocks_ok (blocks : List Block) (inside : machine.index.toNat < 4096) :
    ∃ registers index, machine.restoreBlocks source blocks = .ok { machine with registers, index } ∧
      index.toNat = (machine.index.toNat + Block.total blocks) % 4096 := by
  induction blocks generalizing machine with
  | nil => exact ⟨machine.registers, machine.index, rfl, (Nat.mod_eq_of_lt inside).symm⟩
  | cons block rest ih =>
    obtain ⟨loaded, executed, -⟩ := machine.executeWord_restores source block.last
    obtain ⟨registers, index, restored, place⟩ := ih { machine with
      registers := loaded
      index := .wrap (machine.index + .ofNat block.size) } (Address.toNat_wrap_lt _)
    refine ⟨registers, index, ?_, ?_⟩
    · rw [restoreBlocks_cons, Block.restoring, executed]
      exact restored
    · rw [place, toNat_index_ahead, Block.total_cons]

/-- The registers of a block have come back, and those above them are as they were. -/
structure Received (before after : Machine) (block : Block) : Prop where
  restored : ∀ r ≤ block.last, after.register r = block.registers.get r
  above : ∀ r, block.last < r → after.register r = before.register r

/-- A block comes back where the index is as far into the stored blocks as the blocks before it reach. -/
theorem executeWord_receives (memory : Memory) (start : Address) (early late : List Block) (block : Block)
    (short : Block.total (early ++ block :: late) ≤ 4096)
    (stored : machine.memory = memory.writeAll start (Block.stream (early ++ block :: late)))
    (place : machine.index.toNat = (start.toNat + Block.total early) % 4096) :
    ∃ after, machine.executeWord source block.restoring = .ok after ∧ machine.Received after block := by
  obtain ⟨registers, executed, loaded⟩ := machine.executeWord_restores source block.last
  refine ⟨_, executed, ?_, ?_⟩
  · intro r inside
    obtain ⟨bound, found⟩ := List.getElem?_eq_some_iff.mp (Block.getElem?_stream early late block r inside)
    have fits : (Block.stream (early ++ block :: late)).length ≤ 4096 := by
      rw [Block.length_stream]
      exact short
    have cell : (machine.index + UInt16.ofNat r.val).toNat % 4096 =
        (start + UInt16.ofNat (Block.total early + r.val)).toNat % 4096 := by
      rw [UInt16.toNat_add, UInt16.toNat_add, UInt16.toNat_ofNat', UInt16.toNat_ofNat', place]
      omega
    calc
      registers.get r = machine.memory.read (machine.index + .ofNat r.val) :=
        (loaded r).trans (if_pos inside)
      _ = machine.memory.read (start + .ofNat (Block.total early + r.val)) :=
        Memory.read_congr _ _ _ cell
      _ = (Block.stream (early ++ block :: late))[Block.total early + r.val] := by
        rw [stored, Memory.read_writeAll_inside _ _ _ _ fits bound]
      _ = block.registers.get r := found
  · intro r above
    exact (loaded r).trans (if_neg (Nat.not_le_of_lt above))

/-- Blocks were stored and restored again from the same index on. Each block came back; both passes moved the
index by the size of all blocks, and no cell beyond that many was written. -/
structure Streamed (blocks : List Block) (stored restored : Machine) : Prop where
  storing : machine.storeBlocks source blocks = .ok stored
  restoring : { stored with index := machine.index }.restoreBlocks source blocks = .ok restored
  received : ∀ early block late, blocks = early ++ block :: late → ∃ before after,
    { stored with index := machine.index }.restoreBlocks source early = .ok before ∧
      before.executeWord source block.restoring = .ok after ∧ before.Received after block
  index : stored.index.toNat = (machine.index.toNat + Block.total blocks) % 4096
  sameIndex : restored.index = stored.index
  outside : ∀ address,
    (∀ place < Block.total blocks, Address.cell address ≠ Address.cell (machine.index + .ofNat place)) →
      stored.memory.read address = machine.memory.read address
  sameMemory : restored.memory = stored.memory

theorem blocks_streamed (blocks : List Block) (inside : machine.index.toNat < 4096)
    (short : Block.total blocks ≤ 4096) :
    ∃ stored restored, machine.Streamed source blocks stored restored := by
  obtain ⟨registers, index, storing, place⟩ := machine.storeBlocks_ok source blocks inside
  let memory := machine.memory.writeAll machine.index (Block.stream blocks)
  obtain ⟨others, last, restoring, sameEnd⟩ :=
    restoreBlocks_ok { machine with registers, memory } source blocks inside
  refine ⟨_, _, storing, restoring, ?_, place, ?_, ?_, rfl⟩
  · rintro early block late rfl
    obtain ⟨values, middle, before, reached⟩ :=
      restoreBlocks_ok { machine with registers, memory } source early inside
    obtain ⟨after, executed, received⟩ := executeWord_receives
      { machine with registers := values, index := middle, memory } source machine.memory machine.index
      early late block short rfl reached
    exact ⟨_, after, before, executed, received⟩
  · exact UInt16.toNat_inj.mp (sameEnd.trans place.symm)
  · intro address outside
    apply Memory.read_writeAll_outside
    · rw [Block.length_stream]
      exact short
    · rw [Block.length_stream]
      exact outside

/-- The cells from one address on hold what those from another address on held before, and the other cells are
as they were. -/
structure Copies (before after : Memory) (origin target : Address) (x : Register) : Prop where
  copied : ∀ r ≤ x, after.read (target + .ofNat r.val) = before.read (origin + .ofNat r.val)
  others : ∀ address, (∀ r ≤ x, Address.cell address ≠ Address.cell (target + .ofNat r.val)) →
    after.read address = before.read address

/-- Registers take blocks of any sizes to memory and back, as far as they fit into it. Registers that are
restored in one place and stored in another copy the cells, wherever the two places are. -/
theorem registers_stream :
    (∀ blocks, machine.index.toNat ≤ 0xFFF → Block.total blocks ≤ 4096 →
      ∃ stored restored, machine.Streamed source blocks stored restored) ∧
    ∀ (origin target : Address) (x : Register), ∃ loaded copied,
      { machine with index := origin }.executeWord source (Word.ofByte 0xF x 0x65) = .ok loaded ∧
      { loaded with index := target }.executeWord source (Word.ofByte 0xF x 0x55) = .ok copied ∧
      Copies machine.memory copied.memory origin target x := by
  constructor
  · intro blocks inside short
    exact machine.blocks_streamed source blocks (Nat.lt_succ_of_le inside) short
  · intro origin target x
    obtain ⟨registers, loads, loaded⟩ :=
      executeWord_restores { machine with index := origin } source x
    obtain ⟨copied, moves, stores⟩ :=
      executeWord_stores { machine with registers, index := target } source x
    refine ⟨_, copied, loads, moves, ?_, stores.others⟩
    intro r below
    exact (stores.stored r below).trans ((loaded r).trans (if_pos below))

/-- Two blocks that lie around the end of memory, and a copy whose places overlap there: the first byte of the
glyphs is copied although the copy overwrites it. -/
theorem registers_stream_wrapped :
    let machine : Machine := { Machine.initial with index := 0xFFA }
    let source := WordSource.cycle [7]
    let first : Block := ⟨7, .replicate 16 0xAB⟩
    let second : Block := ⟨2, .ofFn fun r => .ofNat r.val⟩
    machine.index.toNat ≤ 0xFFF ∧ Block.total [first, second] ≤ 4096 ∧
    (∃ stored restored, machine.Streamed source [first, second] stored restored ∧
      stored.index.toNat = 0x005 ∧ stored.memory.read 0x005 = machine.memory.read 0x005 ∧
      ∃ before after : Machine,
        { stored with index := machine.index }.restoreBlocks source [first] = .ok before ∧
          before.executeWord source second.restoring = .ok after ∧ after.register 2 = 2) ∧
    ∃ loaded copied, { machine with index := 0xFFE }.executeWord source 0xF565 = .ok loaded ∧
      { loaded with index := 0x000 }.executeWord source 0xF555 = .ok copied ∧
      machine.memory.read 0x000 = 0xF0 ∧ copied.memory.read 0x000 = 0x00 ∧
      copied.memory.read 0x002 = 0xF0 := by
  intro machine source first second
  have inside : machine.index.toNat ≤ 0xFFF := by decide
  have short : Block.total [first, second] ≤ 4096 := by decide
  obtain ⟨streams, copies⟩ := machine.registers_stream source
  obtain ⟨stored, restored, streamed⟩ := streams [first, second] inside short
  obtain ⟨before, after, early, executed, received⟩ := streamed.received [first] second [] rfl
  obtain ⟨loaded, copied, loads, moves, copy⟩ := copies 0xFFE 0x000 5
  have zero : machine.memory.read 0xFFE = 0x00 := by
    rw [show machine.memory = .initial from rfl, Memory.read_initial]
    decide
  have glyph : machine.memory.read 0x000 = 0xF0 := by
    rw [show machine.memory = .initial from rfl, Memory.read_initial]
    decide
  have ahead : (machine.index.toNat + Block.total [first, second]) % 4096 = 0x005 := by decide
  have untouched : ∀ place < 11, Address.cell 0x005 ≠ Address.cell (0xFFA + .ofNat place) := by decide
  refine ⟨inside, short,
    ⟨stored, restored, streamed, streamed.index.trans ahead, ?_, before, after, early, executed, ?_⟩,
    loaded, copied, loads, moves, glyph, ?_, ?_⟩
  · exact streamed.outside 0x005 untouched
  · exact received.restored 2 (by decide)
  · exact (copy.copied 0 (by decide)).trans zero
  · exact (copy.copied 2 (by decide)).trans glyph

end Machine

end ChipEight
