import ChipEight.Proofs.Console.Run

/-! Images that are loaded one after another. Each lies over those before it, as far as it reaches, and one
that is too large is refused as a whole. A program that starts at the first byte of an image fetches the words
of the image in their order. -/

namespace ChipEight

namespace Memory

/-- The memory after a request to load an image. -/
def receive (memory : Memory) (image : Array UInt8) : Memory :=
  if image.size ≤ imageCapacity then memory.place image else memory

/-- The byte that an image brings to an offset, if it is accepted and reaches there. -/
def brought? (offset : Nat) (image : Array UInt8) : Option UInt8 :=
  if image.size ≤ imageCapacity then image[offset]? else none

/-- The byte at an offset of the last accepted image that reaches there. -/
def lastBrought? (images : List (Array UInt8)) (offset : Nat) : Option UInt8 :=
  images.reverse.findSome? (brought? offset)

/-- The words that bytes form, the more significant byte first. A single byte at the end forms none. -/
def words : List UInt8 → List UInt16
  | high :: low :: rest => .ofNat (high.toNat * 256 + low.toNat) :: words rest
  | [_] | [] => []

theorem receive_of_large (memory : Memory) (image : Array UInt8) (large : imageCapacity < image.size) :
    memory.receive image = memory :=
  if_neg (Nat.not_le_of_lt large)

theorem read_receive (memory : Memory) (image : Array UInt8) (offset : Nat)
    (inside : offset < imageCapacity) :
    (memory.receive image).read (.ofNat (programStart + offset)) =
      (brought? offset image).getD (memory.read (.ofNat (programStart + offset))) := by
  have start : programStart + imageCapacity = 4096 := rfl
  have here : (UInt16.ofNat (programStart + offset)).toNat % 4096 = programStart + offset := by
    rw [UInt16.toNat_ofNat']
    omega
  unfold receive brought?
  split
  · rw [read_place, here, if_neg (by omega), Nat.add_sub_cancel_left]
  · rfl

theorem read_receive_below (memory : Memory) (image : Array UInt8) (address : Address)
    (below : address.toNat % 4096 < programStart) :
    (memory.receive image).read address = memory.read address := by
  unfold receive
  split
  · rw [read_place, if_pos below]
  · rfl

theorem read_foldl_receive (memory : Memory) (images : List (Array UInt8)) (offset : Nat)
    (inside : offset < imageCapacity) :
    (images.foldl receive memory).read (.ofNat (programStart + offset)) =
      (lastBrought? images offset).getD (memory.read (.ofNat (programStart + offset))) := by
  induction images generalizing memory with
  | nil => rfl
  | cons image rest ih =>
    rw [List.foldl_cons, ih, read_receive memory image offset inside, lastBrought?, lastBrought?,
      List.reverse_cons, List.findSome?_append, Option.getD_or, List.findSome?_singleton]

theorem read_foldl_receive_below (memory : Memory) (images : List (Array UInt8)) (address : Address)
    (below : address.toNat % 4096 < programStart) :
    (images.foldl receive memory).read address = memory.read address := by
  induction images generalizing memory with
  | nil => rfl
  | cons image rest ih => rw [List.foldl_cons, ih, read_receive_below memory image address below]

end Memory

namespace Machine

/-- The words that one fetch after another returns. -/
def fetches : (count : Nat) → Machine → List UInt16
  | 0, _ => []
  | count + 1, machine => machine.fetch.1 :: fetches count machine.fetch.2

/-- A machine fetches the words of the bytes that are stored where its program counter is. -/
theorem fetches_of_stored (machine : Machine) (bytes : List UInt8) (count : Nat)
    (enough : 2 * count ≤ bytes.length)
    (stored : ∀ (place : Nat) (byte : UInt8), bytes[place]? = some byte →
      machine.memory.read (machine.pc + .ofNat place) = byte) :
    machine.fetches count = (Memory.words bytes).take count := by
  induction count generalizing machine bytes with
  | zero => rfl
  | succ count ih =>
    obtain ⟨high, low, rest, rfl⟩ : ∃ high low rest, bytes = high :: low :: rest := by
      match bytes, enough with
      | high :: low :: rest, _ => exact ⟨high, low, rest, rfl⟩
    have first : machine.memory.read machine.pc = high := by
      have here : machine.pc + UInt16.ofNat 0 = machine.pc := UInt16.add_zero machine.pc
      rw [← stored 0 high rfl, here]
    have second : machine.memory.read (machine.pc + 1) = low := stored 1 low rfl
    have word : machine.fetch.1 = .ofNat (high.toNat * 256 + low.toNat) := by
      change machine.memory.readWord machine.pc = _
      rw [Memory.readWord_eq_ofNat, Memory.read_succ, first, second]
    have later (place : Nat) (byte : UInt8) (found : rest[place]? = some byte) :
        machine.fetch.2.memory.read (machine.fetch.2.pc + .ofNat place) = byte := by
      rw [← stored (place + 2) byte found]
      apply Memory.read_congr
      change (machine.pc.next + UInt16.ofNat place).toNat % 4096 = _
      rw [UInt16.toNat_add, UInt16.toNat_add, Address.toNat_next, UInt16.toNat_ofNat', UInt16.toNat_ofNat']
      omega
    have others : 2 * count ≤ rest.length := by
      simp only [List.length_cons] at enough
      omega
    rw [fetches, word, ih machine.fetch.2 rest others later, Memory.words, List.take_succ_cons]

end Machine

/-- The reply to a request to load an image. -/
def Reply.ofLoad (image : Array UInt8) : Reply :=
  if image.size ≤ 3584 then .done else .failed (.refusal (.imageTooLarge image.size 3584))

namespace Console

/-- The console with another memory. -/
def withMemory (console : Console) (memory : Memory) : Console :=
  { console with machine := { console.machine with memory } }

theorem perform_load_eq (console : Console) (image : Array UInt8) :
    console.perform (.load image) =
      (.ofLoad image, console.withMemory (console.machine.memory.receive image)) := by
  have capacity : Memory.imageCapacity = 3584 := rfl
  simp only [perform, load, Reply.ofLoad, Memory.receive, capacity]
  split
  · rfl
  · rfl

theorem performAll_load (console : Console) (images : List (Array UInt8)) :
    console.performAll (images.map .load) =
      (images.map .ofLoad, console.withMemory (images.foldl Memory.receive console.machine.memory)) := by
  induction images generalizing console with
  | nil => rfl
  | cons image rest ih =>
    rw [List.map_cons, performAll_cons, perform_load_eq, ih]
    rfl

theorem load_eq_ok_iff (console next : Console) (image : Array UInt8) :
    console.load image = .ok next ↔
      image.size ≤ Memory.imageCapacity ∧
        next = console.withMemory (console.machine.memory.receive image) := by
  unfold load Memory.receive
  by_cases fits : image.size ≤ Memory.imageCapacity
  · rw [if_pos fits, if_pos fits]
    constructor
    · intro loaded
      exact ⟨fits, (Except.ok.inj loaded).symm⟩
    · rintro ⟨-, rfl⟩
      rfl
  · rw [if_neg fits]
    constructor
    · intro refused
      contradiction
    · rintro ⟨small, -⟩
      contradiction

/-- A program that starts at the first byte of the image that was loaded last fetches the words of the image. -/
theorem fetches_of_load (console next : Console) (image : Array UInt8) (count : Nat)
    (loaded : console.load image = .ok next) (enough : 2 * count ≤ image.size) :
    Machine.fetches count { next.machine with pc := .ofNat Memory.programStart } =
      (Memory.words image.toList).take count := by
  obtain ⟨fits, rfl⟩ := (load_eq_ok_iff console next image).mp loaded
  apply Machine.fetches_of_stored
  · rw [Array.length_toList]
    exact enough
  · intro offset byte found
    rw [Array.getElem?_toList] at found
    have inside : offset < image.size := (Array.getElem?_eq_some_iff.mp found).1
    have brought : Memory.brought? offset image = some byte := by rw [Memory.brought?, if_pos fits, found]
    rw [← UInt16.ofNat_add]
    change (console.machine.memory.receive image).read _ = byte
    rw [Memory.read_receive _ _ _ (by omega), brought, Option.getD_some]

/-- Loading images one after another, whatever their sizes: an image is accepted exactly if it has at most 3584
bytes. From 0x200 on each cell has the byte of the last accepted image that reaches it, all else is as it was
before the first one, and fetching from 0x200 on returns the words of the image that was accepted last. -/
theorem loads_overlap (console : Console) (images : List (Array UInt8)) :
    let loaded := console.performAll (images.map .load)
    let last := loaded.2
    loaded.1 = images.map .ofLoad ∧
    (∀ image, 3584 < image.size →
      last.perform (.load image) = (.failed (.refusal (.imageTooLarge image.size 3584)), last)) ∧
    (∀ offset < 3584, last.machine.memory.read (.ofNat (0x200 + offset)) =
      (Memory.lastBrought? images offset).getD
        (console.machine.memory.read (.ofNat (0x200 + offset)))) ∧
    (∀ address, address.toNat % 4096 < 0x200 →
      last.machine.memory.read address = console.machine.memory.read address) ∧
    last = { console with machine := { console.machine with memory := last.machine.memory } } ∧
    ∀ image next count, last.load image = .ok next → 2 * count ≤ image.size →
      Machine.fetches count { next.machine with pc := 0x200 } = (Memory.words image.toList).take count := by
  intro loaded last
  have run : loaded = _ := performAll_load console images
  have ends : last = _ := congrArg Prod.snd run
  refine ⟨congrArg Prod.fst run, ?_, ?_, ?_, ?_, ?_⟩
  · intro image large
    rw [perform_load_eq, Reply.ofLoad, if_neg (Nat.not_le_of_lt large),
      Memory.receive_of_large last.machine.memory image large]
    rfl
  · intro offset inside
    rw [ends]
    exact Memory.read_foldl_receive console.machine.memory images offset inside
  · intro address below
    rw [ends]
    exact Memory.read_foldl_receive_below console.machine.memory images address below
  · rw [ends]
    rfl
  · intro image next count accepted enough
    exact fetches_of_load last next image count accepted enough

/-- The second image is refused, and the third one hides two bytes of the first one. -/
theorem loads_overlap_refused :
    let images : List (Array UInt8) := [#[1, 2, 3], .replicate 3585 9, #[7, 8]]
    let console := start {} (.cycle [7])
    let loaded := console.performAll (images.map .load)
    loaded.1 = [.done, .failed (.refusal (.imageTooLarge 3585 3584)), .done] ∧
      loaded.2.machine.memory.read (.ofNat (0x200 + 0)) = 7 ∧
      loaded.2.machine.memory.read (.ofNat (0x200 + 2)) = 3 ∧
      (loaded.2.perform (.load (.replicate 3585 9))).2 = loaded.2 ∧
      ∃ next, loaded.2.load #[0xA2, 0x1E, 0x60] = .ok next ∧
        Machine.fetches 1 { next.machine with pc := 0x200 } = [0xA21E] := by
  intro images console loaded
  have large : 3584 < (Array.replicate 3585 9 : Array UInt8).size := by
    rw [Array.size_replicate]
    decide
  have hidden : Memory.lastBrought? images 0 = some 7 := rfl
  have reached : Memory.lastBrought? images 2 = some 3 := by
    have skipped : Memory.brought? 2 (.replicate 3585 9) = none := if_neg (Nat.not_le_of_lt large)
    change List.findSome? (Memory.brought? 2) [#[7, 8], .replicate 3585 9, #[1, 2, 3]] = some 3
    rw [List.findSome?_cons_of_isNone rfl, List.findSome?_cons_of_isNone (by rw [skipped]; rfl)]
    rfl
  have refusal : Reply.ofLoad (.replicate 3585 9) = .failed (.refusal (.imageTooLarge 3585 3584)) := by
    rw [Reply.ofLoad, if_neg (Nat.not_le_of_lt large), Array.size_replicate]
  have accepted := (load_eq_ok_iff loaded.2 _ #[0xA2, 0x1E, 0x60]).mpr ⟨by decide, rfl⟩
  obtain ⟨replies, refuses, reads, -, -, fetches⟩ := loads_overlap console images
  refine ⟨?_, ?_, ?_, ?_, ?_⟩
  · rw [replies, ← refusal]
    rfl
  · rw [reads 0 (by decide), hidden, Option.getD_some]
  · rw [reads 2 (by decide), reached, Option.getD_some]
  · rw [refuses _ large]
  · exact ⟨_, accepted, fetches _ _ 1 accepted (by decide)⟩

end Console

end ChipEight
