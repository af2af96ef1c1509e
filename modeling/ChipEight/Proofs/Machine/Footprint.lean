import ChipEight.Proofs.Instruction.Pattern
import ChipEight.Proofs.Machine.Cycle

/-! The footprint of a step. Every part of a machine but the program counter has its own words that may change
it, given as patterns; a step on any other word leaves the part as it was. The two instructions that store to
memory change the cells of their window and no others. -/

namespace ChipEight

/-- The parts of a machine, apart from the program counter, which every step may move. -/
inductive Part
  | register (r : Register)
  | index
  | slots
  | depth
  | delay
  | sound
  | memory
  | screen
  | redraw
  | keypad
  | awaiting
  deriving DecidableEq

namespace Part

def Same (before after : Machine) : Part → Prop
  | register r => after.register r = before.register r
  | index => after.index = before.index
  | slots => after.stack.slots = before.stack.slots
  | depth => after.stack.depth = before.stack.depth
  | delay => after.delay = before.delay
  | sound => after.sound = before.sound
  | memory => after.memory = before.memory
  | screen => after.screen = before.screen
  | redraw => after.redraw = before.redraw
  | keypad => after.keypad = before.keypad
  | awaiting => after.awaiting = before.awaiting

theorem Same.trans {before middle after : Machine} {part : Part} (first : part.Same before middle)
    (second : part.Same middle after) : part.Same before after := by
  cases part with
  | _ => exact Eq.trans second first

/-- The words that may change the register that their second digit names. -/
def targeting : List Pattern :=
  [⟨some 0x6, none, none, none⟩, ⟨some 0x7, none, none, none⟩, ⟨some 0xC, none, none, none⟩,
    .arithmetic 0x0, .arithmetic 0x1, .arithmetic 0x2, .arithmetic 0x3, .arithmetic 0x4, .arithmetic 0x5,
    .arithmetic 0x6, .arithmetic 0x7, .arithmetic 0xE, .device 0x0 0x7, .device 0x0 0xA]

/-- The words that may change the flag register, whichever registers they name. -/
def flagging : List Pattern :=
  [.arithmetic 0x4, .arithmetic 0x5, .arithmetic 0x6, .arithmetic 0x7, .arithmetic 0xE,
    ⟨some 0xD, none, none, none⟩]

/-- The patterns of the words that may change a part, if `x` is the second digit of the word. -/
def writers (x : Register) : Part → List Pattern
  | register r =>
    (if r = x then targeting else []) ++ (if r = .flag then flagging else []) ++
      (if r ≤ x then [.device 0x6 0x5] else [])
  | index =>
    [⟨some 0xA, none, none, none⟩, .device 0x1 0xE, .device 0x2 0x9, .device 0x5 0x5, .device 0x6 0x5]
  | slots => [.call]
  | depth => [.call, ⟨some 0x0, some 0x0, some 0xE, some 0xE⟩]
  | delay => [.device 0x1 0x5]
  | sound => [.device 0x1 0x8]
  | memory => [.device 0x3 0x3, .device 0x5 0x5]
  | screen | redraw => [⟨some 0x0, some 0x0, some 0xE, some 0x0⟩, ⟨some 0xD, none, none, none⟩]
  | keypad => []
  | awaiting => [.device 0x0 0xA]

def WrittenBy (part : Part) (word : UInt16) : Prop :=
  ∃ pattern ∈ part.writers (Word.x word), pattern.Accepts word

instance (part : Part) (word : UInt16) : Decidable (part.WrittenBy word) :=
  inferInstanceAs (Decidable (∃ pattern ∈ _, _))

theorem arithmetic_mem_targeting (operation : Arithmetic) :
    .arithmetic operation.digit.val ∈ targeting := by
  cases operation <;> decide

theorem mem_flagging_or (operation : Arithmetic) (a b : UInt8) :
    .arithmetic operation.digit.val ∈ flagging ∨ operation.flag? a b = none := by
  cases operation with
  | copy | or | and | xor => exact Or.inr rfl
  | add | subtract | shiftRight | subtractFrom | shiftLeft => exact Or.inl (by decide)

theorem writtenBy_encode (part : Part) (instruction : Instruction)
    (listed : instruction.pattern ∈ part.writers (Word.x instruction.encode)) :
    part.WrittenBy instruction.encode :=
  ⟨_, listed, Pattern.accepts_encode instruction⟩

theorem unwritten_register (r : Register) (instruction : Instruction)
    (unwritten : ¬(register r).WrittenBy instruction.encode) :
    (instruction.pattern ∈ targeting → r ≠ Word.x instruction.encode) ∧
      (instruction.pattern ∈ flagging → r ≠ .flag) ∧
      (instruction.pattern = .device 0x6 0x5 → ¬r ≤ Word.x instruction.encode) := by
  have unlisted := fun listed => unwritten (writtenBy_encode (register r) instruction listed)
  simp only [writers, List.mem_append, List.mem_ite_nil_right, List.mem_singleton] at unlisted
  exact ⟨fun targets same => unlisted (Or.inl (Or.inl ⟨same, targets⟩)),
    fun flags same => unlisted (Or.inl (Or.inr ⟨same, flags⟩)),
    fun restores below => unlisted (Or.inr ⟨below, restores⟩)⟩

end Part

namespace Machine

open Word

theorem register_restore (machine : Machine) (x r : Register) :
    (machine.restore x).register r =
      if r ≤ x then machine.memory.read (machine.index + .ofNat r.val) else machine.register r := by
  simp [restore, register]

/-- Only the operations that have a flag reach beyond their target. -/
theorem register_compute (machine : Machine) (operation : Arithmetic) (x y r : Register)
    (other : r ≠ x)
    (unflagged : r ≠ .flag ∨ operation.flag? (machine.register x) (machine.register y) = none) :
    (machine.compute operation x y).register r = machine.register r := by
  have computed (value : UInt8) : (machine.setRegister x value).register r = machine.register r := by
    rw [register_setRegister, if_neg other.symm]
  cases flag : operation.flag? (machine.register x) (machine.register y) with
  | none =>
    simp only [compute, flag]
    exact computed _
  | some bit =>
    rcases unflagged with apart | none
    · simp only [compute, flag]
      rw [register_setRegister, if_neg apart.symm]
      exact computed _
    · rw [flag] at none
      contradiction

/-- The registers that an instruction leaves alone when it completes. -/
theorem execute_register (machine next : Machine) (source : WordSource) (instruction : Instruction)
    (r : Register) (unwritten : ¬(Part.register r).WrittenBy instruction.encode)
    (executed : machine.execute source instruction = .ok next) :
    next.register r = machine.register r := by
  obtain ⟨targets, flags, restores⟩ := Part.unwritten_register r instruction unwritten
  cases instruction with
  | load x value | increase x value | random x mask | readDelay x =>
    obtain rfl := Except.ok.inj executed
    have other := targets (by simp [Instruction.pattern, Part.targeting])
    rw [Instruction.encode, x_ofByte _ _ _ (by decide)] at other
    exact (register_setRegister machine x r _).trans (if_neg other.symm)
  | awaitKey x =>
    obtain rfl := Except.ok.inj executed
    have other := targets (by simp [Instruction.pattern, Part.targeting])
    rw [Instruction.encode, x_ofByte _ _ _ (by decide)] at other
    unfold awaitKey
    cases machine.keypad.lowest? with
    | some key => exact (register_setRegister machine x r _).trans (if_neg other.symm)
    | none => rfl
  | compute operation x y =>
    obtain rfl := Except.ok.inj executed
    have other := targets (Part.arithmetic_mem_targeting operation)
    rw [Instruction.encode, x_ofDigits _ _ _ _ (by decide)] at other
    exact register_compute machine operation x y r other
      ((Part.mem_flagging_or operation _ _).imp_left flags)
  | draw x y height =>
    obtain rfl := Except.ok.inj executed
    have other := flags (by simp [Instruction.pattern, Part.flagging])
    exact (register_setRegister machine .flag r _).trans (if_neg other.symm)
  | restoreRegisters x =>
    obtain rfl := Except.ok.inj executed
    have above := restores rfl
    rw [Instruction.encode, x_ofByte _ _ _ (by decide)] at above
    exact (register_restore machine x r).trans (if_neg above)
  | ret =>
    obtain ⟨address, stack, -, rfl⟩ := execute_ret _ _ _ executed
    rfl
  | call target =>
    obtain ⟨stack, -, rfl⟩ := execute_call _ _ _ _ executed
    rfl
  | skip condition =>
    obtain rfl := Except.ok.inj executed
    rcases skipWhen_eq machine (machine.holds condition) with same | same
    · rw [same]
    · rw [same]
      rfl
  | _ =>
    obtain rfl := Except.ok.inj executed
    rfl

/-- The parts that an instruction leaves alone when it completes. -/
theorem execute_same (machine next : Machine) (source : WordSource) (instruction : Instruction)
    (part : Part) (unwritten : ¬part.WrittenBy instruction.encode)
    (executed : machine.execute source instruction = .ok next) : part.Same machine next := by
  have registers := fun r => execute_register machine next source instruction r
  have unlisted := fun listed => unwritten (Part.writtenBy_encode part instruction listed)
  -- Where an instruction writes a part, its pattern is listed for that part, which `unlisted` excludes.
  cases instruction with
  | load | increase | random | readDelay | jump | jumpFromV0 =>
    obtain rfl := Except.ok.inj executed
    cases part with
    | register r => exact registers r unwritten executed
    | _ => rfl
  | compute operation x y =>
    obtain rfl := Except.ok.inj executed
    obtain ⟨values, same⟩ := compute_changes machine operation x y
    cases part with
    | register r => exact registers r unwritten executed
    | _ =>
      rw [same]
      rfl
  | skip condition =>
    obtain rfl := Except.ok.inj executed
    cases part with
    | register r => exact registers r unwritten executed
    | _ =>
      rcases skipWhen_eq machine (machine.holds condition) with same | same
      · rw [same]
        rfl
      · rw [same]
        rfl
  | clearScreen | draw =>
    obtain rfl := Except.ok.inj executed
    cases part with
    | screen | redraw => simp [Part.writers, Instruction.pattern] at unlisted
    | register r => exact registers r unwritten executed
    | _ => rfl
  | ret =>
    obtain ⟨address, stack, popped, rfl⟩ := execute_ret _ _ _ executed
    cases part with
    | depth => simp [Part.writers, Instruction.pattern] at unlisted
    | slots => exact CallStack.slots_pop? _ _ _ popped
    | _ => rfl
  | call target =>
    obtain ⟨stack, -, rfl⟩ := execute_call _ _ _ _ executed
    cases part with
    | slots | depth => simp [Part.writers, Instruction.pattern] at unlisted
    | _ => rfl
  | awaitKey x =>
    obtain rfl := Except.ok.inj executed
    cases part with
    | register r => exact registers r unwritten executed
    | awaiting => simp [Part.writers, Instruction.pattern] at unlisted
    | _ =>
      unfold awaitKey
      cases machine.keypad.lowest? with
      | some key => rfl
      | none => rfl
  | setDelay =>
    obtain rfl := Except.ok.inj executed
    cases part with
    | delay => simp [Part.writers, Instruction.pattern] at unlisted
    | _ => rfl
  | setSound =>
    obtain rfl := Except.ok.inj executed
    cases part with
    | sound => simp [Part.writers, Instruction.pattern] at unlisted
    | _ => rfl
  | setIndex | advanceIndex | pointToGlyph =>
    obtain rfl := Except.ok.inj executed
    cases part with
    | index => simp [Part.writers, Instruction.pattern] at unlisted
    | _ => rfl
  | storeDecimal =>
    obtain rfl := Except.ok.inj executed
    cases part with
    | memory => simp [Part.writers, Instruction.pattern] at unlisted
    | _ => rfl
  | storeRegisters =>
    obtain rfl := Except.ok.inj executed
    cases part with
    | memory | index => simp [Part.writers, Instruction.pattern] at unlisted
    | _ => rfl
  | restoreRegisters x =>
    obtain rfl := Except.ok.inj executed
    obtain ⟨values, same⟩ := restore_changes machine x
    cases part with
    | register r => exact registers r unwritten executed
    | index => simp [Part.writers, Instruction.pattern] at unlisted
    | _ =>
      rw [same]
      rfl

theorem fetch_same (machine : Machine) (part : Part) : part.Same machine machine.fetch.2 := by
  cases part with
  | _ => rfl

/-- The parts that a step leaves alone, whether its instruction completes or not. -/
theorem step_same (machine : Machine) (source : WordSource) (part : Part)
    (running : machine.awaiting = none)
    (unwritten : ¬part.WrittenBy (machine.memory.readWord machine.pc)) :
    part.Same machine (machine.step source).2.1 := by
  have cycle := step_cycle machine source
  generalize machine.step source = result at cycle ⊢
  cases cycle with
  | parked x awaits | woken x key awaits =>
    rw [running] at awaits
    contradiction
  | unassigned | faulted => exact fetch_same machine part
  | suspended x _ upcoming released =>
    rw [eq_encode_of_upcoming machine _ running upcoming] at unwritten
    have executed := execute_awaitKey machine.fetch.2 source x released
    exact (fetch_same machine part).trans (execute_same _ _ _ _ part unwritten executed)
  | completed instruction next _ upcoming executed =>
    rw [eq_encode_of_upcoming machine _ running upcoming] at unwritten
    exact (fetch_same machine part).trans (execute_same _ _ _ _ part unwritten executed)

/-- The three decimal digits of a register are stored from the index on, and nothing else. -/
structure StoresDecimal (before after : Machine) (x : Register) : Prop where
  hundreds : (after.memory.read before.index).toNat = (before.register x).toNat / 100
  tens : (after.memory.read (before.index + 1)).toNat = (before.register x).toNat / 10 % 10
  units : (after.memory.read (before.index + 2)).toNat = (before.register x).toNat % 10
  others : ∀ address,
    (∀ place < 3, Address.cell address ≠ Address.cell (before.index + .ofNat place)) →
      after.memory.read address = before.memory.read address

/-- The registers up to one of them are stored from the index on, and nothing else. -/
structure StoresRegisters (before after : Machine) (x : Register) : Prop where
  stored : ∀ r ≤ x, after.memory.read (before.index + .ofNat r.val) = before.register r
  others : ∀ address,
    (∀ r ≤ x, Address.cell address ≠ Address.cell (before.index + .ofNat r.val)) →
      after.memory.read address = before.memory.read address

theorem length_leadingRegisters (machine : Machine) (x : Register) :
    (machine.leadingRegisters x).length = x.val + 1 := by
  have bound := x.isLt
  rw [leadingRegisters, List.length_take, Vector.length_toList]
  omega

theorem storesDecimal_writeAll (before after : Machine) (x : Register)
    (written : after.memory = before.memory.writeAll before.index (decimalDigits (before.register x))) :
    before.StoresDecimal after x := by
  have short : (decimalDigits (before.register x)).length ≤ 4096 := Nat.le_of_ble_eq_true rfl
  have digit (place : Nat) (small : place < 3) :
      (after.memory.read (before.index + .ofNat place)).toNat =
        ((decimalDigits (before.register x))[place]).toNat := by
    rw [written, Memory.read_writeAll_inside _ _ _ place short small]
  have first : (after.memory.read (before.index + 0)).toNat = _ := digit 0 (by decide)
  rw [UInt16.add_zero] at first
  refine ⟨first.trans ?_, (digit 1 (by decide)).trans ?_, (digit 2 (by decide)).trans ?_, ?_⟩
  · simp [decimalDigits]
  · simp [decimalDigits]
  · simp [decimalDigits]
  · intro address outside
    rw [written]
    exact Memory.read_writeAll_outside _ _ _ _ short outside

theorem storesRegisters_writeAll (before after : Machine) (x : Register)
    (written : after.memory = before.memory.writeAll before.index (before.leadingRegisters x)) :
    before.StoresRegisters after x := by
  have length := before.length_leadingRegisters x
  have bound := x.isLt
  constructor
  · intro r below
    have inside : r.val < (before.leadingRegisters x).length := by
      rw [length]
      exact Nat.lt_succ_of_le below
    rw [written, Memory.read_writeAll_inside _ _ _ _ (by omega) inside]
    simp [leadingRegisters, register]
  · intro address outside
    rw [written]
    apply Memory.read_writeAll_outside _ _ _ _ (by omega)
    intro place inside
    rw [length] at inside
    exact outside ⟨place, by omega⟩ (Nat.le_of_lt_succ inside)

theorem step_storeDecimal (machine : Machine) (source : WordSource)
    (running : machine.awaiting = none)
    (stored : (Pattern.device 0x3 0x3).Accepts (machine.memory.readWord machine.pc)) :
    machine.StoresDecimal (machine.step source).2.1 (Word.x (machine.memory.readWord machine.pc)) := by
  have word := Pattern.eq_ofByte_of_device _ _ _ stored
  generalize Word.x (machine.memory.readWord machine.pc) = x at word ⊢
  rw [step_of_stored machine _ source (.storeDecimal x) running word rfl running]
  exact storesDecimal_writeAll machine _ x rfl

theorem step_storeRegisters (machine : Machine) (source : WordSource)
    (running : machine.awaiting = none)
    (stored : (Pattern.device 0x5 0x5).Accepts (machine.memory.readWord machine.pc)) :
    machine.StoresRegisters (machine.step source).2.1 (Word.x (machine.memory.readWord machine.pc)) := by
  have word := Pattern.eq_ofByte_of_device _ _ _ stored
  generalize Word.x (machine.memory.readWord machine.pc) = x at word ⊢
  rw [step_of_stored machine _ source (.storeRegisters x) running word rfl running]
  exact storesRegisters_writeAll machine _ x rfl

end Machine

end ChipEight
