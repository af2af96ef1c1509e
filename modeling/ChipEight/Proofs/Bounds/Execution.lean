import ChipEight.Proofs.Bounds.Drawing
import ChipEight.Proofs.Bounds.Invariant
import ChipEight.Proofs.Bounds.Overflow

/-! Guarded execution of instructions. An operation answers with nothing or with an error of any kind, and with
the machine as it has left it, also where it fails. On a machine within its bounds no guard fails, an operation
that fails has changed nothing, and the execution is the one without guards. Only the stack needs the bounds:
every other place that an instruction selects is cut down to size before it is used. -/

namespace ChipEight

/-- How a step goes on that does not fail. -/
inductive Progress
  | executed
  | awaitingKey

def Outcome.progress : Outcome → Except Error Progress
  | .executed => .ok .executed
  | .awaitingKey => .ok .awaitingKey
  | .faulted fault => .error (.fault fault)

namespace Guarded

def holds (machine : Machine) : Condition → Option Bool
  | .equalsByte x value => do return (← register machine x.val) == value
  | .differsByte x value => do return (← register machine x.val) != value
  | .equalsRegister x y => do return (← register machine x.val) == (← register machine y.val)
  | .differsRegister x y => do return (← register machine x.val) != (← register machine y.val)
  | .keyHeld x => do isHeld machine.keypad ((← register machine x.val).toNat % 16)
  | .keyReleased x => do return !(← isHeld machine.keypad ((← register machine x.val).toNat % 16))

/-- The address of the instruction that is running. -/
def origin (machine : Machine) : Address := mask (machine.pc - 2)

def skip (machine : Machine) : Machine := { machine with pc := mask (machine.pc + 2) }

def push (machine : Machine) (address : Address) : Option (Except Error Unit × Machine) :=
  let depth := machine.stack.depth.toNat
  if room : depth < CallStack.capacity then do
    let deeper ← byte? (depth + 1)
    return (.ok (), { machine with stack := ⟨machine.stack.slots.set depth address room, deeper⟩ })
  else return (.error (.fault (.stackOverflow (origin machine))), machine)

def pop (machine : Machine) : Option (Except Error Address × Machine) :=
  if machine.stack.depth = 0 then return (.error (.fault (.stackUnderflow (origin machine))), machine)
  else do
    let depth ← difference? machine.stack.depth.toNat 1
    let address ← machine.stack.slots[depth]?
    return (.ok address, { machine with stack := ⟨machine.stack.slots, .ofNat depth⟩ })

def compute (machine : Machine) (operation : Arithmetic) (x y : Nat) : Option Machine := do
  let (result, flag?) := calculate operation (← register machine x) (← register machine y)
  let computed ← setRegister machine x result
  match flag? with
  | some flag => setRegister computed 15 flag
  | none => return computed

def advanceIndex (machine : Machine) (x : Nat) : Option Machine := do
  let count ← word? (x + 1)
  return { machine with index := mask (machine.index + count) }

def storeDecimal (machine : Machine) (value : UInt8) : Option Memory := do
  let hundreds ← setCell machine.memory machine.index (value / 100)
  let tens ← setCell hundreds (machine.index + 1) (value / 10 % 10)
  setCell tens (machine.index + 1 + 1) (value % 10)

def storeRegisters (machine : Machine) : (count : Nat) → Option Memory
  | 0 => some machine.memory
  | count + 1 => do
    let memory ← storeRegisters machine count
    let value ← register machine count
    setCell memory (machine.index + .ofNat count) value

def restoreRegisters (machine : Machine) : (count : Nat) → Option Machine
  | 0 => some machine
  | count + 1 => do
    let restored ← restoreRegisters machine count
    let value ← cell machine.memory (machine.index + .ofNat count)
    setRegister restored count value

def awaitKey (machine : Machine) (x : Nat) : Option Machine :=
  match machine.keypad.lowest? with
  | some key => setRegister machine x (.ofNat key.val)
  | none => do
    let suspended ← setAwaiting machine (.ofNat x)
    return { suspended with pc := origin machine }

/-- An instruction that has done its work and has taken no random word. -/
def done (source : WordSource) (machine : Machine) : Except Error Unit × Machine × WordSource :=
  (.ok (), machine, source)

def execute (machine : Machine) (source : WordSource) :
    Instruction → Option (Except Error Unit × Machine × WordSource)
  | .clearScreen => some (done source { machine with screen := .dark, redraw := true })
  | .ret => do
    match ← pop machine with
    | (.ok address, popped) => return done source { popped with pc := address }
    | (.error error, left) => return (.error error, left, source)
  | .jump target => some (done source { machine with pc := .ofNat target.val })
  | .call target => do
    match ← push machine machine.pc with
    | (.ok (), pushed) => return done source { pushed with pc := .ofNat target.val }
    | (.error error, left) => return (.error error, left, source)
  | .skip condition => do
    return done source (if ← holds machine condition then skip machine else machine)
  | .load x value => do return done source (← setRegister machine x.val value)
  | .increase x value => do
    return done source (← setRegister machine x.val ((← register machine x.val) + value))
  | .compute operation x y => do return done source (← compute machine operation x.val y.val)
  | .setIndex target => some (done source { machine with index := .ofNat target.val })
  | .jumpFromV0 target => do
    let sum ← word? (target.val + (← register machine 0).toNat)
    return done source { machine with pc := mask sum }
  | .random x bits => do
    return (.ok (), ← setRegister machine x.val (source.byte &&& bits), source.advance)
  | .draw x y height => do return done source (← draw machine x.val y.val height.val)
  | .readDelay x => do return done source (← setRegister machine x.val machine.delay)
  | .awaitKey x => do return done source (← awaitKey machine x.val)
  | .setDelay x => do return done source { machine with delay := ← register machine x.val }
  | .setSound x => do return done source { machine with sound := ← register machine x.val }
  | .advanceIndex x => do
    let value ← register machine x.val
    return done source { machine with index := mask (machine.index + value.toUInt16) }
  | .pointToGlyph x => do
    let rows ← word? ((← register machine x.val).toNat % 16 * Glyph.height)
    let index ← word? (Glyph.sheetStart + rows.toNat)
    return done source { machine with index }
  | .storeDecimal x => do
    let memory ← storeDecimal machine (← register machine x.val)
    return done source { machine with memory }
  | .storeRegisters x => do
    let memory ← storeRegisters machine (x.val + 1)
    return done source (← advanceIndex { machine with memory } x.val)
  | .restoreRegisters x => do
    let restored ← restoreRegisters machine (x.val + 1)
    return done source (← advanceIndex restored x.val)

def fetch (machine : Machine) : Option (UInt16 × Machine) := do
  let high ← cell machine.memory machine.pc
  let low ← cell machine.memory (machine.pc + 1)
  return (high.toUInt16 <<< 8 ||| low.toUInt16, skip machine)

def deliver (machine : Machine) (key : UInt8) : Option Machine :=
  match awaiting machine with
  | some x => do
    let delivered ← setRegister machine x.toNat key
    return { skip delivered with awaiting := none }
  | none => some machine

/-- A word that is no instruction is an operation that does nothing but fail. -/
def operate (machine : Machine) (source : WordSource) (word : UInt16) :
    Option (Except Error Unit × Machine × WordSource) :=
  match Instruction.decode word with
  | none => some (.error (.fault (.unknownWord word (origin machine))), machine, source)
  | some instruction => execute machine source instruction

def executeNext (machine : Machine) (source : WordSource) :
    Option (Except Error Progress × Machine × WordSource) := do
  let (word, fetched) ← fetch machine
  match ← operate fetched source word with
  | (.error error, left, source) => return (.error error, left, source)
  | (.ok (), next, source) =>
    return (.ok (if (awaiting next).isSome then .awaitingKey else .executed), next, source)

def step (machine : Machine) (source : WordSource) :
    Option (Except Error Progress × Machine × WordSource) :=
  if (awaiting machine).isSome then
    match machine.keypad.lowest? with
    | some key => do return (.ok .executed, ← deliver machine (.ofNat key.val), source)
    | none => some (.ok .awaitingKey, machine, source)
  else executeNext machine source

private theorem isHeld_low (keypad : Keypad) (value : UInt8) :
    isHeld keypad (value.toNat % 16) = some (keypad.isHeld (.low value)) :=
  isHeld_eq keypad (.low value)

theorem holds_eq (machine : Machine) (condition : Condition) :
    holds machine condition = some (machine.holds condition) := by
  cases condition <;>
    simp only [holds, register_eq, isHeld_low, Option.bind_eq_bind, Option.bind_some,
      Option.pure_def, Machine.holds]

theorem origin_eq (machine : Machine) : origin machine = machine.origin := mask_eq _

theorem skip_eq (machine : Machine) : skip machine = { machine with pc := machine.pc.next } := by
  rw [skip, mask_eq]
  rfl

/-- What is left of a change that may fail: where it fails there was no change. -/
def attempt {ε α : Type} (cause : ε → Error) (before : α) : Except ε α → Except Error Unit × α
  | .ok after => (.ok (), after)
  | .error failure => (.error (cause failure), before)

theorem push_eq (machine : Machine) (address : Address) :
    push machine address = some (attempt .fault machine (machine.push address)) := by
  unfold push Machine.push CallStack.push? CallStack.capacity
  by_cases room : machine.stack.depth.toNat < 16
  · have deeper : UInt8.ofNat (machine.stack.depth.toNat + 1) = machine.stack.depth + 1 := by
      apply UInt8.toNat_inj.mp
      rw [UInt8.toNat_ofNat', UInt8.toNat_add]
      rfl
    simp only [room, dif_pos, byte?_eq (machine.stack.depth.toNat + 1) (by omega), deeper]
    rfl
  · simp only [room, dif_neg, not_false_eq_true, origin_eq]
    rfl

theorem pop_eq (machine : Machine) (bounded : machine.stack.Bounded) :
    pop machine = some (match machine.pop with
      | .ok (address, popped) => (.ok address, popped)
      | .error fault => (.error (.fault fault), machine)) := by
  unfold pop Machine.pop CallStack.pop?
  by_cases empty : machine.stack.depth = 0
  · simp only [empty, if_pos, origin_eq]
    rfl
  · -- A depth beyond the slots would leave no slot to select.
    have depth := bounded.depth
    have positive : machine.stack.depth.toNat ≠ 0 := fun zero => empty (UInt8.toNat_inj.mp zero)
    have inside : machine.stack.depth.toNat - 1 < 16 := by omega
    have one : (1 : UInt8).toNat = 1 := rfl
    have lower : UInt8.ofNat (machine.stack.depth.toNat - 1) = machine.stack.depth - 1 := by
      apply UInt8.toNat_inj.mp
      rw [UInt8.toNat_ofNat', UInt8.toNat_sub, one]
      omega
    simp only [empty, if_false, difference?_eq machine.stack.depth.toNat 1 (by omega),
      Vector.getElem?_eq_getElem inside, Option.bind_eq_bind, Option.bind_some, lower]
    rfl

theorem compute_eq (machine : Machine) (operation : Arithmetic) (x y : Register) :
    compute machine operation x.val y.val = some (machine.compute operation x y) := by
  have flag : (15 : Nat) = (Register.flag).val := rfl
  unfold compute Machine.compute
  simp only [register_eq, setRegister_eq, Option.bind_eq_bind, Option.bind_some, flag, calculate_eq]
  cases operation.flag? (machine.register x) (machine.register y) with
  | some bit => rfl
  | none => rfl

theorem advanceIndex_eq (machine : Machine) (x : Register) :
    advanceIndex machine x.val = some (machine.advanceIndex (x.val + 1)) := by
  unfold advanceIndex
  rw [word?_eq (x.val + 1) (by omega)]
  simp only [Option.bind_eq_bind, Option.bind_some, mask_eq]
  rfl

theorem storeDecimal_eq (machine : Machine) (value : UInt8) :
    storeDecimal machine value =
      some (machine.memory.writeAll machine.index (Machine.decimalDigits value)) := by
  unfold storeDecimal
  simp only [setCell_eq, Option.bind_eq_bind, Option.bind_some]
  rfl

private theorem writeAll_concat (memory : Memory) (address : Address) (values : List UInt8)
    (value : UInt8) :
    memory.writeAll address (values ++ [value]) =
      (memory.writeAll address values).write (address + .ofNat values.length) value := by
  rw [Memory.writeAll_append, Memory.writeAll, Memory.writeAll]

theorem storeRegisters_eq (machine : Machine) (count : Nat) (short : count ≤ 16) :
    storeRegisters machine count =
      some (machine.memory.writeAll machine.index (machine.registers.toList.take count)) := by
  induction count with
  | zero => rfl
  | succ count ih =>
    have inside : count < 16 := by omega
    have last : machine.registers.toList.take (count + 1) =
        machine.registers.toList.take count ++ [machine.register ⟨count, inside⟩] := by
      rw [List.take_add_one]
      simp [inside, Machine.register]
    have length : (machine.registers.toList.take count).length = count := by
      simp
      omega
    unfold storeRegisters
    rw [ih (by omega), register_eq machine ⟨count, inside⟩, last, writeAll_concat, length]
    simp only [Option.bind_eq_bind, Option.bind_some, setCell_eq]

private def restored (machine : Machine) (count : Nat) : Vector UInt8 16 :=
  Vector.ofFn fun register : Register =>
    if register.val < count then machine.memory.read (machine.index + .ofNat register.val)
    else machine.register register

private theorem restored_zero (machine : Machine) : restored machine 0 = machine.registers := by
  apply Vector.ext
  intro register inside
  simp [restored, Machine.register]

private theorem restored_succ (machine : Machine) (count : Nat) (inside : count < 16) :
    (restored machine count).set count (machine.memory.read (machine.index + .ofNat count)) inside =
      restored machine (count + 1) := by
  apply Vector.ext
  intro register bounded
  unfold restored
  rw [Vector.getElem_set, Vector.getElem_ofFn, Vector.getElem_ofFn]
  by_cases here : count = register
  · subst here
    simp
  · have same : (register < count + 1) ↔ register < count := by omega
    simp [here, same]

private theorem restoreRegisters_eq (machine : Machine) (count : Nat) (short : count ≤ 16) :
    restoreRegisters machine count = some { machine with registers := restored machine count } := by
  induction count with
  | zero =>
    rw [restored_zero]
    rfl
  | succ count ih =>
    have inside : count < 16 := by omega
    unfold restoreRegisters
    rw [ih (by omega), cell_eq]
    simp only [Option.bind_eq_bind, Option.bind_some, setRegister, inside, dif_pos, restored_succ]

theorem restore_eq (machine : Machine) (x : Register) :
    restoreRegisters machine (x.val + 1) = some (machine.restore x) := by
  rw [restoreRegisters_eq machine (x.val + 1) (by omega), restored]
  have same : ∀ register : Register, (register.val < x.val + 1) = (register ≤ x) := by
    intro register
    exact propext Nat.lt_succ_iff
  simp only [same]
  rfl

theorem awaitKey_eq (machine : Machine) (x : Register) :
    awaitKey machine x.val = some (machine.awaitKey x) := by
  unfold awaitKey Machine.awaitKey
  cases machine.keypad.lowest? with
  | none =>
    simp only [setAwaiting_eq, Option.bind_eq_bind, Option.bind_some, origin_eq]
    rfl
  | some key => exact setRegister_eq machine x _

private theorem toNat_low (value : UInt8) : value.toNat % 16 < 16 := Nat.mod_lt _ (by decide)

/-- What is left of an execution: after a fault the machine and the source are as they were. -/
def settle (machine : Machine) (source : WordSource) (instruction : Instruction) :
    Except Fault Machine → Except Error Unit × Machine × WordSource
  | .ok next => (.ok (), next, source.after instruction)
  | .error fault => (.error (.fault fault), machine, source)

/-- Of all instructions only a return needs the bounds of the machine. -/
theorem execute_eq (machine : Machine) (source : WordSource) (instruction : Instruction)
    (bounded : machine.Bounded) :
    execute machine source instruction =
      some (settle machine source instruction (machine.execute source instruction)) := by
  cases instruction with
  | ret =>
    simp only [execute, pop_eq machine bounded.stack]
    unfold Machine.execute
    cases machine.pop <;> rfl
  | call target =>
    simp only [execute, push_eq]
    unfold Machine.execute
    cases machine.push machine.pc <;> rfl
  | skip condition =>
    simp only [execute, holds_eq, skip_eq]
    rfl
  | compute operation x y =>
    simp only [execute, compute_eq]
    rfl
  | jumpFromV0 target =>
    have value := (machine.register 0).toNat_lt
    have sum : UInt16.ofNat (target.val + (machine.register 0).toNat) =
        .ofNat target.val + (machine.register 0).toUInt16 := by
      rw [UInt16.ofNat_add, UInt16.ofNat_uInt8ToNat]
    have first : register machine 0 = some (machine.register 0) := register_eq machine 0
    simp only [execute, first, Option.bind_eq_bind, Option.bind_some,
      word?_eq (target.val + (machine.register 0).toNat) (by omega), sum, mask_eq]
    rfl
  | draw x y height =>
    simp only [execute, draw_eq]
    rfl
  | awaitKey x =>
    simp only [execute, awaitKey_eq]
    rfl
  | advanceIndex x =>
    simp only [execute, register_eq, mask_eq, Machine.execute, Machine.advanceIndex,
      UInt16.ofNat_uInt8ToNat]
    rfl
  | pointToGlyph x =>
    have small := toNat_low (machine.register x)
    have rows : (UInt16.ofNat ((machine.register x).toNat % 16 * Glyph.height)).toNat =
        (machine.register x).toNat % 16 * Glyph.height := by
      rw [UInt16.toNat_ofNat', Glyph.height]
      omega
    simp only [execute, register_eq, Option.bind_eq_bind, Option.bind_some]
    rw [word?_eq ((machine.register x).toNat % 16 * Glyph.height) (by rw [Glyph.height]; omega)]
    simp only [Option.bind_some, rows]
    rw [word?_eq (Glyph.sheetStart + (machine.register x).toNat % 16 * Glyph.height)
      (by rw [Glyph.height, Glyph.sheetStart]; omega)]
    rfl
  | storeDecimal x =>
    simp only [execute, register_eq, Option.bind_eq_bind, Option.bind_some, storeDecimal_eq]
    rfl
  | storeRegisters x =>
    simp only [execute, storeRegisters_eq machine (x.val + 1) (by omega), Option.bind_eq_bind,
      Option.bind_some, advanceIndex_eq]
    rfl
  | restoreRegisters x =>
    simp only [execute, restore_eq, Option.bind_eq_bind, Option.bind_some, advanceIndex_eq]
    rfl
  | load x value | increase x value | random x mask | readDelay x | setDelay x | setSound x =>
    simp only [execute, register_eq, setRegister_eq, Option.bind_eq_bind, Option.bind_some]
    rfl
  | _ => rfl

theorem fetch_eq (machine : Machine) : fetch machine = some machine.fetch := by
  unfold fetch
  simp only [cell_eq, Option.bind_eq_bind, Option.bind_some, skip_eq]
  rfl

theorem isSome_awaiting (machine : Machine) : (awaiting machine).isSome = machine.awaiting.isSome :=
  Option.isSome_map

theorem deliver_eq (machine : Machine) (key : UInt8) :
    deliver machine key = some (machine.deliver key) := by
  unfold deliver Machine.deliver awaiting
  cases machine.awaiting with
  | none => rfl
  | some x =>
    simp only [Option.map_some, toNat_register, setRegister_eq, Option.bind_eq_bind, Option.bind_some,
      skip_eq]
    rfl

theorem executeNext_eq (machine : Machine) (source : WordSource) (bounded : machine.Bounded) :
    executeNext machine source =
      some ((machine.executeNext source).1.progress, (machine.executeNext source).2) := by
  have fetched := Machine.next_bounded machine bounded
  unfold executeNext Machine.executeNext operate
  rw [fetch_eq]
  simp only [Option.bind_eq_bind, Option.bind_some, origin_eq]
  cases Instruction.decode machine.fetch.1 with
  | none => rfl
  | some instruction =>
    simp only [execute_eq machine.fetch.2 source instruction fetched, Option.bind_some]
    cases machine.fetch.2.execute source instruction with
    | error fault => rfl
    | ok next =>
      simp only [settle, isSome_awaiting]
      cases next.awaiting <;> rfl

theorem step_eq (machine : Machine) (source : WordSource) (bounded : machine.Bounded) :
    step machine source = some ((machine.step source).1.progress, (machine.step source).2) := by
  unfold step Machine.step Machine.sample
  rw [isSome_awaiting]
  split
  · cases machine.keypad.lowest? with
    | none => rfl
    | some key =>
      simp only [deliver_eq]
      rfl
  · exact executeNext_eq machine source bounded

end Guarded

end ChipEight
