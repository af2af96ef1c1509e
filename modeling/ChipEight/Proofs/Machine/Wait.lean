import ChipEight.Proofs.Machine.Cycle

/-! The wait for a key. It is known from the waiting register, from the program counter, which stays on the
instruction that waits, and from the word that is stored there; no step sets the three at odds. A step ends
a wait as soon as it finds a key held, so that a wait and a held key never outlive a step together. -/

namespace ChipEight.Machine

theorem deliver_of_awaiting (machine : Machine) (x : Register) (key : UInt8)
    (waits : machine.awaiting = some x) :
    machine.deliver key =
      { machine.setRegister x key with pc := machine.pc.next, awaiting := none } := by
  simp only [deliver, waits]

theorem deliver_of_running (machine : Machine) (key : UInt8) (running : machine.awaiting = none) :
    machine.deliver key = machine := by
  simp only [deliver, running]

theorem awaiting_deliver (machine : Machine) (key : UInt8) : (machine.deliver key).awaiting = none := by
  cases waiting : machine.awaiting with
  | some x => rw [deliver_of_awaiting machine x key waiting]
  | none => rw [deliver_of_running machine key waiting, waiting]

theorem step_of_awaiting (machine : Machine) (source : WordSource) (x : Register) (key : Key)
    (waits : machine.awaiting = some x) (held : machine.keypad.lowest? = some key) :
    machine.step source =
      (.executed, { machine.setRegister x (.ofNat key.val) with
        pc := machine.pc.next, awaiting := none }, source) := by
  rw [← deliver_of_awaiting machine x _ waits]
  simp [step, sample, waits, held]

theorem step_of_stored_wait (machine : Machine) (source : WordSource) (x : Register)
    (running : machine.awaiting = none)
    (stored : machine.memory.readWord machine.pc = Instruction.encode (.awaitKey x))
    (released : machine.keypad.lowest? = none) :
    machine.step source =
      (.awaitingKey, { machine with awaiting := some x, pc := machine.pc.wrap }, source) := by
  have decoded : Instruction.decode machine.fetch.1 = some (.awaitKey x) := by
    rw [fetch_word, stored, Instruction.decode_encode]
  have parked := execute_awaitKey machine.fetch.2 source x released
  rw [step_of_running machine source running, ← origin_fetch]
  simp only [executeNext, decoded, parked]
  rfl

/-- The instruction that a pending wait belongs to is stored where the program counter is. -/
def Anchored (machine : Machine) : Prop :=
  ∀ x, machine.awaiting = some x →
    machine.memory.readWord machine.pc = Instruction.encode (.awaitKey x)

theorem anchored_of_running (machine : Machine) (running : machine.awaiting = none) :
    machine.Anchored := by
  intro x waits
  rw [running] at waits
  contradiction

theorem step_anchored (machine : Machine) (source : WordSource) (anchored : machine.Anchored) :
    (machine.step source).2.1.Anchored := by
  have cycle := step_cycle machine source
  generalize machine.step source = result at cycle ⊢
  cases cycle with
  | parked => exact anchored
  | woken => exact anchored_of_running _ (awaiting_deliver machine _)
  | unassigned running | faulted _ _ running => exact anchored_of_running _ running
  | suspended x running upcoming released =>
    intro y waits
    obtain rfl := Option.some.inj waits
    change machine.memory.readWord machine.fetch.2.origin = _
    rw [origin_fetch, Memory.readWord_wrap]
    exact eq_encode_of_upcoming machine _ running upcoming
  | completed _ _ _ _ _ continues => exact anchored_of_running _ continues

/-- The two bytes of a pending wait. -/
theorem bytes_of_anchored (machine : Machine) (x : Register) (anchored : machine.Anchored)
    (waits : machine.awaiting = some x) :
    machine.memory.read machine.pc = .ofNat (0xF0 + x.val) ∧
      machine.memory.read (.ofNat ((machine.pc.toNat + 1) % 4096)) = 0x0A := by
  have ten : (0x0A : UInt8).toNat = 10 := rfl
  have word := congrArg UInt16.toNat (anchored x waits)
  have high := (machine.memory.read machine.pc).toNat_lt
  have low := (machine.memory.read (machine.pc + 1)).toNat_lt
  rw [Memory.toNat_readWord, Instruction.encode, Word.toNat_ofByte _ _ _ (by omega), ten] at word
  rw [Memory.read_succ]
  constructor
  · apply UInt8.toNat_inj.mp
    rw [UInt8.toNat_ofNat']
    omega
  · apply UInt8.toNat_inj.mp
    rw [ten]
    omega

/-- A wait is pending that the next step ends. -/
def Wakeable (machine : Machine) : Prop := machine.awaiting.isSome ∧ machine.keypad.lowest? ≠ none

theorem not_wakeable_of_running (machine : Machine) (running : machine.awaiting = none) :
    ¬machine.Wakeable := by
  simp [Wakeable, running]

theorem step_not_wakeable (machine : Machine) (source : WordSource) :
    ¬(machine.step source).2.1.Wakeable := by
  have cycle := step_cycle machine source
  generalize machine.step source = result at cycle ⊢
  cases cycle with
  | parked x awaits released | suspended x running upcoming released =>
    exact fun wakeable => wakeable.2 released
  | woken => exact not_wakeable_of_running _ (awaiting_deliver machine _)
  | unassigned running | faulted _ _ running => exact not_wakeable_of_running _ running
  | completed _ _ _ _ _ continues => exact not_wakeable_of_running _ continues

end ChipEight.Machine
