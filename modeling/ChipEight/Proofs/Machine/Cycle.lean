import ChipEight.Machine.Cycle

/-! The cycle of a machine as a relation, with one rule for each thing that can happen in it. Proofs about
a cycle split into these rules; only a completed instruction needs a look at what instructions do. -/

namespace ChipEight.Machine

/-- The instruction that the next cycle executes. There is none while the program waits for a key or where
no instruction is stored. -/
def upcoming? (machine : Machine) : Option Instruction :=
  if machine.awaiting.isSome then none else Instruction.decode (machine.memory.readWord machine.pc)

@[simp] theorem fetch_word (machine : Machine) :
    machine.fetch.1 = machine.memory.readWord machine.pc := rfl

theorem origin_fetch (machine : Machine) : machine.fetch.2.origin = machine.pc.wrap :=
  Address.previous_next machine.pc

theorem compute_changes (machine : Machine) (operation : Arithmetic) (x y : Register) :
    ∃ registers, machine.compute operation x y = { machine with registers } := by
  unfold compute
  dsimp only
  split
  · exact ⟨_, rfl⟩
  · exact ⟨_, rfl⟩

theorem deliver_changes (machine : Machine) (key : UInt8) :
    ∃ registers pc awaiting, machine.deliver key = { machine with registers, pc, awaiting } := by
  unfold deliver
  split
  · exact ⟨_, _, _, rfl⟩
  · exact ⟨_, _, _, rfl⟩

theorem restore_changes (machine : Machine) (x : Register) :
    ∃ registers, machine.restore x = { machine with registers } := ⟨_, rfl⟩

theorem skipWhen_eq (machine : Machine) (condition : Bool) :
    machine.skipWhen condition = { machine with pc := machine.pc } ∨
      machine.skipWhen condition = { machine with pc := machine.pc.next } := by
  cases condition with
  | true => exact Or.inr rfl
  | false => exact Or.inl rfl

theorem push_eq_ok (machine next : Machine) (address : Address)
    (pushed : machine.push address = .ok next) :
    ∃ stack, machine.stack.push? address = some stack ∧ next = { machine with stack } := by
  unfold push at pushed
  split at pushed
  next stack room => exact ⟨stack, room, (Except.ok.inj pushed).symm⟩
  next => contradiction

theorem pop_eq_ok (machine next : Machine) (address : Address)
    (popped : machine.pop = .ok (address, next)) :
    ∃ stack, machine.stack.pop? = some (address, stack) ∧ next = { machine with stack } := by
  unfold pop at popped
  split at popped
  next stack filled =>
    obtain ⟨rfl, rfl⟩ := Prod.mk.inj (Except.ok.inj popped)
    exact ⟨stack, filled, rfl⟩
  next => contradiction

theorem execute_ret (machine next : Machine) (source : WordSource)
    (executed : machine.execute source .ret = .ok next) :
    ∃ address stack, machine.stack.pop? = some (address, stack) ∧
      next = { machine with stack, pc := address } := by
  unfold execute at executed
  cases popped : machine.pop with
  | error fault =>
    rw [popped] at executed
    contradiction
  | ok result =>
    obtain ⟨address, after⟩ := result
    rw [popped] at executed
    obtain ⟨stack, filled, rfl⟩ := pop_eq_ok _ _ _ popped
    exact ⟨address, stack, filled, (Except.ok.inj executed).symm⟩

theorem execute_call (machine next : Machine) (source : WordSource) (target : Fin 4096)
    (executed : machine.execute source (.call target) = .ok next) :
    ∃ stack, machine.stack.push? machine.pc = some stack ∧
      next = { machine with stack, pc := .ofNat target.val } := by
  unfold execute at executed
  cases pushed : machine.push machine.pc with
  | error fault =>
    rw [pushed] at executed
    contradiction
  | ok after =>
    rw [pushed] at executed
    obtain ⟨stack, room, rfl⟩ := push_eq_ok _ _ _ pushed
    exact ⟨stack, room, (Except.ok.inj executed).symm⟩

theorem execute_awaitKey (machine : Machine) (source : WordSource) (x : Register)
    (released : machine.keypad.lowest? = none) :
    machine.execute source (.awaitKey x) =
      .ok { machine with awaiting := some x, pc := machine.origin } := by
  simp only [execute, awaitKey, released]

theorem execute_eq_error_iff (machine : Machine) (source : WordSource) (instruction : Instruction)
    (fault : Fault) :
    machine.execute source instruction = .error fault ↔
      (instruction = .ret ∧ machine.stack.depth.toNat = 0 ∧ fault = .stackUnderflow machine.origin) ∨
      ((∃ target, instruction = .call target) ∧ 16 ≤ machine.stack.depth.toNat ∧
        fault = .stackOverflow machine.origin) := by
  cases instruction with
  | ret =>
    rw [← CallStack.pop?_eq_none_iff]
    unfold execute pop
    cases popped : machine.stack.pop? with
    | none => simp [bind, Except.bind, eq_comm]
    | some result => simp [bind, Except.bind, pure, Except.pure]
  | call target =>
    rw [← CallStack.push?_eq_none_iff machine.stack machine.pc]
    unfold execute push
    cases pushed : machine.stack.push? machine.pc with
    | none => simp [bind, Except.bind, eq_comm]
    | some stack => simp [bind, Except.bind, pure, Except.pure]
  | _ => simp [execute]

/-- An instruction that completes either changes the screen and makes the note that it has to be shown, or
suspends the program, or leaves the screen, the note, the keypad and the wait as they were. -/
theorem execute_changes (machine next : Machine) (source : WordSource) (instruction : Instruction)
    (executed : machine.execute source instruction = .ok next) :
    (∃ registers index pc stack delay sound memory,
      next = { machine with registers, index, pc, stack, delay, sound, memory }) ∨
    (∃ registers screen, next = { machine with registers, screen, redraw := true }) ∨
      ∃ x, instruction = .awaitKey x ∧ machine.keypad.lowest? = none ∧
        next = { machine with awaiting := some x, pc := machine.origin } := by
  cases instruction with
  | clearScreen | draw =>
    obtain rfl := Except.ok.inj executed
    exact Or.inr (Or.inl ⟨_, _, rfl⟩)
  | ret =>
    obtain ⟨address, stack, -, rfl⟩ := execute_ret _ _ _ executed
    exact Or.inl ⟨_, _, _, _, _, _, _, rfl⟩
  | call target =>
    obtain ⟨stack, -, rfl⟩ := execute_call _ _ _ _ executed
    exact Or.inl ⟨_, _, _, _, _, _, _, rfl⟩
  | skip condition =>
    obtain rfl := Except.ok.inj executed
    rcases skipWhen_eq machine (machine.holds condition) with same | same
    · exact Or.inl ⟨_, _, _, _, _, _, _, same⟩
    · exact Or.inl ⟨_, _, _, _, _, _, _, same⟩
  | compute operation x y =>
    obtain rfl := Except.ok.inj executed
    obtain ⟨registers, same⟩ := compute_changes machine operation x y
    exact Or.inl ⟨_, _, _, _, _, _, _, same⟩
  | awaitKey x =>
    obtain rfl := Except.ok.inj executed
    unfold awaitKey
    cases held : machine.keypad.lowest? with
    | some key => exact Or.inl ⟨_, _, _, _, _, _, _, rfl⟩
    | none => exact Or.inr (Or.inr ⟨x, rfl, rfl, rfl⟩)
  | _ =>
    obtain rfl := Except.ok.inj executed
    exact Or.inl ⟨_, _, _, _, _, _, _, rfl⟩

/-- An instruction that waits for a key suspends the program if no key is held. No other instruction
starts or ends a wait, and none touches the keypad. -/
theorem execute_awaiting (machine next : Machine) (source : WordSource) (instruction : Instruction)
    (executed : machine.execute source instruction = .ok next) :
    (next.keypad = machine.keypad ∧ next.awaiting = machine.awaiting) ∨
      ∃ x, instruction = .awaitKey x ∧ machine.keypad.lowest? = none ∧
        next = { machine with awaiting := some x, pc := machine.origin } := by
  rcases execute_changes _ _ _ _ executed with
    ⟨registers, index, pc, stack, delay, sound, memory, rfl⟩ | ⟨registers, screen, rfl⟩ | suspends
  · exact Or.inl ⟨rfl, rfl⟩
  · exact Or.inl ⟨rfl, rfl⟩
  · exact Or.inr suspends

/-- What one cycle can come to, from a machine and a source to an outcome, a machine and a source. -/
inductive Cycle (machine : Machine) (source : WordSource) : Outcome × Machine × WordSource → Prop
  | parked (x : Register) (awaits : machine.awaiting = some x)
      (released : machine.keypad.lowest? = none) :
      Cycle machine source (.awaitingKey, machine, source)
  | woken (x : Register) (key : Key) (awaits : machine.awaiting = some x)
      (held : machine.keypad.lowest? = some key) :
      Cycle machine source (.executed, machine.deliver (.ofNat key.val), source)
  | unassigned (running : machine.awaiting = none) (unknown : machine.upcoming? = none) :
      Cycle machine source
        (.faulted (.unknownWord machine.fetch.1 machine.fetch.2.origin), machine.fetch.2, source)
  | faulted (instruction : Instruction) (fault : Fault) (running : machine.awaiting = none)
      (upcoming : machine.upcoming? = some instruction)
      (raised : machine.fetch.2.execute source instruction = .error fault) :
      Cycle machine source (.faulted fault, machine.fetch.2, source)
  | suspended (x : Register) (running : machine.awaiting = none)
      (upcoming : machine.upcoming? = some (.awaitKey x))
      (released : machine.keypad.lowest? = none) :
      Cycle machine source
        (.awaitingKey, { machine with awaiting := some x, pc := machine.fetch.2.origin }, source)
  | completed (instruction : Instruction) (next : Machine) (running : machine.awaiting = none)
      (upcoming : machine.upcoming? = some instruction)
      (executed : machine.fetch.2.execute source instruction = .ok next)
      (continues : next.awaiting = none) :
      Cycle machine source (.executed, next, source.after instruction)

theorem upcoming?_of_running (machine : Machine) (running : machine.awaiting = none) :
    machine.upcoming? = Instruction.decode machine.fetch.1 := by
  simp [upcoming?, running]

theorem eq_encode_of_upcoming (machine : Machine) (instruction : Instruction)
    (running : machine.awaiting = none) (upcoming : machine.upcoming? = some instruction) :
    machine.memory.readWord machine.pc = instruction.encode := by
  rw [upcoming?_of_running machine running] at upcoming
  exact Instruction.eq_encode_of_decode _ _ upcoming

theorem step_of_running (machine : Machine) (source : WordSource) (running : machine.awaiting = none) :
    machine.step source = machine.executeNext source := by
  simp [step, running]

theorem step_cycle (machine : Machine) (source : WordSource) :
    Cycle machine source (machine.step source) := by
  cases waiting : machine.awaiting with
  | some x =>
    unfold step sample
    cases held : machine.keypad.lowest? with
    | none => simpa [waiting] using Cycle.parked x waiting held
    | some key => simpa [waiting] using Cycle.woken x key waiting held
  | none =>
    rw [step_of_running machine source waiting]
    have upcoming := upcoming?_of_running machine waiting
    unfold executeNext
    dsimp only
    split
    next unknown => exact Cycle.unassigned waiting (upcoming.trans unknown)
    next instruction decoded =>
      split
      next fault raised => exact Cycle.faulted instruction fault waiting (upcoming.trans decoded) raised
      next next executed =>
        rcases execute_awaiting _ _ _ _ executed with ⟨-, same⟩ | ⟨x, rfl, released, rfl⟩
        · have continues : next.awaiting = none := same.trans waiting
          rw [continues]
          exact Cycle.completed instruction next waiting (upcoming.trans decoded) executed continues
        · exact Cycle.suspended x waiting (upcoming.trans decoded) released

theorem step_of_stored (machine next : Machine) (source : WordSource) (instruction : Instruction)
    (running : machine.awaiting = none)
    (stored : machine.memory.readWord machine.pc = instruction.encode)
    (executed : machine.fetch.2.execute source instruction = .ok next)
    (continues : next.awaiting = none) :
    machine.step source = (.executed, next, source.after instruction) := by
  have decoded : Instruction.decode machine.fetch.1 = some instruction := by
    rw [fetch_word, stored, Instruction.decode_encode]
  rw [step_of_running machine source running]
  simp only [executeNext, decoded, executed, continues]
  rfl

/-- The program waits for a key and the host holds none. -/
def Parked (machine : Machine) : Prop := machine.awaiting.isSome ∧ machine.keypad.lowest? = none

theorem step_of_parked (machine : Machine) (source : WordSource) (parked : machine.Parked) :
    machine.step source = (.awaitingKey, machine, source) := by
  obtain ⟨waiting, released⟩ := parked
  simp [step, sample, waiting, released]

theorem parked_of_step (machine : Machine) (source : WordSource)
    (waits : (machine.step source).1 = .awaitingKey) : (machine.step source).2.1.Parked := by
  have cycle := step_cycle machine source
  generalize machine.step source = result at waits cycle ⊢
  cases cycle with
  | parked x awaits released => exact ⟨Option.isSome_of_eq_some awaits, released⟩
  | suspended x running upcoming released => exact ⟨rfl, released⟩
  | woken | unassigned | faulted | completed => contradiction

theorem running_of_step (machine : Machine) (source : WordSource)
    (continues : (machine.step source).1 ≠ .awaitingKey) : (machine.step source).2.1.awaiting = none := by
  have cycle := step_cycle machine source
  generalize machine.step source = result at continues cycle ⊢
  cases cycle with
  | parked | suspended => contradiction
  | woken x key awaits held => simp [deliver, awaits]
  | unassigned running unknown => exact running
  | faulted instruction fault running upcoming raised => exact running
  | completed instruction next running upcoming executed ended => exact ended

theorem step_keypad (machine : Machine) (source : WordSource) :
    (machine.step source).2.1.keypad = machine.keypad := by
  have cycle := step_cycle machine source
  generalize machine.step source = result at cycle ⊢
  cases cycle with
  | parked | unassigned | faulted | suspended => rfl
  | woken x key =>
    obtain ⟨registers, pc, awaiting, same⟩ := deliver_changes machine (.ofNat key.val)
    rw [same]
  | completed instruction next running upcoming executed continues =>
    rcases execute_awaiting _ _ _ _ executed with ⟨same, -⟩ | ⟨x, -, -, rfl⟩
    · exact same
    · rfl

/-- Of all steps, the one that executes a random instruction takes a word. -/
theorem step_source (machine : Machine) (source : WordSource) :
    (machine.step source).2.2 = machine.upcoming?.elim source source.after := by
  have cycle := step_cycle machine source
  generalize machine.step source = result at cycle ⊢
  cases cycle with
  | parked x awaits | woken x key awaits =>
    have none : machine.upcoming? = none := by simp [upcoming?, awaits]
    rw [none]
    rfl
  | unassigned running unknown =>
    rw [unknown]
    rfl
  | faulted instruction fault running upcoming raised =>
    rw [upcoming]
    rcases (execute_eq_error_iff _ _ _ _).mp raised with ⟨rfl, -, -⟩ | ⟨⟨target, rfl⟩, -, -⟩
    · rfl
    · rfl
  | suspended x running upcoming | completed instruction next running upcoming =>
    rw [upcoming]
    rfl

theorem step_source_of_regular (machine : Machine) (source : WordSource)
    (regular : ∀ instruction, machine.upcoming? = some instruction →
      instruction.takesRandomWord = false) :
    (machine.step source).2.2 = source := by
  rw [step_source]
  cases upcoming : machine.upcoming? with
  | none => rfl
  | some instruction => simp [WordSource.after, regular instruction upcoming]

end ChipEight.Machine
