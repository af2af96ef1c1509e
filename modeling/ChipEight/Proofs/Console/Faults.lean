import ChipEight.Proofs.Bounds.Invariant
import ChipEight.Proofs.Instruction.Pattern

/-! Faults. A step raises one exactly where a full stack meets a call, an empty one a return, or no
instruction is stored, and the instruction is then skipped without any other trace. -/

namespace ChipEight

namespace Machine

theorem executeNext_eq_faulted_iff (machine : Machine) (source : WordSource) (fault : Fault) :
    (machine.executeNext source).1 = .faulted fault ↔
      (Instruction.decode machine.fetch.1 = none ∧
        fault = .unknownWord machine.fetch.1 machine.fetch.2.origin) ∨
      ∃ instruction, Instruction.decode machine.fetch.1 = some instruction ∧
        machine.fetch.2.execute source instruction = .error fault := by
  unfold executeNext
  dsimp only
  cases decoded : Instruction.decode machine.fetch.1 with
  | none => simp [eq_comm]
  | some instruction =>
    dsimp only
    cases executed : machine.fetch.2.execute source instruction with
    | error raised => simp [executed]
    | ok next =>
      dsimp only
      split <;> simp [executed]

theorem step_eq_faulted_iff (machine : Machine) (source : WordSource) (fault : Fault) :
    (machine.step source).1 = .faulted fault ↔
      machine.awaiting = none ∧
        (Pattern.call.Accepts (machine.memory.readWord machine.pc) ∧ 16 ≤ machine.stack.depth.toNat ∧
            fault = .stackOverflow machine.pc.wrap ∨
          machine.memory.readWord machine.pc = 0x00EE ∧ machine.stack.depth.toNat = 0 ∧
            fault = .stackUnderflow machine.pc.wrap ∨
          (∀ pattern ∈ Pattern.table, ¬pattern.Accepts (machine.memory.readWord machine.pc)) ∧
            fault = .unknownWord (machine.memory.readWord machine.pc) machine.pc.wrap) := by
  cases waiting : machine.awaiting with
  | some x =>
    have cycle := step_cycle machine source
    generalize machine.step source = result at cycle ⊢
    cases cycle with
    | parked | woken => simp
    | unassigned running | faulted _ _ running | suspended _ running | completed _ _ running =>
      rw [waiting] at running
      contradiction
  | none =>
    rw [step_of_running machine source waiting, executeNext_eq_faulted_iff,
      ← Pattern.decode_eq_none_iff, ← Pattern.decode_call_iff]
    simp only [execute_eq_error_iff, origin_fetch]
    constructor
    · intro faults
      refine ⟨trivial, ?_⟩
      rcases faults with unassigned | ⟨instruction, decoded, raised⟩
      · exact Or.inr (Or.inr unassigned)
      · rcases raised with ⟨rfl, empty, named⟩ | ⟨⟨target, rfl⟩, full, named⟩
        · exact Or.inr (Or.inl ⟨Instruction.eq_encode_of_decode _ _ decoded, empty, named⟩)
        · exact Or.inl ⟨⟨target, decoded⟩, full, named⟩
    · intro ⟨_, faults⟩
      rcases faults with ⟨⟨target, decoded⟩, full, named⟩ | ⟨word, empty, named⟩ | unassigned
      · exact Or.inr ⟨_, decoded, Or.inr ⟨⟨target, rfl⟩, full, named⟩⟩
      · have decoded : Instruction.decode machine.fetch.1 = some .ret :=
          (Instruction.decode_eq_some_iff _ _).mpr word
        exact Or.inr ⟨.ret, decoded, Or.inl ⟨rfl, empty, named⟩⟩
      · exact Or.inl unassigned

theorem step_of_fault (machine : Machine) (source : WordSource) (fault : Fault)
    (faults : (machine.step source).1 = .faulted fault) :
    machine.step source = (.faulted fault, { machine with pc := machine.pc.next }, source) := by
  have cycle := step_cycle machine source
  generalize machine.step source = result at faults cycle ⊢
  cases cycle with
  | parked | woken | suspended | completed => contradiction
  | unassigned running unknown =>
    obtain rfl := Outcome.faulted.inj faults
    rfl
  | faulted instruction raised running upcoming executed =>
    obtain rfl := Outcome.faulted.inj faults
    rfl

end Machine

namespace Console

/-- On every console that a run from power-on leads to, a step raises a fault exactly in the three ways
there are, and the fault moves the program counter past the instruction and changes nothing else. -/
theorem step_faults_iff (settings : Settings) (source : WordSource) (requests : List Request)
    (fault : Fault) :
    let console := ((start settings source).performAll requests).2
    let machine := console.machine
    let origin := machine.pc
    let high := machine.memory.read origin
    let low := machine.memory.read (.ofNat ((origin.toNat + 1) % 4096))
    let word : UInt16 := .ofNat (high.toNat * 256 + low.toNat)
    (console.step.1 = .faulted fault ↔
      machine.awaiting = none ∧
        (Pattern.call.Accepts word ∧ machine.stack.depth.toNat = 16 ∧ fault = .stackOverflow origin ∨
          word = 0x00EE ∧ machine.stack.depth.toNat = 0 ∧ fault = .stackUnderflow origin ∨
          (∀ pattern ∈ Pattern.table, ¬pattern.Accepts word) ∧ fault = .unknownWord word origin)) ∧
    (console.step.1 = .faulted fault →
      console.perform .step =
        (.failed (.fault fault),
          { console with machine := { machine with pc := .ofNat ((origin.toNat + 2) % 4096) } }) ∧
      (Error.fault fault).isFault) := by
  intro console machine origin high low word
  have bounded : machine.Bounded :=
    (performAll_everywhere Machine.bounded_stable settings source requests).1
  have inside : machine.pc.wrap = machine.pc :=
    Address.wrap_of_lt machine.pc (Nat.lt_succ_of_le bounded.pc)
  have next : (.ofNat ((origin.toNat + 2) % 4096) : Address) = machine.pc.next := by
    rw [← Address.toNat_next, UInt16.ofNat_toNat]
  have stored : word = machine.memory.readWord machine.pc := by
    have second : low = machine.memory.read (origin + 1) := by
      apply Memory.read_congr
      have one : (1 : UInt16).toNat = 1 := rfl
      rw [UInt16.toNat_ofNat', UInt16.toNat_add, one]
      omega
    have highBound := high.toNat_lt
    have lowBound := low.toNat_lt
    apply UInt16.toNat_inj.mp
    rw [UInt16.toNat_ofNat', Memory.toNat_readWord, ← second]
    exact Nat.mod_eq_of_lt (by omega)
  have deep : 16 ≤ machine.stack.depth.toNat ↔ machine.stack.depth.toNat = 16 :=
    ⟨fun full => Nat.le_antisymm bounded.stack.depth full, Nat.le_of_eq ∘ Eq.symm⟩
  constructor
  · rw [stored, ← deep]
    have faults := Machine.step_eq_faulted_iff machine console.source fault
    rw [inside] at faults
    exact faults
  · intro faults
    have stepped : console.step =
        (.faulted fault, { console with machine := { machine with pc := machine.pc.next } }) := by
      unfold step
      rw [Machine.step_of_fault machine console.source fault faults]
    rw [next]
    refine ⟨?_, rfl⟩
    unfold perform
    rw [stepped]
    rfl

end Console

end ChipEight
