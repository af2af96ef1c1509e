import ChipEight.Proofs.Bounds.Invariant
import ChipEight.Proofs.Console.Steps
import ChipEight.Proofs.Instruction.Pattern
import ChipEight.Proofs.Machine.Words

/-! Where the program goes. The program counter after a step is known from the stored word, read as a pattern,
and from what the word's kind looks at; every word that is not listed leads to the word after it. -/

namespace ChipEight

namespace Machine

open Word

/-- The word that is stored passes over the next instruction. -/
def Skips (machine : Machine) (word : UInt16) : Prop :=
  let first := machine.register (Word.x word)
  let second := machine.register (Word.y word)
  (⟨some 0x3, none, none, none⟩ : Pattern).Accepts word ∧ first = Word.byte word ∨
  (⟨some 0x4, none, none, none⟩ : Pattern).Accepts word ∧ first ≠ Word.byte word ∨
  (⟨some 0x5, none, none, some 0x0⟩ : Pattern).Accepts word ∧ first = second ∨
  (⟨some 0x9, none, none, some 0x0⟩ : Pattern).Accepts word ∧ first ≠ second ∨
  (Pattern.keypad 0x9 0xE).Accepts word ∧ machine.keypad.isHeld (.low first) = true ∨
  (Pattern.keypad 0xA 0x1).Accepts word ∧ machine.keypad.isHeld (.low first) = false

instance (machine : Machine) (word : UInt16) : Decidable (machine.Skips word) :=
  inferInstanceAs (Decidable (_ ∨ _ ∨ _ ∨ _ ∨ _ ∨ _))

/-- The address some cells ahead of the program counter. -/
def ahead (machine : Machine) (distance : Nat) : Nat := (machine.pc.toNat + distance) % 4096

/-- The address that a step on a word leads to. -/
def destination (machine : Machine) (word : UInt16) : Nat :=
  let depth := machine.stack.depth.toNat
  if (⟨some 0x1, none, none, none⟩ : Pattern).Accepts word then (Word.target word).val
  else if Pattern.call.Accepts word ∧ depth < 16 then (Word.target word).val
  else if (⟨some 0xB, none, none, none⟩ : Pattern).Accepts word then
    ((Word.target word).val + (machine.register 0).toNat) % 4096
  else if (⟨some 0x0, some 0x0, some 0xE, some 0xE⟩ : Pattern).Accepts word ∧ 0 < depth then
    (machine.stack.slots[depth - 1]?.getD 0).toNat
  else if (Pattern.device 0x0 0xA).Accepts word ∧ ∀ key, machine.keypad.isHeld key = false then
    machine.pc.toNat
  else if machine.Skips word then machine.ahead 4
  else machine.ahead 2

theorem destination_of_unassigned (machine : Machine) (word : UInt16)
    (unknown : Instruction.decode word = none) : machine.destination word = machine.ahead 2 := by
  have refused := (Pattern.decode_eq_none_iff word).mp unknown
  simp only [Pattern.table, List.forall_mem_cons] at refused
  simp [destination, Skips, refused]

/-- The address that a step on an instruction leads to. -/
def leadsTo (machine : Machine) : Instruction → Nat
  | .jump target => target.val
  | .call target => if machine.stack.depth.toNat < 16 then target.val else machine.ahead 2
  | .jumpFromV0 target => (target.val + (machine.register 0).toNat) % 4096
  | .ret =>
    if 0 < machine.stack.depth.toNat then
      (machine.stack.slots[machine.stack.depth.toNat - 1]?.getD 0).toNat
    else machine.ahead 2
  | .awaitKey _ =>
    if ∀ key, machine.keypad.isHeld key = false then machine.pc.toNat else machine.ahead 2
  | .skip condition => if machine.holds condition then machine.ahead 4 else machine.ahead 2
  | _ => machine.ahead 2

theorem skips_encode (machine : Machine) (condition : Condition) :
    machine.Skips (Instruction.skip condition).encode ↔ machine.holds condition = true := by
  cases condition <;>
    simp [Skips, holds, Instruction.encode, Pattern.Accepts, Pattern.Fits, Pattern.keypad,
      leading_ofByte, x_ofByte, byte_ofByte, Pattern.y_ofByte, Pattern.last_ofByte, leading_ofDigits,
      x_ofDigits, y_ofDigits, last_ofDigits]

theorem destination_encode (machine : Machine) (instruction : Instruction) :
    machine.destination instruction.encode = machine.leadsTo instruction := by
  unfold destination leadsTo
  dsimp only
  -- Only the choice of an address matters, so the two that are some way ahead need no computing.
  generalize machine.ahead 2 = next
  generalize machine.ahead 4 = past
  cases instruction with
  | skip condition =>
    simp only [skips_encode]
    cases condition <;>
      simp [Instruction.encode, Pattern.Accepts, Pattern.Fits, Pattern.call, Pattern.device,
        leading_ofByte, Pattern.y_ofByte, leading_ofDigits]
  | clearScreen => rfl
  | ret =>
    have digits : leading Instruction.ret.encode = 0x0 ∧ (x Instruction.ret.encode).val = 0x0 ∧
        (y Instruction.ret.encode).val = 0xE ∧ (last Instruction.ret.encode).val = 0xE := by decide
    simp [digits, Skips, Pattern.Accepts, Pattern.Fits, Pattern.call, Pattern.keypad, Pattern.device]
  | _ =>
    simp [Skips, Instruction.encode, Pattern.Accepts, Pattern.Fits, Pattern.call, Pattern.keypad,
      Pattern.device, leading_ofTarget, target_ofTarget, leading_ofByte, Pattern.y_ofByte,
      Pattern.last_ofByte, leading_ofDigits]

theorem holds_fetch (machine : Machine) (condition : Condition) :
    machine.fetch.2.holds condition = machine.holds condition := by
  cases condition <;> rfl

theorem toNat_target (target : Fin 4096) : (UInt16.ofNat target.val : Address).toNat = target.val := by
  rw [UInt16.toNat_ofNat']
  omega

/-- Fetching has moved on by one word already; what an instruction does to the program counter is on top of
that. -/
theorem execute_pc (machine next : Machine) (source : WordSource) (instruction : Instruction)
    (inside : machine.pc.toNat < 4096)
    (executed : machine.fetch.2.execute source instruction = .ok next) :
    next.pc.toNat = machine.leadsTo instruction := by
  have fetched : machine.fetch.2.pc.toNat = machine.ahead 2 := Address.toNat_next machine.pc
  cases instruction with
  | ret =>
    obtain ⟨address, stack, popped, rfl⟩ := execute_ret _ _ _ executed
    obtain ⟨filled, rfl⟩ := CallStack.address_of_pop? _ _ _ popped
    exact (if_pos filled).symm
  | jump target =>
    obtain rfl := Except.ok.inj executed
    exact toNat_target target
  | call target =>
    obtain ⟨stack, pushed, rfl⟩ := execute_call _ _ _ _ executed
    have room : machine.stack.depth.toNat < 16 := by
      refine Nat.lt_of_not_le fun full => ?_
      have refused := (CallStack.push?_eq_none_iff machine.stack machine.fetch.2.pc).mpr full
      exact Option.some_ne_none _ (pushed.symm.trans refused)
    exact (toNat_target target).trans (if_pos room).symm
  | skip condition =>
    obtain rfl := Except.ok.inj executed
    unfold leadsTo
    simp only [holds_fetch, skipWhen]
    cases machine.holds condition with
    | true =>
      rw [if_pos rfl, if_pos rfl, Address.toNat_next, fetched]
      unfold ahead
      omega
    | false =>
      rw [if_neg Bool.false_ne_true, if_neg Bool.false_ne_true]
      exact fetched
  | compute operation x y =>
    obtain rfl := Except.ok.inj executed
    obtain ⟨registers, same⟩ := compute_changes machine.fetch.2 operation x y
    rw [same]
    exact fetched
  | jumpFromV0 target =>
    obtain rfl := Except.ok.inj executed
    refine (Address.toNat_wrap_add _ _).trans ?_
    rw [toNat_target, UInt8.toNat_toUInt16]
    rfl
  | awaitKey x =>
    obtain rfl := Except.ok.inj executed
    have same : machine.fetch.2.keypad.lowest? = machine.keypad.lowest? := rfl
    unfold leadsTo
    simp only [awaitKey, same, ← Keypad.lowest?_eq_none_iff]
    cases machine.keypad.lowest? with
    | none =>
      rw [if_pos rfl]
      change machine.fetch.2.origin.toNat = _
      rw [origin_fetch, Address.wrap_of_lt machine.pc inside]
    | some key =>
      rw [if_neg (Option.some_ne_none key)]
      exact fetched
  | restoreRegisters x =>
    obtain rfl := Except.ok.inj executed
    exact fetched
  | _ =>
    obtain rfl := Except.ok.inj executed
    exact fetched

/-- A step that the program takes leads where the stored word says, also where its instruction faults. -/
theorem step_destination (machine : Machine) (source : WordSource) (running : machine.awaiting = none)
    (inside : machine.pc.toNat < 4096) :
    (machine.step source).2.1.pc.toNat =
      machine.destination (machine.memory.readWord machine.pc) := by
  have fetched : machine.fetch.2.pc.toNat = machine.ahead 2 := Address.toNat_next machine.pc
  rw [machine_step machine source running, executeWord, fetch_word]
  cases decoded : Instruction.decode (machine.memory.readWord machine.pc) with
  | none =>
    rw [destination_of_unassigned machine _ decoded]
    exact fetched
  | some instruction =>
    rw [Instruction.eq_encode_of_decode _ _ decoded, destination_encode]
    dsimp only
    cases executed : machine.fetch.2.execute source instruction with
    | ok next => exact execute_pc machine next source instruction inside executed
    | error fault =>
      refine fetched.trans ?_
      rcases (execute_eq_error_iff _ _ _ _).mp executed with
        ⟨rfl, empty, -⟩ | ⟨⟨target, rfl⟩, full, -⟩
      · exact (if_neg (Nat.not_lt_of_le (Nat.le_of_eq empty))).symm
      · exact (if_neg (Nat.not_lt_of_le full)).symm

end Machine

namespace Console

/-- Where a step of any console leads: the stored word is read from the two cells before the step, so an
instruction that overwrites its own bytes leads on as well. -/
theorem step_leads (settings : Settings) (source : WordSource) (requests : List Request)
    (running : ((start settings source).performAll requests).2.machine.awaiting = none) :
    let console := ((start settings source).performAll requests).2
    let machine := console.machine
    let high := machine.memory.read machine.pc
    let low := machine.memory.read (.ofNat ((machine.pc.toNat + 1) % 4096))
    let word : UInt16 := .ofNat (high.toNat * 256 + low.toNat)
    (console.perform .step).2.machine.pc.toNat = machine.destination word := by
  intro console machine high low word
  have bounded := (performAll_everywhere Machine.bounded_stable settings source requests).1
  have stored : machine.memory.readWord machine.pc = word := Memory.readWord_eq_ofNat _ _
  rw [← stored]
  exact Machine.step_destination machine console.source running (Nat.lt_succ_of_le bounded.pc)

/-- A program that jumps to the last cell. -/
private def leaping : List Request := [.load #[0x1F, 0xFF], .step]

private theorem performAll_leaping :
    ((start {} (.cycle [7])).performAll leaping).2 =
      { start {} (.cycle [7]) with
        machine := { Machine.initial with
          memory := Memory.initial.place #[0x1F, 0xFF], pc := 0xFFF } } := by
  have stored := Memory.readWord_place Memory.initial #[0x1F, 0xFF] 0 0x1F 0xFF
    (Instruction.encode (.jump 0xFFF)) (by decide) rfl rfl rfl
  rw [leaping, performAll_cons_snd, start_load_of_le _ _ _ (by decide), performAll_cons_snd]
  generalize Memory.initial.place #[0x1F, 0xFF] = memory at stored ⊢
  let console : Console := { start {} (.cycle [7]) with machine := { Machine.initial with memory } }
  have jumps := step_of_stored console { console.machine with pc := 0xFFF } (.jump 0xFFF)
    rfl stored rfl rfl
  have jumped : (console.perform .step).2 =
      { console with machine := { console.machine with pc := 0xFFF } } := by
    rw [perform, jumps]
    rfl
  rw [jumped, performAll]

/-- The word at the last cell goes on in the first cell. It is not listed, and its step leads past the end of
memory. -/
theorem step_leads_straddling :
    let console := ((start {} (.cycle [7])).performAll leaping).2
    console.machine.awaiting = none ∧ console.machine.pc = 0xFFF ∧
      console.machine.memory.read 0xFFF = 0x00 ∧ console.machine.memory.read 0x000 = 0xF0 ∧
      (console.perform .step).2.machine.pc.toNat = 0x001 := by
  have high : (Memory.initial.place #[0x1F, 0xFF]).read 0xFFF = 0x00 := by
    rw [Memory.read_place, if_neg (by decide), Memory.read_initial]
    decide
  have low : (Memory.initial.place #[0x1F, 0xFF]).read 0x000 = 0xF0 := by
    rw [Memory.read_place, if_pos (by decide), Memory.read_initial]
    decide
  obtain ⟨running, pc, final, first⟩ :
      let console := ((start {} (.cycle [7])).performAll leaping).2
      console.machine.awaiting = none ∧ console.machine.pc = 0xFFF ∧
        console.machine.memory.read 0xFFF = 0x00 ∧ console.machine.memory.read 0x000 = 0xF0 := by
    rw [performAll_leaping]
    exact ⟨rfl, rfl, high, low⟩
  have leads := step_leads {} (.cycle [7]) leaping running
  dsimp only at leads ⊢
  generalize ((start {} (.cycle [7])).performAll leaping).2 = console at *
  refine ⟨running, pc, final, first, leads.trans ?_⟩
  have second : UInt16.ofNat ((UInt16.toNat 0xFFF + 1) % 4096) = 0x000 := rfl
  rw [pc, second, final, first, Machine.destination_of_unassigned _ _ rfl, Machine.ahead, pc]
  rfl

end Console

end ChipEight
