import ChipEight.Proofs.Console.Run
import ChipEight.Proofs.Machine.Footprint

/-! The footprint of a step of a console that runs a program. -/

namespace ChipEight.Console

/-- What a step can change depends on the stored word alone. The two stores to memory write their window as
they should, and neither the keypad nor what the host and the console keep apart from the machine is ever
touched. -/
theorem step_footprint (console : Console) (running : console.machine.awaiting = none) :
    let word := console.machine.memory.readWord console.machine.pc
    let next := (console.perform .step).2
    (∀ part : Part, ¬part.WrittenBy word → part.Same console.machine next.machine) ∧
    ((Pattern.device 0x3 0x3).Accepts word →
      console.machine.StoresDecimal next.machine (Word.x word)) ∧
    ((Pattern.device 0x5 0x5).Accepts word →
      console.machine.StoresRegisters next.machine (Word.x word)) ∧
    next.machine.keypad = console.machine.keypad ∧ next.history = console.history ∧
    next.settings = console.settings ∧ next.sounding = console.sounding ∧
    next.lastFault = console.lastFault := by
  intro word next
  exact ⟨fun part => Machine.step_same console.machine console.source part running,
    Machine.step_storeDecimal console.machine console.source running,
    Machine.step_storeRegisters console.machine console.source running,
    Machine.step_keypad console.machine console.source, rfl, rfl, rfl, rfl⟩

/-- The digits of zero overwrite the first rows of a glyph and leave the fourth. -/
theorem step_footprint_glyph :
    let console := ((start {} (.cycle [7])).perform (.load #[0xF0, 0x33])).2
    let next := (console.perform .step).2
    console.machine.awaiting = none ∧ console.machine.memory.read 0 = 0xF0 ∧
      (next.machine.memory.read 0).toNat = 0 ∧
      next.machine.memory.read 3 = console.machine.memory.read 3 ∧
      ¬Part.index.WrittenBy 0xF033 ∧ next.machine.index = console.machine.index := by
  have zero : Machine.initial.registers[Word.x 0xF033].toNat / 100 = 0 := by decide
  have stored := Memory.readWord_place Memory.initial #[0xF0, 0x33] 0 0xF0 0x33 0xF033 (by decide)
    rfl rfl rfl
  have glyph : (Memory.initial.place #[0xF0, 0x33]).read 0 = 0xF0 := by
    rw [Memory.read_place, if_pos (by decide), Memory.read_initial]
    decide
  have loaded := start_load_of_le {} (.cycle [7]) #[0xF0, 0x33] (by decide)
  have kept := step_footprint ((start {} (.cycle [7])).perform (.load #[0xF0, 0x33])).2
  dsimp only at kept ⊢
  generalize (((start {} (.cycle [7])).perform (.load #[0xF0, 0x33])).2.perform .step).2 = next at kept ⊢
  rw [loaded] at kept ⊢
  generalize Memory.initial.place #[0xF0, 0x33] = memory at stored glyph kept ⊢
  have word : memory.readWord Machine.initial.pc = 0xF033 := stored
  obtain ⟨same, decimal, -⟩ := kept rfl
  dsimp only at same decimal
  rw [word] at same decimal
  obtain ⟨hundreds, -, -, others⟩ := decimal (by decide)
  have apart : ∀ place < 3, Address.cell 3 ≠ Address.cell (0 + .ofNat place) := by decide
  exact ⟨rfl, glyph, hundreds.trans zero, others 3 apart, by decide, same .index (by decide)⟩

end ChipEight.Console
