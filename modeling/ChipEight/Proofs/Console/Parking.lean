import ChipEight.Proofs.Console.Delivery
import ChipEight.Proofs.Instruction.Pattern

/-! Two ways for a key to reach a program that asks for one. A program that comes to the instruction before the
key is parked on it, and the press moves it on; a program that comes after the press takes the key without
being parked. Both ways end in the same console. -/

namespace ChipEight

/-- A key that is held already is taken by the instruction itself. -/
theorem Machine.step_of_held_wait (machine : Machine) (source : WordSource) (x : Register) (key : Key)
    (running : machine.awaiting = none)
    (stored : machine.memory.readWord machine.pc = Instruction.encode (.awaitKey x))
    (held : machine.keypad.lowest? = some key) :
    machine.step source =
      (.executed, { machine.setRegister x (.ofNat key.val) with pc := machine.pc.next }, source) := by
  refine step_of_stored machine _ source (.awaitKey x) running stored ?_ running
  have same : machine.fetch.2.keypad.lowest? = some key := held
  simp only [execute, awaitKey, same]
  rfl

namespace Console

theorem perform_press_key (console : Console) (key : Key) :
    console.perform (.ofKey (key, true)) = (.done, { console with
      machine := Machine.deliver
        { console.machine with keypad := console.machine.keypad.set key true } (.ofNat key.val) }) := by
  have number : (UInt8.ofNat key.val).toNat = key.val := by
    rw [UInt8.toNat_ofNat']
    omega
  have valid : (UInt8.ofNat key.val).toNat < 16 := by omega
  have named : (⟨(UInt8.ofNat key.val).toNat, valid⟩ : Key) = key := Fin.ext number
  simp only [Request.ofKey, perform, setKey, dif_pos valid, named, accept, if_pos]

section Asking

variable (console : Console) (x : Register) (key : Key)

/-- The program is parked on the instruction that asks for a key. -/
def parkedOn : Console :=
  { console with
    machine := { console.machine with awaiting := some x, pc := console.machine.pc.wrap } }

/-- The program has received the key and is past the instruction that asked for it. -/
def handed : Console :=
  { console with
    machine := { console.machine.setRegister x (.ofNat key.val) with
      pc := console.machine.pc.next
      keypad := console.machine.keypad.set key true } }

variable (running : console.machine.awaiting = none)

include running

theorem press_parkedOn :
    (console.parkedOn x).perform (.ofKey (key, true)) = (.done, console.handed x key) := by
  -- The program was parked on the wrapped address, from which the next instruction is the same one.
  have next : console.machine.pc.wrap.next = console.machine.pc.next := by
    apply UInt16.toNat_inj.mp
    rw [Address.toNat_next, Address.toNat_next, Address.toNat_wrap]
    omega
  rw [perform_press_key, Machine.deliver_of_awaiting _ x _ rfl]
  simp only [parkedOn, handed, Machine.setRegister, next, running]

variable (stored : console.machine.memory.readWord console.machine.pc = Instruction.encode (.awaitKey x))
  (released : console.machine.keypad.lowest? = none)

include stored released

/-- The first step parks the program, and the others find it parked. -/
theorem steps_parkedOn (count : Nat) :
    console.steps (count + 1) = (List.replicate (count + 1) .awaitingKey, console.parkedOn x) := by
  have parks : console.step = (.awaitingKey, console.parkedOn x) := by
    unfold step
    rw [Machine.step_of_stored_wait console.machine console.source x running stored released]
    rfl
  have parked : (console.parkedOn x).machine.Parked := ⟨rfl, released⟩
  rw [steps_succ, parks, steps_of_parked count _ parked, List.replicate_succ]

theorem performAll_steps_press (count : Nat) :
    console.performAll (List.replicate (count + 1) .step ++ [.ofKey (key, true)]) =
      (List.replicate (count + 1) .awaitingKey ++ [.done], console.handed x key) := by
  rw [performAll_append, performAll_step, steps_parkedOn console x running stored released,
    List.map_replicate, performAll_cons, press_parkedOn console x key running]
  rfl

theorem performAll_press_step :
    console.performAll [.ofKey (key, true), .step] = ([.done, .executed], console.handed x key) := by
  let machine : Machine := { console.machine with keypad := console.machine.keypad.set key true }
  have pressed : console.perform (.ofKey (key, true)) = (.done, { console with machine }) := by
    rw [perform_press_key, Machine.deliver_of_running machine _ running]
  have takes := Machine.step_of_held_wait machine console.source x key running stored
    (Keypad.lowest?_press _ key released)
  have stepped : perform { console with machine } .step = (.executed, console.handed x key) := by
    simp only [perform, step, takes]
    rfl
  rw [performAll_cons, pressed, performAll_cons, stepped]
  rfl

end Asking

/-- A program that comes to an instruction which asks for a key, while none is held, is parked there however
many steps follow, and the press of a key then leaves what a press before the first step would have left: the
key in its register, the program past the instruction, and everything else as it was. -/
theorem park_press_eq_press_step (console : Console) (count : Nat) (key : Key) (steps : 0 < count)
    (running : console.machine.awaiting = none)
    (released : ∀ other, console.machine.keypad.isHeld other = false)
    (stored : (Pattern.device 0x0 0xA).Accepts (console.machine.memory.readWord console.machine.pc)) :
    let x := Word.x (console.machine.memory.readWord console.machine.pc)
    let parked := console.performAll (List.replicate count .step ++ [.ofKey (key, true)])
    let pressed := console.performAll [.ofKey (key, true), .step]
    parked.2 = pressed.2 ∧
    parked.1 = List.replicate count .awaitingKey ++ [.done] ∧ pressed.1 = [.done, .executed] ∧
    pressed.2 = { console with
      machine := { console.machine.setRegister x (.ofNat key.val) with
        pc := .ofNat ((console.machine.pc.toNat + 2) % 4096)
        keypad := console.machine.keypad.set key true } } := by
  have word := Pattern.eq_ofByte_of_device _ _ _ stored
  have none := (Keypad.lowest?_eq_none_iff _).mpr released
  intro x parked pressed
  obtain ⟨before, rfl⟩ : ∃ before, count = before + 1 :=
    Nat.exists_eq_succ_of_ne_zero (Nat.ne_of_gt steps)
  have first : parked = _ := performAll_steps_press console x key running word none before
  have second : pressed = _ := performAll_press_step console x key running word none
  rw [first, second, Address.ofNat_next]
  exact ⟨rfl, rfl, rfl, rfl⟩

/-- The instruction lies in the last cell and the first one. -/
theorem park_press_eq_press_step_straddling :
    let memory := (Memory.initial.write 0xFFF 0xF5).write 0x000 0x0A
    let console := { start {} (.cycle [7]) with machine := { Machine.initial with memory, pc := 0xFFF } }
    console.machine.awaiting = none ∧ (∀ key, console.machine.keypad.isHeld key = false) ∧
      (Pattern.device 0x0 0xA).Accepts (console.machine.memory.readWord console.machine.pc) ∧
      let parked := console.performAll (List.replicate 3 .step ++ [.ofKey (0xB, true)])
      parked.1 = List.replicate 3 .awaitingKey ++ [.done] ∧
      parked.2 = (console.performAll [.ofKey (0xB, true), .step]).2 ∧
      parked.2.machine.register 5 = 0xB ∧ parked.2.machine.pc = 0x001 := by
  intro memory console
  have high : memory.read 0xFFF = 0xF5 := by
    rw [Memory.read_write, if_neg (by decide), Memory.read_write, if_pos (by decide)]
  have low : memory.read (0xFFF + 1) = 0x0A := by
    rw [Memory.read_write, if_pos (by decide)]
  have word : memory.readWord 0xFFF = 0xF50A := by
    rw [Memory.readWord, high, low]
    rfl
  have stored : (Pattern.device 0x0 0xA).Accepts (memory.readWord 0xFFF) := by
    rw [word]
    decide
  have released : ∀ key, console.machine.keypad.isHeld key = false := Keypad.isHeld_released
  obtain ⟨same, replies, -, last⟩ :=
    park_press_eq_press_step console 3 0xB (by decide) rfl released stored
  refine ⟨rfl, released, stored, replies, same, ?_, ?_⟩
  · rw [same, last]
    change (console.machine.setRegister (Word.x (memory.readWord 0xFFF)) 0xB).register 5 = 0xB
    rw [word, Machine.register_setRegister, if_pos (by decide)]
  · rw [same, last]
    change UInt16.ofNat ((UInt16.toNat 0xFFF + 2) % 4096) = 0x001
    decide

end Console

end ChipEight
