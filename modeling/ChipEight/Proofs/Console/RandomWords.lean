import ChipEight.Proofs.Console.Trace

/-! Random words along a run. Every random instruction takes the next word of the source and no other
instruction takes one, so the words taken are as many as the random instructions executed, and rewinding or
resetting gives none of them back. Two consoles with different sources cannot be told apart before a random
instruction with a mask other than zero. -/

namespace ChipEight

namespace WordSource

def advanceBy (source : WordSource) (count : Nat) : WordSource :=
  { source with taken := source.taken + count }

theorem advanceBy_advanceBy (source : WordSource) (first second : Nat) :
    (source.advanceBy first).advanceBy second = source.advanceBy (first + second) := by
  simp only [advanceBy, Nat.add_assoc]

end WordSource

namespace Machine

theorem register_step_random (machine : Machine) (source : WordSource) (x : Register) (mask : UInt8)
    (upcoming : machine.upcoming? = some (.random x mask)) :
    (machine.step source).2.1.register x = source.byte &&& mask := by
  have running : machine.awaiting = none := by
    cases waiting : machine.awaiting with
    | none => rfl
    | some y => simp [upcoming?, waiting] at upcoming
  have decoded := upcoming?_of_running machine running
  rw [upcoming, fetch_word] at decoded
  have stored := Instruction.eq_encode_of_decode _ _ decoded.symm
  rw [step_of_stored machine _ source (.random x mask) running stored rfl running]
  exact (register_setRegister machine.fetch.2 x x _).trans (if_pos rfl)

theorem execute_other (machine : Machine) (source other : WordSource) (instruction : Instruction)
    (masked : ∀ x mask, instruction = .random x mask → mask = 0) :
    machine.execute other instruction = machine.execute source instruction := by
  cases instruction with
  | random x mask =>
    obtain rfl := masked x mask rfl
    have none (byte : UInt8) : byte &&& 0 = 0 := UInt8.and_zero
    simp only [execute, none]
  | _ => rfl

/-- A step that masks out whatever it takes comes to the same with any other source. -/
theorem step_other (machine : Machine) (source other : WordSource)
    (masked : ∀ x mask, machine.upcoming? = some (.random x mask) → mask = 0) :
    machine.step other = ((machine.step source).1, (machine.step source).2.1,
      machine.upcoming?.elim other other.after) := by
  have outcomes : (machine.step other).1 = (machine.step source).1 ∧
      (machine.step other).2.1 = (machine.step source).2.1 := by
    cases waiting : machine.awaiting with
    | some x =>
      simp only [step, waiting]
      exact ⟨rfl, rfl⟩
    | none =>
      have upcoming := upcoming?_of_running machine waiting
      rw [step_of_running machine other waiting, step_of_running machine source waiting]
      simp only [executeNext]
      cases decoded : Instruction.decode machine.fetch.1 with
      | none => exact ⟨rfl, rfl⟩
      | some instruction =>
        have same := execute_other machine.fetch.2 source other instruction (by
          rintro x mask rfl
          exact masked x mask (upcoming.trans decoded))
        dsimp only
        rw [same]
        cases machine.fetch.2.execute source instruction with
        | error fault => exact ⟨rfl, rfl⟩
        | ok next => exact ⟨rfl, rfl⟩
  rw [← outcomes.1, ← outcomes.2, ← step_source]

end Machine

namespace Execution

/-- What was executed is a random instruction. -/
def isRandom (execution : Execution) : Bool :=
  match execution.instruction with
  | .random _ _ => true
  | _ => false

/-- The execution makes no use of the random word, if it takes one. -/
def Masked (execution : Execution) : Prop :=
  ∀ x mask, execution.instruction = .random x mask → mask = 0

def noteSource (source : WordSource) (execution : Execution) : WordSource :=
  source.after execution.instruction

/-- A random instruction takes a word, and no other instruction does. -/
theorem noteSource_eq (source : WordSource) (execution : Execution) :
    noteSource source execution = if execution.isRandom then source.advance else source := by
  obtain ⟨before, instruction, outcome, after⟩ := execution
  cases instruction with
  | _ => rfl

theorem foldl_noteSource (source : WordSource) (executions : List Execution) :
    executions.foldl noteSource source = source.advanceBy (executions.countP isRandom) := by
  induction executions generalizing source with
  | nil => rfl
  | cons execution rest ih =>
    rw [List.foldl_cons, ih, noteSource_eq]
    by_cases takes : execution.isRandom
    · rw [if_pos takes, List.countP_cons_of_pos takes, Nat.add_comm]
      exact WordSource.advanceBy_advanceBy source 1 _
    · rw [if_neg takes, List.countP_cons_of_neg takes]

end Execution

namespace Console

theorem foldl_execution? (console : Console) (source : WordSource) :
    console.execution?.toList.foldl Execution.noteSource source =
      console.machine.upcoming?.elim source source.after := by
  unfold execution?
  cases console.machine.upcoming? with
  | none => rfl
  | some instruction => rfl

theorem source_tracks : Tracks (fun _ _ => True) Execution.noteSource
    fun source console => console.source = source where
  step := by
    rintro _ console rfl
    rw [foldl_execution?]
    exact Machine.step_source console.machine console.source
  frameEnd _ _ _ _ same := same
  other := by
    rintro _ console request - noStep noFrame rfl
    cases request with
    | load image =>
      obtain ⟨memory, same⟩ := console.perform_load image
      rw [same]
    | setKey key held =>
      obtain ⟨registers, pc, keypad, awaiting, same⟩ := console.perform_setKey key held
      rw [same]
    | rewind =>
      simp only [perform, rewind]
      cases console.history with
      | nil => rfl
      | cons earlier older => rfl
    | reset | tick | takeRedraw | takeScreen | setSpeed => rfl
    | step | frame => contradiction

theorem register_of_random (console : Console) (execution : Execution) (x : Register) (mask : UInt8)
    (executed : console.execution? = some execution)
    (random : execution.instruction = .random x mask) :
    execution.after.register x = console.source.byte &&& mask := by
  obtain ⟨upcoming, -, -, after⟩ := (execution?_eq_some_iff console execution).mp executed
  rw [random] at upcoming
  rw [after]
  exact Machine.register_step_random console.machine console.source x mask upcoming

/-- The same console in front of another source. -/
def withSource (console : Console) (source : WordSource) : Console := { console with source }

theorem step_withSource (console : Console) (other : WordSource)
    (masked : ∀ execution ∈ console.execution?.toList, execution.Masked) :
    (console.withSource other).step = (console.step.1,
      console.step.2.withSource (console.execution?.toList.foldl Execution.noteSource other)) := by
  have quiet : ∀ x mask, console.machine.upcoming? = some (.random x mask) → mask = 0 := by
    intro x mask upcoming
    have executed : ⟨console.machine, .random x mask, console.step.1, console.step.2.machine⟩ ∈
        console.execution?.toList := by simp [execution?, upcoming]
    exact masked _ executed x mask rfl
  unfold withSource step
  dsimp only
  rw [Machine.step_other console.machine console.source other quiet, foldl_execution?]

theorem steps_withSource (count : Nat) (console : Console) (other : WordSource)
    (masked : ∀ execution ∈ console.stepsTrace count, execution.Masked) :
    (console.withSource other).steps count = ((console.steps count).1,
      (console.steps count).2.withSource
        ((console.stepsTrace count).foldl Execution.noteSource other)) := by
  induction count generalizing console other with
  | zero => rfl
  | succ count ih =>
    have first := step_withSource console other fun execution member =>
      masked execution (List.mem_append_left _ member)
    have others := ih console.step.2 (console.execution?.toList.foldl Execution.noteSource other)
      fun execution member => masked execution (List.mem_append_right _ member)
    rw [steps_succ, first, others, steps_succ, stepsTrace, List.foldl_append]

theorem frame_withSource (console : Console) (other : WordSource)
    (masked : ∀ execution ∈ console.requestTrace .frame, execution.Masked) :
    (console.withSource other).frame = (console.frame.1,
      console.frame.2.withSource ((console.requestTrace .frame).foldl Execution.noteSource other)) := by
  have steps : (console.withSource other).steps
      (console.withSource other).settings.instructionsPerFrame.toNat = (_, _) :=
    steps_withSource _ console other masked
  rw [frame_def, steps, frame_def]
  rfl

theorem perform_withSource (console : Console) (other : WordSource) (request : Request)
    (masked : ∀ execution ∈ console.requestTrace request, execution.Masked) :
    (console.withSource other).perform request = ((console.perform request).1,
      (console.perform request).2.withSource
        ((console.requestTrace request).foldl Execution.noteSource other)) := by
  cases request with
  | load image =>
    by_cases fits : image.size ≤ Memory.imageCapacity
    · simp only [perform, load, if_pos fits]
      rfl
    · simp only [perform, load, if_neg fits]
      rfl
  | setKey key held =>
    by_cases valid : key.toNat < 16
    · simp only [perform, setKey, dif_pos valid]
      rfl
    · simp only [perform, setKey, dif_neg valid]
      rfl
  | step =>
    simp only [perform, step_withSource console other masked]
    rfl
  | frame =>
    simp only [perform, frame_withSource console other masked]
  | rewind =>
    obtain ⟨machine, history, settings, source, sounding, lastFault⟩ := console
    cases history with
    | nil => rfl
    | cons earlier older => rfl
  | tick | reset | takeRedraw | takeScreen | setSpeed => rfl

theorem performAll_withSource (console : Console) (other : WordSource) (requests : List Request)
    (masked : ∀ execution ∈ console.trace requests, execution.Masked) :
    (console.withSource other).performAll requests = ((console.performAll requests).1,
      (console.performAll requests).2.withSource
        ((console.trace requests).foldl Execution.noteSource other)) := by
  induction requests generalizing console other with
  | nil => rfl
  | cons request rest ih =>
    have first := perform_withSource console other request fun execution member =>
      masked execution (List.mem_append_left _ member)
    have others := ih (console.perform request).2
      ((console.requestTrace request).foldl Execution.noteSource other)
      fun execution member => masked execution (List.mem_append_right _ member)
    rw [performAll_cons, first, others, performAll_cons, trace, List.foldl_append]

/-- After every run from power-on as many words were taken as random instructions executed, and each of these
left in its register the low byte of its own word under its mask. A console and one that differs from it in
nothing but the source give the same replies and stay alike in everything else on every run that executes no
random instruction with a mask other than zero. -/
theorem random_words_taken (settings : Settings) (words : Nat → UInt32) (requests : List Request) :
    let start := start settings ⟨words, 0⟩
    let reached := (start.performAll requests).2
    let trace := start.trace requests
    reached.source = ⟨words, trace.countP Execution.isRandom⟩ ∧
    (∀ before execution after x mask, trace = before ++ execution :: after →
      execution.instruction = .random x mask →
      execution.after.register x =
        .ofNat ((words (before.countP Execution.isRandom)).toNat % 256) &&& mask) ∧
    ∀ (console : Console) (other : WordSource) (later : List Request),
      (∀ execution ∈ console.trace later, ∀ x mask,
        execution.instruction = .random x mask → mask = 0) →
      { console with source := other }.performAll later = ((console.performAll later).1,
        { (console.performAll later).2 with
          source := ⟨other.word,
            other.taken + (console.trace later).countP Execution.isRandom⟩ }) := by
  intro start reached trace
  have always : start.Throughout (fun _ _ => True) requests :=
    throughout_of_mem start requests fun _ _ _ => trivial
  have noted (executions : List Execution) : executions.foldl Execution.noteSource ⟨words, 0⟩ =
      ⟨words, executions.countP Execution.isRandom⟩ := by
    rw [Execution.foldl_noteSource, WordSource.advanceBy, Nat.zero_add]
  refine ⟨?_, ?_, ?_⟩
  · rw [← noted]
    exact performAll_tracks source_tracks _ start requests always rfl
  · intro before execution after x mask split random
    have along : Execution.Along Execution.noteSource
        (fun source execution => ∀ x mask, execution.instruction = .random x mask →
          execution.after.register x = source.byte &&& mask) ⟨words, 0⟩ trace :=
      trace_along source_tracks
        (fun _ console execution same executed x mask random =>
          same ▸ register_of_random console execution x mask executed random)
        _ start requests always rfl
    rw [split] at along
    have received := Execution.property_of_along _ _ _ _ _ _ along x mask random
    rw [noted] at received
    rw [received]
    congr 1
    apply UInt8.toNat_inj.mp
    simp [WordSource.byte]
  · intro console other later masked
    have same := performAll_withSource console other later masked
    rw [Execution.foldl_noteSource] at same
    exact same

/-- A stored random instruction is executed, and the program runs on after it. -/
private theorem step_random (console : Console) (x : Register) (mask : UInt8)
    (running : console.machine.awaiting = none)
    (stored : console.machine.memory.readWord console.machine.pc =
      Instruction.encode (.random x mask)) :
    ∃ execution, console.execution? = some execution ∧ execution.instruction = .random x mask ∧
      console.step.2.machine.awaiting = none ∧
      console.step.2.machine.memory = console.machine.memory ∧
      console.step.2.machine.pc = console.machine.pc.next := by
  have upcoming : console.machine.upcoming? = some (.random x mask) := by
    rw [Machine.upcoming?_of_running _ running, Machine.fetch_word, stored, Instruction.decode_encode]
  have stepped := step_of_stored console _ (.random x mask) running stored rfl running
  rw [execution?, upcoming, stepped]
  exact ⟨_, rfl, rfl, running, rfl, rfl⟩

/-- Two random registers and then one whose mask is zero. -/
private def lottery : Array UInt8 := #[0xC0, 0xFF, 0xC1, 0xFF, 0xC2, 0x00]

private theorem trace_step (console : Console) (instruction : Instruction)
    (upcoming : console.machine.upcoming? = some instruction) :
    console.trace [.step] =
      [⟨console.machine, instruction, console.step.1, console.step.2.machine⟩] := by
  rw [trace, requestTrace, execution?, upcoming]
  rfl

private theorem trace_step_twice (console : Console) :
    console.trace [.step, .step] = console.execution?.toList ++ console.step.2.execution?.toList :=
  congrArg (_ ++ ·) (List.append_nil _)

private theorem performAll_step_twice (console : Console) :
    (console.performAll [.step, .step]).2 = console.step.2.step.2 := rfl

private theorem stored_lottery (settings : Settings) (source : WordSource) :
    let machine := ((start settings source).perform (.load lottery)).2.machine
    machine.awaiting = none ∧ machine.pc = 0x200 ∧
      machine.memory.readWord 0x200 = Instruction.encode (.random 0 0xFF) ∧
      machine.memory.readWord 0x202 = Instruction.encode (.random 1 0xFF) ∧
      machine.memory.readWord 0x204 = Instruction.encode (.random 2 0) := by
  have first := Memory.readWord_place Memory.initial lottery 0 0xC0 0xFF
    (Instruction.encode (.random 0 0xFF)) (by decide) rfl rfl rfl
  have second := Memory.readWord_place Memory.initial lottery 2 0xC1 0xFF
    (Instruction.encode (.random 1 0xFF)) (by decide) rfl rfl rfl
  have third := Memory.readWord_place Memory.initial lottery 4 0xC2 0x00
    (Instruction.encode (.random 2 0)) (by decide) rfl rfl rfl
  rw [start_load_of_le settings source lottery (by decide)]
  exact ⟨rfl, rfl, first, second, third⟩

/-- Two steps execute the first two of the three instructions. -/
private theorem step_twice_lottery (console : Console) (running : console.machine.awaiting = none)
    (begins : console.machine.pc = 0x200)
    (first : console.machine.memory.readWord 0x200 = Instruction.encode (.random 0 0xFF))
    (second : console.machine.memory.readWord 0x202 = Instruction.encode (.random 1 0xFF))
    (third : console.machine.memory.readWord 0x204 = Instruction.encode (.random 2 0)) :
    ∃ earlier later, console.trace [.step, .step] = [earlier, later] ∧
      earlier.instruction = .random 0 0xFF ∧ later.instruction = .random 1 0xFF ∧
      (console.performAll [.step, .step]).2.machine.upcoming? = some (.random 2 0) := by
  obtain ⟨earlier, executed, random, runs, kept, moved⟩ :=
    step_random console 0 0xFF running (by rw [begins]; exact first)
  have onward : console.step.2.machine.pc = 0x202 := by
    rw [moved, begins]
    decide
  obtain ⟨later, executedLater, randomLater, runsOn, keptOn, movedOn⟩ :=
    step_random console.step.2 1 0xFF runs (by rw [kept, onward]; exact second)
  have further : console.step.2.step.2.machine.pc = 0x204 := by
    rw [movedOn, onward]
    decide
  rw [trace_step_twice, performAll_step_twice, executed, executedLater]
  refine ⟨earlier, later, rfl, random, randomLater, ?_⟩
  rw [Machine.upcoming?_of_running _ runsOn, Machine.fetch_word, keptOn, kept, further, third,
    Instruction.decode_encode]

/-- The second register receives the second word, and the third comes to the same with any source. -/
theorem random_words_taken_lottery :
    let words : Nat → UInt32 := fun position => .ofNat (position + 5)
    let start := start {} ⟨words, 0⟩
    let requests := [Request.load lottery, .step, .step]
    let reached := (start.performAll requests).2
    let other := WordSource.cycle [9]
    reached.source = ⟨words, 2⟩ ∧
      (∃ earlier later, start.trace requests = [earlier, later] ∧
        earlier.after.register 0 = 5 ∧ later.after.register 1 = 6) ∧
      reached.machine.upcoming? = some (.random 2 0) ∧
      { reached with source := other }.performAll [.step] = ((reached.performAll [.step]).1,
        { (reached.performAll [.step]).2 with source := ⟨other.word, 1⟩ }) := by
  intro words
  obtain ⟨taken, received, elsewhere⟩ :=
    random_words_taken {} words [.load lottery, .step, .step]
  obtain ⟨running, begins, first, second, third⟩ := stored_lottery {} ⟨words, 0⟩
  dsimp only at taken received elsewhere running begins first second third ⊢
  generalize start {} ⟨words, 0⟩ = console at *
  rw [trace] at taken received ⊢
  rw [performAll_cons_snd] at taken ⊢
  generalize (console.perform (.load lottery)).2 = begun at *
  obtain ⟨earlier, later, traced, random, randomLater, upcoming⟩ :=
    step_twice_lottery begun running begins first second third
  have whole : console.requestTrace (.load lottery) ++ begun.trace [.step, .step] =
      [earlier, later] := by
    rw [traced]
    rfl
  rw [whole] at taken received ⊢
  generalize (begun.performAll [.step, .step]).2 = reached at *
  have two : [earlier, later].countP Execution.isRandom = 2 := by
    simp [Execution.isRandom, random, randomLater]
  have one : [earlier].countP Execution.isRandom = 1 := by simp [Execution.isRandom, random]
  rw [two] at taken
  have received₁ := received [] earlier [later] 0 0xFF rfl random
  have received₂ := received [earlier] later [] 1 0xFF rfl randomLater
  rw [one] at received₂
  have alike := elsewhere reached (.cycle [9]) [.step] (by
    rw [trace_step reached _ upcoming]
    intro execution member x mask same
    rw [List.mem_singleton.mp member] at same
    exact (Instruction.random.inj same).2.symm)
  rw [trace_step reached _ upcoming, List.countP_singleton] at alike
  refine ⟨taken, ⟨earlier, later, rfl, ?_, ?_⟩, upcoming, alike⟩
  · rw [received₁]
    decide
  · rw [received₂]
    decide

end Console

end ChipEight
