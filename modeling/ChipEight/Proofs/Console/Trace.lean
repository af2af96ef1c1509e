import ChipEight.Proofs.Console.Steps

/-! The instructions that a run executes, in order, each with the machine before and after it. The frames of
a run execute the instructions of their plain steps. What is noted of one execution after another can be
carried along a run together with a relation to the console, and so can what is known of each execution. -/

namespace ChipEight

/-- An instruction that a step executed. A step that meets a wait, or a word that is no instruction, executes
none. -/
structure Execution where
  before : Machine
  instruction : Instruction
  outcome : Outcome
  after : Machine

namespace Execution

variable {State : Type} (note : State → Execution → State) (property : State → Execution → Prop)

/-- Each execution has a property with regard to what was noted of the executions before it. -/
def Along (state : State) : List Execution → Prop
  | [] => True
  | execution :: rest => property state execution ∧ Along (note state execution) rest

theorem along_append (state : State) (early late : List Execution) :
    Along note property state (early ++ late) ↔
      Along note property state early ∧ Along note property (early.foldl note state) late := by
  induction early generalizing state with
  | nil => exact ⟨fun holds => ⟨trivial, holds⟩, And.right⟩
  | cons execution early ih =>
    rw [List.cons_append, Along, ih, List.foldl_cons, Along, and_assoc]

/-- An execution in the middle has the property with regard to those before it. -/
theorem property_of_along (state : State) (early late : List Execution) (execution : Execution)
    (along : Along note property state (early ++ execution :: late)) :
    property (early.foldl note state) execution :=
  ((along_append note property state early _).mp along).2.1

end Execution

namespace Console

def execution? (console : Console) : Option Execution :=
  console.machine.upcoming?.map fun instruction =>
    ⟨console.machine, instruction, console.step.1, console.step.2.machine⟩

def stepsTrace : (count : Nat) → Console → List Execution
  | 0, _ => []
  | count + 1, console => console.execution?.toList ++ stepsTrace count console.step.2

def requestTrace (console : Console) : Request → List Execution
  | .step => console.execution?.toList
  | .frame => console.stepsTrace console.settings.instructionsPerFrame.toNat
  | .load _ | .setKey _ _ | .tick | .rewind | .reset | .takeRedraw | .takeScreen | .setSpeed _ => []

/-- The instructions that a run executes, in order. -/
def trace (console : Console) : List Request → List Execution
  | [] => []
  | request :: rest => console.requestTrace request ++ (console.perform request).2.trace rest

theorem execution?_eq_some_iff (console : Console) (execution : Execution) :
    console.execution? = some execution ↔
      console.machine.upcoming? = some execution.instruction ∧
        execution.before = console.machine ∧ execution.outcome = console.step.1 ∧
        execution.after = console.step.2.machine := by
  obtain ⟨before, instruction, outcome, after⟩ := execution
  simp only [execution?, Option.map_eq_some_iff, Execution.mk.injEq]
  constructor
  · rintro ⟨upcoming, found, rfl, rfl, rfl, rfl⟩
    exact ⟨found, rfl, rfl, rfl⟩
  · rintro ⟨found, rfl, rfl, rfl⟩
    exact ⟨instruction, found, rfl, rfl, rfl, rfl⟩

theorem execution?_eq_none_iff (console : Console) :
    console.execution? = none ↔ console.machine.upcoming? = none :=
  Option.map_eq_none_iff

theorem stepsTrace_add (early late : Nat) (console : Console) :
    console.stepsTrace (early + late) =
      console.stepsTrace early ++ (console.steps early).2.stepsTrace late := by
  induction early generalizing console with
  | zero => rw [Nat.zero_add]; rfl
  | succ early ih => rw [Nat.succ_add, stepsTrace, ih, stepsTrace, List.append_assoc, steps_succ]

/-- The first of several steps executes the instruction that is stored at the program counter. -/
theorem stepsTrace_of_stored (count : Nat) (console : Console) (next : Machine)
    (instruction : Instruction) (running : console.machine.awaiting = none)
    (stored : console.machine.memory.readWord console.machine.pc = instruction.encode)
    (executed : console.machine.fetch.2.execute console.source instruction = .ok next)
    (continues : next.awaiting = none) :
    console.stepsTrace (count + 1) = ⟨console.machine, instruction, .executed, next⟩ ::
      stepsTrace count
        { console with machine := next, source := console.source.after instruction } := by
  have upcoming : console.machine.upcoming? = some instruction := by
    rw [Machine.upcoming?_of_running _ running, Machine.fetch_word, stored,
      Instruction.decode_encode]
  rw [stepsTrace, execution?, upcoming,
    step_of_stored console next instruction running stored executed continues]
  rfl

variable {State : Type}

/-- What is noted of executions stays related to the console: a step relates what it notes of its own
execution, and neither the end of a frame nor any other request makes a difference. -/
structure Tracks (allowed : Console → Request → Prop) (note : State → Execution → State)
    (relation : State → Console → Prop) : Prop where
  step : ∀ state console, relation state console →
    relation (console.execution?.toList.foldl note state) console.step.2
  frameEnd : ∀ state console history lastFault, relation state console →
    relation state { console.tick.2 with history, lastFault }
  other : ∀ state console request, allowed console request → request ≠ .step → request ≠ .frame →
    relation state console → relation state (console.perform request).2

variable {allowed : Console → Request → Prop} {note : State → Execution → State}
  {relation : State → Console → Prop}

theorem steps_tracks (tracks : Tracks allowed note relation) (count : Nat) (state : State)
    (console : Console) (holds : relation state console) :
    relation ((console.stepsTrace count).foldl note state) (console.steps count).2 := by
  induction count generalizing state console with
  | zero => exact holds
  | succ count ih =>
    rw [stepsTrace, List.foldl_append]
    exact ih _ _ (tracks.step state console holds)

theorem perform_tracks (tracks : Tracks allowed note relation) (state : State) (console : Console)
    (request : Request) (permitted : allowed console request) (holds : relation state console) :
    relation ((console.requestTrace request).foldl note state) (console.perform request).2 := by
  cases request with
  | step => exact tracks.step state console holds
  | frame =>
    change relation _ console.frame.2
    rw [frame_def]
    exact tracks.frameEnd _ _ _ _ (steps_tracks tracks _ state console holds)
  | _ => exact tracks.other state console _ permitted nofun nofun holds

theorem performAll_tracks (tracks : Tracks allowed note relation) (state : State) (console : Console)
    (requests : List Request) (throughout : console.Throughout allowed requests)
    (holds : relation state console) :
    relation ((console.trace requests).foldl note state) (console.performAll requests).2 := by
  induction requests generalizing state console with
  | nil => exact holds
  | cons request rest ih =>
    rw [trace, List.foldl_append]
    exact ih _ _ throughout.2 (perform_tracks tracks state console request throughout.1 holds)

variable {property : State → Execution → Prop}

theorem execution?_along (known : ∀ state console execution, relation state console →
      console.execution? = some execution → property state execution)
    (state : State) (console : Console) (holds : relation state console) :
    Execution.Along note property state console.execution?.toList := by
  cases executed : console.execution? with
  | none => trivial
  | some execution => exact ⟨known state console execution holds executed, trivial⟩

theorem stepsTrace_along (tracks : Tracks allowed note relation)
    (known : ∀ state console execution, relation state console →
      console.execution? = some execution → property state execution)
    (count : Nat) (state : State) (console : Console) (holds : relation state console) :
    Execution.Along note property state (console.stepsTrace count) := by
  induction count generalizing state console with
  | zero => trivial
  | succ count ih =>
    rw [stepsTrace, Execution.along_append]
    exact ⟨execution?_along known state console holds, ih _ _ (tracks.step state console holds)⟩

/-- What a relation tells of the next execution holds of every execution of a run. -/
theorem trace_along (tracks : Tracks allowed note relation)
    (known : ∀ state console execution, relation state console →
      console.execution? = some execution → property state execution)
    (state : State) (console : Console) (requests : List Request)
    (throughout : console.Throughout allowed requests) (holds : relation state console) :
    Execution.Along note property state (console.trace requests) := by
  induction requests generalizing state console with
  | nil => trivial
  | cons request rest ih =>
    have later := ih _ _ throughout.2 (perform_tracks tracks state console request throughout.1 holds)
    rw [trace, Execution.along_append]
    refine ⟨?_, later⟩
    cases request with
    | step => exact execution?_along known state console holds
    | frame => exact stepsTrace_along tracks known _ state console holds
    | _ => trivial

end Console

end ChipEight
