import ChipEight.Proofs.Console.Run

/-! Frames and plain steps. Once a step waits for a key, every step after it does the same and changes
nothing, so a frame that ends its steps early comes to what it would have come to without doing so. -/

namespace ChipEight

namespace Outcome

def fault? : Outcome → Option Fault
  | .faulted fault => some fault
  | _ => none

def isFault (outcome : Outcome) : Bool := outcome.fault?.isSome

/-- A faulting instruction counts as one that ran. -/
def ran : Outcome → Bool
  | .awaitingKey => false
  | _ => true

theorem ran_of_isFault (outcome : Outcome) (faulted : outcome.isFault) : outcome.ran := by
  cases outcome with
  | executed => rfl
  | awaitingKey => contradiction
  | faulted fault => rfl

theorem ran_iff (outcome : Outcome) : outcome.ran ↔ outcome ≠ .awaitingKey := by
  cases outcome <;> simp [ran]

theorem isFault_of_reply (outcome : Outcome) (error : Error) (failed : outcome.reply = .failed error) :
    error.isFault := by
  cases outcome with
  | executed => contradiction
  | awaitingKey => contradiction
  | faulted fault =>
    obtain rfl := Reply.failed.inj failed
    rfl

/-- The last fault among outcomes, or the one from before if there is none. -/
def latestFault (outcomes : List Outcome) (earlier : Option Fault) : Option Fault :=
  (outcomes.filterMap fault?).getLast?.or earlier

theorem latestFault_nil (earlier : Option Fault) : latestFault [] earlier = earlier := rfl

theorem latestFault_executed (outcomes : List Outcome) (earlier : Option Fault) :
    latestFault (.executed :: outcomes) earlier = latestFault outcomes earlier := rfl

theorem latestFault_awaitingKey (count : Nat) (earlier : Option Fault) :
    latestFault (List.replicate count .awaitingKey) earlier = earlier := by
  have none : (List.replicate count awaitingKey).filterMap fault? = [] := by
    induction count with
    | zero => rfl
    | succ count ih => exact ih
  rw [latestFault, none]
  rfl

theorem latestFault_faulted (fault : Fault) (outcomes : List Outcome) (earlier : Option Fault) :
    latestFault (.faulted fault :: outcomes) earlier = latestFault outcomes (some fault) := by
  have first : (faulted fault :: outcomes).filterMap fault? = fault :: outcomes.filterMap fault? := rfl
  rw [latestFault, latestFault, first, List.getLast?_cons]
  cases (outcomes.filterMap fault?).getLast? with
  | none => rfl
  | some latest => rfl

theorem latestFault_append (early late : List Outcome) (earlier : Option Fault) :
    latestFault (early ++ late) earlier = latestFault late (latestFault early earlier) := by
  simp only [latestFault, List.filterMap_append, List.getLast?_append, Option.or_assoc]

end Outcome

namespace Tally

def add (tally : Tally) (outcomes : List Outcome) : Tally where
  executed := tally.executed + outcomes.countP Outcome.ran
  faults := tally.faults + outcomes.countP Outcome.isFault
  awaitingKey := tally.awaitingKey || outcomes.contains .awaitingKey

theorem add_nil (tally : Tally) : tally.add [] = tally := by
  simp [add]

theorem add_executed (tally : Tally) (outcomes : List Outcome) :
    tally.add (.executed :: outcomes) =
      { tally with executed := tally.executed + 1 }.add outcomes := by
  have counted : (Outcome.executed :: outcomes).countP Outcome.ran = outcomes.countP Outcome.ran + 1 :=
    List.countP_cons_of_pos rfl
  simp [add, counted, Outcome.isFault, Outcome.fault?, Nat.add_assoc, Nat.add_comm 1]

theorem add_faulted (tally : Tally) (fault : Fault) (outcomes : List Outcome) :
    tally.add (.faulted fault :: outcomes) =
      { tally with executed := tally.executed + 1, faults := tally.faults + 1 }.add outcomes := by
  have counted : (Outcome.faulted fault :: outcomes).countP Outcome.ran =
      outcomes.countP Outcome.ran + 1 := List.countP_cons_of_pos rfl
  have failed : (Outcome.faulted fault :: outcomes).countP Outcome.isFault =
      outcomes.countP Outcome.isFault + 1 := List.countP_cons_of_pos rfl
  simp [add, counted, failed, Nat.add_assoc, Nat.add_comm 1]

theorem add_awaitingKey (tally : Tally) (count : Nat) :
    tally.add (List.replicate (count + 1) .awaitingKey) = { tally with awaitingKey := true } := by
  have counted : (List.replicate (count + 1) Outcome.awaitingKey).countP Outcome.ran = 0 := by
    simp [List.countP_replicate, Outcome.ran]
  have failed : (List.replicate (count + 1) Outcome.awaitingKey).countP Outcome.isFault = 0 := by
    simp [List.countP_replicate, Outcome.isFault, Outcome.fault?]
  simp [add, counted, failed]

theorem add_waits (tally : Tally) (count : Nat) :
    (tally.add (List.replicate count .awaitingKey)).executed = tally.executed ∧
      (tally.add (List.replicate count .awaitingKey)).faults = tally.faults := by
  cases count with
  | zero => rw [List.replicate_zero, add_nil]; exact ⟨rfl, rfl⟩
  | succ count => rw [add_awaitingKey]; exact ⟨rfl, rfl⟩

end Tally

namespace Console

/-- Steps one after another, whatever they come to. -/
def steps : (count : Nat) → Console → List Outcome × Console
  | 0, console => ([], console)
  | count + 1, console =>
    let (outcome, next) := console.step
    let (outcomes, last) := steps count next
    (outcome :: outcomes, last)

theorem steps_zero_snd (console : Console) : (console.steps 0).2 = console := rfl

theorem steps_succ (count : Nat) (console : Console) :
    console.steps (count + 1) =
      (console.step.1 :: (console.step.2.steps count).1, (console.step.2.steps count).2) := rfl

theorem steps_add (early late : Nat) (console : Console) :
    console.steps (early + late) =
      ((console.steps early).1 ++ ((console.steps early).2.steps late).1,
        ((console.steps early).2.steps late).2) := by
  induction early generalizing console with
  | zero => rw [Nat.zero_add]; rfl
  | succ early ih => rw [Nat.succ_add, steps_succ, ih, steps_succ, List.cons_append]

theorem length_steps (count : Nat) (console : Console) : (console.steps count).1.length = count := by
  induction count generalizing console with
  | zero => rfl
  | succ count ih => rw [steps_succ, List.length_cons, ih]

theorem performAll_step (count : Nat) (console : Console) :
    console.performAll (List.replicate count .step) =
      ((console.steps count).1.map Outcome.reply, (console.steps count).2) := by
  induction count generalizing console with
  | zero => rfl
  | succ count ih =>
    rw [List.replicate_succ, steps_succ]
    simp only [performAll, perform]
    rw [ih]
    rfl

/-- A step executes the instruction that is stored at the program counter. -/
theorem step_of_stored (console : Console) (next : Machine) (instruction : Instruction)
    (running : console.machine.awaiting = none)
    (stored : console.machine.memory.readWord console.machine.pc = instruction.encode)
    (executed : console.machine.fetch.2.execute console.source instruction = .ok next)
    (continues : next.awaiting = none) :
    console.step = (.executed,
      { console with machine := next, source := console.source.after instruction }) := by
  unfold step
  rw [Machine.step_of_stored _ next console.source instruction running stored executed continues]

theorem step_of_parked (console : Console) (parked : console.machine.Parked) :
    console.step = (.awaitingKey, console) := by
  unfold step
  rw [Machine.step_of_parked _ _ parked]

theorem steps_of_parked (count : Nat) (console : Console) (parked : console.machine.Parked) :
    console.steps count = (List.replicate count .awaitingKey, console) := by
  induction count with
  | zero => rfl
  | succ count ih =>
    rw [steps_succ, step_of_parked console parked, ih, List.replicate_succ]

/-- A change of the console that no step sees can as well be made after the steps. -/
theorem steps_commute (change : Console → Console)
    (unseen : ∀ console : Console, (change console).step = (console.step.1, change console.step.2))
    (count : Nat) (console : Console) :
    (change console).steps count = ((console.steps count).1, change (console.steps count).2) := by
  induction count generalizing console with
  | zero => rfl
  | succ count ih => rw [steps_succ, unseen, ih, steps_succ]

theorem steps_lastFault (count : Nat) (console : Console) (lastFault : Option Fault) :
    { console with lastFault }.steps count =
      ((console.steps count).1, { (console.steps count).2 with lastFault }) :=
  steps_commute (fun console => { console with lastFault }) (fun _ => rfl) count console

theorem steps_history (count : Nat) (console : Console) (history : History Machine) :
    { console with history }.steps count =
      ((console.steps count).1, { (console.steps count).2 with history }) :=
  steps_commute (fun console => { console with history }) (fun _ => rfl) count console

theorem awaiting_steps (count : Nat) (console : Console) :
    (console.steps count).2.machine.awaiting.isSome ↔
      .awaitingKey ∈ (console.steps count).1 ∨ (count = 0 ∧ console.machine.awaiting.isSome) := by
  induction count generalizing console with
  | zero => simp [steps]
  | succ count ih =>
    rw [steps_succ]
    by_cases waits : console.step.1 = .awaitingKey
    · have parked : console.step.2.machine.Parked := Machine.parked_of_step _ _ waits
      rw [steps_of_parked count _ parked]
      simp [waits, parked.1]
    · have running : console.step.2.machine.awaiting = none := Machine.running_of_step _ _ waits
      rw [ih]
      simp [running, Ne.symm waits]

/-- The steps of a frame are the plain ones; what the frame does besides is to count them and to note the
latest fault. -/
theorem runSteps_eq_steps (count : Nat) (tally : Tally) (console : Console) :
    console.runSteps count tally =
      (tally.add (console.steps count).1,
        { (console.steps count).2 with
          lastFault := Outcome.latestFault (console.steps count).1 console.lastFault }) := by
  induction count generalizing tally console with
  | zero => rw [runSteps, steps, Tally.add_nil, Outcome.latestFault_nil]
  | succ count ih =>
    have parked : console.step.1 = .awaitingKey → console.step.2.machine.Parked :=
      Machine.parked_of_step _ _
    have unchanged : console.step.2.lastFault = console.lastFault := rfl
    rw [steps_succ]
    unfold runSteps
    generalize console.step = result at parked unchanged ⊢
    obtain ⟨outcome, next⟩ := result
    dsimp only at unchanged ⊢
    rw [← unchanged]
    cases outcome with
    | executed =>
      dsimp only
      rw [ih, Tally.add_executed, Outcome.latestFault_executed]
    | awaitingKey =>
      -- The frame stops here, and the plain steps that are left only repeat this one.
      dsimp only
      rw [steps_of_parked count next (parked rfl), ← List.replicate_succ, Tally.add_awaitingKey,
        Outcome.latestFault_awaitingKey]
    | faulted fault =>
      dsimp only
      rw [ih, steps_lastFault, Tally.add_faulted, Outcome.latestFault_faulted]

theorem frame_def (console : Console) :
    console.frame =
      ({ ({} : Tally).add (console.steps console.settings.instructionsPerFrame.toNat).1 with
          edges := (console.steps console.settings.instructionsPerFrame.toNat).2.tick.1 },
        { (console.steps console.settings.instructionsPerFrame.toNat).2.tick.2 with
          history := console.record.history
          lastFault := Outcome.latestFault
            (console.steps console.settings.instructionsPerFrame.toNat).1 console.lastFault }) := by
  unfold frame
  rw [runSteps_eq_steps, record, steps_history]
  rfl

theorem frame_machine_single (console : Console)
    (single : console.settings.instructionsPerFrame.toNat = 1) :
    console.frame.2.machine = (console.machine.step console.source).2.1.tick := by
  rw [frame_def, single]
  rfl

/-- The machine after a frame of one instruction. -/
theorem frame_of_stored (console : Console) (next : Machine) (instruction : Instruction)
    (single : console.settings.instructionsPerFrame.toNat = 1)
    (running : console.machine.awaiting = none)
    (stored : console.machine.memory.readWord console.machine.pc = instruction.encode)
    (executed : console.machine.fetch.2.execute console.source instruction = .ok next)
    (continues : next.awaiting = none) : console.frame.2.machine = next.tick := by
  rw [frame_machine_single console single,
    Machine.step_of_stored _ next console.source instruction running stored executed continues]

theorem frame_of_parked (console : Console) (parked : console.machine.Parked) :
    console.frame.1.executed = 0 ∧ console.frame.1.faults = 0 ∧
      console.frame.2.machine = console.machine.tick ∧ console.frame.2.source = console.source := by
  obtain ⟨executed, faults⟩ := Tally.add_waits {} console.settings.instructionsPerFrame.toNat
  rw [frame_def, steps_of_parked _ _ parked]
  exact ⟨executed, faults, rfl, rfl⟩

theorem frame_history (console : Console) :
    console.frame.2.history =
      History.record console.settings.rewindDepth console.machine console.history := by
  rw [frame_def]
  rfl

/-- What no step changes, several steps do not change either. -/
theorem steps_unchanged {Part : Type} (part : Console → Part)
    (kept : ∀ console : Console, part console.step.2 = part console) (count : Nat) (console : Console) :
    part (console.steps count).2 = part console := by
  induction count generalizing console with
  | zero => rfl
  | succ count ih => exact (ih console.step.2).trans (kept console)

theorem steps_settings (count : Nat) (console : Console) :
    (console.steps count).2.settings = console.settings :=
  steps_unchanged (fun console => console.settings) (fun _ => rfl) count console

theorem frame_settings (console : Console) : console.frame.2.settings = console.settings := by
  rw [frame_def]
  exact steps_settings _ console

theorem steps_keypad (count : Nat) (console : Console) :
    (console.steps count).2.machine.keypad = console.machine.keypad :=
  steps_unchanged (fun console => console.machine.keypad)
    (fun console => Machine.step_keypad console.machine console.source) count console

theorem frame_keypad (console : Console) :
    console.frame.2.machine.keypad = console.machine.keypad := by
  rw [frame_def]
  exact steps_keypad _ console

/-- No more frames are recorded than the settings allow. -/
structure Fits (bound : Nat) (console : Console) : Prop where
  depth : console.settings.rewindDepth = bound
  history : console.history.length ≤ bound

theorem frame_fits (bound : Nat) (console : Console) (fits : console.Fits bound) :
    console.frame.2.Fits bound := by
  constructor
  · rw [frame_settings]
    exact fits.depth
  · rw [frame_history, History.length_record, fits.depth]
    exact Nat.min_le_left _ _

theorem perform_fits (bound : Nat) (console : Console) (request : Request)
    (fits : console.Fits bound) : (console.perform request).2.Fits bound := by
  cases request with
  | load image =>
    obtain ⟨memory, same⟩ := console.perform_load image
    rw [same]
    exact ⟨fits.depth, fits.history⟩
  | setKey key held =>
    obtain ⟨registers, pc, keypad, awaiting, same⟩ := console.perform_setKey key held
    rw [same]
    exact ⟨fits.depth, fits.history⟩
  | frame => exact frame_fits bound console fits
  | rewind =>
    simp only [perform, rewind]
    split
    next => exact fits
    next earlier history recorded =>
      have shorter := fits.history
      rw [recorded, List.length_cons] at shorter
      exact ⟨fits.depth, Nat.le_of_succ_le shorter⟩
  | reset => exact ⟨fits.depth, Nat.zero_le _⟩
  | step | tick | takeRedraw | takeScreen | setSpeed => exact ⟨fits.depth, fits.history⟩

/-- A frame leaves what as many plain steps and one tick leave, apart from the machine that it records and
the fault that it notes, and its report is exact about those steps. -/
theorem frame_eq_steps (console : Console) :
    let count := console.settings.instructionsPerFrame.toNat
    let outcomes := (console.steps count).1
    let ticked := (console.steps count).2.tick
    let report := console.frame.1
    let framed := console.frame.2
    console.performAll (List.replicate count .step ++ [.tick]) =
      (outcomes.map Outcome.reply ++ [.ticked ticked.1], ticked.2) ∧
    framed = { ticked.2 with
      history := console.record.history
      lastFault := (outcomes.filterMap Outcome.fault?).getLast?.or console.lastFault } ∧
    report.edges = ticked.1 ∧
    report.executed = outcomes.countP Outcome.ran ∧
    report.faults = outcomes.countP Outcome.isFault ∧
    report.faults ≤ report.executed ∧ report.executed ≤ count ∧
    (report.awaitingKey = false → report.executed = count) ∧
    (report.awaitingKey = true ↔ 0 < count ∧ framed.machine.awaiting.isSome) ∧
    ∀ outcome ∈ outcomes, ∀ error, outcome.reply = .failed error → error.isFault := by
  intro count outcomes ticked report framed
  have frame : console.frame = (_, _) := frame_def console
  have executed : report.executed = outcomes.countP Outcome.ran := by
    simp [report, frame, Tally.add, outcomes, count]
  have faults : report.faults = outcomes.countP Outcome.isFault := by
    simp [report, frame, Tally.add, outcomes, count]
  have waits : report.awaitingKey = true ↔ .awaitingKey ∈ outcomes := by
    simp [report, frame, Tally.add, outcomes, count]
  have length : outcomes.length = count := length_steps count console
  have pending := awaiting_steps count console
  refine ⟨?_, congrArg Prod.snd frame, congrArg (·.1.edges) frame, executed, faults, ?_, ?_, ?_, ?_, ?_⟩
  · rw [performAll_append, performAll_step]
    rfl
  · rw [executed, faults]
    exact List.countP_mono_left fun outcome _ faulted => Outcome.ran_of_isFault outcome faulted
  · rw [executed, ← length]
    exact List.countP_le_length
  · intro goes
    rw [executed, ← length, List.countP_eq_length]
    intro outcome member
    rw [Outcome.ran_iff]
    rintro rfl
    rw [waits.mpr member] at goes
    contradiction
  · have same : framed.machine.awaiting = (console.steps count).2.machine.awaiting := by
      rw [show framed = _ from congrArg Prod.snd frame]
      rfl
    rw [waits, same, pending]
    constructor
    · intro member
      have some := List.length_pos_of_mem member
      exact ⟨by omega, Or.inl member⟩
    · rintro ⟨positive, member | ⟨zero, -⟩⟩
      · exact member
      · omega
  · intro outcome member error failed
    exact Outcome.isFault_of_reply outcome error failed

end Console

end ChipEight
