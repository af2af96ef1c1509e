import ChipEight.Proofs.Bounds.Execution
import ChipEight.Proofs.Console.Steps
import ChipEight.Screen.Picture

/-! Guarded requests, and the main statement about bounds: on every console that a run from power-on leads
to, every machine is within its bounds, and whatever the host asks next, no guard fails. A request that fails
leaves the console as it was, and a step never fails with a refusal, so no frame is cut short by one. -/

namespace ChipEight.Guarded

def load (console : Console) (image : Array UInt8) : Option (Except Error Unit × Console) :=
  if Memory.imageCapacity < image.size then
    some (.error (.refusal (.imageTooLarge image.size Memory.imageCapacity)), console)
  else if Memory.programStart + image.size ≤ Address.space then
    some (.ok (), { console with
      machine := { console.machine with memory := console.machine.memory.place image } })
  else none

def changeKey (console : Console) (key : UInt8) (held : Bool) : Option (Except Error Unit × Console) :=
  if Keypad.size ≤ key.toNat then some (.error (.refusal (.invalidKey key)), console)
  else do
    let keypad ← setKey console.machine.keypad key.toNat held
    let machine := { console.machine with keypad }
    return (.ok (), { console with machine := ← if held then deliver machine key else some machine })

def stepConsole (console : Console) : Option (Except Error Progress × Console) := do
  let (progress, machine, source) ← step console.machine console.source
  return (progress, { console with machine, source })

/-- Both counters of a frame are numbers of 32 bits. A refusal ends the steps of a frame. -/
def runSteps : (count : Nat) → Tally → Console → Option (Tally × Console)
  | 0, tally, console => some (tally, console)
  | count + 1, tally, console => do
    match ← stepConsole console with
    | (.ok .executed, next) =>
      runSteps count { tally with executed := ← count? (tally.executed + 1) } next
    | (.ok .awaitingKey, next) => return ({ tally with awaitingKey := true }, next)
    | (.error (.fault fault), next) =>
      let executed ← count? (tally.executed + 1)
      let faults ← count? (tally.faults + 1)
      runSteps count { tally with executed, faults } { next with lastFault := some fault }
    | (.error (.refusal _), next) => return (tally, next)

def lower (timer : UInt8) : Option UInt8 :=
  if timer = 0 then some 0 else do byte? (← difference? timer.toNat 1)

def tick (console : Console) : Option (ToneEdges × Console) := do
  let delay ← lower console.machine.delay
  let sound ← lower console.machine.sound
  return (.ofTick console.sounding console.machine.sound sound,
    { console with machine := { console.machine with delay, sound }, sounding := sound != 0 })

def record (console : Console) : Console :=
  { console with
    history := History.save console.settings.rewindDepth console.machine console.history }

def frame (console : Console) : Option (FrameReport × Console) := do
  let (tally, ran) ← runSteps console.settings.instructionsPerFrame.toNat {} (record console)
  let (edges, ticked) ← tick ran
  return ({ tally with edges }, ticked)

def changed : Except Error Unit → Reply
  | .ok () => .done
  | .error error => .failed error

def stepped : Except Error Progress → Reply
  | .ok .executed => .executed
  | .ok .awaitingKey => .awaitingKey
  | .error error => .failed error

/-- The last five requests select no place and count nothing. -/
def perform (console : Console) : Request → Option (Reply × Console)
  | .load image => do
    let (answer, next) ← load console image
    return (changed answer, next)
  | .setKey key held => do
    let (answer, next) ← changeKey console key held
    return (changed answer, next)
  | .step => do
    let (progress, next) ← stepConsole console
    return (stepped progress, next)
  | .frame => do
    let (report, next) ← frame console
    return (.framed report, next)
  | .tick => do
    let (edges, next) ← tick console
    return (.ticked edges, next)
  | .rewind => some (console.perform .rewind)
  | .reset => some (console.perform .reset)
  | .takeRedraw => some (console.perform .takeRedraw)
  | .takeScreen => some (console.perform .takeScreen)
  | .setSpeed instructionsPerFrame => some (console.perform (.setSpeed instructionsPerFrame))

def rgb24 (screen : Screen) : Option (List UInt8) := do
  let levels := (List.finRange 32).flatMap fun row => (List.finRange 64).map (screen.level row)
  let channels ← levels.mapM fun level => byte? (level.toNat * 255)
  return channels.flatMap fun channel => List.replicate 3 channel

theorem load_eq (console : Console) (image : Array UInt8) :
    load console image = some (attempt .refusal console (console.load image)) := by
  unfold load Console.load
  by_cases small : image.size ≤ Memory.imageCapacity
  · have fits : Memory.programStart + image.size ≤ Address.space := by
      unfold Memory.imageCapacity Memory.programStart Address.space at small
      unfold Memory.programStart Address.space
      omega
    rw [if_neg (Nat.not_lt_of_le small), if_pos fits, if_pos small]
    rfl
  · rw [if_pos (Nat.lt_of_not_le small), if_neg small]
    rfl

theorem changeKey_eq (console : Console) (key : UInt8) (held : Bool) :
    changeKey console key held = some (attempt .refusal console (console.setKey key held)) := by
  unfold changeKey Console.setKey Keypad.size
  by_cases valid : key.toNat < 16
  · have keypad : setKey console.machine.keypad key.toNat held =
        some (console.machine.keypad.set ⟨key.toNat, valid⟩ held) :=
      setKey_eq console.machine.keypad ⟨key.toNat, valid⟩ held
    rw [if_neg (Nat.not_le_of_lt valid), dif_pos valid, keypad]
    simp only [Option.bind_eq_bind, Option.bind_some]
    cases held with
    | true =>
      simp only [if_true, deliver_eq]
      rfl
    | false => rfl
  · rw [if_pos (Nat.le_of_not_lt valid), dif_neg valid]
    rfl

theorem stepConsole_eq (console : Console) (bounded : console.machine.Bounded) :
    stepConsole console = some (console.step.1.progress, console.step.2) := by
  unfold stepConsole
  rw [step_eq _ _ bounded]
  rfl

theorem runSteps_eq (count : Nat) (tally : Tally) (console : Console)
    (bounded : console.machine.Bounded) (ordered : tally.faults ≤ tally.executed)
    (room : tally.executed + count < 4294967296) :
    runSteps count tally console = some (console.runSteps count tally) := by
  -- The counters have room because there is room for all the steps that are left.
  induction count generalizing tally console with
  | zero => rfl
  | succ count ih =>
    have next : console.step.2.machine.Bounded := Machine.step_bounded _ _ bounded
    unfold runSteps Console.runSteps
    rw [stepConsole_eq console bounded]
    simp only [Option.bind_eq_bind, Option.bind_some]
    generalize console.step = result at next ⊢
    obtain ⟨outcome, stepped⟩ := result
    cases outcome with
    | executed =>
      simp only [Outcome.progress, count?_eq (tally.executed + 1) (by omega), Option.bind_some]
      exact ih _ _ next (by dsimp only; omega) (by dsimp only; omega)
    | awaitingKey => rfl
    | faulted fault =>
      simp only [Outcome.progress, count?_eq (tally.executed + 1) (by omega),
        count?_eq (tally.faults + 1) (by omega), Option.bind_some]
      exact ih _ _ next (by dsimp only; omega) (by dsimp only; omega)

theorem lower_eq (timer : UInt8) : lower timer = some (if timer = 0 then 0 else timer - 1) := by
  unfold lower
  by_cases zero : timer = 0
  · simp only [zero, if_true]
  · have positive : timer.toNat ≠ 0 := fun none => zero (UInt8.toNat_inj.mp none)
    have small := timer.toNat_lt
    have one : (1 : UInt8).toNat = 1 := rfl
    have lowered : UInt8.ofNat (timer.toNat - 1) = timer - 1 := by
      apply UInt8.toNat_inj.mp
      rw [UInt8.toNat_ofNat', UInt8.toNat_sub, one]
      omega
    simp only [zero, if_false, difference?_eq timer.toNat 1 (by omega), Option.bind_eq_bind,
      Option.bind_some, byte?_eq (timer.toNat - 1) (by omega), lowered]

theorem tick_eq (console : Console) : tick console = some console.tick := by
  unfold tick
  simp only [lower_eq, Option.bind_eq_bind, Option.bind_some]
  rfl

theorem record_eq (console : Console) (within : console.history.length ≤ console.settings.rewindDepth) :
    record console = console.record := by
  rw [record, History.save_eq_record _ _ _ within]
  rfl

theorem frame_eq (console : Console) (bounded : console.machine.Bounded)
    (within : console.history.length ≤ console.settings.rewindDepth) :
    frame console = some console.frame := by
  have steps := console.settings.instructionsPerFrame.toNat_lt
  unfold frame
  rw [record_eq console within,
    runSteps_eq _ {} console.record bounded (Nat.le_refl 0) (by dsimp only; omega)]
  simp only [Option.bind_eq_bind, Option.bind_some, tick_eq]
  rfl

theorem accept_eq (console : Console) (answer : Except Refusal Console) :
    (changed (attempt .refusal console answer).1, (attempt .refusal console answer).2) =
      console.accept answer := by
  cases answer <;> rfl

theorem stepped_progress (outcome : Outcome) : stepped outcome.progress = outcome.reply := by
  cases outcome <;> rfl

theorem perform_eq (console : Console) (request : Request) (bounded : console.machine.Bounded)
    (within : console.history.length ≤ console.settings.rewindDepth) :
    perform console request = some (console.perform request) := by
  cases request with
  | load image =>
    simp only [perform, load_eq, Option.bind_eq_bind, Option.bind_some, Option.pure_def, accept_eq]
    rfl
  | setKey key held =>
    simp only [perform, changeKey_eq, Option.bind_eq_bind, Option.bind_some, Option.pure_def, accept_eq]
    rfl
  | step =>
    simp only [perform, stepConsole_eq console bounded, Option.bind_eq_bind, Option.bind_some,
      stepped_progress]
    rfl
  | frame =>
    simp only [perform, frame_eq console bounded within]
    rfl
  | tick =>
    simp only [perform, tick_eq]
    rfl
  | rewind | reset | takeRedraw | takeScreen | setSpeed => rfl

private theorem scaled (lit : Bool) :
    byte? (lit.toUInt8.toNat * 255) = some (Screen.intensity lit) := by
  cases lit with
  | true => exact byte?_eq 255 (by omega)
  | false => exact byte?_eq 0 (by omega)

theorem rgb24_eq (screen : Screen) : rgb24 screen = some screen.rgb24 := by
  have levels : ((List.finRange 32).flatMap fun row => (List.finRange 64).map (screen.level row)) =
      ((List.finRange 32).flatMap screen.rowPixels).map Bool.toUInt8 := by
    rw [List.map_flatMap]
    congr 1
  have channels : (((List.finRange 32).flatMap screen.rowPixels).map Bool.toUInt8).mapM
      (fun level => byte? (level.toNat * 255)) =
        some (((List.finRange 32).flatMap screen.rowPixels).map Screen.intensity) := by
    rw [List.mapM_map]
    simp only [Function.comp_def, scaled]
    exact List.mapM_pure
  simp only [rgb24, levels, channels, Option.bind_eq_bind, Option.bind_some, Option.pure_def,
    Screen.rgb24, List.flatMap_map, List.flatMap_assoc]

/-- On every console that a run from power-on leads to, every machine, the recorded ones included, keeps
its addresses within memory, its depth within the stack, its pixels at zero or one and its waiting register
among the sixteen; and whatever the host asks next selects only places that there are and computes only
numbers that fit, as does the image of its screen. -/
theorem performAll_within_bounds (settings : Settings) (source : WordSource)
    (requests : List Request) :
    let console := ((Console.start settings source).performAll requests).2
    (∀ machine ∈ console.machine :: console.history,
      machine.pc.toNat ≤ 0xFFF ∧ machine.index.toNat ≤ 0xFFF ∧ machine.stack.depth.toNat ≤ 16 ∧
      (∀ slot, (machine.stack.slots.get slot).toNat ≤ 0xFFF) ∧
      (∀ row column, machine.screen.level row column = 0 ∨ machine.screen.level row column = 1) ∧
      ∀ x, machine.awaiting = some x → x.val ≤ 15) ∧
    (∀ request, perform console request = some (console.perform request)) ∧
    rgb24 console.machine.screen = some console.machine.screen.rgb24 := by
  intro console
  have everywhere : console.Everywhere Machine.Bounded :=
    Console.performAll_everywhere Machine.bounded_stable settings source requests
  have fits : console.Fits settings.rewindDepth :=
    Console.performAll_preserves (Console.perform_fits _) _ requests ⟨rfl, Nat.zero_le _⟩
  refine ⟨?_, ?_, rgb24_eq console.machine.screen⟩
  · intro machine member
    have bounded : machine.Bounded := by
      rcases List.mem_cons.mp member with rfl | recorded
      · exact everywhere.1
      · exact everywhere.2 machine recorded
    refine ⟨bounded.pc, bounded.index, bounded.stack.depth, bounded.stack.slot, ?_, ?_⟩
    · intro row column
      unfold Screen.level
      cases machine.screen.pixel row column with
      | true => exact Or.inr rfl
      | false => exact Or.inl rfl
    · intro x awaits
      exact Nat.le_of_lt_succ x.isLt
  · intro request
    exact perform_eq console request everywhere.1 (fits.depth ▸ fits.history)

end ChipEight.Guarded
