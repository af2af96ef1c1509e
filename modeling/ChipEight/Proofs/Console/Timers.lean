import ChipEight.Proofs.Console.Trace
import ChipEight.Proofs.Machine.Panel
import Mathlib.Data.List.Induction

/-! The timers count ticks. A timer says what an instruction stored in it last, less one for every tick since,
and stays at zero once it is there. A frame ticks once, after its instructions, and only a request for a tick
does so besides. -/

namespace ChipEight

inductive Timer
  | delay
  | sound

/-- What the timers take notice of. -/
inductive TimerEvent
  | executed (execution : Execution)
  | ticked

def TimerEvent.isTick : TimerEvent → Bool
  | executed _ => false
  | ticked => true

namespace Timer

def value : Timer → Panel → Nat
  | delay, panel => panel.delay.toNat
  | sound, panel => panel.sound.toNat

theorem value_delay (machine : Machine) : delay.value machine.panel = machine.delay.toNat := rfl

theorem value_sound (machine : Machine) : sound.value machine.panel = machine.sound.toNat := rfl

/-- What an instruction stores in a timer, if it stores anything there. -/
def stored? (timer : Timer) (execution : Execution) : Option Nat :=
  match timer, execution.instruction with
  | delay, .setDelay x | sound, .setSound x => some (execution.before.register x).toNat
  | _, _ => none

/-- What an event stores in a timer. -/
def storedBy? (timer : Timer) : TimerEvent → Option Nat
  | .executed execution => timer.stored? execution
  | .ticked => none

def spares (timer : Timer) (event : TimerEvent) : Bool := (timer.storedBy? event).isNone

/-- What was stored last in a timer that had a value at first. -/
def latest (timer : Timer) (first : Nat) (events : List TimerEvent) : Nat :=
  (events.reverse.findSome? timer.storedBy?).getD first

/-- The ticks since something was stored last. -/
def ticksSince (timer : Timer) (events : List TimerEvent) : Nat :=
  (events.reverse.takeWhile timer.spares).countP TimerEvent.isTick

/-- The value of a timer after an event. -/
def follow (timer : Timer) (value : Nat) : TimerEvent → Nat
  | .executed execution => (timer.stored? execution).getD value
  | .ticked => value - 1

variable (timer : Timer)

theorem latest_concat (first : Nat) (earlier : List TimerEvent) (event : TimerEvent) :
    timer.latest first (earlier ++ [event]) =
      (timer.storedBy? event).getD (timer.latest first earlier) := by
  rw [latest, List.reverse_concat, List.findSome?_cons, latest]
  cases timer.storedBy? event with
  | none => rfl
  | some value => rfl

theorem ticksSince_concat_of_some (earlier : List TimerEvent) (event : TimerEvent) (value : Nat)
    (stores : timer.storedBy? event = some value) : timer.ticksSince (earlier ++ [event]) = 0 := by
  have stops : ¬timer.spares event := by
    rw [spares, stores]
    exact Bool.false_ne_true
  rw [ticksSince, List.reverse_concat, List.takeWhile_cons_of_neg stops, List.countP_nil]

theorem ticksSince_concat_of_none (earlier : List TimerEvent) (event : TimerEvent)
    (stores : timer.storedBy? event = none) :
    timer.ticksSince (earlier ++ [event]) =
      timer.ticksSince earlier + if event.isTick then 1 else 0 := by
  have spares : timer.spares event := by
    rw [spares, stores]
    rfl
  rw [ticksSince, List.reverse_concat, List.takeWhile_cons_of_pos spares, List.countP_cons, ticksSince]

/-- Event by event a timer comes to what was stored last, less the ticks since. -/
theorem foldl_follow (first : Nat) (events : List TimerEvent) :
    events.foldl timer.follow first = timer.latest first events - timer.ticksSince events := by
  induction events using List.reverseRecOn with
  | nil => rfl
  | append_singleton earlier event ih =>
    rw [List.foldl_append, List.foldl_cons, List.foldl_nil, ih, latest_concat]
    cases event with
    | ticked =>
      rw [ticksSince_concat_of_none timer earlier .ticked rfl]
      exact Nat.sub_sub _ _ 1
    | executed execution =>
      rw [follow]
      cases stores : timer.stored? execution with
      | none =>
        rw [ticksSince_concat_of_none timer earlier (.executed execution) stores, storedBy?, stores]
        rfl
      | some value =>
        rw [ticksSince_concat_of_some timer earlier (.executed execution) value stores, storedBy?, stores]
        rfl

theorem value_after (panel : Panel) (machine : Machine) (instruction : Instruction) (outcome : Outcome)
    (next : Machine) :
    timer.value (panel.after machine instruction) =
      (timer.stored? ⟨machine, instruction, outcome, next⟩).getD (timer.value panel) := by
  cases timer with
  | delay => cases instruction <;> rfl
  | sound => cases instruction <;> rfl

theorem value_tick (machine : Machine) :
    timer.value machine.tick.panel = timer.value machine.panel - 1 := by
  have less (byte : UInt8) : (if byte = 0 then 0 else byte - 1).toNat = byte.toNat - 1 := by
    have one : (1 : UInt8).toNat = 1 := rfl
    split
    next zero =>
      rw [zero]
      rfl
    next positive =>
      have counting : (1 : UInt8) ≤ byte := by
        apply UInt8.le_iff_toNat_le.mpr
        have differs : byte.toNat ≠ 0 := fun same => positive (UInt8.toNat_inj.mp same)
        omega
      rw [UInt8.toNat_sub_of_le _ _ counting, one]
  cases timer with
  | delay => exact less machine.delay
  | sound => exact less machine.sound

end Timer

namespace Console

/-- What a request brings to the notice of the timers, in order. -/
def requestEvents (console : Console) (request : Request) : List TimerEvent :=
  (console.requestTrace request).map .executed ++
    match request with
    | .frame | .tick => [.ticked]
    | .load _ | .setKey _ _ | .step | .rewind | .reset | .takeRedraw | .takeScreen | .setSpeed _ => []

def timeline (console : Console) : List Request → List TimerEvent
  | [] => []
  | request :: rest => console.requestEvents request ++ (console.perform request).2.timeline rest

/-- Neither a reset nor a rewinding sets the timers anew. -/
def KeepsTimers (console : Console) : Request → Prop
  | .reset => False
  | .rewind => (console.perform .rewind).1 = .flag false
  | .load _ | .setKey _ _ | .step | .frame | .tick | .takeRedraw | .takeScreen | .setSpeed _ => True

variable (timer : Timer)

theorem value_step (console : Console) :
    timer.value console.step.2.machine.panel =
      (console.execution?.toList.map TimerEvent.executed).foldl timer.follow
        (timer.value console.machine.panel) := by
  have panel : console.step.2.machine.panel = console.machine.nextPanel console.machine.panel :=
    Machine.panel_step console.machine console.source
  rw [panel, execution?]
  cases upcoming : console.machine.upcoming? with
  | none =>
    rw [Machine.nextPanel_of_none _ _ upcoming]
    rfl
  | some instruction =>
    rw [Machine.nextPanel_of_some _ _ instruction upcoming]
    exact timer.value_after _ _ instruction _ _

theorem value_steps (count : Nat) (console : Console) :
    timer.value (console.steps count).2.machine.panel =
      ((console.stepsTrace count).map TimerEvent.executed).foldl timer.follow
        (timer.value console.machine.panel) := by
  induction count generalizing console with
  | zero => rfl
  | succ count ih =>
    rw [stepsTrace, List.map_append, List.foldl_append, ← value_step]
    exact ih console.step.2

theorem value_frame (console : Console) :
    timer.value console.frame.2.machine.panel =
      (console.requestEvents .frame).foldl timer.follow (timer.value console.machine.panel) := by
  rw [frame_def, requestEvents, List.foldl_append, requestTrace, ← value_steps]
  exact timer.value_tick _

theorem value_perform (console : Console) (request : Request) (keeps : console.KeepsTimers request) :
    timer.value (console.perform request).2.machine.panel =
      (console.requestEvents request).foldl timer.follow (timer.value console.machine.panel) := by
  cases request with
  | load image =>
    obtain ⟨memory, same⟩ := console.perform_load image
    rw [same]
    rfl
  | setKey key held =>
    obtain ⟨registers, pc, keypad, awaiting, same⟩ := console.perform_setKey key held
    rw [same]
    rfl
  | step =>
    rw [requestEvents, List.append_nil]
    exact value_step timer console
  | frame => exact value_frame timer console
  | tick => exact timer.value_tick console.machine
  | rewind =>
    rcases console.perform_rewind with ⟨-, same⟩ | ⟨earlier, older, -, same⟩
    · rw [same]
      rfl
    · have restored : (console.perform .rewind).1 = .flag true := congrArg Prod.fst same
      exact nomatch restored.symm.trans keeps
  | reset => exact keeps.elim
  | takeRedraw | takeScreen | setSpeed => cases timer <;> rfl

theorem value_performAll (console : Console) (requests : List Request)
    (keeps : console.Throughout KeepsTimers requests) :
    timer.value (console.performAll requests).2.machine.panel =
      (console.timeline requests).foldl timer.follow (timer.value console.machine.panel) := by
  induction requests generalizing console with
  | nil => rfl
  | cons request rest ih =>
    rw [timeline, List.foldl_append, ← value_perform timer console request keeps.1]
    exact ih _ keeps.2

/-- At every moment of a run, after any number of the steps of its next frame too, a timer says what was stored
in it last, less the ticks since, or else its first value less all ticks. Each frame leaves what its steps
leave, one tick later, whatever the steps came to. -/
theorem timers_count_ticks (console : Console) (requests : List Request)
    (keeps : console.Throughout KeepsTimers requests) :
    let next := (console.performAll requests).2
    (∀ timer count,
      let events := console.timeline requests ++ (next.stepsTrace count).map .executed
      Timer.value timer (next.steps count).2.machine.panel =
        timer.latest (timer.value console.machine.panel) events - timer.ticksSince events) ∧
    (next.perform .frame).2.machine =
      (next.steps next.settings.instructionsPerFrame.toNat).2.machine.tick := by
  intro next
  constructor
  · intro timer count events
    rw [← Timer.foldl_follow, List.foldl_append, ← value_performAll timer console requests keeps]
    exact value_steps timer count next
  · change next.frame.2.machine = _
    rw [frame_def]
    rfl

private theorem timeline_storing (console : Console) (x : Register)
    (running : console.machine.awaiting = none)
    (stored : console.machine.memory.readWord console.machine.pc = Instruction.encode (.setDelay x)) :
    let fetched := console.machine.tick.fetch.2
    console.timeline [.tick, .setSpeed 1, .frame, .setSpeed 0, .frame] =
      [.ticked, .executed ⟨console.machine.tick, .setDelay x, .executed,
        { fetched with delay := fetched.register x }⟩, .ticked, .ticked] := by
  intro fetched
  let ready := console.tick.2.setSpeed 1
  have first : ready.stepsTrace 1 = [⟨ready.machine, .setDelay x, .executed, _⟩] :=
    stepsTrace_of_stored 0 ready _ (.setDelay x) running stored rfl running
  have frame : ready.requestEvents .frame = _ :=
    congrArg (fun trace : List Execution => trace.map TimerEvent.executed ++ [.ticked]) first
  change [.ticked] ++ ([] ++ (ready.requestEvents .frame ++ ([] ++ ([.ticked] ++ [])))) = _
  rw [frame]
  rfl

/-- The first frame stores 5 in the delay timer, and the second one has no instructions. -/
theorem timers_count_ticks_stored :
    let image : Array UInt8 := #[0xF0, 0x15]
    let machine := { Machine.initial with
      registers := .replicate 16 5, delay := 9, sound := 7, memory := Memory.initial.place image }
    let console := { start {} (.cycle [7]) with machine }
    let requests := [.tick, .setSpeed 1, .frame, .setSpeed 0, .frame]
    console.Throughout KeepsTimers requests ∧
      (console.performAll requests).2.machine.delay.toNat = 5 - 2 ∧
      (console.performAll requests).2.machine.sound.toNat = 7 - 3 := by
  intro image machine console requests
  have stored : console.machine.memory.readWord console.machine.pc = Instruction.encode (.setDelay 0) :=
    Memory.readWord_place Memory.initial image 0 0xF0 0x15 _ (by decide) rfl rfl rfl
  have keeps : console.Throughout KeepsTimers requests := by
    exact ⟨trivial, trivial, trivial, trivial, trivial, trivial⟩
  have events := timeline_storing console 0 rfl stored
  obtain ⟨counted, -⟩ := timers_count_ticks console requests keeps
  have delay := counted .delay 0
  have sound := counted .sound 0
  rw [steps_zero_snd, stepsTrace, List.map_nil, List.append_nil, events] at delay sound
  refine ⟨keeps, ?_, ?_⟩
  · rw [← Timer.value_delay, delay]
    rfl
  · rw [← Timer.value_sound, sound]
    rfl

end Console

end ChipEight
