import ChipEight.Console.Request
import ChipEight.Proofs.Machine.Cycle

/-! Runs of requests. What every request keeps holds along every run, also of what an observer makes of the
run, and what every operation on a machine keeps holds of all the machines that a console has, the recorded
ones included. -/

namespace ChipEight

/-- A property of machines that power-on has and that no operation of a console but loading loses. -/
structure Machine.Kept (property : Machine → Prop) : Prop where
  initial : property .initial
  step : ∀ machine source, property machine → property (machine.step source).2.1
  tick : ∀ machine, property machine → property machine.tick
  press : ∀ machine keypad key, property machine →
    property (Machine.deliver { machine with keypad } key)
  hold : ∀ (machine : Machine) keypad redraw, property machine →
    property { machine with keypad, redraw }

/-- A property of machines that loading does not lose either. -/
structure Machine.Stable (property : Machine → Prop) : Prop extends Machine.Kept property where
  place : ∀ machine image, property machine →
    property { machine with memory := machine.memory.place image }

namespace Console

def Everywhere (property : Machine → Prop) (console : Console) : Prop :=
  property console.machine ∧ ∀ recorded ∈ console.history, property recorded

theorem performAll_cons (console : Console) (request : Request) (rest : List Request) :
    console.performAll (request :: rest) =
      ((console.perform request).1 :: ((console.perform request).2.performAll rest).1,
        ((console.perform request).2.performAll rest).2) := rfl

theorem performAll_cons_snd (console : Console) (request : Request) (rest : List Request) :
    (console.performAll (request :: rest)).2 = ((console.perform request).2.performAll rest).2 := rfl

theorem performAll_append (console : Console) (early late : List Request) :
    console.performAll (early ++ late) =
      ((console.performAll early).1 ++ ((console.performAll early).2.performAll late).1,
        ((console.performAll early).2.performAll late).2) := by
  induction early generalizing console with
  | nil => rfl
  | cons request early ih =>
    simp only [List.cons_append, performAll]
    rw [ih]

theorem performAll_concat_snd (console : Console) (early : List Request) (last : Request) :
    (console.performAll (early ++ [last])).2 = ((console.performAll early).2.perform last).2 := by
  rw [performAll_append]
  rfl

theorem performAll_preserves {property : Console → Prop}
    (kept : ∀ console request, property console → property (console.perform request).2)
    (console : Console) (requests : List Request) (holds : property console) :
    property (console.performAll requests).2 := by
  induction requests generalizing console with
  | nil => exact holds
  | cons request requests ih => exact ih _ (kept console request holds)

/-- Every request of a run is allowed on the console that it meets. -/
def Throughout (allowed : Console → Request → Prop) (console : Console) : List Request → Prop
  | [] => True
  | request :: rest => allowed console request ∧ (console.perform request).2.Throughout allowed rest

theorem throughout_of_mem {allowed : Console → Request → Prop} (console : Console)
    (requests : List Request) (each : ∀ request ∈ requests, ∀ met, allowed met request) :
    console.Throughout allowed requests := by
  induction requests generalizing console with
  | nil => trivial
  | cons request rest ih =>
    exact ⟨each request List.mem_cons_self console,
      ih _ fun later member => each later (List.mem_cons_of_mem _ member)⟩

theorem throughout_append {allowed : Console → Request → Prop} (console : Console)
    (early late : List Request) :
    console.Throughout allowed (early ++ late) ↔
      console.Throughout allowed early ∧ (console.performAll early).2.Throughout allowed late := by
  induction early generalizing console with
  | nil => exact ⟨fun holds => ⟨trivial, holds⟩, And.right⟩
  | cons request early ih =>
    rw [List.cons_append, Throughout, ih, performAll_cons_snd, Throughout, and_assoc]

theorem throughout_preserves {property : Console → Prop} {allowed : Console → Request → Prop}
    (kept : ∀ console request, allowed console request → property console →
      property (console.perform request).2)
    (console : Console) (requests : List Request) (throughout : console.Throughout allowed requests)
    (holds : property console) : property (console.performAll requests).2 := by
  induction requests generalizing console with
  | nil => exact holds
  | cons request rest ih => exact ih _ throughout.2 (kept console request throughout.1 holds)

/-- What an observer who notes every request and the console that it meets ends up with. -/
def observe {State : Type} (note : State → Console → Request → State) (state : State)
    (console : Console) : List Request → State
  | [] => state
  | request :: rest => observe note (note state console request) (console.perform request).2 rest

theorem observe_preserves {State : Type} {note : State → Console → Request → State}
    {relation : State → Console → Prop} {allowed : Console → Request → Prop}
    (kept : ∀ state console request, allowed console request → relation state console →
      relation (note state console request) (console.perform request).2)
    (state : State) (console : Console) (requests : List Request)
    (throughout : console.Throughout allowed requests) (holds : relation state console) :
    relation (console.observe note state requests) (console.performAll requests).2 := by
  induction requests generalizing state console with
  | nil => exact holds
  | cons request rest ih => exact ih _ _ throughout.2 (kept state console request throughout.1 holds)

theorem load_eq_ok (console next : Console) (image : Array UInt8)
    (loaded : console.load image = .ok next) :
    ∃ memory, memory = console.machine.memory.place image ∧
      next = { console with machine := { console.machine with memory } } := by
  unfold load at loaded
  split at loaded
  · exact ⟨_, rfl, (Except.ok.inj loaded).symm⟩
  · contradiction

theorem setKey_eq_ok (console next : Console) (key : UInt8) (held : Bool)
    (changed : console.setKey key held = .ok next) :
    ∃ keypad, next = { console with
      machine :=
        if held then Machine.deliver { console.machine with keypad } key
        else { console.machine with keypad } } := by
  unfold setKey at changed
  split at changed
  · exact ⟨_, (Except.ok.inj changed).symm⟩
  · contradiction

/-- A key changes neither what frames record nor what is known of the tone. -/
theorem setKey_changes (console next : Console) (key : UInt8) (held : Bool)
    (changed : console.setKey key held = .ok next) :
    ∃ registers pc keypad awaiting, next = { console with
      machine := { console.machine with registers, pc, keypad, awaiting } } := by
  obtain ⟨keypad, rfl⟩ := setKey_eq_ok console next key held changed
  cases held with
  | true =>
    obtain ⟨registers, pc, awaiting, same⟩ :=
      Machine.deliver_changes { console.machine with keypad } key
    rw [if_pos rfl, same]
    exact ⟨registers, pc, keypad, awaiting, rfl⟩
  | false => exact ⟨_, _, keypad, _, rfl⟩

/-- A refusal keeps everything, so only what is accepted needs a proof. -/
theorem accept_preserves {property : Console → Prop} (console : Console)
    (answer : Except Refusal Console) (holds : property console)
    (accepted : ∀ next, answer = .ok next → property next) :
    property (console.accept answer).2 := by
  cases answer with
  | ok next => exact accepted next rfl
  | error refusal => exact holds

/-- Loading touches the memory alone, also where it is refused. -/
theorem perform_load (console : Console) (image : Array UInt8) :
    ∃ memory, (console.perform (.load image)).2 =
      { console with machine := { console.machine with memory } } := by
  change ∃ memory, (console.accept (console.load image)).2 = _
  cases loaded : console.load image with
  | ok next =>
    obtain ⟨memory, -, rfl⟩ := load_eq_ok console next image loaded
    exact ⟨memory, rfl⟩
  | error refusal => exact ⟨console.machine.memory, rfl⟩

theorem start_load_of_le (settings : Settings) (source : WordSource) (image : Array UInt8)
    (fits : image.size ≤ Memory.imageCapacity) :
    ((start settings source).perform (.load image)).2 = { start settings source with
      machine := { Machine.initial with memory := Memory.initial.place image } } := by
  simp only [perform, load, if_pos fits, accept]
  rfl

/-- A rewinding brings back the newest recorded machine, if there is one. -/
theorem perform_rewind (console : Console) :
    console.history = [] ∧ console.perform .rewind = (.flag false, console) ∨
      ∃ earlier older, console.history = earlier :: older ∧
        console.perform .rewind = (.flag true, { console with
          machine := { earlier with keypad := console.machine.keypad, redraw := true }
          history := older
          sounding := earlier.sound != 0 }) := by
  cases recorded : console.history with
  | nil =>
    left
    simp only [perform, rewind, recorded, true_and]
  | cons earlier older =>
    right
    refine ⟨earlier, older, rfl, ?_⟩
    simp only [perform, rewind, recorded]

theorem perform_setKey (console : Console) (key : UInt8) (held : Bool) :
    ∃ registers pc keypad awaiting, (console.perform (.setKey key held)).2 =
      { console with machine := { console.machine with registers, pc, keypad, awaiting } } := by
  change ∃ registers pc keypad awaiting, (console.accept (console.setKey key held)).2 = _
  cases changed : console.setKey key held with
  | ok next => exact setKey_changes console next key held changed
  | error refusal => exact ⟨_, _, _, _, rfl⟩

/-- A key that is let go ends no wait and makes no other key held. -/
theorem perform_release (console : Console) (key : UInt8) :
    ∃ keypad, (console.perform (.setKey key false)).2 =
        { console with machine := { console.machine with keypad } } ∧
      (console.machine.keypad.lowest? = none → keypad.lowest? = none) := by
  by_cases valid : key.toNat < 16
  · simp only [perform, setKey, dif_pos valid, accept]
    exact ⟨_, rfl, Keypad.lowest?_release console.machine.keypad ⟨key.toNat, valid⟩⟩
  · simp only [perform, setKey, dif_neg valid, accept]
    exact ⟨console.machine.keypad, rfl, id⟩

theorem perform_press (console : Console) (key : UInt8) (valid : key.toNat < 16) :
    ∃ keypad, (console.perform (.setKey key true)).2 =
      { console with machine := Machine.deliver { console.machine with keypad } key } := by
  simp only [perform, setKey, dif_pos valid, accept]
  exact ⟨_, rfl⟩

variable {property : Machine → Prop}

theorem record_everywhere (console : Console) (everywhere : console.Everywhere property) :
    console.record.Everywhere property := by
  refine ⟨everywhere.1, ?_⟩
  intro recorded member
  rcases List.mem_cons.mp (List.mem_of_mem_take member) with rfl | earlier
  · exact everywhere.1
  · exact everywhere.2 recorded earlier

section Kept

variable (kept : Machine.Kept property)

include kept

theorem setKey_everywhere (console next : Console) (key : UInt8) (held : Bool)
    (everywhere : console.Everywhere property) (changed : console.setKey key held = .ok next) :
    next.Everywhere property := by
  obtain ⟨keypad, rfl⟩ := setKey_eq_ok console next key held changed
  refine ⟨?_, everywhere.2⟩
  cases held with
  | true => exact kept.press _ keypad key everywhere.1
  | false => exact kept.hold _ keypad console.machine.redraw everywhere.1

theorem step_everywhere (console : Console) (everywhere : console.Everywhere property) :
    console.step.2.Everywhere property :=
  ⟨kept.step console.machine console.source everywhere.1, everywhere.2⟩

theorem runSteps_everywhere (count : Nat) (tally : Tally) (console : Console)
    (everywhere : console.Everywhere property) :
    (console.runSteps count tally).2.Everywhere property := by
  induction count generalizing tally console with
  | zero => exact everywhere
  | succ count ih =>
    have stepped := step_everywhere kept console everywhere
    unfold runSteps
    split <;> rename_i next taken <;> rw [taken] at stepped
    · exact ih _ _ stepped
    · exact stepped
    · exact ih _ _ stepped

theorem tick_everywhere (console : Console) (everywhere : console.Everywhere property) :
    console.tick.2.Everywhere property :=
  ⟨kept.tick console.machine everywhere.1, everywhere.2⟩

theorem frame_everywhere (console : Console) (everywhere : console.Everywhere property) :
    console.frame.2.Everywhere property :=
  tick_everywhere kept _ (runSteps_everywhere kept _ _ _ (record_everywhere console everywhere))

theorem rewind_everywhere (console : Console) (everywhere : console.Everywhere property) :
    console.rewind.2.Everywhere property := by
  unfold rewind
  split
  next => exact everywhere
  next earlier history recorded =>
    have older := everywhere.2
    rw [recorded] at older
    refine ⟨kept.hold earlier _ true (older earlier List.mem_cons_self), ?_⟩
    intro machine member
    exact older machine (List.mem_cons_of_mem _ member)

theorem start_everywhere (settings : Settings) (source : WordSource) :
    (start settings source).Everywhere property :=
  ⟨kept.initial, by intro recorded member; cases member⟩

theorem perform_everywhere (console : Console) (request : Request)
    (placed : ∀ image, request = .load image →
      property { console.machine with memory := console.machine.memory.place image })
    (everywhere : console.Everywhere property) :
    (console.perform request).2.Everywhere property := by
  cases request with
  | load image =>
    refine accept_preserves console (console.load image) everywhere ?_
    intro next loaded
    obtain ⟨memory, rfl, rfl⟩ := load_eq_ok console next image loaded
    exact ⟨placed image rfl, everywhere.2⟩
  | setKey key held =>
    refine accept_preserves console (console.setKey key held) everywhere ?_
    intro next changed
    exact setKey_everywhere kept console next key held everywhere changed
  | step => exact step_everywhere kept console everywhere
  | frame => exact frame_everywhere kept console everywhere
  | tick => exact tick_everywhere kept console everywhere
  | rewind => exact rewind_everywhere kept console everywhere
  | reset => exact start_everywhere kept console.settings console.source
  | takeRedraw => exact ⟨kept.hold _ console.machine.keypad false everywhere.1, everywhere.2⟩
  | takeScreen => exact ⟨kept.hold _ console.machine.keypad false everywhere.1, everywhere.2⟩
  | setSpeed instructionsPerFrame => exact everywhere

end Kept

theorem performAll_everywhere (stable : Machine.Stable property) (settings : Settings)
    (source : WordSource) (requests : List Request) :
    ((start settings source).performAll requests).2.Everywhere property := by
  refine performAll_preserves ?_ _ requests (start_everywhere stable.toKept settings source)
  intro console request everywhere
  have placed (image : Array UInt8) (_ : request = .load image) :=
    stable.place console.machine image everywhere.1
  exact perform_everywhere stable.toKept console request placed everywhere

end Console

end ChipEight
