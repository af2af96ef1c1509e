import ChipEight.Proofs.Console.Pending
import Mathlib.Data.List.Forall2

/-! A suspended program and the key that resumes it. While a wait is pending and no key is held, nothing that
a host does short of pressing, loading, taking back or resetting moves the program: steps and frames run no
instruction, and only the timers, the keypad and the note about the screen change. The first press delivers
its key and moves the program on; later presses find no wait. -/

namespace ChipEight

namespace Request

/-- A request that leaves a suspended program suspended. -/
def Idle : Request → Prop
  | .setKey _ held => held = false
  | .step | .frame | .tick | .takeRedraw | .takeScreen | .setSpeed _ => True
  | .load _ | .rewind | .reset => False

/-- The reply to a request while the program is suspended. -/
def AnsweredIdle : Request → Reply → Prop
  | .step, reply => reply = .awaitingKey
  | .frame, reply => ∃ report, reply = .framed report ∧ report.executed = 0 ∧ report.faults = 0
  | _, _ => True

def ofKey (event : Key × Bool) : Request := .setKey (.ofNat event.1.val) event.2

end Request

namespace Console

/-- Still suspended as at the origin, with nothing else moved than the timers, the keypad and the note. -/
structure Suspended (origin console : Console) : Prop where
  parked : console.machine.Parked
  machine : ∃ delay sound redraw keypad,
    console.machine = { origin.machine with delay, sound, redraw, keypad }
  source : console.source = origin.source

theorem perform_suspended (origin console : Console) (request : Request) (idle : request.Idle)
    (suspended : Suspended origin console) :
    Suspended origin (console.perform request).2 ∧ request.AnsweredIdle (console.perform request).1 := by
  obtain ⟨parked, ⟨delay, sound, redraw, keypad, same⟩, source⟩ := suspended
  have ticks : ∃ delay sound redraw keypad,
      console.machine.tick = { origin.machine with delay, sound, redraw, keypad } := by
    rw [same]
    exact ⟨_, _, redraw, keypad, rfl⟩
  cases request with
  | setKey key held =>
    obtain rfl : held = false := idle
    obtain ⟨fewer, released, none⟩ := console.perform_release key
    rw [released]
    refine ⟨⟨⟨parked.1, none parked.2⟩, ⟨delay, sound, redraw, fewer, ?_⟩, source⟩, trivial⟩
    rw [same]
  | step =>
    simp only [perform, step_of_parked console parked]
    exact ⟨⟨parked, ⟨delay, sound, redraw, keypad, same⟩, source⟩, rfl⟩
  | frame =>
    obtain ⟨executed, faults, ticked, kept⟩ := frame_of_parked console parked
    refine ⟨⟨?_, ?_, kept.trans source⟩, ⟨console.frame.1, rfl, executed, faults⟩⟩
    · change console.frame.2.machine.Parked
      rw [ticked]
      exact parked
    · rw [← ticked] at ticks
      exact ticks
  | tick => exact ⟨⟨parked, ticks, source⟩, trivial⟩
  | takeRedraw | takeScreen =>
    refine ⟨⟨parked, ⟨delay, sound, false, keypad, ?_⟩, source⟩, trivial⟩
    change { console.machine with redraw := false } = _
    rw [same]
  | setSpeed instructionsPerFrame =>
    exact ⟨⟨parked, ⟨delay, sound, redraw, keypad, same⟩, source⟩, trivial⟩
  | load | rewind | reset => contradiction

theorem performAll_suspended (origin console : Console) (requests : List Request)
    (idle : ∀ request ∈ requests, request.Idle) (suspended : Suspended origin console) :
    Suspended origin (console.performAll requests).2 ∧
      List.Forall₂ Request.AnsweredIdle requests (console.performAll requests).1 := by
  induction requests generalizing console with
  | nil => exact ⟨suspended, .nil⟩
  | cons request rest ih =>
    obtain ⟨next, answered⟩ :=
      perform_suspended origin console request (idle request List.mem_cons_self) suspended
    obtain ⟨last, others⟩ := ih _ (fun later member => idle later (List.mem_cons_of_mem _ member)) next
    exact ⟨last, .cons answered others⟩

private theorem ofNat_key (key : Key) : (UInt8.ofNat key.val).toNat < 16 := by
  rw [UInt8.toNat_ofNat']
  omega

theorem event_of_running (console : Console) (event : Key × Bool)
    (running : console.machine.awaiting = none) :
    ∃ keypad, (console.perform (.ofKey event)).2 =
      { console with machine := { console.machine with keypad } } := by
  obtain ⟨key, held⟩ := event
  cases held with
  | false =>
    obtain ⟨keypad, released, -⟩ := console.perform_release (.ofNat key.val)
    exact ⟨keypad, released⟩
  | true =>
    obtain ⟨keypad, pressed⟩ := console.perform_press _ (ofNat_key key)
    have same := Machine.deliver_of_running { console.machine with keypad } (.ofNat key.val) running
    exact ⟨keypad, pressed.trans (congrArg (fun machine => { console with machine }) same)⟩

theorem press_of_awaiting (console : Console) (x : Register) (key : Key)
    (waits : console.machine.awaiting = some x) :
    ∃ keypad, (console.perform (.ofKey (key, true))).2 = { console with
      machine := { console.machine.setRegister x (.ofNat key.val) with
        pc := console.machine.pc.next, awaiting := none, keypad } } := by
  obtain ⟨keypad, pressed⟩ := console.perform_press _ (ofNat_key key)
  have same := Machine.deliver_of_awaiting { console.machine with keypad } x (.ofNat key.val) waits
  exact ⟨keypad, pressed.trans (congrArg (fun machine => { console with machine }) same)⟩

/-- Without a wait, key events reach the keypad only. -/
theorem events_of_running (console : Console) (events : List (Key × Bool))
    (running : console.machine.awaiting = none) :
    ∃ keypad, (console.performAll (events.map .ofKey)).2 =
      { console with machine := { console.machine with keypad } } := by
  induction events generalizing console with
  | nil => exact ⟨console.machine.keypad, rfl⟩
  | cons event rest ih =>
    obtain ⟨keypad, next⟩ := event_of_running console event running
    rw [List.map_cons, performAll_cons_snd, next]
    exact ih { console with machine := { console.machine with keypad } } running

/-- The first press among key events ends the wait, and the others reach the keypad only. -/
theorem events_of_awaiting (console : Console) (events : List (Key × Bool)) (x : Register) (key : Key)
    (waits : console.machine.awaiting = some x) (first : events.find? Prod.snd = some (key, true)) :
    ∃ keypad, (console.performAll (events.map .ofKey)).2 = { console with
      machine := { console.machine.setRegister x (.ofNat key.val) with
        pc := console.machine.pc.next, awaiting := none, keypad } } := by
  induction events generalizing console with
  | nil => contradiction
  | cons event rest ih =>
    obtain ⟨now, held⟩ := event
    rw [List.map_cons, performAll_cons_snd]
    cases held with
    | false =>
      obtain ⟨keypad, released, -⟩ := console.perform_release (.ofNat now.val)
      rw [Request.ofKey, released]
      exact ih { console with machine := { console.machine with keypad } } waits first
    | true =>
      obtain rfl : now = key := congrArg Prod.fst (Option.some.inj first)
      obtain ⟨keypad, pressed⟩ := press_of_awaiting console x now waits
      rw [pressed]
      exact events_of_running _ rest rfl

/-- A program that waits for a key while none is held stays where it is, whatever idle requests come. Of key
events after them, the first press decides: the waiting register has its key, the program has moved on by
one instruction, and no other register has changed. -/
theorem suspended_until_press (console : Console) (x : Register) (idle : List Request)
    (waits : console.machine.awaiting = some x)
    (released : ∀ key, console.machine.keypad.isHeld key = false)
    (idles : ∀ request ∈ idle, request.Idle) :
    let rested := console.performAll idle
    List.Forall₂ Request.AnsweredIdle idle rested.1 ∧
    (∃ delay sound redraw keypad,
      rested.2.machine = { console.machine with delay, sound, redraw, keypad }) ∧
    rested.2.source = console.source ∧
    ∀ events : List (Key × Bool), (∃ event ∈ events, event.2 = true) →
      let delivered := (rested.2.performAll (events.map Request.ofKey)).2
      ∃ key, events.find? Prod.snd = some (key, true) ∧
        delivered.machine.register x = .ofNat key.val ∧
        (∀ y, y ≠ x → delivered.machine.register y = console.machine.register y) ∧
        delivered.machine.awaiting = none ∧
        delivered.machine.pc = .ofNat ((console.machine.pc.toNat + 2) % 4096) := by
  intro rested
  have parked : console.machine.Parked :=
    ⟨Option.isSome_of_eq_some waits, (Keypad.lowest?_eq_none_iff _).mpr released⟩
  obtain ⟨suspended, answered⟩ :=
    performAll_suspended console console idle idles ⟨parked, ⟨_, _, _, _, rfl⟩, rfl⟩
  obtain ⟨delay, sound, redraw, keypad, same⟩ := suspended.machine
  change rested.2.machine = _ at same
  refine ⟨answered, ⟨delay, sound, redraw, keypad, same⟩, suspended.source, ?_⟩
  intro events ⟨event, member, pressed⟩ delivered
  obtain ⟨⟨key, held⟩, first⟩ := Option.isSome_iff_exists.mp
    (List.find?_isSome.mpr ⟨event, member, pressed⟩)
  obtain rfl : held = true := List.find?_some first
  have waiting : rested.2.machine.awaiting = some x := by
    rw [same]
    exact waits
  obtain ⟨last, final⟩ := events_of_awaiting rested.2 events x key waiting first
  change delivered = _ at final
  refine ⟨key, first, ?_, ?_, ?_, ?_⟩
  · rw [final]
    exact (Machine.register_setRegister rested.2.machine x x _).trans (if_pos rfl)
  · intro y other
    rw [final]
    refine (Machine.register_setRegister rested.2.machine x y _).trans ?_
    rw [if_neg (Ne.symm other), same]
    rfl
  · rw [final]
  · rw [final, Address.ofNat_next, same]

/-- Key 5 is delivered, although key 2 was let go before and key 9 is pressed after it. -/
theorem suspended_until_press_first :
    let console := ((start {} (.cycle [7])).performAll [.load #[0xF1, 0x0A], .step]).2
    let idle : List Request :=
      [.step, .frame, .tick, .setSpeed 0, .frame, .takeScreen, .setKey 2 false]
    console.machine.awaiting = some 1 ∧ (∀ key, console.machine.keypad.isHeld key = false) ∧
      (∀ request ∈ idle, request.Idle) ∧
      let delivered := ((console.performAll idle).2.performAll
        ([(2, false), (5, true), (9, true)].map .ofKey)).2
      delivered.machine.register 1 = 5 ∧ delivered.machine.awaiting = none ∧
        delivered.machine.pc = .ofNat ((console.machine.pc.toNat + 2) % 4096) := by
  rw [performAll_wait_image]
  generalize Memory.initial.place #[0xF1, 0x0A] = memory
  intro console idle
  have released : ∀ key, console.machine.keypad.isHeld key = false := Keypad.isHeld_released
  have idles : ∀ request ∈ idle, request.Idle := by simp [idle, Request.Idle]
  obtain ⟨-, -, -, delivers⟩ := suspended_until_press console 1 idle rfl released idles
  obtain ⟨key, first, received, -, ended, moved⟩ :=
    delivers [(2, false), (5, true), (9, true)] ⟨(5, true), by simp, rfl⟩
  obtain rfl : 5 = key := congrArg Prod.fst (Option.some.inj first)
  exact ⟨rfl, released, idles, received, ended, moved⟩

end Console

end ChipEight
