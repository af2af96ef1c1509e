import ChipEight.Proofs.Console.Steps
import ChipEight.Proofs.Machine.Redraw

/-! Taking frames back and running them again. A frame leaves everything that its successor depends on in
the machine, apart from the random words, so the same number of rewinds and frames comes to the same. -/

namespace ChipEight.Console

/-- The instructions that steps execute. -/
def executions : (count : Nat) → Console → List Instruction
  | 0, _ => []
  | count + 1, console => console.machine.upcoming?.toList ++ executions count console.step.2

def frameExecutions : (count : Nat) → Console → List Instruction
  | 0, _ => []
  | count + 1, console =>
    console.executions console.settings.instructionsPerFrame.toNat ++
      frameExecutions count console.frame.2

/-- What is known of the tone agrees with the sound timer. -/
def Settled (console : Console) : Prop := console.sounding = (console.machine.sound != 0)

def unmarked (console : Console) : Console :=
  { console with
    machine := console.machine.unmarked
    history := console.history.map Machine.unmarked }

/-- Consoles that go on alike. Their histories and their latest faults may differ. -/
structure Alike (left right : Console) : Prop where
  machine : left.machine.unmarked = right.machine.unmarked
  settings : left.settings = right.settings
  source : left.source = right.source
  sounding : left.sounding = right.sounding

theorem step_alike (left right : Console) (alike : Alike left right) :
    left.step.1 = right.step.1 ∧ Alike left.step.2 right.step.2 := by
  obtain ⟨outcome, machine, source⟩ :=
    Machine.step_unmarked left.machine right.machine right.source alike.machine
  have same : left.step = (_, _) := congrArg
    (fun source => ((left.machine.step source).1, { left with
      machine := (left.machine.step source).2.1
      source := (left.machine.step source).2.2 })) alike.source
  rw [same]
  exact ⟨outcome, machine, alike.settings, source, alike.sounding⟩

theorem steps_alike (count : Nat) (left right : Console) (alike : Alike left right) :
    (left.steps count).1 = (right.steps count).1 ∧
      Alike (left.steps count).2 (right.steps count).2 := by
  induction count generalizing left right with
  | zero => exact ⟨rfl, alike⟩
  | succ count ih =>
    obtain ⟨outcome, next⟩ := step_alike left right alike
    obtain ⟨outcomes, last⟩ := ih _ _ next
    rw [steps_succ, steps_succ, outcome, outcomes]
    exact ⟨rfl, last⟩

theorem tick_alike (left right : Console) (alike : Alike left right) :
    left.tick.1 = right.tick.1 ∧ Alike left.tick.2 right.tick.2 := by
  have same := Machine.eq_of_unmarked _ _ alike.machine
  refine ⟨?_, ?_, alike.settings, alike.source, ?_⟩
  · unfold tick
    rw [same, alike.sounding]
    rfl
  · change left.machine.tick.unmarked = right.machine.tick.unmarked
    rw [same]
    rfl
  · change (left.machine.tick.sound != 0) = (right.machine.tick.sound != 0)
    rw [same]
    rfl

theorem frame_alike (left right : Console) (alike : Alike left right) :
    left.frame.1 = right.frame.1 ∧ Alike left.frame.2 right.frame.2 := by
  obtain ⟨outcomes, stepped⟩ :=
    steps_alike left.settings.instructionsPerFrame.toNat left right alike
  obtain ⟨edges, ticked⟩ := tick_alike _ _ stepped
  rw [frame_def left, frame_def right, ← alike.settings, outcomes, edges]
  exact ⟨rfl, ticked.machine, ticked.settings, ticked.source, ticked.sounding⟩

theorem frame_lastFault_alike (left right : Console) (alike : Alike left right) :
    ∃ latest : Option Fault, left.frame.2.lastFault = latest.or left.lastFault ∧
      right.frame.2.lastFault = latest.or right.lastFault := by
  obtain ⟨outcomes, -⟩ := steps_alike left.settings.instructionsPerFrame.toNat left right alike
  rw [frame_def left, frame_def right, ← alike.settings, ← outcomes]
  exact ⟨_, rfl, rfl⟩

theorem frame_settled (console : Console) : console.frame.2.Settled := by
  rw [frame_def]
  rfl

theorem steps_source (count : Nat) (console : Console)
    (regular : ∀ x mask, .random x mask ∉ console.executions count) :
    (console.steps count).2.source = console.source := by
  induction count generalizing console with
  | zero => rfl
  | succ count ih =>
    have now : console.step.2.source = console.source := by
      apply Machine.step_source_of_regular
      intro instruction upcoming
      cases instruction with
      | random x mask =>
        have member : .random x mask ∈ console.machine.upcoming?.toList := by simp [upcoming]
        exact absurd (List.mem_append_left _ member) (regular x mask)
      | _ => rfl
    have later := ih console.step.2 fun x mask member =>
      regular x mask (List.mem_append_right _ member)
    rw [steps_succ]
    exact later.trans now

theorem frame_source (console : Console)
    (regular : ∀ x mask,
      .random x mask ∉ console.executions console.settings.instructionsPerFrame.toNat) :
    console.frame.2.source = console.source := by
  rw [frame_def]
  exact steps_source _ console regular

theorem performAll_snoc (request : Request) (count : Nat) (console : Console) :
    console.performAll (List.replicate (count + 1) request) =
      ((console.performAll (List.replicate count request)).1 ++
          [((console.performAll (List.replicate count request)).2.perform request).1],
        ((console.performAll (List.replicate count request)).2.perform request).2) := by
  rw [List.replicate_succ', performAll_append]
  rfl

theorem frames_alike (count : Nat) (left right : Console) (alike : Alike left right) :
    (left.performAll (List.replicate count .frame)).1 =
        (right.performAll (List.replicate count .frame)).1 ∧
      Alike (left.performAll (List.replicate count .frame)).2
        (right.performAll (List.replicate count .frame)).2 := by
  induction count generalizing left right with
  | zero => exact ⟨rfl, alike⟩
  | succ count ih =>
    obtain ⟨report, next⟩ := frame_alike left right alike
    obtain ⟨replies, last⟩ := ih _ _ next
    rw [List.replicate_succ, performAll_cons, performAll_cons]
    refine ⟨?_, last⟩
    change Reply.framed left.frame.1 :: _ = Reply.framed right.frame.1 :: _
    rw [report]
    exact congrArg _ replies

theorem frames_lastFault_alike (count : Nat) (left right : Console) (alike : Alike left right) :
    ∃ latest : Option Fault,
      (left.performAll (List.replicate count .frame)).2.lastFault = latest.or left.lastFault ∧
      (right.performAll (List.replicate count .frame)).2.lastFault = latest.or right.lastFault := by
  induction count generalizing left right with
  | zero => exact ⟨none, rfl, rfl⟩
  | succ count ih =>
    obtain ⟨early, leftEarly, rightEarly⟩ := frame_lastFault_alike left right alike
    obtain ⟨late, leftLate, rightLate⟩ := ih _ _ (frame_alike left right alike).2
    refine ⟨late.or early, ?_, ?_⟩
    · rw [Option.or_assoc, ← leftEarly]
      exact leftLate
    · rw [Option.or_assoc, ← rightEarly]
      exact rightLate

theorem frames_history_alike (count kept : Nat) (left right : Console) (alike : Alike left right)
    (within : kept + count ≤ left.settings.rewindDepth)
    (same : (left.history.map Machine.unmarked).take kept =
      (right.history.map Machine.unmarked).take kept) :
    ((left.performAll (List.replicate count .frame)).2.history.map Machine.unmarked).take (kept + count) =
      ((right.performAll (List.replicate count .frame)).2.history.map Machine.unmarked).take
        (kept + count) := by
  induction count generalizing left right kept with
  | zero => exact same
  | succ count ih =>
    -- A frame records alike machines in front, which makes the alike part longer by one.
    have recorded : (left.frame.2.history.map Machine.unmarked).take (kept + 1) =
        (right.frame.2.history.map Machine.unmarked).take (kept + 1) := by
      have least : min (kept + 1) left.settings.rewindDepth = kept + 1 := Nat.min_eq_left (by omega)
      rw [frame_history, frame_history, ← alike.settings]
      simp only [History.record, List.map_take, List.take_take, least, List.map_cons,
        List.take_succ_cons]
      rw [alike.machine, same]
    have next := (frame_alike left right alike).2
    have room : kept + 1 + count ≤ left.frame.2.settings.rewindDepth := by
      rw [frame_settings]
      omega
    have later := ih (kept + 1) _ _ next room recorded
    rw [Nat.add_right_comm] at later
    exact later

theorem recorded_of_take (history : History Machine) (earlier : Machine) (older : History Machine)
    (depth count : Nat) (room : count < depth)
    (same : history.take (depth - count) =
      (History.record depth earlier older).take (depth - count)) :
    ∃ rest, history = earlier :: rest ∧ rest.take (depth - (count + 1)) = older.take (depth - (count + 1)) := by
  obtain ⟨left, rooms⟩ : ∃ left, depth - count = left + 1 := ⟨depth - count - 1, by omega⟩
  have fewer : depth - (count + 1) = left := by omega
  rw [History.record, List.take_take, rooms, Nat.min_eq_left (by omega), List.take_succ_cons] at same
  rw [fewer]
  cases history with
  | nil => contradiction
  | cons newest rest =>
    rw [List.take_succ_cons] at same
    obtain ⟨rfl, kept⟩ := List.cons.inj same
    exact ⟨rest, rfl, kept⟩

theorem rewind_alike (console next : Console) (rest : History Machine)
    (settled : console.Settled) (recorded : next.history = console.machine :: rest)
    (keypad : next.machine.keypad = console.machine.keypad)
    (settings : next.settings = console.settings) (source : next.source = console.source) :
    next.rewind.1 = true ∧ Alike next.rewind.2 console ∧ next.rewind.2.lastFault = next.lastFault ∧
      next.rewind.2.history = rest := by
  unfold rewind
  rw [recorded, keypad]
  exact ⟨rfl, ⟨rfl, settings, source, settled.symm⟩, rfl, rfl⟩

/-- As many rewinds as frames lead back, except that the latest fault stays and that the history may have
lost what the frames pushed out of it. The tone is known again from the sound timer, the keys were not
touched, and the random words go on where they were. -/
theorem rewinds_frames (count : Nat) (console : Console) (settled : console.Settled)
    (within : count ≤ console.settings.rewindDepth)
    (regular : ∀ x mask, .random x mask ∉ frameExecutions count console) :
    let first := (console.performAll (List.replicate count .frame)).2
    let undone := first.performAll (List.replicate count .rewind)
    undone.1 = List.replicate count (.flag true) ∧ Alike undone.2 console ∧
      undone.2.lastFault = first.lastFault ∧
      undone.2.history.take (console.settings.rewindDepth - count) =
        console.history.take (console.settings.rewindDepth - count) := by
  induction count generalizing console with
  | zero => exact ⟨rfl, ⟨rfl, rfl, rfl, rfl⟩, rfl, rfl⟩
  | succ count ih =>
    intro first undone
    -- All rewinds but the last take back all frames but the first, and the last one finds what the first
    -- frame recorded.
    have settings := frame_settings console
    have source : console.frame.2.source = console.source :=
      frame_source console fun x mask member => regular x mask (List.mem_append_left _ member)
    have earlier := ih console.frame.2 (frame_settled console) (by rw [settings]; omega)
      fun x mask member => regular x mask (List.mem_append_right _ member)
    have first_eq : (console.frame.2.performAll (List.replicate count .frame)).2 = first := rfl
    dsimp only at earlier
    rw [first_eq, settings, frame_history] at earlier
    have last : undone = (_, _) := performAll_snoc .rewind count first
    generalize first.performAll (List.replicate count .rewind) = almost at earlier last
    obtain ⟨replies, alike, lastFault, history⟩ := earlier
    obtain ⟨rest, recorded, kept⟩ := recorded_of_take _ _ _ _ _ (by omega) history
    have keypad : almost.2.machine.keypad = console.machine.keypad :=
      (congrArg (·.keypad) alike.machine).trans (frame_keypad console)
    obtain ⟨restored, back, same, left⟩ := rewind_alike console almost.2 rest settled recorded keypad
      (alike.settings.trans settings) (alike.source.trans source)
    change undone = (almost.1 ++ [.flag almost.2.rewind.1], almost.2.rewind.2) at last
    rw [last, restored, replies, left]
    exact ⟨List.replicate_succ'.symm, back, same.trans lastFault, kept⟩

/-- Whether a bare step came after the latest request that leaves the console settled. -/
def steppedAfter (stepped : Bool) (console : Console) : Request → Bool
  | .step => true
  | .reset | .tick | .frame => false
  | .rewind => stepped && !console.rewind.1
  | .load _ | .setKey _ _ | .takeRedraw | .takeScreen | .setSpeed _ => stepped

def steppedSince (stepped : Bool) (console : Console) : List Request → Bool
  | [] => stepped
  | request :: rest =>
    steppedSince (console.steppedAfter stepped request) (console.perform request).2 rest

theorem perform_settled (stepped : Bool) (console : Console) (request : Request)
    (settled : stepped = false → console.Settled)
    (quiet : console.steppedAfter stepped request = false) : (console.perform request).2.Settled := by
  cases request with
  | load image =>
    obtain ⟨memory, same⟩ := console.perform_load image
    rw [same]
    exact settled quiet
  | setKey key held =>
    obtain ⟨registers, pc, keypad, awaiting, same⟩ := console.perform_setKey key held
    rw [same]
    exact settled quiet
  | step => contradiction
  | frame => exact frame_settled console
  | rewind =>
    simp only [steppedAfter] at quiet
    simp only [perform, rewind] at quiet ⊢
    split at quiet
    next none =>
      rw [Bool.not_false, Bool.and_true] at quiet
      exact settled quiet
    next earlier history recorded => rfl
  | reset | tick => rfl
  | takeRedraw | takeScreen | setSpeed => exact settled quiet

theorem performAll_settled (stepped : Bool) (console : Console) (requests : List Request)
    (settled : stepped = false → console.Settled)
    (quiet : console.steppedSince stepped requests = false) :
    (console.performAll requests).2.Settled := by
  induction requests generalizing stepped console with
  | nil => exact settled quiet
  | cons request rest ih =>
    exact ih _ _ (perform_settled stepped console request settled) quiet

/-- Frames that are taken back come out the same when they run again, unless they took random words: the
same reports, and the same console apart from notes about screens that have to be shown. -/
theorem frames_again (settings : Settings) (source : WordSource) (requests : List Request) (count : Nat)
    (quiet : (start settings source).steppedSince false requests = false)
    (within : count ≤ settings.rewindDepth)
    (regular : ∀ x mask,
      .random x mask ∉ frameExecutions count ((start settings source).performAll requests).2) :
    let console := ((start settings source).performAll requests).2
    let first := console.performAll (List.replicate count .frame)
    let undone := first.2.performAll (List.replicate count .rewind)
    let again := undone.2.performAll (List.replicate count .frame)
    undone.1 = List.replicate count (.flag true) ∧ again.1 = first.1 ∧
      again.2.unmarked = first.2.unmarked := by
  intro console first undone again
  have settled : console.Settled := performAll_settled false _ requests (fun _ => rfl) quiet
  have kept := performAll_preserves (perform_fits settings.rewindDepth)
  have fits : console.Fits settings.rewindDepth := kept _ requests ⟨rfl, Nat.zero_le _⟩
  have firstFits : first.2.Fits settings.rewindDepth := kept _ _ fits
  have againFits : again.2.Fits settings.rewindDepth := kept _ _ (kept _ _ firstFits)
  rw [← fits.depth] at within firstFits againFits
  obtain ⟨replies, alike, lastFault, history⟩ := rewinds_frames count console settled within regular
  obtain ⟨reports, final⟩ := frames_alike count undone.2 console alike
  obtain ⟨latest, againFault, firstFault⟩ := frames_lastFault_alike count undone.2 console alike
  have faults : again.2.lastFault = first.2.lastFault := by
    change again.2.lastFault = latest.or undone.2.lastFault at againFault
    change first.2.lastFault = latest.or console.lastFault at firstFault
    change undone.2.lastFault = first.2.lastFault at lastFault
    rw [againFault, lastFault, firstFault, ← Option.or_assoc, Option.or_self]
  have histories : again.2.history.map Machine.unmarked = first.2.history.map Machine.unmarked := by
    have depth : undone.2.settings.rewindDepth = console.settings.rewindDepth :=
      congrArg Settings.rewindDepth alike.settings
    have same := frames_history_alike count (console.settings.rewindDepth - count) undone.2 console alike
      (by rw [depth]; omega) (by rw [← List.map_take, ← List.map_take]; exact congrArg _ history)
    rw [Nat.sub_add_cancel within, List.take_of_length_le, List.take_of_length_le] at same
    · exact same
    · rw [List.length_map]
      exact firstFits.history
    · rw [List.length_map]
      exact againFits.history
  refine ⟨replies, reports, ?_⟩
  simp only [unmarked, mk.injEq]
  exact ⟨final.machine, histories, final.settings, final.source, final.sounding, faults⟩

private theorem frameExecutions_single (count : Nat) (console : Console)
    (single : console.settings.instructionsPerFrame.toNat = 1) :
    frameExecutions (count + 1) console =
      console.machine.upcoming?.toList ++ frameExecutions count console.frame.2 := by
  simp only [frameExecutions, executions, single, List.append_nil]

private theorem executions_tone (memory : Memory) (early : memory.readWord 0x200 = 0x6005)
    (late : memory.readWord 0x202 = 0xF018) :
    frameExecutions 2 { start { instructionsPerFrame := 1, rewindDepth := 2 } (.cycle [7]) with
      machine := { Machine.initial with memory } } = [.load 0 5, .setSound 0] := by
  have first : Machine.upcoming? { Machine.initial with memory } = some (.load 0 5) := by
    change Instruction.decode (memory.readWord 0x200) = _
    rw [early]
    rfl
  have stepped : ∀ source, Machine.step { Machine.initial with memory } source =
      (.executed, (Machine.fetch { Machine.initial with memory }).2.setRegister 0 5, source) :=
    fun source => Machine.step_of_stored _ _ source (.load 0 5) rfl early rfl rfl
  rw [frameExecutions_single 1 _ rfl, frameExecutions_single 0 _ (by rw [frame_settings]; rfl),
    frame_machine_single _ rfl, stepped, first]
  have second : ((Machine.fetch { Machine.initial with memory }).2.setRegister 0 5).tick.upcoming? =
      some (.setSound 0) := by
    change Instruction.decode (memory.readWord 0x202) = _
    rw [late]
    rfl
  rw [second]
  rfl

/-- Two frames of one instruction each, of which the second starts the tone. -/
theorem frames_again_tone :
    let settings : Settings := { instructionsPerFrame := 1, rewindDepth := 2 }
    let requests : List Request := [.load #[0x60, 0x05, 0xF0, 0x18]]
    let console := ((start settings (.cycle [7])).performAll requests).2
    let first := console.performAll (List.replicate 2 .frame)
    let undone := first.2.performAll (List.replicate 2 .rewind)
    let again := undone.2.performAll (List.replicate 2 .frame)
    frameExecutions 2 console = [.load 0 5, .setSound 0] ∧
      undone.1 = List.replicate 2 (.flag true) ∧ again.1 = first.1 ∧
      again.2.unmarked = first.2.unmarked := by
  intro settings requests
  have loaded : (start settings (.cycle [7])).performAll requests = ([.done],
      { start settings (.cycle [7]) with
        machine := { Machine.initial with
          memory := Memory.initial.place #[0x60, 0x05, 0xF0, 0x18] } }) := by
    have small : (#[0x60, 0x05, 0xF0, 0x18] : Array UInt8).size ≤ Memory.imageCapacity := by decide
    simp only [requests, performAll, perform, load, if_pos small, accept]
    rfl
  have early : (Memory.initial.place #[0x60, 0x05, 0xF0, 0x18]).readWord 0x200 = 0x6005 := by
    apply UInt16.toNat_inj.mp
    rw [Memory.toNat_readWord, Memory.read_place, Memory.read_place]
    rfl
  have late : (Memory.initial.place #[0x60, 0x05, 0xF0, 0x18]).readWord 0x202 = 0xF018 := by
    apply UInt16.toNat_inj.mp
    rw [Memory.toNat_readWord, Memory.read_place, Memory.read_place]
    rfl
  have executed : frameExecutions 2 ((start settings (.cycle [7])).performAll requests).2 =
      [.load 0 5, .setSound 0] := by
    rw [loaded]
    exact executions_tone _ early late
  have regular : ∀ x mask,
      .random x mask ∉ frameExecutions 2 ((start settings (.cycle [7])).performAll requests).2 := by
    rw [executed]
    simp
  exact ⟨executed, frames_again settings (.cycle [7]) requests 2 rfl (Nat.le_refl 2) regular⟩

end ChipEight.Console
