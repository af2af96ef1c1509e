import ChipEight.Proofs.Console.Trace
import ChipEight.Proofs.Machine.Panel
import Mathlib.Algebra.GroupWithZero.Nat

/-! Steps cut into frames. Where a frame ends decides when the timers tick and when a machine is recorded,
and nothing else that a program can notice without reading the delay timer. So a program that does not read
it comes to the same for the same number of steps, whatever the lengths of the frames are. -/

namespace ChipEight

/-- Frames of the given lengths, one after the other. -/
def Request.frames (lengths : List UInt32) : List Request :=
  lengths.flatMap fun length => [.setSpeed length, .frame]

theorem Request.frames_cons (length : UInt32) (rest : List UInt32) :
    frames (length :: rest) = .setSpeed length :: .frame :: frames rest := rfl

namespace Reply

/-- The instructions that ran in a frame. -/
def ranCount : Reply → Nat
  | .framed report => report.executed
  | _ => 0

def faultCount : Reply → Nat
  | .framed report => report.faults
  | _ => 0

end Reply

/-- None of the instructions reads the delay timer. -/
def Execution.Untimed (executions : List Execution) : Prop :=
  ∀ execution ∈ executions, ∀ x, execution.instruction ≠ .readDelay x

theorem Execution.untimed_append (early late : List Execution) :
    Untimed (early ++ late) ↔ Untimed early ∧ Untimed late :=
  List.forall_mem_append

namespace Console

open Execution (Untimed untimed_append)

/-- The programs of two consoles are at the same point, whatever their timers say. -/
structure InStep (left right : Console) : Prop where
  machine : left.machine.untimed = right.machine.untimed
  source : left.source = right.source

theorem InStep.refl (console : Console) : InStep console console := ⟨rfl, rfl⟩

theorem InStep.symm {left right : Console} (inStep : InStep left right) : InStep right left :=
  ⟨inStep.machine.symm, inStep.source.symm⟩

theorem InStep.trans {first second third : Console} (left : InStep first second)
    (right : InStep second third) : InStep first third :=
  ⟨left.machine.trans right.machine, left.source.trans right.source⟩

theorem untimed_execution?_iff (console : Console) :
    Untimed console.execution?.toList ↔ ∀ x, console.machine.upcoming? ≠ some (.readDelay x) := by
  unfold execution?
  cases console.machine.upcoming? with
  | none => simp [Untimed]
  | some instruction => simp [Untimed]

theorem step_inStep (left right : Console) (inStep : InStep left right)
    (untimed : Untimed right.execution?.toList) :
    Untimed left.execution?.toList ∧ left.step.1 = right.step.1 ∧ InStep left.step.2 right.step.2 := by
  have unread := (untimed_execution?_iff right).mp untimed
  obtain ⟨outcome, machine, source⟩ :=
    Machine.step_untimed left.machine right.machine right.source inStep.machine unread
  rw [← Machine.upcoming?_untimed left.machine right.machine inStep.machine] at unread
  refine ⟨(untimed_execution?_iff left).mpr unread, ?_⟩
  unfold step
  rw [inStep.source]
  exact ⟨outcome, machine, source⟩

theorem steps_inStep (count : Nat) (left right : Console) (inStep : InStep left right)
    (untimed : Untimed (right.stepsTrace count)) :
    Untimed (left.stepsTrace count) ∧ (left.steps count).1 = (right.steps count).1 ∧
      InStep (left.steps count).2 (right.steps count).2 := by
  induction count generalizing left right with
  | zero => exact ⟨List.forall_mem_nil _, rfl, inStep⟩
  | succ count ih =>
    obtain ⟨now, later⟩ := (untimed_append _ _).mp untimed
    obtain ⟨first, outcome, next⟩ := step_inStep left right inStep now
    obtain ⟨others, outcomes, last⟩ := ih _ _ next later
    rw [steps_succ, steps_succ, outcome, outcomes]
    exact ⟨(untimed_append _ _).mpr ⟨first, others⟩, rfl, last⟩

/-- The end of a frame moves the timers alone. -/
theorem frame_inStep (console : Console) :
    InStep console.frame.2 (console.steps console.settings.instructionsPerFrame.toNat).2 := by
  rw [frame_def]
  exact ⟨rfl, rfl⟩

/-- If frames read no delay timer, then neither do as many plain steps. -/
theorem untimed_of_frames (lengths : List UInt32) (framed plain : Console)
    (inStep : InStep framed plain) (untimed : Untimed (framed.trace (Request.frames lengths))) :
    Untimed (plain.stepsTrace (lengths.map UInt32.toNat).sum) := by
  induction lengths generalizing framed plain with
  | nil => exact List.forall_mem_nil _
  | cons length rest ih =>
    let paced := framed.setSpeed length
    obtain ⟨now, later⟩ : Untimed (paced.stepsTrace length.toNat) ∧
        Untimed (paced.frame.2.trace (Request.frames rest)) := (untimed_append _ _).mp untimed
    have same : InStep plain paced := ⟨inStep.machine.symm, inStep.source.symm⟩
    obtain ⟨first, -, next⟩ := steps_inStep length.toNat plain paced same now
    rw [List.map_cons, List.sum_cons, stepsTrace_add, untimed_append]
    exact ⟨first, ih _ _ (paced.frame_inStep.trans next.symm) later⟩

/-- What a run of frames comes to, told by plain steps: their end, the fault that is noted and the numbers of
instructions and of faults. -/
structure Totals (framed : List Reply × Console) (earlier : Option Fault)
    (stepped : List Outcome × Console) : Prop where
  inStep : InStep framed.2 stepped.2
  lastFault : framed.2.lastFault = Outcome.latestFault stepped.1 earlier
  ran : (framed.1.map Reply.ranCount).sum = stepped.1.countP Outcome.ran
  faults : (framed.1.map Reply.faultCount).sum = stepped.1.countP Outcome.isFault

theorem frame_totals (framed plain : Console) (inStep : InStep framed plain)
    (untimed : Untimed (plain.stepsTrace framed.settings.instructionsPerFrame.toNat)) :
    Totals ([.framed framed.frame.1], framed.frame.2) framed.lastFault
      (plain.steps framed.settings.instructionsPerFrame.toNat) := by
  obtain ⟨-, outcomes, last⟩ := steps_inStep _ framed plain inStep untimed
  refine ⟨framed.frame_inStep.trans last, ?_, ?_, ?_⟩
  · rw [frame_def, outcomes]
  · simp [frame_def, outcomes, Tally.add, Reply.ranCount]
  · simp [frame_def, outcomes, Tally.add, Reply.faultCount]

theorem frames_totals (lengths : List UInt32) (framed plain : Console) (inStep : InStep framed plain)
    (untimed : Untimed (plain.stepsTrace (lengths.map UInt32.toNat).sum)) :
    Totals (framed.performAll (Request.frames lengths)) framed.lastFault
      (plain.steps (lengths.map UInt32.toNat).sum) := by
  induction lengths generalizing framed plain with
  | nil => exact ⟨inStep, rfl, rfl, rfl⟩
  | cons length rest ih =>
    rw [List.map_cons, List.sum_cons] at untimed ⊢
    rw [stepsTrace_add, untimed_append] at untimed
    have first : Totals _ framed.lastFault (plain.steps length.toNat) :=
      frame_totals (framed.setSpeed length) plain ⟨inStep.machine, inStep.source⟩ untimed.1
    have others := ih _ _ first.inStep untimed.2
    rw [Request.frames_cons, performAll_cons, performAll_cons, steps_add]
    refine ⟨others.inStep, ?_, ?_, ?_⟩
    · rw [Outcome.latestFault_append, ← first.lastFault]
      exact others.lastFault
    · rw [List.countP_append, ← first.ran, ← others.ran]
      simp [perform, Reply.ranCount]
    · rw [List.countP_append, ← first.faults, ← others.faults]
      simp [perform, Reply.faultCount]

/-- Frames whose lengths have the same sum come to the same, if the instructions of the first ones do not
read the delay timer: machines that differ in their timers alone, the same place among the random words, the
same latest fault, and the same numbers of instructions and of faults in all. -/
theorem frames_regrouped (console : Console) (left right : List UInt32)
    (same : (left.map UInt32.toNat).sum = (right.map UInt32.toNat).sum)
    (unread : ∀ execution ∈ console.trace (Request.frames left), ∀ x,
      execution.instruction ≠ .readDelay x) :
    let first := console.performAll (Request.frames left)
    let second := console.performAll (Request.frames right)
    (∃ delay sound, second.2.machine = { first.2.machine with delay, sound }) ∧
    second.2.source = first.2.source ∧ second.2.lastFault = first.2.lastFault ∧
    (second.1.map Reply.ranCount).sum = (first.1.map Reply.ranCount).sum ∧
    (second.1.map Reply.faultCount).sum = (first.1.map Reply.faultCount).sum := by
  intro first second
  have untimed := untimed_of_frames left console console (.refl console) unread
  have leftTotals : Totals first _ _ := frames_totals left console console (.refl console) untimed
  rw [same] at untimed leftTotals
  have rightTotals : Totals second _ _ := frames_totals right console console (.refl console) untimed
  have inStep : InStep second.2 first.2 := rightTotals.inStep.trans leftTotals.inStep.symm
  refine ⟨⟨_, _, Machine.eq_of_untimed _ _ inStep.machine⟩, inStep.source, ?_, ?_, ?_⟩
  · rw [rightTotals.lastFault, leftTotals.lastFault]
  · rw [rightTotals.ran, leftTotals.ran]
  · rw [rightTotals.faults, leftTotals.faults]

/-- Sets the delay timer to five. -/
private def delaying : Array UInt8 := #[0x60, 0x05, 0xF0, 0x15]

private theorem untimed_delaying (console : Console) (running : console.machine.awaiting = none)
    (early : console.machine.memory.readWord console.machine.pc = Instruction.encode (.load 0 5))
    (late : console.machine.memory.readWord console.machine.pc.next =
      Instruction.encode (.setDelay 0)) :
    Untimed (console.stepsTrace 2) := by
  let loaded := console.machine.fetch.2.setRegister 0 5
  have first : console.stepsTrace 2 = _ :: stepsTrace 1 { console with machine := loaded } :=
    stepsTrace_of_stored 1 console loaded (.load 0 5) running early rfl running
  have second : stepsTrace 1 { console with machine := loaded } = _ :: [] :=
    stepsTrace_of_stored 0 { console with machine := loaded } _ (.setDelay 0) running late rfl running
  rw [first, second]
  simp [Untimed]

/-- The timer is set in the only frame of the first run and one frame before the end of the second run, so
that it ticks once in the one and twice in the other. -/
theorem frames_regrouped_delay :
    let console := ((start {} (.cycle [7])).performAll [.load delaying]).2
    let first := console.performAll (Request.frames [2])
    let second := console.performAll (Request.frames [1, 1, 0])
    (([2] : List UInt32).map UInt32.toNat).sum = (([1, 1, 0] : List UInt32).map UInt32.toNat).sum ∧
    (∀ execution ∈ console.trace (Request.frames [2]), ∀ x, execution.instruction ≠ .readDelay x) ∧
    (∃ delay sound, second.2.machine = { first.2.machine with delay, sound }) ∧
    (second.1.map Reply.ranCount).sum = (first.1.map Reply.ranCount).sum := by
  have regrouped := frames_regrouped
    ((start {} (.cycle [7])).performAll [.load delaying]).2 [2] [1, 1, 0] rfl
  have early := Memory.readWord_place Memory.initial delaying 0 0x60 0x05
    (Instruction.encode (.load 0 5)) (by decide) rfl rfl rfl
  have late := Memory.readWord_place Memory.initial delaying 2 0xF0 0x15
    (Instruction.encode (.setDelay 0)) (by decide) rfl rfl rfl
  have loaded : ((start {} (.cycle [7])).performAll [.load delaying]).2 = { start {} (.cycle [7]) with
      machine := { Machine.initial with memory := Memory.initial.place delaying } } :=
    start_load_of_le {} (.cycle [7]) delaying (by decide)
  dsimp only at regrouped ⊢
  rw [loaded] at regrouped ⊢
  generalize Memory.initial.place delaying = memory at early late regrouped ⊢
  generalize met : { start {} (.cycle [7]) with machine := { Machine.initial with memory } } = console
    at regrouped ⊢
  have untimed : Untimed (stepsTrace 2 (console.setSpeed 2)) := by
    rw [← met]
    exact untimed_delaying _ rfl early late
  have unread : Untimed (console.trace (Request.frames [2])) :=
    (untimed_append [] _).mpr
      ⟨List.forall_mem_nil _, (untimed_append _ _).mpr ⟨untimed, List.forall_mem_nil _⟩⟩
  obtain ⟨machine, -, -, ran, -⟩ := regrouped unread
  exact ⟨rfl, unread, machine, ran⟩

end Console

end ChipEight
