import ChipEight.Proofs.Bounds.Invariant
import ChipEight.Proofs.Console.Trace

/-! Calls and returns. The live entries of the call stack are a list of at most sixteen return addresses, to
which a call adds the address of the instruction after it and from which a return takes the last one; nothing
else that runs touches them. A subroutine whose own calls and returns are nested therefore comes back to the
instruction after its call, with the stack as it was there. -/

namespace ChipEight

namespace CallStack

/-- The live entries after an instruction was executed. -/
def entriesAfter (entries : List Address) (execution : Execution) : List Address :=
  match execution.instruction with
  | .call _ =>
    if entries.length < 16 then entries ++ [.ofNat ((execution.before.pc.toNat + 2) % 4096)]
    else entries
  | .ret => entries.dropLast
  | _ => entries

theorem entriesAfter_call (entries : List Address) (execution : Execution) (target : Fin 4096)
    (call : execution.instruction = .call target) :
    entriesAfter entries execution =
      if entries.length < 16 then entries ++ [.ofNat ((execution.before.pc.toNat + 2) % 4096)]
      else entries := by
  simp only [entriesAfter, call]

theorem entriesAfter_ret (entries : List Address) (execution : Execution)
    (ret : execution.instruction = .ret) : entriesAfter entries execution = entries.dropLast := by
  simp only [entriesAfter, ret]

theorem entriesAfter_straight (entries : List Address) (execution : Execution)
    (call : ∀ target, execution.instruction ≠ .call target) (ret : execution.instruction ≠ .ret) :
    entriesAfter entries execution = entries := by
  obtain ⟨before, instruction, outcome, after⟩ := execution
  cases instruction with
  | call target => exact absurd rfl (call target)
  | ret => exact absurd rfl ret
  | _ => rfl

theorem length_live_of_bounded (stack : CallStack) (bounded : stack.Bounded) :
    stack.live.length = stack.depth.toNat := by
  rw [length_live, Nat.min_eq_left bounded.depth]

theorem depth_eq_of_live_eq (left right : CallStack) (leftBounded : left.Bounded)
    (rightBounded : right.Bounded) (same : left.live = right.live) : left.depth = right.depth := by
  apply UInt8.toNat_inj.mp
  rw [← length_live_of_bounded left leftBounded, ← length_live_of_bounded right rightBounded, same]

end CallStack

namespace Machine

theorem execute_stack (machine next : Machine) (source : WordSource) (instruction : Instruction)
    (call : ∀ target, instruction ≠ .call target) (ret : instruction ≠ .ret)
    (executed : machine.execute source instruction = .ok next) : next.stack = machine.stack := by
  cases instruction with
  | call target => exact absurd rfl (call target)
  | ret => exact absurd rfl ret
  | skip condition =>
    obtain rfl := Except.ok.inj executed
    rcases skipWhen_eq machine (machine.holds condition) with same | same
    · rw [same]
    · rw [same]
  | compute operation x y =>
    obtain rfl := Except.ok.inj executed
    obtain ⟨registers, same⟩ := compute_changes machine operation x y
    rw [same]
  | awaitKey x =>
    obtain rfl := Except.ok.inj executed
    unfold awaitKey
    cases machine.keypad.lowest? with
    | some key => rfl
    | none => rfl
  | _ =>
    obtain rfl := Except.ok.inj executed
    rfl

theorem execute_of_pop? (machine : Machine) (source : WordSource) (address : Address)
    (stack : CallStack) (popped : machine.stack.pop? = some (address, stack)) :
    machine.execute source .ret = .ok { machine with stack, pc := address } := by
  simp only [execute, pop, popped]
  rfl

/-- What a step does to the call stack. -/
inductive Turn (machine : Machine) (outcome : Outcome) (next : Machine) : Prop
  | called (target : Fin 4096) (upcoming : machine.upcoming? = some (.call target))
      (pushed : machine.stack.push? machine.pc.next = some next.stack)
      (continues : next.pc = .ofNat target.val)
  | refused (target : Fin 4096) (upcoming : machine.upcoming? = some (.call target))
      (full : 16 ≤ machine.stack.depth.toNat) (same : next.stack = machine.stack)
      (faults : outcome.isFault = true)
  | returned (address : Address) (upcoming : machine.upcoming? = some .ret)
      (popped : machine.stack.pop? = some (address, next.stack)) (continues : next.pc = address)
  | stranded (upcoming : machine.upcoming? = some .ret) (empty : machine.stack.depth.toNat = 0)
      (same : next.stack = machine.stack)
  | straight (call : ∀ target, machine.upcoming? ≠ some (.call target))
      (ret : machine.upcoming? ≠ some .ret) (same : next.stack = machine.stack)

theorem step_turn (machine : Machine) (source : WordSource) :
    machine.Turn (machine.step source).1 (machine.step source).2.1 := by
  have cycle := step_cycle machine source
  generalize machine.step source = result at cycle ⊢
  cases cycle with
  | parked x awaits =>
    have none : machine.upcoming? = none := by simp [upcoming?, awaits]
    exact .straight (by simp [none]) (by simp [none]) rfl
  | woken x key awaits =>
    have none : machine.upcoming? = none := by simp [upcoming?, awaits]
    obtain ⟨registers, pc, awaiting, same⟩ := deliver_changes machine (.ofNat key.val)
    exact .straight (by simp [none]) (by simp [none]) (by rw [same])
  | unassigned running unknown => exact .straight (by simp [unknown]) (by simp [unknown]) rfl
  | faulted instruction fault running upcoming raised =>
    rcases (execute_eq_error_iff _ _ _ _).mp raised with ⟨rfl, empty, -⟩ | ⟨⟨target, rfl⟩, full, -⟩
    · exact .stranded upcoming empty rfl
    · exact .refused target upcoming full rfl rfl
  | suspended x running upcoming => exact .straight (by simp [upcoming]) (by simp [upcoming]) rfl
  | completed instruction next running upcoming executed =>
    by_cases called : ∃ target, instruction = .call target
    · obtain ⟨target, rfl⟩ := called
      obtain ⟨stack, pushed, rfl⟩ := execute_call _ _ _ _ executed
      exact .called target upcoming pushed rfl
    · by_cases returns : instruction = .ret
      · subst returns
        obtain ⟨address, stack, popped, rfl⟩ := execute_ret _ _ _ executed
        exact .returned address upcoming popped rfl
      · have call : ∀ target, instruction ≠ .call target := fun target same => called ⟨target, same⟩
        refine .straight ?_ ?_ (execute_stack machine.fetch.2 next source instruction call returns executed)
        · intro target same
          rw [upcoming] at same
          exact call target (Option.some.inj same)
        · intro same
          rw [upcoming] at same
          exact returns (Option.some.inj same)

theorem turn_bounded (machine next : Machine) (outcome : Outcome) (turn : machine.Turn outcome next)
    (bounded : machine.stack.Bounded) : next.stack.Bounded := by
  cases turn with
  | called target upcoming pushed =>
    exact CallStack.push?_bounded _ _ _ bounded (wrap_bounded _) pushed
  | returned address upcoming popped => exact (CallStack.pop?_bounded _ _ _ bounded popped).2
  | refused _ _ _ same | stranded _ _ same | straight _ _ same =>
    rw [same]
    exact bounded

end Machine

namespace Execution

/-- An execution whose stack goes along with the list of its entries. -/
structure Obeys (entries : List Address) (execution : Execution) : Prop where
  before : execution.before.stack.live = entries
  after : execution.after.stack.live = CallStack.entriesAfter entries execution
  calls : ∀ target, execution.instruction = .call target → entries.length < 16 →
    execution.after.pc = .ofNat target.val
  returns : execution.instruction = .ret → ∀ address, entries.getLast? = some address →
    execution.after.pc = address
  room : ∀ target, execution.instruction = .call target → execution.outcome.isFault = false →
    entries.length < 16
  bounded : execution.before.stack.Bounded ∧ execution.after.stack.Bounded

/-- Between a call and the return from it there are only calls that have returned. -/
inductive Nested : List Execution → Prop
  | nil : Nested []
  | straight (execution : Execution) (rest : List Execution)
      (call : ∀ target, execution.instruction ≠ .call target) (ret : execution.instruction ≠ .ret)
      (nested : Nested rest) : Nested (execution :: rest)
  | subroutine (call ret : Execution) (target : Fin 4096) (inner rest : List Execution)
      (calls : call.instruction = .call target) (returns : ret.instruction = .ret)
      (within : Nested inner) (nested : Nested rest) : Nested (call :: (inner ++ ret :: rest))

/-- Nested calls and returns leave the entries that they found. -/
theorem entries_of_nested (entries : List Address) (executions : List Execution)
    (nested : Nested executions) (obeys : Along CallStack.entriesAfter Obeys entries executions)
    (sound : ∀ execution ∈ executions, execution.outcome.isFault = false) :
    executions.foldl CallStack.entriesAfter entries = entries := by
  induction nested generalizing entries with
  | nil => rfl
  | straight execution rest call ret nested ih =>
    have same := CallStack.entriesAfter_straight entries execution call ret
    rw [Along, same] at obeys
    rw [List.foldl_cons, same]
    exact ih entries obeys.2 fun later member => sound later (List.mem_cons_of_mem _ member)
  | subroutine call ret target inner rest calls returns within nested ihInner ihRest =>
    rw [Along, along_append] at obeys
    obtain ⟨called, inside, -, after⟩ := obeys
    have room := called.room target calls (sound call List.mem_cons_self)
    have pushed := CallStack.entriesAfter_call entries call target calls
    rw [if_pos room] at pushed
    have kept := ihInner _ inside fun execution member =>
      sound execution (List.mem_cons_of_mem _ (List.mem_append_left _ member))
    have popped : CallStack.entriesAfter (CallStack.entriesAfter entries call) ret = entries := by
      rw [CallStack.entriesAfter_ret _ ret returns, pushed, List.dropLast_concat]
    rw [kept, popped] at after
    rw [List.foldl_cons, List.foldl_append, kept, List.foldl_cons, popped]
    exact ihRest entries after fun execution member => sound execution
      (List.mem_cons_of_mem _ (List.mem_append_right _ (List.mem_cons_of_mem _ member)))

/-- The return that ends a call continues after it, with the stack from before it. -/
theorem returns_of_nested (entries : List Address) (call ret : Execution) (target : Fin 4096)
    (inner late : List Execution)
    (obeys : Along CallStack.entriesAfter Obeys entries (call :: (inner ++ ret :: late)))
    (calls : call.instruction = .call target) (returns : ret.instruction = .ret)
    (nested : Nested inner)
    (sound : ∀ execution ∈ call :: (inner ++ [ret]), execution.outcome.isFault = false) :
    ret.after.pc = .ofNat ((call.before.pc.toNat + 2) % 4096) ∧
      ret.after.stack.live = call.before.stack.live ∧
      ret.after.stack.depth = call.before.stack.depth := by
  rw [Along, along_append] at obeys
  obtain ⟨called, inside, returned, -⟩ := obeys
  have room := called.room target calls (sound call List.mem_cons_self)
  have pushed := CallStack.entriesAfter_call entries call target calls
  rw [if_pos room] at pushed
  have kept := entries_of_nested _ inner nested inside fun execution member =>
    sound execution (List.mem_cons_of_mem _ (List.mem_append_left _ member))
  rw [kept, pushed] at returned
  have live : ret.after.stack.live = call.before.stack.live := by
    rw [returned.after, CallStack.entriesAfter_ret _ ret returns, List.dropLast_concat, called.before]
  exact ⟨returned.returns returns _ List.getLast?_concat, live,
    CallStack.depth_eq_of_live_eq _ _ returned.bounded.2 called.bounded.1 live⟩

end Execution

namespace Console

open Execution (Obeys Nested)

theorem step_turn (console : Console) : console.machine.Turn console.step.1 console.step.2.machine :=
  Machine.step_turn console.machine console.source

theorem execution_obeys (console : Console) (execution : Execution)
    (bounded : console.machine.stack.Bounded) (executed : console.execution? = some execution) :
    Obeys console.machine.stack.live execution := by
  obtain ⟨instruction, upcoming, rfl⟩ := Option.map_eq_some_iff.mp executed
  have turn := step_turn console
  have after := Machine.turn_bounded _ _ _ turn bounded
  have length := CallStack.length_live console.machine.stack
  cases turn with
  | called target upcoming' pushed continues =>
    obtain rfl := Option.some.inj (upcoming.symm.trans upcoming')
    have room : console.machine.stack.live.length < 16 := by
      have full := (CallStack.push?_eq_none_iff console.machine.stack console.machine.pc.next).mpr
      rw [pushed] at full
      have room : ¬16 ≤ console.machine.stack.depth.toNat := fun deep => nomatch full deep
      omega
    refine ⟨rfl, ?_, ?_, nofun, fun _ _ _ => room, bounded, after⟩
    · rw [CallStack.entriesAfter_call _ _ target rfl, if_pos room, Address.ofNat_next]
      exact CallStack.live_push? _ _ _ pushed
    · intro other same _
      obtain rfl := Instruction.call.inj same
      exact continues
  | refused target upcoming' full same faults =>
    obtain rfl := Option.some.inj (upcoming.symm.trans upcoming')
    have crowded : ¬console.machine.stack.live.length < 16 := by omega
    refine ⟨rfl, ?_, fun _ _ room => absurd room crowded, nofun, ?_, bounded, after⟩
    · rw [CallStack.entriesAfter_call _ _ target rfl, if_neg crowded, same]
    · intro _ _ sound
      rw [faults] at sound
      contradiction
  | returned address upcoming' popped continues =>
    obtain rfl := Option.some.inj (upcoming.symm.trans upcoming')
    have live := CallStack.live_pop? _ _ _ bounded.depth popped
    refine ⟨rfl, ?_, nofun, ?_, nofun, bounded, after⟩
    · rw [CallStack.entriesAfter_ret _ _ rfl, live, List.dropLast_concat]
    · intro _ last found
      rw [live, List.getLast?_concat] at found
      exact continues.trans (Option.some.inj found)
  | stranded upcoming' empty same =>
    obtain rfl := Option.some.inj (upcoming.symm.trans upcoming')
    have live : console.machine.stack.live = [] := List.eq_nil_of_length_eq_zero (by omega)
    refine ⟨rfl, ?_, nofun, ?_, nofun, bounded, after⟩
    · rw [CallStack.entriesAfter_ret _ _ rfl, same, live]
      rfl
    · intro _ last found
      rw [live] at found
      contradiction
  | straight call ret same =>
    have noCall : ∀ target, instruction ≠ .call target := by
      rintro target rfl
      exact call target upcoming
    have noRet : instruction ≠ .ret := by
      rintro rfl
      exact ret upcoming
    refine ⟨rfl, ?_, fun target is => absurd is (noCall target), fun is => absurd is noRet,
      fun target is => absurd is (noCall target), bounded, after⟩
    rw [CallStack.entriesAfter_straight _ _ noCall noRet, same]

/-- A step that executes nothing leaves the stack alone. -/
theorem step_stack_of_none (console : Console) (none : console.execution? = none) :
    console.step.2.machine.stack = console.machine.stack := by
  have upcoming := (execution?_eq_none_iff console).mp none
  cases step_turn console with
  | called _ found | refused _ found | returned _ found | stranded found =>
    rw [upcoming] at found
    contradiction
  | straight _ _ same => exact same

/-- The run takes nothing back. -/
def Forward (_ : Console) (request : Request) : Prop := request ≠ .rewind ∧ request ≠ .reset

theorem calls_tracks : Tracks Forward CallStack.entriesAfter fun entries console =>
    console.machine.stack.Bounded ∧ console.machine.stack.live = entries where
  step := by
    rintro _ console ⟨bounded, rfl⟩
    refine ⟨Machine.turn_bounded _ _ _ (step_turn console) bounded, ?_⟩
    cases executed : console.execution? with
    | none => exact congrArg CallStack.live (step_stack_of_none console executed)
    | some execution =>
      have obeys := (execution_obeys console execution bounded executed).after
      rw [((execution?_eq_some_iff console execution).mp executed).2.2.2] at obeys
      exact obeys
  frameEnd _ _ _ _ holds := holds
  other := by
    intro _ console request ⟨noRewind, noReset⟩ noStep noFrame holds
    cases request with
    | load image =>
      obtain ⟨memory, same⟩ := console.perform_load image
      rw [same]
      exact holds
    | setKey key held =>
      obtain ⟨registers, pc, keypad, awaiting, same⟩ := console.perform_setKey key held
      rw [same]
      exact holds
    | tick | takeRedraw | takeScreen | setSpeed => exact holds
    | step | frame | rewind | reset => contradiction

/-- On every run that takes nothing back, the live entries of the stack are the list that the executed calls
and returns make of the entries from before it, also between any two executions. A call that finds room goes
to its target, and a return that finds an entry goes there. Where a call and a return enclose nested ones and
none of them faults, the return continues after the call, with the stack as it was before the call. -/
theorem live_refines_calls (settings : Settings) (source : WordSource) (early late : List Request)
    (forward : ∀ request ∈ late, request ≠ .rewind ∧ request ≠ .reset) :
    let reached := ((start settings source).performAll early).2
    let last := (reached.performAll late).2
    let trace := reached.trace late
    let entries := fun executions : List Execution =>
      executions.foldl CallStack.entriesAfter reached.machine.stack.live
    last.machine.stack.live = entries trace ∧
    last.machine.stack.depth.toNat = (entries trace).length ∧
    (∀ before execution after, trace = before ++ execution :: after →
      execution.before.stack.live = entries before ∧
      execution.after.stack.live = entries (before ++ [execution]) ∧
      (∀ target, execution.instruction = .call target → (entries before).length < 16 →
        execution.after.pc = .ofNat target.val) ∧
      (execution.instruction = .ret → ∀ address, (entries before).getLast? = some address →
        execution.after.pc = address)) ∧
    ∀ before call inner ret after target, trace = before ++ call :: (inner ++ ret :: after) →
      call.instruction = .call target → ret.instruction = .ret → Nested inner →
      (∀ execution ∈ call :: (inner ++ [ret]), execution.outcome.isFault = false) →
      ret.after.pc = .ofNat ((call.before.pc.toNat + 2) % 4096) ∧
      ret.after.stack.live = call.before.stack.live ∧
      ret.after.stack.depth = call.before.stack.depth := by
  intro reached last trace entries
  have bounded : reached.machine.Bounded :=
    (performAll_everywhere Machine.bounded_stable settings source early).1
  have throughout : reached.Throughout Forward late :=
    throughout_of_mem reached late fun request member _ => forward request member
  have tracked : last.machine.stack.Bounded ∧ last.machine.stack.live = entries trace :=
    performAll_tracks calls_tracks _ reached late throughout ⟨bounded.stack, rfl⟩
  have obeys : Execution.Along CallStack.entriesAfter Obeys reached.machine.stack.live trace :=
    trace_along calls_tracks
      (fun _ console execution holds executed => by
        obtain ⟨bounded, rfl⟩ := holds
        exact execution_obeys console execution bounded executed)
      _ reached late throughout ⟨bounded.stack, rfl⟩
  refine ⟨tracked.2, ?_, ?_, ?_⟩
  · rw [← tracked.2, CallStack.length_live_of_bounded _ tracked.1]
  · intro before execution after split
    rw [split] at obeys
    have here := Execution.property_of_along _ _ _ _ _ _ obeys
    refine ⟨here.before, ?_, here.calls, here.returns⟩
    change _ = List.foldl CallStack.entriesAfter _ (before ++ [execution])
    rw [List.foldl_append]
    exact here.after
  · intro before call inner ret after target split calls returns nested sound
    rw [split, Execution.along_append] at obeys
    exact Execution.returns_of_nested _ call ret target inner after obeys.2 calls returns nested sound

/-- A call of a subroutine that calls its own end, so that it runs to its end twice. -/
private def twice : Array UInt8 := #[0x22, 0x04, 0x12, 0x02, 0x22, 0x06, 0x00, 0xEE]

private def twiceSlots : Vector Address 16 := ((Vector.replicate 16 0).set 0 0x202).set 1 0x206

private def twiceAt (memory : Memory) (pc : Address) (stack : CallStack) : Console :=
  { start { instructionsPerFrame := 4 } (.cycle [7]) with
    machine := { Machine.initial with memory, pc, stack } }

private theorem stepsTrace_twice (memory : Memory)
    (outer : memory.readWord 0x200 = Instruction.encode (.call 0x204))
    (own : memory.readWord 0x204 = Instruction.encode (.call 0x206))
    (last : memory.readWord 0x206 = Instruction.encode .ret) :
    ∃ call inner ret, stepsTrace 4 (twiceAt memory 0x200 .empty) = call :: (inner ++ [ret]) ∧
      call.instruction = .call 0x204 ∧ call.before.pc = 0x200 ∧ ret.instruction = .ret ∧
      Nested inner ∧ inner.length = 2 ∧
      ∀ execution ∈ call :: (inner ++ [ret]), execution.outcome.isFault = false := by
  let inside := twiceAt memory 0x204 ⟨(Vector.replicate 16 0).set 0 0x202, 1⟩
  let deeper := twiceAt memory 0x206 ⟨twiceSlots, 2⟩
  let again := twiceAt memory 0x206 ⟨twiceSlots, 1⟩
  let back := twiceAt memory 0x202 ⟨twiceSlots, 0⟩
  have inward : CallStack.pop? ⟨twiceSlots, 2⟩ = some (0x206, ⟨twiceSlots, 1⟩) := rfl
  have outward : CallStack.pop? ⟨twiceSlots, 1⟩ = some (0x202, ⟨twiceSlots, 0⟩) := rfl
  have first : stepsTrace 4 (twiceAt memory 0x200 .empty) = _ :: stepsTrace 3 inside :=
    stepsTrace_of_stored 3 _ inside.machine (.call 0x204) rfl outer rfl rfl
  have second : stepsTrace 3 inside = _ :: stepsTrace 2 deeper :=
    stepsTrace_of_stored 2 inside deeper.machine (.call 0x206) rfl own rfl rfl
  have third : stepsTrace 2 deeper = _ :: stepsTrace 1 again :=
    stepsTrace_of_stored 1 deeper again.machine .ret rfl last
      (Machine.execute_of_pop? _ _ 0x206 ⟨twiceSlots, 1⟩ inward) rfl
  have fourth : stepsTrace 1 again = _ :: stepsTrace 0 back :=
    stepsTrace_of_stored 0 again back.machine .ret rfl last
      (Machine.execute_of_pop? _ _ 0x202 ⟨twiceSlots, 0⟩ outward) rfl
  rw [first, second, third, fourth]
  refine ⟨_, [_, _], _, rfl, rfl, rfl, rfl, ?_, rfl, ?_⟩
  · exact .subroutine _ _ 0x206 [] [] rfl rfl .nil .nil
  · intro execution member
    simp only [List.cons_append, List.nil_append, List.mem_cons, List.not_mem_nil, or_false] at member
    rcases member with rfl | rfl | rfl | rfl <;> rfl

/-- The return at the second end comes back to the instruction after the outer call. -/
theorem live_refines_calls_twice :
    let reached := ((start { instructionsPerFrame := 4 } (.cycle [7])).performAll [.load twice]).2
    (∀ request ∈ [Request.frame], request ≠ .rewind ∧ request ≠ .reset) ∧
      ∃ call inner ret, reached.trace [.frame] = call :: (inner ++ [ret]) ∧ inner.length = 2 ∧
        call.before.pc = 0x200 ∧ ret.after.pc = 0x202 ∧
        ret.after.stack.live = call.before.stack.live := by
  have forward : ∀ request ∈ [Request.frame], request ≠ .rewind ∧ request ≠ .reset := by simp
  have refines := live_refines_calls { instructionsPerFrame := 4 } (.cycle [7]) [.load twice] [.frame]
    forward
  have outer := Memory.readWord_place Memory.initial twice 0 0x22 0x04
    (Instruction.encode (.call 0x204)) (by decide) rfl rfl rfl
  have own := Memory.readWord_place Memory.initial twice 4 0x22 0x06
    (Instruction.encode (.call 0x206)) (by decide) rfl rfl rfl
  have last := Memory.readWord_place Memory.initial twice 6 0x00 0xEE
    (Instruction.encode .ret) (by decide) rfl rfl rfl
  have loaded : ((start { instructionsPerFrame := 4 } (.cycle [7])).performAll [.load twice]).2 =
      twiceAt (Memory.initial.place twice) 0x200 .empty :=
    start_load_of_le { instructionsPerFrame := 4 } (.cycle [7]) twice (by decide)
  dsimp only at refines ⊢
  rw [loaded] at refines ⊢
  generalize Memory.initial.place twice = memory at outer own last refines ⊢
  obtain ⟨call, inner, ret, trace, calls, origin, returns, nested, length, sound⟩ :=
    stepsTrace_twice memory outer own last
  have run : (twiceAt memory 0x200 .empty).trace [.frame] = call :: (inner ++ [ret]) :=
    (List.append_nil _).trans trace
  obtain ⟨pc, live, -⟩ := refines.2.2.2 [] call inner ret [] 0x204 run calls returns nested sound
  refine ⟨forward, call, inner, ret, run, length, origin, ?_, live⟩
  rw [pc, origin]
  rfl

end Console

end ChipEight
