import ChipEight.Instruction.Encoding
import ChipEight.Machine.Execution

/-! One cycle of the machine: a suspended machine samples its keypad, any other fetches, decodes and
executes one instruction. After a fault the machine is as it was, except that the program counter has
moved past the instruction. -/

namespace ChipEight

inductive Outcome
  | executed
  | awaitingKey
  | faulted (fault : Fault)
  deriving DecidableEq, Repr

def WordSource.after (source : WordSource) (instruction : Instruction) : WordSource :=
  if instruction.takesRandomWord then source.advance else source

namespace Machine

def sample (machine : Machine) : Outcome × Machine :=
  match machine.keypad.lowest? with
  | some key => (.executed, machine.deliver (.ofNat key.val))
  | none => (.awaitingKey, machine)

def executeNext (machine : Machine) (source : WordSource) : Outcome × Machine × WordSource :=
  let (word, fetched) := machine.fetch
  match Instruction.decode word with
  | none => (.faulted (.unknownWord word fetched.origin), fetched, source)
  | some instruction =>
    match fetched.execute source instruction with
    | .error fault => (.faulted fault, fetched, source)
    | .ok next =>
      (if next.awaiting.isSome then .awaitingKey else .executed, next, source.after instruction)

def step (machine : Machine) (source : WordSource) : Outcome × Machine × WordSource :=
  if machine.awaiting.isSome then
    let (outcome, next) := machine.sample
    (outcome, next, source)
  else machine.executeNext source

end Machine

end ChipEight
