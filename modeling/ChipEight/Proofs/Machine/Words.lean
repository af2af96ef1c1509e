import ChipEight.Proofs.Instruction.Pattern
import ChipEight.Proofs.Machine.Cycle

/-! Words as instructions. A machine that has fetched a word executes the instruction that the word stands for,
and a word that stands for none is a fault; a list of words is executed one after the other. -/

namespace ChipEight.Machine

def executeWord (machine : Machine) (source : WordSource) (word : UInt16) : Except Fault Machine :=
  match Instruction.decode word with
  | none => .error (.unknownWord word machine.origin)
  | some instruction => machine.execute source instruction

/-- Executes words in order, up to the first fault. -/
def executeWords (machine : Machine) (source : WordSource) (words : List UInt16) :
    Except Fault Machine :=
  words.foldlM (fun machine word => machine.executeWord source word) machine

theorem executeWord_encode (machine : Machine) (source : WordSource) (instruction : Instruction) :
    machine.executeWord source instruction.encode = machine.execute source instruction := by
  rw [executeWord, Instruction.decode_encode]

theorem executeWords_cons (machine : Machine) (source : WordSource) (word : UInt16)
    (rest : List UInt16) :
    machine.executeWords source (word :: rest) =
      machine.executeWord source word >>= fun next => next.executeWords source rest := rfl

theorem machine_step (machine : Machine) (source : WordSource) (running : machine.awaiting = none) :
    (machine.step source).2.1 =
      match machine.fetch.2.executeWord source machine.fetch.1 with
      | .ok next => next
      | .error _ => machine.fetch.2 := by
  rw [step_of_running machine source running]
  unfold executeNext executeWord
  dsimp only
  cases Instruction.decode machine.fetch.1 with
  | none => rfl
  | some instruction =>
    dsimp only
    cases machine.fetch.2.execute source instruction with
    | error fault => rfl
    | ok next => rfl

end ChipEight.Machine
