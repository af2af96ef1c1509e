import ChipEight.Console.Basic

/-! A frame is a number of steps followed by one tick. It ends its steps early when the program waits for a
key, and it goes on after faults. The machine from before the frame is recorded so that the frame can be
taken back. -/

namespace ChipEight

structure Tally where
  /-- Instructions that ran, faulting ones included. -/
  executed : Nat := 0
  faults : Nat := 0
  awaitingKey : Bool := false
  deriving DecidableEq, Repr

structure FrameReport extends Tally where
  edges : ToneEdges
  deriving DecidableEq, Repr

namespace Console

def runSteps : (count : Nat) → Tally → Console → Tally × Console
  | 0, tally, console => (tally, console)
  | count + 1, tally, console =>
    match console.step with
    | (.executed, next) => runSteps count { tally with executed := tally.executed + 1 } next
    | (.awaitingKey, next) => ({ tally with awaitingKey := true }, next)
    | (.faulted fault, next) =>
      runSteps count
        { tally with executed := tally.executed + 1, faults := tally.faults + 1 }
        { next with lastFault := some fault }

def record (console : Console) : Console :=
  { console with
    history := History.record console.settings.rewindDepth console.machine console.history }

def frame (console : Console) : FrameReport × Console :=
  let (tally, ran) := console.record.runSteps console.settings.instructionsPerFrame.toNat {}
  let (edges, ticked) := ran.tick
  ({ tally with edges }, ticked)

/-- Runs up to `count` frames and stops after the first one that waits for a key. -/
def runFrames : (count : Nat) → Console → Console
  | 0, console => console
  | count + 1, console =>
    let (report, next) := console.frame
    if report.awaitingKey then next else runFrames count next

end Console

end ChipEight
