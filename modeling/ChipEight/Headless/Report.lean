import ChipEight.Console.Frame
import ChipEight.Headless.Arguments
import ChipEight.Headless.FileTree
import ChipEight.Screen.Picture

/-! A headless run as a function. It runs the image for the frames asked for, but not past a frame that
waits for a key, since nobody can press one, and prints the last screen. Faults of the program are no
failure of the run; an image that cannot be read or loaded is. -/

namespace ChipEight.Headless

structure Report where
  exitCode : UInt8
  output : String
  diagnostics : String
  deriving DecidableEq, Repr

namespace Report

def success (output : String) : Report := ⟨0, output, ""⟩

def failure (context cause : String) : Report :=
  ⟨1, "", "Error: " ++ context ++ "\n\nCaused by:\n    " ++ cause ++ "\n"⟩

def usage (error : UsageError) : Report := ⟨2, "", "error: " ++ error.message ++ "\n"⟩

end Report

def run (options : Options) (source : WordSource) (content : Except ReadFailure (Array UInt8)) : Report :=
  match content with
  | .error failure => .failure ("unable to read " ++ options.image) failure.message
  | .ok image =>
    match (Console.start options.settings source).load image with
    | .error refusal => .failure ("unable to load " ++ options.image) refusal.message
    | .ok console =>
      .success ((console.runFrames options.frames.toNat).machine.screen.text ++ "\n")

/-- The whole run from its arguments on, for any reading of them and any words that a seed stands for. Nothing
is read when the arguments are in error, and the seed chosen beforehand serves when none is given. -/
def processWith {m : Type → Type} [Monad m] (parse : List String → Except UsageError Options)
    (sourceOf : UInt64 → WordSource) (arguments : List String) (chosen : UInt64)
    (read : String → m (Except ReadFailure (Array UInt8))) : m Report :=
  match parse arguments with
  | .error error => return .usage error
  | .ok options =>
    return run options (sourceOf (options.settings.seed.getD chosen)) (← read options.image)

def process {m : Type → Type} [Monad m] (arguments : List String) (chosen : UInt64)
    (read : String → m (Except ReadFailure (Array UInt8))) : m Report :=
  processWith Options.ofArguments .ofSeed arguments chosen read

end ChipEight.Headless
