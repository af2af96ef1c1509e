import ChipEight.Console.Settings
import ChipEight.Headless.Number

/-! The arguments of a headless run: the path of an image and up to three options, in any order. An option
takes the next argument as its value, or what follows an equals sign, and is given at most once. After a
bare `--` every argument is a path. -/

namespace ChipEight.Headless

structure Options where
  image : String
  settings : Settings
  frames : UInt32

inductive UsageError
  | unknownOption (text : String)
  | missingValue (option : String)
  | invalidValue (option text : String)
  | repeatedOption (option : String)
  | unexpectedArgument (text : String)
  | missingImage
  deriving DecidableEq, Repr

def UsageError.message : UsageError → String
  | .unknownOption text => "unknown option " ++ text
  | .missingValue option => "a value is required for --" ++ option
  | .invalidValue option text => "invalid value " ++ text ++ " for --" ++ option
  | .repeatedOption option => "--" ++ option ++ " can be given once only"
  | .unexpectedArgument text => "unexpected argument " ++ text
  | .missingImage => "the path of an image is required"

structure Draft where
  image : Option String := none
  instructionsPerFrame : Option UInt32 := none
  seed : Option UInt64 := none
  frames : Option UInt32 := none

namespace Draft

def setImage (draft : Draft) (path : String) : Except UsageError Draft :=
  if path.isEmpty || draft.image.isSome then .error (.unexpectedArgument path)
  else .ok { draft with image := some path }

/-- Reads the value of an option that must not have one yet. -/
def readValue {α : Type} (option text : String) (present value? : Option α) : Except UsageError α :=
  match present, value? with
  | some _, _ => .error (.repeatedOption option)
  | none, none => .error (.invalidValue option text)
  | none, some value => .ok value

def setOption (draft : Draft) (option text : String) : Except UsageError Draft :=
  match option with
  | "ipf" => do
    let value ← readValue option text draft.instructionsPerFrame (count? text)
    return { draft with instructionsPerFrame := some value }
  | "seed" => do
    let value ← readValue option text draft.seed (seed? text)
    return { draft with seed := some value }
  | "frames" => do
    let value ← readValue option text draft.frames (count? text)
    return { draft with frames := some value }
  | _ => .error (.unknownOption ("--" ++ option))

def toOptions (draft : Draft) : Except UsageError Options :=
  match draft.image with
  | none => .error .missingImage
  | some image =>
    let standard : Settings := {}
    .ok {
      image
      settings := { standard with
        instructionsPerFrame := draft.instructionsPerFrame.getD standard.instructionsPerFrame
        seed := draft.seed }
      frames := draft.frames.getD (.ofNat (10 * Settings.framesPerSecond)) }

end Draft

/-- What an argument is by its form. A lone minus sign is a value. -/
inductive Argument
  | value (text : String)
  | separator
  | option (name : String) (attached : Option String)
  | other (text : String)

def Argument.ofText (text : String) : Argument :=
  match text.toList with
  | ['-', '-'] => .separator
  | '-' :: '-' :: rest =>
    let name := rest.takeWhile (· != '=')
    match rest.drop name.length with
    | [] => .option (String.ofList name) none
    | _ :: attached => .option (String.ofList name) (some (String.ofList attached))
  | '-' :: _ :: _ => .other text
  | _ => .value text

def readArguments (draft : Draft) : List String → Except UsageError Draft
  | [] => .ok draft
  | text :: rest =>
    match Argument.ofText text with
    | .value path => do readArguments (← draft.setImage path) rest
    | .separator => rest.foldlM Draft.setImage draft
    | .other _ => .error (.unknownOption text)
    | .option name (some attached) => do readArguments (← draft.setOption name attached) rest
    | .option name none =>
      match rest with
      | [] => .error (.missingValue name)
      | next :: rest =>
        match Argument.ofText next with
        | .value text => do readArguments (← draft.setOption name text) rest
        | _ => .error (.missingValue name)

def Options.ofArguments (arguments : List String) : Except UsageError Options := do
  (← readArguments {} arguments).toOptions

end ChipEight.Headless
