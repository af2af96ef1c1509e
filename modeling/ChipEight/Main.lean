import ChipEight.Headless.Report

/-! The command line program. Without a seed the system supplies one. -/

namespace ChipEight.Headless

/-- Some errors of the system come with the negated number and a text in small letters. -/
def systemFailure (code : UInt32) (reason : String) : ReadFailure :=
  match if code < 0x80000000 then code.toNat else (0 - code).toNat with
  | 2 => .missing
  | 20 => .notDirectory
  | 21 => .isDirectory
  | 36 => .nameTooLong
  | code => .system reason.capitalize code

def readFailure : IO.Error → ReadFailure
  | .noFileOrDirectory _ code reason => systemFailure code reason
  | .permissionDenied _ code reason => systemFailure code reason
  | .inappropriateType _ code reason => systemFailure code reason
  | .invalidArgument _ code reason => systemFailure code reason
  | .resourceExhausted _ code reason => systemFailure code reason
  | .noSuchThing _ code reason => systemFailure code reason
  | .alreadyExists _ code reason => systemFailure code reason
  | .interrupted _ code reason => systemFailure code reason
  | .otherError code reason => systemFailure code reason
  | .hardwareFault code reason => systemFailure code reason
  | .unsupportedOperation code reason => systemFailure code reason
  | .illegalOperation code reason => systemFailure code reason
  | failure => .system (toString failure) 0

def readImage (path : String) : IO (Except ReadFailure (Array UInt8)) := do
  match ← (IO.FS.readBinFile path).toBaseIO with
  | .ok content => return .ok content.data
  | .error failure => return .error (readFailure failure)

end ChipEight.Headless

def main (arguments : List String) : IO UInt32 := do
  let chosen ← IO.rand 0 (UInt64.size - 1)
  let report ← ChipEight.Headless.process arguments (.ofNat chosen) ChipEight.Headless.readImage
  IO.print report.output
  IO.eprint report.diagnostics
  return report.exitCode.toUInt32
