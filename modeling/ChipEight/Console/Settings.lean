/-! Settings of a console and the pace of its display. -/

namespace ChipEight

/-- The time that a frame takes, in nanoseconds. -/
def Settings.frameTime : Nat := 16666667

/-- How many frames fill a second, to the nearest whole number. The timers tick as often. -/
def Settings.framesPerSecond : Nat := (1000000000 + frameTime / 2) / frameTime

example : Settings.framesPerSecond = 60 := rfl

structure Settings where
  instructionsPerFrame : UInt32 := 6
  /-- How many frames can be taken back, at first those of ten seconds. -/
  rewindDepth : Nat := 10 * Settings.framesPerSecond
  /-- Makes random bytes repeatable; without one the host chooses. -/
  seed : Option UInt64 := none
  deriving DecidableEq, Repr

end ChipEight
