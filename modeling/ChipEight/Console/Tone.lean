/-! The tone sounds while the sound timer is not zero. Each timer tick reports when the tone starts and
when it stops; a tone of a single tick does both at once. -/

namespace ChipEight

structure ToneEdges where
  started : Bool
  stopped : Bool
  deriving DecidableEq, Repr

/-- The edges of a tick, from whether the tone sounded after the previous tick and from the sound timer
before and after this one. -/
def ToneEdges.ofTick (sounding : Bool) (before after : UInt8) : ToneEdges where
  started := before != 0 && !sounding
  stopped := (before != 0 || sounding) && after == 0

end ChipEight
