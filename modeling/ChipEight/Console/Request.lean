import ChipEight.Console.Frame

/-! The requests of a host as data, with what the console replies to each. A run of requests gives the
replies in order and the console after them. -/

namespace ChipEight

inductive Request
  | load (image : Array UInt8)
  | setKey (key : UInt8) (held : Bool)
  | step
  | frame
  | tick
  | rewind
  | reset
  | takeRedraw
  | takeScreen
  | setSpeed (instructionsPerFrame : UInt32)

inductive Reply
  | done
  | failed (error : Error)
  | executed
  | awaitingKey
  | framed (report : FrameReport)
  | ticked (edges : ToneEdges)
  | flag (value : Bool)
  | screen (shown : Option Screen)
  deriving DecidableEq

def Outcome.reply : Outcome → Reply
  | .executed => .executed
  | .awaitingKey => .awaitingKey
  | .faulted fault => .failed (.fault fault)

namespace Console

/-- A refused change leaves the console as it was. -/
def accept (console : Console) : Except Refusal Console → Reply × Console
  | .ok next => (.done, next)
  | .error refusal => (.failed (.refusal refusal), console)

def perform (console : Console) : Request → Reply × Console
  | .load image => console.accept (console.load image)
  | .setKey key held => console.accept (console.setKey key held)
  | .step => let (outcome, next) := console.step; (outcome.reply, next)
  | .frame => let (report, next) := console.frame; (.framed report, next)
  | .tick => let (edges, next) := console.tick; (.ticked edges, next)
  | .rewind => let (restored, next) := console.rewind; (.flag restored, next)
  | .reset => (.done, console.reset)
  | .takeRedraw => let (redraw, next) := console.takeRedraw; (.flag redraw, next)
  | .takeScreen => let (shown, next) := console.takeScreen; (.screen shown, next)
  | .setSpeed instructionsPerFrame => (.done, console.setSpeed instructionsPerFrame)

def performAll (console : Console) : List Request → List Reply × Console
  | [] => ([], console)
  | request :: rest =>
    let (reply, next) := console.perform request
    let (replies, last) := performAll next rest
    (reply :: replies, last)

end Console

end ChipEight
