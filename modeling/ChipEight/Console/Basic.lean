import ChipEight.Console.History
import ChipEight.Console.Settings
import ChipEight.Console.Tone
import ChipEight.Machine.Cycle

/-! A console is a machine in the hands of a host, which loads images, holds keys, runs frames, takes them
back, and shows the screen. It keeps the machines from before the latest frames, newest first. -/

namespace ChipEight

structure Console where
  machine : Machine
  history : History Machine
  settings : Settings
  source : WordSource
  /-- Whether the tone sounded after the latest tick. -/
  sounding : Bool
  lastFault : Option Fault

namespace Console

def start (settings : Settings) (source : WordSource) : Console where
  machine := .initial
  history := []
  settings
  source
  sounding := false
  lastFault := none

/-- Back to power-on; the settings stay and the random words go on. -/
def reset (console : Console) : Console := start console.settings console.source

def load (console : Console) (image : Array UInt8) : Except Refusal Console :=
  if image.size ≤ Memory.imageCapacity then
    .ok { console with
      machine := { console.machine with memory := console.machine.memory.place image } }
  else .error (.imageTooLarge image.size Memory.imageCapacity)

/-- A press also ends a wait for a key. -/
def setKey (console : Console) (key : UInt8) (held : Bool) : Except Refusal Console :=
  if valid : key.toNat < 16 then
    let machine := { console.machine with keypad := console.machine.keypad.set ⟨key.toNat, valid⟩ held }
    .ok { console with machine := if held then machine.deliver key else machine }
  else .error (.invalidKey key)

def press (console : Console) (key : UInt8) : Except Refusal Console := console.setKey key true

def release (console : Console) (key : UInt8) : Except Refusal Console := console.setKey key false

def step (console : Console) : Outcome × Console :=
  let (outcome, machine, source) := console.machine.step console.source
  (outcome, { console with machine, source })

def tick (console : Console) : ToneEdges × Console :=
  let machine := console.machine.tick
  (.ofTick console.sounding console.machine.sound machine.sound,
    { console with machine, sounding := machine.sound != 0 })

/-- Takes back the latest frame. The keys stay as the host holds them now, and the screen has to be shown
again. -/
def rewind (console : Console) : Bool × Console :=
  match console.history with
  | [] => (false, console)
  | earlier :: history =>
    (true, { console with
      machine := { earlier with keypad := console.machine.keypad, redraw := true }
      history
      sounding := earlier.sound != 0 })

/-- Asks whether the screen has to be shown again, and takes note that it was. -/
def takeRedraw (console : Console) : Bool × Console :=
  (console.machine.redraw, { console with machine := { console.machine with redraw := false } })

def takeScreen (console : Console) : Option Screen × Console :=
  let (redraw, next) := console.takeRedraw
  (if redraw then some console.machine.screen else none, next)

def setSpeed (console : Console) (instructionsPerFrame : UInt32) : Console :=
  { console with settings := { console.settings with instructionsPerFrame } }

def isAwaitingKey (console : Console) : Bool := console.machine.awaiting.isSome

def isToneOn (console : Console) : Bool := console.machine.sound != 0

end Console

end ChipEight
