import ChipEight.Console.Request
import ChipEight.Keypad.Layout
import ChipEight.Main
import ChipEight.Proofs.Bounds.Requests
import ChipEight.Proofs.Console.Steps
import ChipEight.Proofs.Console.Faults
import ChipEight.Proofs.Console.Replay
import ChipEight.Proofs.Console.Undo
import ChipEight.Proofs.Console.Pending
import ChipEight.Proofs.Console.Delivery
import ChipEight.Proofs.Console.Window
import ChipEight.Proofs.Console.Calls
import ChipEight.Proofs.Console.RandomWords
import ChipEight.Proofs.Console.ToneEdges
import ChipEight.Proofs.Headless.Arguments
import ChipEight.Proofs.Headless.Files
import ChipEight.Proofs.Console.Regrouping
import ChipEight.Proofs.Console.Polling
import ChipEight.Proofs.Console.HeldKeys
import ChipEight.Proofs.Machine.Footprint
import ChipEight.Proofs.Console.Footprint
import ChipEight.Proofs.Machine.Arithmetic
import ChipEight.Proofs.Machine.Sketches
import ChipEight.Proofs.Console.ControlFlow
import ChipEight.Proofs.Console.Parking
import ChipEight.Proofs.Machine.Streaming
import ChipEight.Proofs.Console.Loading
import ChipEight.Proofs.Console.Timers
import ChipEight.Proofs.Console.HeardTone
import ChipEight.Proofs.Machine.Congruence
import ChipEight.Proofs.Screen.Picture
import ChipEight.Proofs.Bounds.Overflow
