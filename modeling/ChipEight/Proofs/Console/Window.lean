import ChipEight.Proofs.Console.Steps
import ChipEight.Proofs.Machine.Redraw

/-! The window of a host that redraws on demand. It starts out dark, goes dark at each reset, and otherwise
changes only when the console hands out a screen. If nothing but these exchanges takes the note away that
the screen has to be shown, the window is behind the screen only while there is such a note. -/

namespace ChipEight

/-- What a window shows after a request and the reply to it. -/
def Screen.shownAfter (window : Screen) : Request → Reply → Screen
  | .reset, _ => .dark
  | .takeScreen, .screen (some screen) => screen
  | _, _ => window

namespace Console

/-- What the window shows after a run of requests that starts with a dark window. -/
def window (console : Console) (requests : List Request) : Screen :=
  console.observe (fun shown met request => shown.shownAfter request (met.perform request).1) .dark
    requests

theorem steps_shown (count : Nat) (console : Console) (picture : Screen)
    (shown : console.machine.ShownBy picture) : (console.steps count).2.machine.ShownBy picture := by
  induction count generalizing console with
  | zero => exact shown
  | succ count ih =>
    exact ih console.step.2 (Machine.step_shown console.machine console.source picture shown)

theorem frame_shown (console : Console) (picture : Screen) (shown : console.machine.ShownBy picture) :
    console.frame.2.machine.ShownBy picture := by
  rw [frame_def]
  exact steps_shown _ console picture shown

/-- A window that takes a screen shows it, and one that is given none showed it before. -/
theorem takeScreen_shown (console : Console) (window : Screen)
    (shown : console.machine.ShownBy window) :
    window.shownAfter .takeScreen (console.perform .takeScreen).1 = console.machine.screen := by
  have reply : (console.perform .takeScreen).1 =
      .screen (if console.machine.redraw then some console.machine.screen else none) := rfl
  rw [reply]
  cases noted : console.machine.redraw with
  | true => rfl
  | false => exact shown noted

theorem perform_shown (window : Screen) (console : Console) (request : Request)
    (polite : request ≠ .takeRedraw) (shown : console.machine.ShownBy window) :
    (console.perform request).2.machine.ShownBy
      (window.shownAfter request (console.perform request).1) := by
  cases request with
  | load image =>
    obtain ⟨memory, same⟩ := console.perform_load image
    rw [same]
    exact shown
  | setKey key held =>
    obtain ⟨registers, pc, keypad, awaiting, same⟩ := console.perform_setKey key held
    rw [same]
    exact shown
  | step => exact Machine.step_shown console.machine console.source window shown
  | frame => exact frame_shown console window shown
  | rewind =>
    change console.rewind.2.machine.ShownBy window
    unfold rewind
    cases console.history with
    | nil => exact shown
    | cons earlier older => exact Machine.shownBy_of_redraw _ window rfl
  | reset => exact fun _ => rfl
  | takeScreen => exact fun _ => takeScreen_shown console window shown
  | takeRedraw => contradiction
  | tick | setSpeed => exact shown

theorem performAll_shown (console : Console) (requests : List Request)
    (polite : ∀ request ∈ requests, request ≠ .takeRedraw)
    (shown : console.machine.ShownBy .dark) :
    (console.performAll requests).2.machine.ShownBy (console.window requests) :=
  observe_preserves perform_shown _ console requests
    (throughout_of_mem console requests fun request member _ => polite request member) shown

theorem redraw_takeScreen (console : Console) (requests : List Request) :
    (console.performAll (requests ++ [.takeScreen])).2.machine.redraw = false := by
  rw [performAll_append]
  rfl

/-- If the note that the screen has to be shown is taken away only along with the screen, a window without
such a note shows the screen. So it does after every request for the screen, whatever the reply was. -/
theorem window_current (settings : Settings) (source : WordSource) (requests : List Request)
    (polite : ∀ request ∈ requests, request ≠ .takeRedraw) :
    let start := start settings source
    let reached := (start.performAll requests).2
    let shown := (start.performAll (requests ++ [.takeScreen])).2
    (reached.machine.redraw = false → start.window requests = reached.machine.screen) ∧
      start.window (requests ++ [.takeScreen]) = shown.machine.screen := by
  intro start reached shown
  have dark : start.machine.ShownBy .dark := fun _ => rfl
  have taken : ∀ request ∈ requests ++ [.takeScreen], request ≠ .takeRedraw := by
    intro request member
    rcases List.mem_append.mp member with earlier | last
    · exact polite request earlier
    · rw [List.mem_singleton.mp last]
      exact nofun
  exact ⟨performAll_shown start requests polite dark,
    performAll_shown start _ taken dark (redraw_takeScreen start requests)⟩

private theorem frame_draw (console : Console) (x y : Register) (height : Fin 16)
    (single : console.settings.instructionsPerFrame.toNat = 1)
    (running : console.machine.awaiting = none)
    (stored : console.machine.memory.readWord console.machine.pc =
      Instruction.encode (.draw x y height)) :
    (console.performAll [.frame, .takeScreen]).2.machine.screen =
      console.machine.screen ^^^ console.machine.sprite x y height.val := by
  change console.frame.2.machine.screen = _
  rw [frame_of_stored console _ (.draw x y height) single running stored rfl running]
  rfl

private theorem sprite_corner (machine : Machine) (corner : machine.register 0 = 0)
    (index : machine.index = 0) (top : machine.memory.read 0 = 0xF0) :
    (machine.sprite 0 0 (1 : Fin 16).val).pixel 0 0 = true := by
  rw [Machine.sprite, Screen.pixel_footprint, corner, index]
  change (_ && (_ && (machine.memory.read 0).toBitVec.getMsbD 0)) = true
  rw [top]
  decide

private def drawing : List Request := [.load #[0xD0, 0x01], .frame]

private theorem performAll_drawing (settings : Settings) (source : WordSource)
    (single : settings.instructionsPerFrame.toNat = 1) :
    ((start settings source).performAll (drawing ++ [.takeScreen])).2.machine.screen.pixel 0 0 =
      true := by
  have stored : (Memory.initial.place #[0xD0, 0x01]).readWord 0x200 =
      Instruction.encode (.draw 0 0 1) := by
    apply UInt16.toNat_inj.mp
    rw [Memory.toNat_readWord, Memory.read_place, Memory.read_place]
    rfl
  have top : (Memory.initial.place #[0xD0, 0x01]).read 0 = 0xF0 := by
    rw [Memory.read_place, if_pos (by decide), Memory.read_initial]
    decide
  rw [drawing, List.cons_append, List.cons_append, List.nil_append, performAll_cons_snd,
    start_load_of_le settings source _ (by decide)]
  generalize Memory.initial.place #[0xD0, 0x01] = memory at stored top ⊢
  let console : Console := { start settings source with machine := { Machine.initial with memory } }
  change (console.performAll [.frame, .takeScreen]).2.machine.screen.pixel 0 0 = true
  have dark : console.machine.screen.pixel 0 0 = false := Screen.pixel_dark 0 0
  rw [frame_draw console 0 0 1 single rfl stored, Screen.pixel_xor, dark,
    sprite_corner console.machine rfl rfl top]
  rfl

/-- A frame that draws a glyph lights its first pixel in the window. -/
theorem window_current_drawn :
    let start := start { instructionsPerFrame := 1 } (.cycle [7])
    (∀ request ∈ drawing, request ≠ .takeRedraw) ∧
      (start.window (drawing ++ [.takeScreen])).pixel 0 0 = true := by
  intro start
  have polite : ∀ request ∈ drawing, request ≠ .takeRedraw := by simp [drawing]
  have shown := (window_current { instructionsPerFrame := 1 } (.cycle [7]) drawing polite).2
  refine ⟨polite, ?_⟩
  rw [shown]
  exact performAll_drawing _ _ rfl

end Console

end ChipEight
