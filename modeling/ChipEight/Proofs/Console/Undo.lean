import ChipEight.Proofs.Console.Steps

/-! The history of a console as an undo stack. A host without a bound would push the machine from before
each frame and pop one at each rewind; beside it, a count says how many frames can still be taken back. The
history is the beginning of that stack whose length is the count, so what was dropped once does not come
back. -/

namespace ChipEight

structure UndoStack where
  /-- The machines from before the frames that were not taken back, newest first. -/
  entries : List Machine := []
  /-- How many frames can be taken back. -/
  available : Nat := 0

namespace UndoStack

def note (depth : Nat) (undo : UndoStack) (console : Console) : Request → UndoStack
  | .frame => ⟨console.machine :: undo.entries, min (undo.available + 1) depth⟩
  | .rewind => if 0 < undo.available then ⟨undo.entries.tail, undo.available - 1⟩ else undo
  | .reset => {}
  | .load _ | .setKey _ _ | .step | .tick | .takeRedraw | .takeScreen | .setSpeed _ => undo

/-- The history of a console is a beginning of the stack, and the stack reaches as far as the count. -/
structure Backs (bound : Nat) (undo : UndoStack) (console : Console) : Prop where
  depth : console.settings.rewindDepth = bound
  history : console.history = undo.entries.take undo.available
  within : undo.available ≤ bound
  stacked : undo.available ≤ undo.entries.length

theorem start_backs (settings : Settings) (source : WordSource) :
    Backs settings.rewindDepth {} (.start settings source) :=
  ⟨rfl, rfl, Nat.zero_le _, Nat.le_refl 0⟩

theorem frame_backs (bound : Nat) (undo : UndoStack) (console : Console)
    (backs : undo.Backs bound console) :
    (undo.note bound console .frame).Backs bound console.frame.2 := by
  refine ⟨?_, ?_, Nat.min_le_right _ _, ?_⟩
  · rw [Console.frame_settings]
    exact backs.depth
  · rw [Console.frame_history, backs.history, backs.depth]
    exact History.record_take bound undo.available console.machine undo.entries backs.within
  · have stacked := backs.stacked
    simp only [note, List.length_cons]
    omega

/-- Without a count the history is empty; otherwise its head is the top of the stack. -/
theorem history_cases (bound : Nat) (undo : UndoStack) (console : Console)
    (backs : undo.Backs bound console) :
    (undo.available = 0 ∧ console.history = []) ∨
      ∃ earlier older, 0 < undo.available ∧ undo.entries = earlier :: older ∧
        console.history = earlier :: older.take (undo.available - 1) := by
  obtain ⟨entries, available⟩ := undo
  have history : console.history = entries.take available := backs.history
  have stacked : available ≤ entries.length := backs.stacked
  cases available with
  | zero => exact Or.inl ⟨rfl, history⟩
  | succ available =>
    cases entries with
    | nil => contradiction
    | cons earlier older => exact Or.inr ⟨earlier, older, Nat.succ_pos _, rfl, history⟩

theorem rewind_backs (bound : Nat) (undo : UndoStack) (console : Console)
    (backs : undo.Backs bound console) :
    (undo.note bound console .rewind).Backs bound console.rewind.2 := by
  have within := backs.within
  have stacked := backs.stacked
  unfold Console.rewind note
  rcases history_cases bound undo console backs with ⟨none, empty⟩ | ⟨earlier, older, some, top, recorded⟩
  · rw [empty, if_neg (by omega)]
    exact backs
  · rw [top, List.length_cons] at stacked
    rw [recorded, if_pos some, top]
    exact ⟨backs.depth, rfl, by dsimp only; omega, by dsimp only [List.tail_cons]; omega⟩

theorem perform_backs (bound : Nat) (undo : UndoStack) (console : Console) (request : Request)
    (backs : undo.Backs bound console) :
    (undo.note bound console request).Backs bound (console.perform request).2 := by
  cases request with
  | load image =>
    obtain ⟨memory, same⟩ := console.perform_load image
    rw [same]
    exact ⟨backs.depth, backs.history, backs.within, backs.stacked⟩
  | setKey key held =>
    obtain ⟨registers, pc, keypad, awaiting, same⟩ := console.perform_setKey key held
    rw [same]
    exact ⟨backs.depth, backs.history, backs.within, backs.stacked⟩
  | frame => exact frame_backs bound undo console backs
  | rewind => exact rewind_backs bound undo console backs
  | reset => exact ⟨backs.depth, rfl, Nat.zero_le _, Nat.le_refl 0⟩
  | step | tick | takeRedraw | takeScreen | setSpeed =>
    exact ⟨backs.depth, backs.history, backs.within, backs.stacked⟩

end UndoStack

namespace Console

/-- After every run, the history is the beginning of the unbounded undo stack whose length is the number of
frames that can be taken back. A rewind succeeds exactly if there is one, and then it restores the top of the
stack, apart from the keys, which stay, and the note that the screen has to be shown. -/
theorem history_refines_undo (settings : Settings) (source : WordSource) (requests : List Request) :
    let console := ((start settings source).performAll requests).2
    let undo := (start settings source).observe (UndoStack.note settings.rewindDepth) {} requests
    console.history = undo.entries.take undo.available ∧
    console.history.length = undo.available ∧ undo.available ≤ settings.rewindDepth ∧
    ((console.perform .rewind).1 = .flag true ↔ 0 < undo.available) ∧
    (0 < undo.available → ∃ earlier older, undo.entries = earlier :: older ∧
      console.perform .rewind = (.flag true, { console with
        machine := { earlier with keypad := console.machine.keypad, redraw := true }
        history := older.take (undo.available - 1)
        sounding := earlier.sound != 0 })) ∧
    (undo.available = 0 → console.perform .rewind = (.flag false, console)) := by
  intro console undo
  have backs : undo.Backs settings.rewindDepth console :=
    observe_preserves
      (fun undo console request (_ : True) => UndoStack.perform_backs _ undo console request)
      _ _ requests (throughout_of_mem _ _ fun _ _ _ => trivial)
      (UndoStack.start_backs settings source)
  refine ⟨backs.history, ?_, backs.within, ?_⟩
  · rw [backs.history, List.length_take_of_le backs.stacked]
  · rcases UndoStack.history_cases _ undo console backs with
      ⟨none, empty⟩ | ⟨earlier, older, some, top, recorded⟩
    · have refused : console.perform .rewind = (.flag false, console) := by
        simp only [perform, rewind, empty]
      rw [refused]
      exact ⟨by simp [none], fun some => by omega, fun _ => rfl⟩
    · have restored : console.perform .rewind = (.flag true, { console with
          machine := { earlier with keypad := console.machine.keypad, redraw := true }
          history := older.take (undo.available - 1)
          sounding := earlier.sound != 0 }) := by
        simp only [perform, rewind, recorded]
      rw [restored]
      exact ⟨by simp [some], fun _ => ⟨earlier, older, top, rfl⟩, fun none => by omega⟩

end Console

end ChipEight
