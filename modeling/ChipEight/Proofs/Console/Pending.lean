import ChipEight.Proofs.Console.Steps
import ChipEight.Proofs.Machine.Wait

/-! Pending waits along a run. As long as no image is loaded over a waiting program, every pending wait, the
recorded ones included, belongs to the instruction that is stored where the program counter is. A wait that
meets a held key was taken back from the history, and nothing has run or been pressed since. -/

namespace ChipEight.Console

/-- No image is loaded over a program that waits. -/
def LoadsRunning (console : Console) : Request → Prop
  | .load _ => console.machine.awaiting = none
  | .setKey _ _ | .step | .frame | .tick | .rewind | .reset | .takeRedraw | .takeScreen | .setSpeed _ =>
    True

/-- No step runs and no key of the keypad is pressed. -/
def NoStepOrPress (console : Console) : Request → Prop
  | .step => False
  | .frame => console.settings.instructionsPerFrame = 0
  | .setKey key held => held = true → 16 ≤ key.toNat
  | .load _ | .tick | .rewind | .reset | .takeRedraw | .takeScreen | .setSpeed _ => True

theorem anchored_kept : Machine.Kept Machine.Anchored where
  initial := Machine.anchored_of_running _ rfl
  step := Machine.step_anchored
  tick _ anchored := anchored
  press _ _ key _ := Machine.anchored_of_running _ (Machine.awaiting_deliver _ key)
  hold _ _ _ anchored := anchored

theorem perform_anchored (console : Console) (request : Request)
    (running : console.LoadsRunning request) (anchored : console.Everywhere Machine.Anchored) :
    (console.perform request).2.Everywhere Machine.Anchored := by
  refine perform_everywhere anchored_kept console request ?_ anchored
  rintro image rfl
  exact Machine.anchored_of_running _ running

theorem steps_wakeable (count : Nat) (console : Console)
    (wakeable : (console.steps count).2.machine.Wakeable) : count = 0 ∧ console.machine.Wakeable := by
  induction count generalizing console with
  | zero => exact ⟨rfl, wakeable⟩
  | succ count ih =>
    obtain ⟨-, stepped⟩ := ih console.step.2 wakeable
    exact absurd stepped (Machine.step_not_wakeable console.machine console.source)

theorem frame_wakeable (console : Console) (wakeable : console.frame.2.machine.Wakeable) :
    console.settings.instructionsPerFrame = 0 ∧ console.machine.Wakeable := by
  rw [frame_def] at wakeable
  obtain ⟨none, before⟩ := steps_wakeable _ console wakeable
  exact ⟨UInt32.toNat_inj.mp none, before⟩

theorem setKey_wakeable (console : Console) (key : UInt8) (held : Bool)
    (wakeable : (console.perform (.setKey key held)).2.machine.Wakeable) :
    (held = true → 16 ≤ key.toNat) ∧ console.machine.Wakeable := by
  cases held with
  | false =>
    obtain ⟨keypad, same, released⟩ := console.perform_release key
    rw [same] at wakeable
    exact ⟨nofun, wakeable.1, fun none => wakeable.2 (released none)⟩
  | true =>
    by_cases valid : key.toNat < 16
    · obtain ⟨keypad, same⟩ := console.perform_press key valid
      rw [same] at wakeable
      exact absurd wakeable (Machine.not_wakeable_of_running _ (Machine.awaiting_deliver _ key))
    · simp only [perform, setKey, dif_neg valid, accept] at wakeable
      exact ⟨fun _ => Nat.le_of_not_lt valid, wakeable⟩

/-- A request that leaves a pending wait and a held key is a rewind or has found both. -/
theorem perform_wakeable (console : Console) (request : Request)
    (wakeable : (console.perform request).2.machine.Wakeable) :
    (request = .rewind ∧ (console.perform .rewind).1 = .flag true) ∨
      (console.NoStepOrPress request ∧ console.machine.Wakeable) := by
  cases request with
  | load image =>
    obtain ⟨memory, same⟩ := console.perform_load image
    rw [same] at wakeable
    exact Or.inr ⟨trivial, wakeable⟩
  | setKey key held => exact Or.inr (setKey_wakeable console key held wakeable)
  | step => exact absurd wakeable (Machine.step_not_wakeable console.machine console.source)
  | frame => exact Or.inr (frame_wakeable console wakeable)
  | rewind =>
    cases recorded : console.history with
    | nil =>
      simp only [perform, rewind, recorded] at wakeable
      exact Or.inr ⟨trivial, wakeable⟩
    | cons earlier older => exact Or.inl ⟨rfl, by simp only [perform, rewind, recorded]⟩
  | reset => exact absurd wakeable (Machine.not_wakeable_of_running _ rfl)
  | tick | takeRedraw | takeScreen | setSpeed => exact Or.inr ⟨trivial, wakeable⟩

/-- Where a run leaves a pending wait and a held key, it has found both or some rewind has restored the
wait, and it was quiet since. -/
theorem performAll_wakeable (console : Console) (requests : List Request)
    (wakeable : (console.performAll requests).2.machine.Wakeable) :
    (console.Throughout NoStepOrPress requests ∧ console.machine.Wakeable) ∨
      ∃ early late, requests = early ++ .rewind :: late ∧
        ((console.performAll early).2.perform .rewind).1 = .flag true ∧
        ((console.performAll early).2.perform .rewind).2.Throughout NoStepOrPress late ∧
        ((console.performAll early).2.perform .rewind).2.machine.Wakeable := by
  induction requests generalizing console with
  | nil => exact Or.inl ⟨trivial, wakeable⟩
  | cons request rest ih =>
    rcases ih _ wakeable with ⟨quiet, next⟩ | ⟨early, late, rfl, restored⟩
    · rcases perform_wakeable console request next with ⟨rfl, restored⟩ | ⟨now, before⟩
      · exact Or.inr ⟨[], rest, rfl, restored, quiet, next⟩
      · exact Or.inl ⟨⟨now, quiet⟩, before⟩
    · exact Or.inr ⟨request :: early, late, rfl, restored⟩

/-- In a run that loads no image over a waiting program, every pending wait, the recorded ones included, is
for the register that the two bytes at the program counter name. In every run, where a wait is pending and a
key is held, some rewind has restored a pending wait and the run was quiet since; the next step then ends
the wait with the lowest held key. -/
theorem awaiting_traced (settings : Settings) (source : WordSource) (requests : List Request) :
    let start := start settings source
    let console := (start.performAll requests).2
    (start.Throughout LoadsRunning requests →
      ∀ machine ∈ console.machine :: console.history, ∀ x, machine.awaiting = some x →
        machine.memory.read machine.pc = .ofNat (0xF0 + x.val) ∧
        machine.memory.read (.ofNat ((machine.pc.toNat + 1) % 4096)) = 0x0A) ∧
    ∀ x held, console.machine.awaiting = some x → console.machine.keypad.isHeld held = true →
      (∃ early late, requests = early ++ .rewind :: late ∧
        let rewound := (start.performAll early).2.perform .rewind
        rewound.1 = .flag true ∧ rewound.2.machine.awaiting.isSome ∧
          rewound.2.Throughout NoStepOrPress late) ∧
      ∃ lowest, console.machine.keypad.isHeld lowest = true ∧
        (∀ other, console.machine.keypad.isHeld other = true → lowest ≤ other) ∧
        console.perform .step = (.executed, { console with
          machine := { console.machine.setRegister x (.ofNat lowest.val) with
            pc := .ofNat ((console.machine.pc.toNat + 2) % 4096)
            awaiting := none } }) := by
  intro start console
  constructor
  · intro running machine member x waits
    have anchored : console.Everywhere Machine.Anchored :=
      throughout_preserves perform_anchored start requests running
        (start_everywhere anchored_kept settings source)
    have here : machine.Anchored := by
      rcases List.mem_cons.mp member with rfl | recorded
      · exact anchored.1
      · exact anchored.2 machine recorded
    exact Machine.bytes_of_anchored machine x here waits
  · intro x held waits down
    obtain ⟨lowest, found⟩ : ∃ lowest, console.machine.keypad.lowest? = some lowest := by
      apply Option.ne_none_iff_exists'.mp
      intro released
      rw [(Keypad.lowest?_eq_none_iff _).mp released held] at down
      contradiction
    have wakeable : console.machine.Wakeable := ⟨by simp [waits], by simp [found]⟩
    constructor
    · rcases performAll_wakeable start requests wakeable with
        ⟨-, none⟩ | ⟨early, late, split, restored, quiet, pending, -⟩
      · exact absurd none (Machine.not_wakeable_of_running _ rfl)
      · exact ⟨early, late, split, restored, pending, quiet⟩
    · refine ⟨lowest, Keypad.isHeld_of_lowest? _ _ found, ?_, ?_⟩
      · intro other also
        exact Keypad.lowest?_le _ lowest other found also
      · have stepped := Machine.step_of_awaiting console.machine console.source x lowest waits found
        simp only [perform, step, stepped, Address.ofNat_next]
        rfl

private theorem perform_wait_step (settings : Settings) (source : WordSource) (memory : Memory)
    (stored : memory.readWord 0x200 = Instruction.encode (.awaitKey 1)) :
    (perform { start settings source with machine := { Machine.initial with memory } } .step).2 =
      { start settings source with machine := { Machine.initial with memory, awaiting := some 1 } } := by
  have parks : Machine.step { Machine.initial with memory } source =
      (.awaitingKey, { Machine.initial with memory, awaiting := some 1 }, source) :=
    Machine.step_of_stored_wait { Machine.initial with memory } source 1 rfl stored rfl
  exact congrArg (fun stepped : Outcome × Machine × WordSource =>
    { start settings source with machine := stepped.2.1, source := stepped.2.2 }) parks

/-- From power-on, a program that starts with a wait for V1 is parked after one step. -/
theorem performAll_wait_image (settings : Settings) (source : WordSource) :
    ((start settings source).performAll [.load #[0xF1, 0x0A], .step]).2 =
      { start settings source with
        machine := { Machine.initial with
          memory := Memory.initial.place #[0xF1, 0x0A], awaiting := some 1 } } := by
  have stored : (Memory.initial.place #[0xF1, 0x0A]).readWord 0x200 =
      Instruction.encode (.awaitKey 1) := by
    apply UInt16.toNat_inj.mp
    rw [Memory.toNat_readWord, Memory.read_place, Memory.read_place]
    rfl
  rw [performAll_cons_snd, start_load_of_le settings source _ (by decide), performAll_cons_snd,
    perform_wait_step settings source _ stored, performAll]

private def rewoundWait : List Request :=
  [.load #[0xF1, 0x0A], .step] ++ [.frame, .setKey 3 true, .rewind]

private theorem performAll_rewoundWait :
    let console := ((start { rewindDepth := 2 } (.cycle [7])).performAll rewoundWait).2
    console.machine.awaiting = some 1 ∧ console.machine.keypad.isHeld 3 = true := by
  rw [rewoundWait, performAll_append, performAll_wait_image]
  generalize Memory.initial.place #[0xF1, 0x0A] = memory
  exact ⟨rfl, rfl⟩

/-- A key that is held when a frame is taken back meets the wait from before the frame. -/
theorem awaiting_traced_held :
    let console := ((start { rewindDepth := 2 } (.cycle [7])).performAll rewoundWait).2
    console.machine.awaiting = some 1 ∧ console.machine.keypad.isHeld 3 = true ∧
      ∃ lowest : Key, console.perform .step = (.executed, { console with
        machine := { console.machine.setRegister 1 (.ofNat lowest.val) with
          pc := .ofNat ((console.machine.pc.toNat + 2) % 4096)
          awaiting := none } }) := by
  have found := performAll_rewoundWait
  have traced := awaiting_traced { rewindDepth := 2 } (.cycle [7]) rewoundWait
  dsimp only at traced
  generalize (start { rewindDepth := 2 } (.cycle [7])).performAll rewoundWait = result at traced found ⊢
  obtain ⟨lowest, -, -, stepped⟩ := (traced.2 1 3 found.1 found.2).2
  exact ⟨found.1, found.2, lowest, stepped⟩

end ChipEight.Console
