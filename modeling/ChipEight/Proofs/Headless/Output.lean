import ChipEight.Headless.Report
import ChipEight.Proofs.Console.RandomWords
import ChipEight.Proofs.Machine.Wait

/-! What a headless run prints. A run that ends early, at the first frame that waits for a key, leaves the
screen that all its frames would have left, since no step after that frame does anything and the timers do not
show. Nothing that a program does makes the run fail. -/

namespace ChipEight

namespace Machine

theorem parked_tick (machine : Machine) (parked : machine.Parked) : machine.tick.Parked := parked

end Machine

namespace Console

/-- Once a step has waited, the console waits for a key that nobody holds. -/
theorem parked_of_steps (count : Nat) (console : Console)
    (waits : .awaitingKey ∈ (console.steps count).1) : (console.steps count).2.machine.Parked := by
  induction count generalizing console with
  | zero => contradiction
  | succ count ih =>
    rw [steps_succ] at waits ⊢
    by_cases first : console.step.1 = .awaitingKey
    · have parked : console.step.2.machine.Parked := Machine.parked_of_step _ _ first
      rw [steps_of_parked count _ parked]
      exact parked
    · rcases List.mem_cons.mp waits with same | later
      · exact absurd same.symm first
      · exact ih console.step.2 later

theorem parked_of_frame (console : Console) (waits : console.frame.1.awaitingKey = true) :
    console.frame.2.machine.Parked := by
  rw [frame_def] at waits ⊢
  refine Machine.parked_tick _ (parked_of_steps _ console ?_)
  simpa [Tally.add] using waits

theorem frames_of_parked (count : Nat) (console : Console) (parked : console.machine.Parked) :
    (console.performAll (List.replicate count .frame)).2.machine.screen = console.machine.screen := by
  induction count generalizing console with
  | zero => rfl
  | succ count ih =>
    obtain ⟨-, -, ticked, -⟩ := frame_of_parked console parked
    have still : console.frame.2.machine.Parked := ticked ▸ Machine.parked_tick _ parked
    have shown : console.frame.2.machine.screen = console.machine.screen := by
      rw [ticked]
      rfl
    exact (ih console.frame.2 still).trans shown

/-- A run of frames together with the reports of those that it runs. -/
def runFramesLogged : (count : Nat) → Console → List FrameReport × Console
  | 0, console => ([], console)
  | count + 1, console =>
    let (report, next) := console.frame
    if report.awaitingKey then ([report], next)
    else
      let (reports, last) := runFramesLogged count next
      (report :: reports, last)

theorem runFrames_succ (count : Nat) (console : Console) :
    console.runFrames (count + 1) =
      if console.frame.1.awaitingKey then console.frame.2 else console.frame.2.runFrames count := rfl

theorem runFramesLogged_succ (count : Nat) (console : Console) :
    console.runFramesLogged (count + 1) =
      if console.frame.1.awaitingKey then ([console.frame.1], console.frame.2)
      else (console.frame.1 :: (console.frame.2.runFramesLogged count).1,
        (console.frame.2.runFramesLogged count).2) := rfl

theorem runFramesLogged_snd (count : Nat) (console : Console) :
    (console.runFramesLogged count).2 = console.runFrames count := by
  induction count generalizing console with
  | zero => rfl
  | succ count ih =>
    rw [runFramesLogged_succ, runFrames_succ]
    by_cases waits : console.frame.1.awaitingKey
    · rw [if_pos waits, if_pos waits]
    · rw [if_neg waits, if_neg waits]
      exact ih console.frame.2

/-- The frames that run are the first ones of all, and where some are left out the last one that ran waits for
a key. -/
theorem runFramesLogged_fst (count : Nat) (console : Console) :
    (console.runFramesLogged count).1.map Reply.framed <+:
        (console.performAll (List.replicate count .frame)).1 ∧
      ((console.runFramesLogged count).1.length < count →
        ∃ earlier report, (console.runFramesLogged count).1 = earlier ++ [report] ∧
          report.awaitingKey = true) := by
  induction count generalizing console with
  | zero => exact ⟨List.nil_prefix, fun less => absurd less (Nat.lt_irrefl _)⟩
  | succ count ih =>
    rw [List.replicate_succ, performAll_cons, runFramesLogged_succ]
    by_cases waits : console.frame.1.awaitingKey
    · rw [if_pos waits]
      exact ⟨⟨_, rfl⟩, fun _ => ⟨[], console.frame.1, rfl, waits⟩⟩
    · rw [if_neg waits]
      obtain ⟨first, ends⟩ := ih console.frame.2
      refine ⟨List.cons_prefix_cons.mpr ⟨rfl, first⟩, ?_⟩
      intro less
      obtain ⟨earlier, report, same, last⟩ := ends (Nat.lt_of_succ_lt_succ less)
      exact ⟨console.frame.1 :: earlier, report, congrArg (console.frame.1 :: ·) same, last⟩

/-- Frames after one that waits for a key leave the screen alone. -/
theorem runFrames_screen (count : Nat) (console : Console) :
    (console.runFrames count).machine.screen =
      (console.performAll (List.replicate count .frame)).2.machine.screen := by
  induction count generalizing console with
  | zero => rfl
  | succ count ih =>
    rw [List.replicate_succ, performAll_cons_snd, runFrames_succ]
    by_cases waits : console.frame.1.awaitingKey
    · rw [if_pos waits]
      exact (frames_of_parked count console.frame.2 (parked_of_frame console waits)).symm
    · rw [if_neg waits]
      exact ih console.frame.2

end Console

namespace Headless

open Console

/-- A run together with the reports of its frames. -/
def runLogged (options : Options) (source : WordSource) (content : Except ReadFailure (Array UInt8)) :
    List FrameReport × Report :=
  match content with
  | .error failure => ([], .failure ("unable to read " ++ options.image) failure.message)
  | .ok image =>
    match (Console.start options.settings source).load image with
    | .error refusal => ([], .failure ("unable to load " ++ options.image) refusal.message)
    | .ok console =>
      let (reports, last) := console.runFramesLogged options.frames.toNat
      (reports, .success (last.machine.screen.text ++ "\n"))

theorem runLogged_snd (options : Options) (source : WordSource)
    (content : Except ReadFailure (Array UInt8)) :
    (runLogged options source content).2 = run options source content := by
  unfold runLogged run
  cases content with
  | error failure => rfl
  | ok image =>
    dsimp only
    cases (Console.start options.settings source).load image with
    | error refusal => rfl
    | ok console =>
      dsimp only
      rw [runFramesLogged_snd]

theorem run_of_fits (options : Options) (source : WordSource) (image : Array UInt8)
    (fits : image.size ≤ Memory.imageCapacity) :
    run options source (.ok image) = .success
      (((Console.start options.settings source).performAll
        (.load image :: List.replicate options.frames.toNat .frame)).2.machine.screen.text ++ "\n") := by
  have loaded : (Console.start options.settings source).load image =
      .ok ((Console.start options.settings source).perform (.load image)).2 := by
    simp only [perform, load, if_pos fits, accept]
  simp only [run, loaded]
  rw [runFrames_screen, performAll_cons_snd]

theorem runLogged_of_refused (options : Options) (source : WordSource)
    (content : Except ReadFailure (Array UInt8))
    (refused : ∀ image, content = .ok image → Memory.imageCapacity < image.size) :
    ∃ context cause, runLogged options source content = ([], .failure context cause) := by
  cases content with
  | error failure => exact ⟨_, _, rfl⟩
  | ok image =>
    have large : ¬ image.size ≤ Memory.imageCapacity := Nat.not_le_of_lt (refused image rfl)
    simp only [runLogged, load, if_neg large]
    exact ⟨_, _, rfl⟩

/-- What a run prints depends on the reading of the arguments only through the options that it gives, and on the
words of seeds only where a random instruction uses them. -/
theorem processWith_prints_frames {m : Type → Type} [Monad m]
    (parse : List String → Except UsageError Options) (sourceOf : UInt64 → WordSource)
    (arguments : List String) (chosen : UInt64)
    (read : String → m (Except ReadFailure (Array UInt8))) (options : Options)
    (parsed : parse arguments = .ok options) :
    let result := runLogged options (sourceOf (options.settings.seed.getD chosen))
    processWith parse sourceOf arguments chosen read =
      (do return (result (← read options.image)).2) ∧
    (∀ image : Array UInt8, image.size ≤ Memory.imageCapacity →
      (result (.ok image)).2.exitCode = 0 ∧
      ∀ source : WordSource,
        let fresh := Console.start options.settings source
        let requests := Request.load image :: List.replicate options.frames.toNat .frame
        (∀ given, options.settings.seed = some given → source = sourceOf given) →
        (options.settings.seed = none → ∀ execution ∈ fresh.trace requests, ∀ x mask,
          execution.instruction = .random x mask → mask = 0) →
        (result (.ok image)).2.output =
          (fresh.performAll requests).2.machine.screen.text ++ "\n") ∧
    ∀ content, (∀ image, content = .ok image → Memory.imageCapacity < image.size) →
      (result content).2.exitCode = 1 ∧ (result content).2.output = "" ∧ (result content).1 = [] := by
  intro result
  have report (content : Except ReadFailure (Array UInt8)) :
      (result content).2 =
        run options (sourceOf (options.settings.seed.getD chosen)) content :=
    runLogged_snd _ _ content
  refine ⟨?_, ?_, ?_⟩
  · simp only [processWith, parsed, report]
  · intro image fits
    have printed := run_of_fits options (sourceOf (options.settings.seed.getD chosen)) image fits
    rw [← report] at printed
    rw [printed]
    refine ⟨rfl, ?_⟩
    intro source fresh requests seeded regular
    cases given : options.settings.seed with
    | some seed =>
      rw [given] at seeded
      obtain rfl := seeded seed rfl
      rfl
    | none =>
      have same := performAll_withSource fresh (sourceOf chosen) requests (regular given)
      have screens := congrArg (·.2.machine.screen) same
      exact congrArg (fun screen : Screen => screen.text ++ "\n") screens
  · intro content refused
    obtain ⟨context, cause, failed⟩ :=
      runLogged_of_refused options (sourceOf (options.settings.seed.getD chosen)) content refused
    change result content = _ at failed
    rw [failed]
    exact ⟨rfl, rfl, rfl⟩

/-- A run of an image that fits succeeds whatever the program does, and prints the screen that all frames
leave on a fresh console, stopping early or not. The random words of that console are those of the seed that
is given; without one they may be any others, as long as no random instruction that has a mask other than
zero is executed. A run of an image that cannot be read or does not fit fails, prints nothing and runs no
frame. -/
theorem process_prints_frames {m : Type → Type} [Monad m] (arguments : List String) (chosen : UInt64)
    (read : String → m (Except ReadFailure (Array UInt8))) (path : String)
    (instructions : Option UInt32) (seed : Option UInt64) (frames : Option UInt32)
    (parsed : readArguments {} arguments = .ok ⟨some path, instructions, seed, frames⟩) :
    let settings : Settings := { instructionsPerFrame := instructions.getD 6, seed }
    let budget := frames.getD 600
    let result := runLogged ⟨path, settings, budget⟩ (.ofSeed (seed.getD chosen))
    process arguments chosen read = (do return (result (← read path)).2) ∧
    (∀ image : Array UInt8, image.size ≤ 3584 →
      (result (.ok image)).2.exitCode = 0 ∧
      ∀ source : WordSource,
        let fresh := Console.start settings source
        let requests := Request.load image :: List.replicate budget.toNat .frame
        (∀ given, seed = some given → source = .ofSeed given) →
        (seed = none → ∀ execution ∈ fresh.trace requests, ∀ x mask,
          execution.instruction = .random x mask → mask = 0) →
        (result (.ok image)).2.output =
          (fresh.performAll requests).2.machine.screen.text ++ "\n") ∧
    ∀ content, (∀ image, content = .ok image → 3584 < image.size) →
      (result content).2.exitCode = 1 ∧ (result content).2.output = "" ∧ (result content).1 = [] := by
  intro settings budget result
  have options : Options.ofArguments arguments = .ok ⟨path, settings, budget⟩ := by
    simp only [Options.ofArguments, parsed]
    rfl
  exact processWith_prints_frames Options.ofArguments .ofSeed arguments chosen read _ options

/-- A program that waits for a key at once. -/
private def waiting : Array UInt8 := #[0xF0, 0x0A]

private theorem awaitingKey_of_stored (console : Console) (x : Register)
    (single : console.settings.instructionsPerFrame.toNat = 1)
    (running : console.machine.awaiting = none)
    (stored : console.machine.memory.readWord console.machine.pc = Instruction.encode (.awaitKey x))
    (released : console.machine.keypad.lowest? = none) : console.frame.1.awaitingKey = true := by
  have waits :=
    Machine.step_of_stored_wait console.machine console.source x running stored released
  rw [frame_def, single]
  change (Tally.add {} [(console.machine.step console.source).1]).awaitingKey = true
  rw [waits]
  rfl

private theorem awaitingKey_waiting (settings : Settings) (source : WordSource)
    (single : settings.instructionsPerFrame.toNat = 1) :
    ((Console.start settings source).perform (.load waiting)).2.frame.1.awaitingKey = true := by
  have stored := Memory.readWord_place Memory.initial waiting 0 0xF0 0x0A
    (Instruction.encode (.awaitKey 0)) (by decide) rfl rfl rfl
  rw [start_load_of_le settings source waiting (by decide)]
  generalize Memory.initial.place waiting = memory at stored ⊢
  exact awaitingKey_of_stored _ 0 single rfl stored rfl

private theorem length_runLogged_waiting (options : Options) (source : WordSource) (count : Nat)
    (single : options.settings.instructionsPerFrame.toNat = 1)
    (frames : options.frames.toNat = count + 1) :
    (runLogged options source (.ok waiting)).1.length = 1 := by
  have waits := awaitingKey_waiting options.settings source single
  have small : waiting.size ≤ Memory.imageCapacity := by decide
  simp only [perform, load, if_pos small, accept] at waits
  simp only [runLogged, load, if_pos small, frames]
  rw [runFramesLogged_succ, if_pos waits]
  rfl

private theorem bind_id {α : Type} (content : α) (report : α → Report) :
    (do return report (← (content : Id α)) : Id Report) = report content := rfl

/-- The first of three frames waits for a key, so the other two do not run, and what is printed is the screen
after all three. A missing image is reported as a failure. -/
theorem process_prints_frames_waiting :
    let arguments := ["rom.ch8", "--ipf", "1", "--seed", "7", "--frames", "3"]
    let options : Options := ⟨"rom.ch8", { instructionsPerFrame := 1, seed := some 7 }, 3⟩
    let fresh := Console.start options.settings (.ofSeed 7)
    let printed := process (m := Id) arguments 0 fun _ => .ok waiting
    let refused := process (m := Id) arguments 0 fun _ => .error .missing
    readArguments {} arguments = .ok ⟨some "rom.ch8", some 1, some 7, some 3⟩ ∧
      printed.exitCode = 0 ∧
      printed.output =
        (fresh.performAll (.load waiting :: List.replicate 3 .frame)).2.machine.screen.text ++ "\n" ∧
      (runLogged options (.ofSeed 7) (.ok waiting)).1.length = 1 ∧
      refused.exitCode = 1 ∧ refused.output = "" := by
  intro arguments options fresh printed refused
  have parsed : readArguments {} arguments = .ok ⟨some "rom.ch8", some 1, some 7, some 3⟩ := by rfl
  have runs (content : Except ReadFailure (Array UInt8)) :=
    process_prints_frames (m := Id) arguments 0 (fun _ => content) "rom.ch8" (some 1) (some 7) (some 3)
      parsed
  obtain ⟨same, fits, -⟩ := runs (.ok waiting)
  obtain ⟨success, output⟩ := fits waiting (by decide)
  have text := output (.ofSeed 7) (fun given seeded => by rw [Option.some.inj seeded]) nofun
  have three : ((some 3).getD (600 : UInt32)).toNat = 3 := by decide
  obtain ⟨absent, -, refuses⟩ := runs (.error .missing)
  obtain ⟨failed, silent, -⟩ := refuses (.error .missing) nofun
  refine ⟨parsed, ?_, ?_, ?_, ?_, ?_⟩
  · exact (congrArg Report.exitCode (same.trans (bind_id _ _))).trans success
  · refine (congrArg Report.output (same.trans (bind_id _ _))).trans (text.trans ?_)
    rw [three, Option.getD_some]
  · exact length_runLogged_waiting options _ 2 rfl rfl
  · exact (congrArg Report.exitCode (absent.trans (bind_id _ _))).trans failed
  · exact (congrArg Report.output (absent.trans (bind_id _ _))).trans silent

end Headless

end ChipEight
