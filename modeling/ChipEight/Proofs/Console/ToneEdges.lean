import ChipEight.Proofs.Console.Steps

/-! The tone as a host hears it. A tick that reports a start and a stop reports them in this order. From one
reset or rewinding to the next the reported edges alternate, whatever the program writes to the sound timer
between ticks, and after each tick the edges so far add up to whether the tone sounds. -/

namespace ChipEight

inductive ToneEdge
  | started
  | stopped
  deriving DecidableEq, Repr

namespace ToneEdge

/-- Whether the tone sounds after an edge. -/
def level : ToneEdge → Bool
  | started => true
  | stopped => false

/-- Whether the tone sounds after edges, given whether it sounded before them. -/
def levelAfter (on : Bool) (edges : List ToneEdge) : Bool := edges.foldl (fun _ edge => edge.level) on

/-- A tone that sounds stops next and a silent one starts next. -/
def Alternate (on : Bool) : List ToneEdge → Prop
  | [] => True
  | edge :: rest => edge = (if on then stopped else started) ∧ Alternate (!on) rest

instance decidableAlternate : (on : Bool) → (edges : List ToneEdge) → Decidable (Alternate on edges)
  | _, [] => inferInstanceAs (Decidable True)
  | on, _ :: rest =>
    have := decidableAlternate (!on) rest
    inferInstanceAs (Decidable (_ ∧ _))

theorem level_of_alternate (on : Bool) (edge : ToneEdge) (rest : List ToneEdge)
    (alternate : Alternate on (edge :: rest)) : edge.level = !on := by
  rw [alternate.1]
  cases on <;> rfl

theorem alternate_append (on : Bool) (early late : List ToneEdge) (first : Alternate on early)
    (second : Alternate (levelAfter on early) late) : Alternate on (early ++ late) := by
  induction early generalizing on with
  | nil => exact second
  | cons edge early ih =>
    refine ⟨first.1, ih (!on) first.2 ?_⟩
    rw [← level_of_alternate on edge early first]
    exact second

theorem levelAfter_append (on : Bool) (early late : List ToneEdge) :
    levelAfter on (early ++ late) = levelAfter (levelAfter on early) late :=
  List.foldl_append

/-- Alternating edges add up to the level that they leave. -/
theorem count_of_alternate (on : Bool) (edges : List ToneEdge) (alternate : Alternate on edges) :
    on.toNat + edges.count started = edges.count stopped + (levelAfter on edges).toNat := by
  induction edges generalizing on with
  | nil => simp [levelAfter]
  | cons edge rest ih =>
    have others := ih (!on) alternate.2
    have level : levelAfter on (edge :: rest) = levelAfter (!on) rest := by
      rw [← level_of_alternate on edge rest alternate]
      rfl
    obtain ⟨rfl, -⟩ := alternate
    rw [level]
    cases on with
    | true =>
      rw [if_pos rfl, List.count_cons_self, List.count_cons_of_ne (by decide)]
      simp only [Bool.not_true, Bool.toNat_false, Bool.toNat_true] at others ⊢
      omega
    | false =>
      rw [if_neg (by decide), List.count_cons_self, List.count_cons_of_ne (by decide)]
      simp only [Bool.not_false, Bool.toNat_false, Bool.toNat_true] at others ⊢
      omega

end ToneEdge

namespace ToneEdges

def inOrder (edges : ToneEdges) : List ToneEdge :=
  (if edges.started then [.started] else []) ++ (if edges.stopped then [.stopped] else [])

/-- The edges of a tick go from what was known of the tone to what the timer says after the tick. -/
theorem inOrder_ofTick (sounding : Bool) (before after : UInt8) (stays : before = 0 → after = 0) :
    ToneEdge.Alternate sounding (ofTick sounding before after).inOrder ∧
      ToneEdge.levelAfter sounding (ofTick sounding before after).inOrder = (after != 0) := by
  have cases : ∀ sounding counting ends : Bool, (counting = false → ends = true) →
      ToneEdge.Alternate sounding
          (inOrder ⟨counting && !sounding, (counting || sounding) && ends⟩) ∧
        ToneEdge.levelAfter sounding
          (inOrder ⟨counting && !sounding, (counting || sounding) && ends⟩) = !ends := by decide
  refine cases sounding (before != 0) (after == 0) ?_
  simpa using stays

end ToneEdges

/-- The edges that a reply reports, in the order in which they happened. -/
def Reply.toneEdges : Reply → List ToneEdge
  | .framed report => report.edges.inOrder
  | .ticked edges => edges.inOrder
  | _ => []

namespace Console

/-- The edges that a run reports, in order. -/
def toneEdges (console : Console) (requests : List Request) : List ToneEdge :=
  (console.performAll requests).1.flatMap Reply.toneEdges

theorem toneEdges_cons (console : Console) (request : Request) (rest : List Request) :
    console.toneEdges (request :: rest) =
      (console.perform request).1.toneEdges ++ (console.perform request).2.toneEdges rest := rfl

/-- What is known of the tone is set anew neither by a reset nor by a rewinding. -/
def KeepsTone (console : Console) (request : Request) : Prop :=
  request ≠ .reset ∧ (request = .rewind → (console.perform request).1 ≠ .flag true)

theorem tick_inOrder (console : Console) :
    ToneEdge.Alternate console.sounding console.tick.1.inOrder ∧
      ToneEdge.levelAfter console.sounding console.tick.1.inOrder = console.tick.2.sounding :=
  ToneEdges.inOrder_ofTick console.sounding console.machine.sound console.tick.2.machine.sound
    fun silent => if_pos silent

theorem steps_sounding (count : Nat) (console : Console) :
    (console.steps count).2.sounding = console.sounding :=
  steps_unchanged (fun console => console.sounding) (fun _ => rfl) count console

theorem frame_inOrder (console : Console) :
    ToneEdge.Alternate console.sounding console.frame.1.edges.inOrder ∧
      ToneEdge.levelAfter console.sounding console.frame.1.edges.inOrder =
        console.frame.2.sounding := by
  rw [frame_def, ← steps_sounding console.settings.instructionsPerFrame.toNat console]
  exact tick_inOrder _

theorem toneEdges_accept (console : Console) (answer : Except Refusal Console) :
    (console.accept answer).1.toneEdges = [] := by
  cases answer with
  | ok next => rfl
  | error refusal => rfl

/-- The flag tells from every request to the next whether the edges reported so far left the tone on. -/
theorem perform_toneEdges (console : Console) (request : Request)
    (keeps : console.KeepsTone request) :
    ToneEdge.Alternate console.sounding (console.perform request).1.toneEdges ∧
      ToneEdge.levelAfter console.sounding (console.perform request).1.toneEdges =
        (console.perform request).2.sounding := by
  cases request with
  | load image =>
    obtain ⟨memory, same⟩ := console.perform_load image
    have silent : (console.perform (.load image)).1.toneEdges = [] := console.toneEdges_accept _
    rw [silent, same]
    exact ⟨trivial, rfl⟩
  | setKey key held =>
    obtain ⟨registers, pc, keypad, awaiting, same⟩ := console.perform_setKey key held
    have silent : (console.perform (.setKey key held)).1.toneEdges = [] := console.toneEdges_accept _
    rw [silent, same]
    exact ⟨trivial, rfl⟩
  | step =>
    change ToneEdge.Alternate _ console.step.1.reply.toneEdges ∧
      ToneEdge.levelAfter _ console.step.1.reply.toneEdges = _
    cases console.step.1 <;> exact ⟨trivial, rfl⟩
  | frame => exact console.frame_inOrder
  | tick => exact console.tick_inOrder
  | rewind =>
    rcases console.perform_rewind with ⟨-, same⟩ | ⟨earlier, older, -, same⟩
    · rw [same]
      exact ⟨trivial, rfl⟩
    · exact absurd (congrArg Prod.fst same) (keeps.2 rfl)
  | reset => exact absurd rfl keeps.1
  | takeRedraw | takeScreen | setSpeed => exact ⟨trivial, rfl⟩

theorem performAll_toneEdges (console : Console) (requests : List Request)
    (keeps : console.Throughout KeepsTone requests) :
    ToneEdge.Alternate console.sounding (console.toneEdges requests) ∧
      ToneEdge.levelAfter console.sounding (console.toneEdges requests) =
        (console.performAll requests).2.sounding := by
  induction requests generalizing console with
  | nil => exact ⟨trivial, rfl⟩
  | cons request rest ih =>
    obtain ⟨first, reached⟩ := perform_toneEdges console request keeps.1
    obtain ⟨others, last⟩ := ih (console.perform request).2 keeps.2
    rw [← reached] at others last
    rw [toneEdges_cons]
    exact ⟨ToneEdge.alternate_append _ _ _ first others, (ToneEdge.levelAfter_append _ _ _).trans last⟩

theorem isToneOn_of_ticks (console : Console) (request : Request)
    (ticks : request = .tick ∨ request = .frame) :
    (console.perform request).2.isToneOn = (console.perform request).2.sounding := by
  rcases ticks with rfl | rfl
  · rfl
  · change console.frame.2.isToneOn = console.frame.2.sounding
    rw [frame_def]
    rfl

/-- A run that ends where the tone is set anew, with whether it sounds there. -/
inductive Opens (start : Console) : List Request → Bool → Prop
  | construction : Opens start [] false
  | reset (earlier : List Request) : Opens start (earlier ++ [.reset]) false
  | rewinding (earlier : List Request)
      (restored : ((start.performAll earlier).2.perform .rewind).1 = .flag true) :
      Opens start (earlier ++ [.rewind])
        (start.performAll (earlier ++ [.rewind])).2.isToneOn

theorem sounding_of_opens (settings : Settings) (source : WordSource) (opening : List Request)
    (initially : Bool) (opens : (start settings source).Opens opening initially) :
    ((start settings source).performAll opening).2.sounding = initially := by
  cases opens with
  | construction => rfl
  | reset earlier =>
    rw [performAll_concat_snd]
    rfl
  | rewinding earlier restored =>
    rw [performAll_concat_snd]
    generalize ((start settings source).performAll earlier).2 = met at restored ⊢
    rcases met.perform_rewind with ⟨-, same⟩ | ⟨machine, older, -, same⟩
    · have differs : Reply.flag false = .flag true := (congrArg Prod.fst same).symm.trans restored
      cases differs
    · rw [same]
      rfl

/-- From power-on, from a reset or from a rewinding on, and until the next reset or rewinding, the edges that
are reported alternate: the first is a start if the tone was off and a stop if it was on. After every tick,
also that of a frame, starts less stops tell whether the tone sounds. -/
theorem toneEdges_alternate (settings : Settings) (source : WordSource)
    (opening segment : List Request) (initially : Bool)
    (opens : (start settings source).Opens opening initially)
    (keeps : ((start settings source).performAll opening).2.Throughout KeepsTone segment) :
    let opened := ((start settings source).performAll opening).2
    ToneEdge.Alternate initially (opened.toneEdges segment) ∧
      ∀ before request after, segment = before ++ request :: after →
        request = .tick ∨ request = .frame →
        (initially.toNat : Int) + (opened.toneEdges (before ++ [request])).count .started
            - (opened.toneEdges (before ++ [request])).count .stopped =
          (opened.performAll (before ++ [request])).2.isToneOn.toNat := by
  intro opened
  have sounding : opened.sounding = initially := sounding_of_opens settings source _ _ opens
  subst sounding
  refine ⟨(performAll_toneEdges opened segment keeps).1, ?_⟩
  intro before request after split ticks
  rw [split, List.append_cons] at keeps
  have throughout : opened.Throughout KeepsTone (before ++ [request]) :=
    ((throughout_append opened _ after).mp keeps).1
  obtain ⟨alternate, level⟩ := performAll_toneEdges opened (before ++ [request]) throughout
  have sum := ToneEdge.count_of_alternate _ _ alternate
  have ticked : (opened.performAll (before ++ [request])).2.isToneOn =
      (opened.performAll (before ++ [request])).2.sounding := by
    rw [performAll_concat_snd]
    exact isToneOn_of_ticks (opened.performAll before).2 request ticks
  rw [level] at sum
  rw [ticked]
  omega

/-- A tone of two ticks. -/
def beep : Array UInt8 := #[0x60, 0x02, 0xF0, 0x18]

private def beeping : List Request := [.load beep, .frame, .frame]

def beepConsole (memory : Memory) : Console :=
  { start { instructionsPerFrame := 2 } (.cycle [7]) with
    machine := { Machine.initial with memory } }

theorem sound_beep (memory : Memory)
    (early : memory.readWord 0x200 = Instruction.encode (.load 0 2))
    (late : memory.readWord 0x202 = Instruction.encode (.setSound 0)) :
    (beepConsole memory).frame.2.machine.sound = 1 := by
  let loaded := (beepConsole memory).machine.fetch.2.setRegister 0 2
  let started := { loaded.fetch.2 with sound := loaded.register 0 }
  have first : (beepConsole memory).step =
      (.executed, { beepConsole memory with machine := loaded }) :=
    step_of_stored (beepConsole memory) loaded (.load 0 2) rfl early rfl rfl
  have second : Console.step { beepConsole memory with machine := loaded } =
      (.executed, { beepConsole memory with machine := started }) :=
    step_of_stored { beepConsole memory with machine := loaded } started (.setSound 0) rfl late rfl rfl
  have value : loaded.register 0 = 2 :=
    (Machine.register_setRegister (beepConsole memory).machine.fetch.2 0 0 2).trans (if_pos rfl)
  have both : ((beepConsole memory).steps 2).2 = { beepConsole memory with machine := started } := by
    rw [steps_succ, first, steps_succ, second]
    rfl
  rw [frame_def]
  change ((beepConsole memory).steps 2).2.machine.tick.sound = 1
  rw [both]
  change (if loaded.register 0 = 0 then 0 else loaded.register 0 - 1) = 1
  rw [value]
  decide

/-- Taking back a frame brings back the sound timer from before it. -/
theorem sound_frame_rewind (console : Console) (depth : Nat)
    (bounded : console.settings.rewindDepth = depth + 1) :
    (console.frame.2.perform .rewind).1 = .flag true ∧
      (console.frame.2.perform .rewind).2.machine.sound = console.machine.sound := by
  have recorded : console.frame.2.history = console.machine :: console.history.take depth := by
    rw [frame_history, bounded, History.record, List.take_succ_cons]
  rcases console.frame.2.perform_rewind with ⟨none, -⟩ | ⟨machine, older, some, same⟩
  · rw [recorded] at none
    contradiction
  · rw [recorded] at some
    obtain ⟨rfl, -⟩ := List.cons.inj some
    rw [same]
    exact ⟨rfl, rfl⟩

theorem perform_load_beep :
    ∃ memory, ((start { instructionsPerFrame := 2 } (.cycle [7])).perform (.load beep)).2 =
        beepConsole memory ∧
      memory.readWord 0x200 = Instruction.encode (.load 0 2) ∧
      memory.readWord 0x202 = Instruction.encode (.setSound 0) := by
  have early := Memory.readWord_place Memory.initial beep 0 0x60 0x02
    (Instruction.encode (.load 0 2)) (by decide) rfl rfl rfl
  have late := Memory.readWord_place Memory.initial beep 2 0xF0 0x18
    (Instruction.encode (.setSound 0)) (by decide) rfl rfl rfl
  exact ⟨_, start_load_of_le _ _ beep (by decide), early, late⟩

private theorem performAll_frames_twice (console : Console) :
    (console.performAll [.frame, .frame]).2 = console.frame.2.frame.2 := rfl

/-- Whatever the second frame does, taking it back lets the tone of the first one sound again. -/
private theorem rewind_beeping :
    let beeped := ((start { instructionsPerFrame := 2 } (.cycle [7])).performAll beeping).2
    (beeped.perform .rewind).1 = .flag true ∧ (beeped.perform .rewind).2.machine.sound = 1 := by
  obtain ⟨memory, loaded, early, late⟩ := perform_load_beep
  have depth : (beepConsole memory).frame.2.settings.rewindDepth = 599 + 1 :=
    congrArg Settings.rewindDepth (beepConsole memory).frame_settings
  rw [beeping, performAll_cons_snd, loaded, performAll_frames_twice]
  obtain ⟨restored, sound⟩ := sound_frame_rewind (beepConsole memory).frame.2 599 depth
  exact ⟨restored, sound.trans (sound_beep memory early late)⟩

private theorem toneEdges_last_tick (console : Console) (on : console.sounding = true)
    (last : console.machine.sound = 1) : console.toneEdges [.tick] = [.stopped] := by
  have edges : console.tick.1 = ⟨false, true⟩ := by
    simp only [tick, ToneEdges.ofTick, Machine.tick, on, last]
    decide
  change console.tick.1.inOrder ++ [] = _
  rw [edges]
  rfl

/-- The second frame ends the tone. Taking it back lets the tone sound again, so the next tick stops it once
more. -/
theorem toneEdges_alternate_rewound :
    let start := start { instructionsPerFrame := 2 } (.cycle [7])
    let opened := (start.performAll (beeping ++ [.rewind])).2
    start.Opens (beeping ++ [.rewind]) true ∧ opened.Throughout KeepsTone [.tick] ∧
      opened.toneEdges [.tick] = [.stopped] ∧
      ToneEdge.Alternate true (opened.toneEdges [.tick]) ∧
      (opened.performAll [.tick]).2.isToneOn = false := by
  obtain ⟨restored, last⟩ := rewind_beeping
  have opens := Opens.rewinding _ restored
  rw [performAll_concat_snd, isToneOn, last] at opens
  have on := sounding_of_opens _ _ _ _ opens
  have facts := toneEdges_alternate _ _ _ [.tick] _ opens
  dsimp only at facts ⊢
  rw [performAll_concat_snd] at facts on ⊢
  generalize (((start { instructionsPerFrame := 2 } (.cycle [7])).performAll beeping).2.perform
    .rewind).2 = opened at last facts on ⊢
  have keeps : opened.Throughout KeepsTone [.tick] := ⟨⟨nofun, nofun⟩, trivial⟩
  have edges : opened.toneEdges [.tick] = [.stopped] := toneEdges_last_tick opened on last
  obtain ⟨alternate, sums⟩ := facts keeps
  have sum := sums [] .tick [] rfl (Or.inl rfl)
  rw [List.nil_append, edges] at sum
  refine ⟨opens, keeps, edges, alternate, Bool.toNat_eq_zero.mp ?_⟩
  simpa using sum.symm

end Console

end ChipEight
