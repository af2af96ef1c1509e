import ChipEight.Proofs.Console.ToneEdges

/-! The tone of a host that switches it on and off as the edges tell. A rewinding may start or stop the tone of
the machine and reports neither, nor does a later tick make up for it, because from then on edges are reported
against what the rewinding restored. Such a host is right again as soon as any edge is reported. -/

namespace ChipEight

theorem ToneEdge.levelAfter_of_ne_nil (on other : Bool) (edges : List ToneEdge) (some : edges ≠ []) :
    levelAfter on edges = levelAfter other edges := by
  cases edges with
  | nil => contradiction
  | cons edge rest => rfl

/-- A request that does not tick. -/
def Request.NoTick (request : Request) : Prop := request ≠ .tick ∧ request ≠ .frame

namespace Console

/-- Whether a host that follows the edges of a run lets the tone sound after it. -/
def heard (console : Console) (requests : List Request) : Bool :=
  ToneEdge.levelAfter false (console.toneEdges requests)

theorem toneEdges_append (console : Console) (early late : List Request) :
    console.toneEdges (early ++ late) =
      console.toneEdges early ++ (console.performAll early).2.toneEdges late := by
  rw [toneEdges, performAll_append, List.flatMap_append]
  rfl

theorem heard_append (console : Console) (early late : List Request) :
    console.heard (early ++ late) =
      ToneEdge.levelAfter (console.heard early) ((console.performAll early).2.toneEdges late) := by
  rw [heard, toneEdges_append, ToneEdge.levelAfter_append]
  rfl

theorem toneEdges_perform_noTick (console : Console) (request : Request) (tickless : request.NoTick) :
    (console.perform request).1.toneEdges = [] := by
  cases request with
  | load image => exact console.toneEdges_accept _
  | setKey key held => exact console.toneEdges_accept _
  | step =>
    change console.step.1.reply.toneEdges = []
    cases console.step.1 <;> rfl
  | frame => exact absurd rfl tickless.2
  | tick => exact absurd rfl tickless.1
  | rewind | reset | takeRedraw | takeScreen | setSpeed => rfl

theorem toneEdges_noTick (console : Console) (requests : List Request)
    (tickless : ∀ request ∈ requests, request.NoTick) : console.toneEdges requests = [] := by
  induction requests generalizing console with
  | nil => rfl
  | cons request rest ih =>
    rw [toneEdges_cons, toneEdges_perform_noTick console request (tickless request List.mem_cons_self),
      ih _ fun later member => tickless later (List.mem_cons_of_mem _ member)]
    rfl

theorem heard_noTick (console : Console) (early late : List Request)
    (tickless : ∀ request ∈ late, request.NoTick) : console.heard (early ++ late) = console.heard early := by
  rw [heard_append, toneEdges_noTick _ late tickless]
  rfl

/-- After a tick a host is right if what it heard before is what was known of the tone, or if it has heard an
edge since. -/
theorem levelAfter_eq_isToneOn_iff (console : Console) (heard : Bool) (segment : List Request)
    (last : Request) (ticks : last = .tick ∨ last = .frame)
    (keeps : console.Throughout KeepsTone (segment ++ [last])) :
    ToneEdge.levelAfter heard (console.toneEdges (segment ++ [last])) =
        (console.performAll (segment ++ [last])).2.isToneOn ↔
      heard = console.sounding ∨ console.toneEdges (segment ++ [last]) ≠ [] := by
  have level := (performAll_toneEdges console (segment ++ [last]) keeps).2
  rw [performAll_concat_snd, isToneOn_of_ticks _ last ticks, ← performAll_concat_snd, ← level]
  by_cases silent : console.toneEdges (segment ++ [last]) = []
  · rw [silent]
    simp [ToneEdge.levelAfter]
  · have same := ToneEdge.levelAfter_of_ne_nil heard console.sounding _ silent
    simp only [same, silent, ne_eq, not_false_eq_true, or_true]

/-- Without a reset or a rewinding a host that follows the edges is right after every tick. -/
theorem heard_eq_isToneOn (settings : Settings) (source : WordSource) (segment : List Request)
    (last : Request) (ticks : last = .tick ∨ last = .frame)
    (keeps : (start settings source).Throughout KeepsTone (segment ++ [last])) :
    (start settings source).heard (segment ++ [last]) =
      ((start settings source).performAll (segment ++ [last])).2.isToneOn :=
  (levelAfter_eq_isToneOn_iff _ false segment last ticks keeps).mpr (Or.inl rfl)

/-- A tick that comes as expected reports the end of the tone or nothing. -/
theorem toneEdges_tick_ne_nil_iff (console : Console) (expected : console.sounding = console.isToneOn) :
    console.toneEdges [.tick] ≠ [] ↔ console.machine.sound = 1 := by
  have edges : console.toneEdges [.tick] = console.tick.1.inOrder := List.append_nil _
  rw [edges]
  simp only [tick, ToneEdges.ofTick, Machine.tick, expected, isToneOn]
  by_cases zero : console.machine.sound = 0
  · simp [zero, ToneEdges.inOrder]
  · have ends : console.machine.sound - 1 = 0 ↔ console.machine.sound = 1 := by
      rw [← UInt8.toNat_inj, ← UInt8.toNat_inj, UInt8.toNat_sub]
      have bound := console.machine.sound.toNat_lt
      have positive : console.machine.sound.toNat ≠ 0 := fun none => zero (UInt8.toNat_inj.mp none)
      simp
      omega
    simp [zero, ToneEdges.inOrder, ends]

theorem sounding_of_restored (console : Console) (restored : (console.perform .rewind).1 = .flag true) :
    (console.perform .rewind).2.sounding = (console.perform .rewind).2.isToneOn := by
  rcases console.perform_rewind with ⟨-, same⟩ | ⟨earlier, older, -, same⟩
  · rw [same] at restored
    have differs : Reply.flag false = .flag true := restored
    cases differs
  · rw [same]
    rfl

/-- A host that follows the edges was right about the tone, there has been no tick since, and now a frame is
taken back. After later ticks, up to the next reset or rewinding, the host is right exactly if the tone sounds
in the machine that was restored as it sounded when the host was right, or if an edge was reported since. If
the next request is a tick, it reports an edge exactly if it is the last one of the restored tone. -/
theorem heard_after_rewinding_iff (settings : Settings) (source : WordSource)
    (before after : List Request)
    (right : (start settings source).heard before =
      ((start settings source).performAll before).2.isToneOn)
    (tickless : ∀ request ∈ after, request.NoTick)
    (restored : (((start settings source).performAll (before ++ after)).2.perform .rewind).1 =
      .flag true) :
    let start := start settings source
    let sounded := (start.performAll before).2.isToneOn
    let rewinding := before ++ after ++ [.rewind]
    let rewound := (start.performAll rewinding).2
    (∀ segment last, last = .tick ∨ last = .frame → rewound.Throughout KeepsTone (segment ++ [last]) →
      (start.heard (rewinding ++ (segment ++ [last])) =
          (start.performAll (rewinding ++ (segment ++ [last]))).2.isToneOn ↔
        sounded = rewound.isToneOn ∨ rewound.toneEdges (segment ++ [last]) ≠ [])) ∧
    (start.heard (rewinding ++ [.tick]) = (start.performAll (rewinding ++ [.tick])).2.isToneOn ↔
      sounded = rewound.isToneOn ∨ rewound.machine.sound = 1) := by
  intro start sounded rewinding rewound
  have last : rewound = ((start.performAll (before ++ after)).2.perform .rewind).2 :=
    performAll_concat_snd start (before ++ after) .rewind
  have known : rewound.sounding = rewound.isToneOn := by
    rw [last]
    exact sounding_of_restored _ restored
  have unheard : start.heard rewinding = sounded := by
    have none : ∀ request ∈ after ++ [.rewind], request.NoTick := by
      intro request member
      rcases List.mem_append.mp member with later | final
      · exact tickless request later
      · obtain rfl := List.mem_singleton.mp final
        exact ⟨nofun, nofun⟩
    calc start.heard rewinding
        = start.heard (before ++ (after ++ [.rewind])) := congrArg start.heard (List.append_assoc _ _ _)
      _ = start.heard before := heard_noTick start before _ none
      _ = sounded := right
  have later (segment : List Request) (last : Request) (ticks : last = .tick ∨ last = .frame)
      (keeps : rewound.Throughout KeepsTone (segment ++ [last])) :
      start.heard (rewinding ++ (segment ++ [last])) =
          (start.performAll (rewinding ++ (segment ++ [last]))).2.isToneOn ↔
        sounded = rewound.isToneOn ∨ rewound.toneEdges (segment ++ [last]) ≠ [] := by
    have run : start.performAll (rewinding ++ (segment ++ [last])) = (_, _) :=
      performAll_append start rewinding (segment ++ [last])
    rw [heard_append, unheard, run, ← known]
    exact levelAfter_eq_isToneOn_iff rewound sounded segment last ticks keeps
  refine ⟨later, ?_⟩
  rw [← toneEdges_tick_ne_nil_iff rewound known]
  exact later [] .tick (Or.inl rfl) ⟨⟨nofun, nofun⟩, trivial⟩

theorem isToneOn_tick_of_silent (console : Console) (silent : console.machine.sound = 0) :
    (console.perform .tick).2.isToneOn = false := by
  simp [perform, tick, isToneOn, Machine.tick, silent]

/-- The tone starts in the frame that is taken back, and the tick after that does not report that it stopped. -/
theorem heard_after_rewinding_iff_stuck :
    let start := start { instructionsPerFrame := 2 } (.cycle [7])
    let before : List Request := [.load beep, .frame]
    start.heard before = true ∧ (start.performAll before).2.isToneOn = true ∧
      ((start.performAll before).2.perform .rewind).1 = .flag true ∧
      start.heard (before ++ [.rewind] ++ [.tick]) = true ∧
      (start.performAll (before ++ [.rewind] ++ [.tick])).2.isToneOn = false := by
  dsimp only
  obtain ⟨memory, loaded, early, late⟩ := perform_load_beep
  have framed : ((start { instructionsPerFrame := 2 } (.cycle [7])).performAll [.load beep, .frame]).2 =
      (beepConsole memory).frame.2 := by
    rw [performAll_cons_snd, loaded]
    rfl
  have sounds : ((start { instructionsPerFrame := 2 } (.cycle [7])).performAll
      [.load beep, .frame]).2.isToneOn = true := by
    rw [framed, isToneOn, sound_beep memory early late]
    rfl
  have heard := heard_eq_isToneOn { instructionsPerFrame := 2 } (.cycle [7]) [.load beep] .frame
    (Or.inr rfl) ⟨⟨by simp, by simp⟩, ⟨by simp, by simp⟩, trivial⟩
  obtain ⟨restored, silent⟩ := sound_frame_rewind (beepConsole memory) 599 rfl
  change _ = 0 at silent
  rw [← framed] at restored silent
  have next := (heard_after_rewinding_iff { instructionsPerFrame := 2 } (.cycle [7])
    [.load beep, .frame] [] heard (List.forall_mem_nil _) restored).2
  rw [List.append_nil] at next
  rw [List.singleton_append, sounds] at heard
  rw [sounds] at next
  generalize start { instructionsPerFrame := 2 } (.cycle [7]) = console at *
  generalize [Request.load beep, Request.frame] = before at *
  rw [performAll_concat_snd, performAll_concat_snd] at next ⊢
  generalize ((console.performAll before).2.perform .rewind).2 = rewound at silent next ⊢
  have ends := isToneOn_tick_of_silent rewound silent
  refine ⟨heard, sounds, restored, ?_, ends⟩
  -- the restored tone is silent, so the host can be right for neither reason
  refine Bool.of_not_eq_false fun stopped => ?_
  rcases next.mp (stopped.trans ends.symm) with same | last
  · rw [isToneOn, silent] at same
    exact absurd same (by decide)
  · rw [silent] at last
    exact absurd last (by decide)

end Console

end ChipEight
