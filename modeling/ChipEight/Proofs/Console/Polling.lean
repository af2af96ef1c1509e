import ChipEight.Proofs.Console.Replay

/-! Polling for the screen. A host may ask at any time, and as often as it likes, whether the screen has to be
shown again. Each question takes the note away, also from the machines that later frames record, but no other
reply and no other part of the console depends on the note; and where a machine is brought back or started
anew, the note is made anew with it. -/

namespace ChipEight

def Request.isPoll : Request → Bool
  | .takeRedraw | .takeScreen => true
  | _ => false

/-- The second list of requests is the first one with polls put in anywhere. -/
inductive Polled : List Request → List Request → Prop
  | nil : Polled [] []
  | kept (request : Request) (plain polled : List Request) (rest : Polled plain polled) :
      Polled (request :: plain) (request :: polled)
  | extra (poll : Request) (plain polled : List Request) (asks : poll.isPoll = true)
      (rest : Polled plain polled) : Polled plain (poll :: polled)

/-- Wherever the run with the polls is cut, the one without them can be cut there too. -/
theorem Polled.split {plain polled : List Request} (inserted : Polled plain polled)
    (early late : List Request) (cut : polled = early ++ late) :
    ∃ before after, plain = before ++ after ∧ Polled before early ∧ Polled after late := by
  induction inserted generalizing early with
  | nil =>
    obtain ⟨rfl, rfl⟩ := List.append_eq_nil_iff.mp cut.symm
    exact ⟨[], [], rfl, .nil, .nil⟩
  | kept request plain polled rest ih =>
    cases early with
    | nil =>
      obtain rfl : request :: polled = late := cut
      exact ⟨[], _, rfl, .nil, .kept _ _ _ rest⟩
    | cons first early =>
      obtain ⟨rfl, shorter⟩ := List.cons.inj cut
      obtain ⟨before, after, rfl, begun, ended⟩ := ih early shorter
      exact ⟨request :: before, after, rfl, .kept _ _ _ begun, ended⟩
  | extra poll plain polled asks rest ih =>
    cases early with
    | nil =>
      obtain rfl : poll :: polled = late := cut
      exact ⟨[], _, rfl, .nil, .extra _ _ _ asks rest⟩
    | cons first early =>
      obtain ⟨rfl, shorter⟩ := List.cons.inj cut
      obtain ⟨before, after, rfl, begun, ended⟩ := ih early shorter
      exact ⟨before, after, rfl, .extra _ _ _ asks begun, ended⟩

namespace Console

/-- The replies to the requests that are not polls, in order. -/
def answers (console : Console) (requests : List Request) : List Reply :=
  ((requests.zip (console.performAll requests).1).filter fun answered => !answered.1.isPoll).map Prod.snd

theorem answers_cons (console : Console) (request : Request) (rest : List Request) :
    console.answers (request :: rest) =
      (if request.isPoll then [] else [(console.perform request).1]) ++
        (console.perform request).2.answers rest := by
  unfold answers
  rw [performAll_cons, List.zip_cons_cons]
  cases polls : request.isPoll with
  | true => simp [polls]
  | false => simp [polls]

/-- Consoles that differ in notes alone are alike in every part. -/
theorem unmarked_eq_iff (left right : Console) :
    left.unmarked = right.unmarked ↔
      Alike left right ∧ left.history.map Machine.unmarked = right.history.map Machine.unmarked ∧
        left.lastFault = right.lastFault := by
  simp only [unmarked, mk.injEq]
  constructor
  · rintro ⟨machine, history, settings, source, sounding, lastFault⟩
    exact ⟨⟨machine, settings, source, sounding⟩, history, lastFault⟩
  · rintro ⟨⟨machine, settings, source, sounding⟩, history, lastFault⟩
    exact ⟨machine, history, settings, source, sounding, lastFault⟩

theorem poll_unmarked (console : Console) (poll : Request) (asks : poll.isPoll = true) :
    (console.perform poll).2.unmarked = console.unmarked := by
  cases poll with
  | takeRedraw | takeScreen => rfl
  | _ => contradiction

theorem frame_unmarked (left right : Console) (same : left.unmarked = right.unmarked) :
    left.frame.1 = right.frame.1 ∧ left.frame.2.unmarked = right.frame.2.unmarked := by
  obtain ⟨alike, history, lastFault⟩ := (unmarked_eq_iff left right).mp same
  obtain ⟨report, next⟩ := frame_alike left right alike
  obtain ⟨latest, leftFault, rightFault⟩ := frame_lastFault_alike left right alike
  refine ⟨report, (unmarked_eq_iff _ _).mpr ⟨next, ?_, ?_⟩⟩
  · rw [frame_history, frame_history, History.record, History.record, List.map_take, List.map_take,
      List.map_cons, List.map_cons, alike.machine, history, alike.settings]
  · rw [leftFault, rightFault, lastFault]

/-- A rewinding succeeds on both or on neither, and where it succeeds the machines are the same. -/
theorem rewind_unmarked (left right : Console) (same : left.unmarked = right.unmarked) :
    (left.perform .rewind).1 = (right.perform .rewind).1 ∧
      (left.perform .rewind).2.unmarked = (right.perform .rewind).2.unmarked ∧
      ((right.perform .rewind).1 = .flag true →
        (left.perform .rewind).2.machine = (right.perform .rewind).2.machine) := by
  obtain ⟨alike, history, lastFault⟩ := (unmarked_eq_iff left right).mp same
  have keypad : left.machine.keypad = right.machine.keypad :=
    congrArg (fun machine => machine.keypad) alike.machine
  rcases left.perform_rewind with ⟨none, first⟩ | ⟨earlier, older, recorded, first⟩
  · rcases right.perform_rewind with ⟨-, second⟩ | ⟨_, _, found, -⟩
    · rw [first, second]
      exact ⟨rfl, same, nofun⟩
    · rw [none, found] at history
      contradiction
  · rcases right.perform_rewind with ⟨missing, -⟩ | ⟨other, others, found, second⟩
    · rw [recorded, missing] at history
      contradiction
    · rw [recorded, found] at history
      obtain ⟨newest, rest⟩ := List.cons.inj history
      have restored : { earlier with keypad := left.machine.keypad, redraw := true } =
          { other with keypad := right.machine.keypad, redraw := true } := by
        rw [Machine.eq_of_unmarked earlier other newest, keypad]
      have sound : earlier.sound = other.sound := congrArg (fun machine => machine.sound) newest
      rw [first, second, restored, sound]
      exact ⟨rfl, (unmarked_eq_iff _ _).mpr
        ⟨⟨rfl, alike.settings, alike.source, rfl⟩, rest, lastFault⟩, fun _ => rfl⟩

theorem setKey_unmarked (left right : Console) (key : UInt8) (held : Bool)
    (same : left.unmarked = right.unmarked) :
    (left.perform (.setKey key held)).1 = (right.perform (.setKey key held)).1 ∧
      (left.perform (.setKey key held)).2.unmarked = (right.perform (.setKey key held)).2.unmarked := by
  obtain ⟨alike, history, lastFault⟩ := (unmarked_eq_iff left right).mp same
  have whole := Machine.eq_of_unmarked _ _ alike.machine
  by_cases valid : key.toNat < 16
  · simp only [perform, setKey, dif_pos valid, accept]
    refine ⟨trivial, (unmarked_eq_iff _ _).mpr
      ⟨⟨?_, alike.settings, alike.source, alike.sounding⟩, history, lastFault⟩⟩
    rw [whole]
    cases held with
    | false => rfl
    | true =>
      simp only [if_true, Machine.deliver]
      cases right.machine.awaiting with
      | none => rfl
      | some x => rfl
  · simp only [perform, setKey, dif_neg valid, accept]
    exact ⟨trivial, same⟩

theorem load_unmarked (left right : Console) (image : Array UInt8)
    (same : left.unmarked = right.unmarked) :
    (left.perform (.load image)).1 = (right.perform (.load image)).1 ∧
      (left.perform (.load image)).2.unmarked = (right.perform (.load image)).2.unmarked := by
  obtain ⟨alike, history, lastFault⟩ := (unmarked_eq_iff left right).mp same
  have whole := Machine.eq_of_unmarked _ _ alike.machine
  by_cases fits : image.size ≤ Memory.imageCapacity
  · simp only [perform, load, if_pos fits, accept]
    refine ⟨trivial, (unmarked_eq_iff _ _).mpr
      ⟨⟨?_, alike.settings, alike.source, alike.sounding⟩, history, lastFault⟩⟩
    rw [whole]
    rfl
  · simp only [perform, load, if_neg fits, accept]
    exact ⟨trivial, same⟩

/-- Of all requests, only polls are answered differently because of a note. -/
theorem perform_unmarked (left right : Console) (request : Request)
    (same : left.unmarked = right.unmarked) :
    (request.isPoll = false → (left.perform request).1 = (right.perform request).1) ∧
      (left.perform request).2.unmarked = (right.perform request).2.unmarked := by
  obtain ⟨alike, history, lastFault⟩ := (unmarked_eq_iff left right).mp same
  cases request with
  | load image =>
    obtain ⟨reply, next⟩ := load_unmarked left right image same
    exact ⟨fun _ => reply, next⟩
  | setKey key held =>
    obtain ⟨reply, next⟩ := setKey_unmarked left right key held same
    exact ⟨fun _ => reply, next⟩
  | step =>
    obtain ⟨outcome, next⟩ := step_alike left right alike
    exact ⟨fun _ => congrArg Outcome.reply outcome,
      (unmarked_eq_iff _ _).mpr ⟨next, history, lastFault⟩⟩
  | frame =>
    obtain ⟨report, next⟩ := frame_unmarked left right same
    exact ⟨fun _ => congrArg Reply.framed report, next⟩
  | tick =>
    obtain ⟨edges, next⟩ := tick_alike left right alike
    exact ⟨fun _ => congrArg Reply.ticked edges, (unmarked_eq_iff _ _).mpr ⟨next, history, lastFault⟩⟩
  | rewind =>
    obtain ⟨reply, next, -⟩ := rewind_unmarked left right same
    exact ⟨fun _ => reply, next⟩
  | reset =>
    refine ⟨fun _ => rfl, (unmarked_eq_iff _ _).mpr
      ⟨⟨rfl, alike.settings, alike.source, rfl⟩, rfl, rfl⟩⟩
  | takeRedraw | takeScreen => exact ⟨nofun, same⟩
  | setSpeed instructionsPerFrame =>
    refine ⟨fun _ => rfl, (unmarked_eq_iff _ _).mpr
      ⟨⟨alike.machine, ?_, alike.source, alike.sounding⟩, history, lastFault⟩⟩
    change { left.settings with instructionsPerFrame } = { right.settings with instructionsPerFrame }
    rw [alike.settings]

theorem performAll_polled (plain polled : List Request) (inserted : Polled plain polled)
    (left right : Console) (same : left.unmarked = right.unmarked) :
    right.answers polled = left.answers plain ∧
      (right.performAll polled).2.unmarked = (left.performAll plain).2.unmarked := by
  induction inserted generalizing left right with
  | nil => exact ⟨rfl, same.symm⟩
  | kept request plain polled rest ih =>
    obtain ⟨reply, next⟩ := perform_unmarked left right request same
    obtain ⟨others, last⟩ := ih _ _ next
    rw [answers_cons, answers_cons, others]
    refine ⟨?_, last⟩
    cases polls : request.isPoll with
    | true => rfl
    | false => rw [reply polls]
  | extra poll plain polled asks rest ih =>
    obtain ⟨others, last⟩ := ih left _ (same.trans (right.poll_unmarked poll asks).symm)
    rw [answers_cons, asks]
    exact ⟨others, last⟩

/-- Polls that are put into a run anywhere change no reply to the requests that were there, other than to
polls. Every moment of the run with them corresponds to one of the run without them, where the console differs
in notes alone; a reset or a successful rewinding there leaves machines without any difference. -/
theorem polls_unnoticed (console : Console) (plain polled : List Request)
    (inserted : Polled plain polled) :
    console.answers polled = console.answers plain ∧
    ∀ early late, polled = early ++ late → ∃ before after, plain = before ++ after ∧
      Polled before early ∧ Polled after late ∧
      let quiet := (console.performAll before).2
      let busy := (console.performAll early).2
      busy.unmarked = quiet.unmarked ∧
      (busy.perform .reset).2.machine = (quiet.perform .reset).2.machine ∧
      (busy.perform .rewind).1 = (quiet.perform .rewind).1 ∧
      ((quiet.perform .rewind).1 = .flag true →
        (busy.perform .rewind).2.machine = (quiet.perform .rewind).2.machine) := by
  refine ⟨(performAll_polled plain polled inserted console console rfl).1, ?_⟩
  intro early late split
  obtain ⟨before, after, parts, first, second⟩ := inserted.split early late split
  refine ⟨before, after, parts, first, second, ?_⟩
  obtain ⟨-, same⟩ := performAll_polled before early first console console rfl
  obtain ⟨reply, -, machine⟩ := rewind_unmarked _ _ same
  exact ⟨same, rfl, reply, machine⟩

private def sketching : List Request := [.load #[0xD0, 0x01], .frame]

private theorem redraw_sketch (console : Console)
    (single : console.settings.instructionsPerFrame.toNat = 1)
    (running : console.machine.awaiting = none)
    (stored : console.machine.memory.readWord console.machine.pc = Instruction.encode (.draw 0 0 1)) :
    console.frame.2.machine.redraw = true := by
  rw [frame_of_stored console _ (.draw 0 0 1) single running stored rfl running]
  rfl

private theorem performAll_sketching (settings : Settings) (source : WordSource)
    (single : settings.instructionsPerFrame.toNat = 1) (depth : 0 < settings.rewindDepth) :
    let drawn := ((start settings source).performAll sketching).2
    drawn.machine.redraw = true ∧ (drawn.perform .rewind).1 = .flag true := by
  have stored := Memory.readWord_place Memory.initial #[0xD0, 0x01] 0 0xD0 0x01
    (Instruction.encode (.draw 0 0 1)) (by decide) rfl rfl rfl
  rw [sketching, performAll_cons_snd, start_load_of_le settings source _ (by decide)]
  generalize Memory.initial.place #[0xD0, 0x01] = memory at stored ⊢
  let console : Console := { start settings source with machine := { Machine.initial with memory } }
  change console.frame.2.machine.redraw = true ∧ (console.frame.2.perform .rewind).1 = .flag true
  refine ⟨redraw_sketch console single rfl stored, ?_⟩
  rcases console.frame.2.perform_rewind with ⟨none, -⟩ | ⟨_, _, -, restored⟩
  · have recorded := congrArg List.length console.frame_history
    rw [none, History.length_record, List.length_nil] at recorded
    change 0 = min settings.rewindDepth _ at recorded
    omega
  · rw [restored]

/-- After a poll the note about the drawn screen is gone, and a rewinding makes it anew. -/
theorem polls_unnoticed_drawn :
    let start := start { instructionsPerFrame := 1 } (.cycle [7])
    let quiet := (start.performAll sketching).2
    let busy := (start.performAll (sketching ++ [.takeScreen])).2
    Polled sketching (sketching ++ [.takeScreen]) ∧
      quiet.machine.redraw = true ∧ busy.machine.redraw = false ∧ busy.unmarked = quiet.unmarked ∧
      (busy.perform .rewind).2.machine = (quiet.perform .rewind).2.machine := by
  have inserted : Polled sketching (sketching ++ [.takeScreen]) :=
    .kept _ _ _ (.kept _ _ _ (.extra _ _ _ rfl .nil))
  have sketched := performAll_sketching { instructionsPerFrame := 1 } (.cycle [7]) rfl (by decide)
  obtain ⟨-, moments⟩ :=
    polls_unnoticed (start { instructionsPerFrame := 1 } (.cycle [7])) _ _ inserted
  obtain ⟨before, after, parts, -, finished, noticed⟩ := moments _ [] (List.append_nil _).symm
  cases finished
  obtain rfl : sketching = before := parts.trans (List.append_nil _)
  have asked := performAll_concat_snd (start { instructionsPerFrame := 1 } (.cycle [7])) sketching .takeScreen
  dsimp only at sketched noticed ⊢
  generalize ((start { instructionsPerFrame := 1 } (.cycle [7])).performAll sketching).2 = quiet at *
  generalize ((start { instructionsPerFrame := 1 } (.cycle [7])).performAll
    (sketching ++ [.takeScreen])).2 = busy at *
  obtain ⟨same, -, -, machine⟩ := noticed
  refine ⟨inserted, sketched.1, ?_, same, machine sketched.2⟩
  rw [asked]
  rfl

end Console

end ChipEight
