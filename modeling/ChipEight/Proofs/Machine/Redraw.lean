import ChipEight.Proofs.Machine.Panel

/-! The note that the screen has to be shown is for the host alone. Machines that differ in nothing else
execute the same instructions with the same outcomes, and go on differing in nothing else. Whatever changes
the screen makes the note, so a picture that was shown is still the screen as long as there is no note. -/

namespace ChipEight.Machine

def unmarked (machine : Machine) : Machine := { machine with redraw := false }

theorem eq_of_unmarked (left right : Machine) (same : left.unmarked = right.unmarked) :
    left = { right with redraw := left.redraw } := by
  obtain ⟨registers, index, pc, stack, delay, sound, memory, screen, redraw, keypad, awaiting⟩ := left
  simp only [unmarked, mk.injEq] at same
  obtain ⟨rfl, rfl, rfl, rfl, rfl, rfl, rfl, rfl, -, rfl, rfl⟩ := same
  rfl

theorem unmarked_withPanel (machine : Machine) (panel : Panel) (delay : panel.delay = machine.delay)
    (sound : panel.sound = machine.sound) : (machine.withPanel panel).unmarked = machine.unmarked := by
  simp only [unmarked, withPanel, delay, sound]

/-- Whether the screen was shown makes no difference to a step. -/
theorem step_unmarked (left right : Machine) (source : WordSource)
    (same : left.unmarked = right.unmarked) :
    (left.step source).1 = (right.step source).1 ∧
      (left.step source).2.1.unmarked = (right.step source).2.1.unmarked ∧
      (left.step source).2.2 = (right.step source).2.2 := by
  -- Two machines alike but for the note are one machine with two panels.
  let panel : Panel := ⟨right.delay, right.sound, left.redraw⟩
  have whole : left = right.withPanel panel := eq_of_unmarked left right same
  obtain ⟨delay, sound⟩ := timers_nextPanel right panel right.panel rfl rfl
  have next := panel_step right source
  rw [whole, step_withPanel right panel source fun _ _ => rfl]
  refine ⟨rfl, unmarked_withPanel _ _ ?_ ?_, rfl⟩
  · exact delay.trans (congrArg Panel.delay next.symm)
  · exact sound.trans (congrArg Panel.sound next.symm)

/-- A host that shows this picture shows the screen, or the machine notes that it does not. -/
def ShownBy (machine : Machine) (picture : Screen) : Prop :=
  machine.redraw = false → picture = machine.screen

theorem shownBy_of_redraw (machine : Machine) (picture : Screen) (noted : machine.redraw = true) :
    machine.ShownBy picture := by
  intro unnoted
  rw [noted] at unnoted
  contradiction

theorem execute_shown (machine next : Machine) (source : WordSource) (instruction : Instruction)
    (picture : Screen) (shown : machine.ShownBy picture)
    (executed : machine.execute source instruction = .ok next) : next.ShownBy picture := by
  rcases execute_changes _ _ _ _ executed with
    ⟨registers, index, pc, stack, delay, sound, memory, rfl⟩ | ⟨registers, screen, rfl⟩ |
    ⟨x, -, -, rfl⟩
  · exact shown
  · exact shownBy_of_redraw _ picture rfl
  · exact shown

theorem step_shown (machine : Machine) (source : WordSource) (picture : Screen)
    (shown : machine.ShownBy picture) : (machine.step source).2.1.ShownBy picture := by
  have cycle := step_cycle machine source
  generalize machine.step source = result at cycle ⊢
  cases cycle with
  | parked | unassigned | faulted | suspended => exact shown
  | woken x key =>
    obtain ⟨registers, pc, awaiting, same⟩ := deliver_changes machine (.ofNat key.val)
    rw [same]
    exact shown
  | completed instruction next running upcoming executed =>
    exact execute_shown machine.fetch.2 next source instruction picture shown executed

end ChipEight.Machine
