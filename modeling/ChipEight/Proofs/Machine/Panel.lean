import ChipEight.Proofs.Machine.Cycle

/-! The panel of a machine: its two timers and the note that the screen has to be shown. Instructions write
to the panel, and what they write does not depend on it; only an instruction that reads the delay timer looks
at it. A step on a machine with another panel is therefore the same step, with the panel carried along. -/

namespace ChipEight

structure Panel where
  delay : UInt8
  sound : UInt8
  redraw : Bool

namespace Panel

/-- The panel after an instruction that runs on a machine. -/
def after (panel : Panel) (machine : Machine) : Instruction → Panel
  | .clearScreen | .draw _ _ _ => { panel with redraw := true }
  | .setDelay x => { panel with delay := machine.register x }
  | .setSound x => { panel with sound := machine.register x }
  | _ => panel

end Panel

namespace Machine

def panel (machine : Machine) : Panel := ⟨machine.delay, machine.sound, machine.redraw⟩

def withPanel (machine : Machine) (panel : Panel) : Machine :=
  { machine with delay := panel.delay, sound := panel.sound, redraw := panel.redraw }

/-- The panel that one step makes of a panel. -/
def nextPanel (machine : Machine) (panel : Panel) : Panel :=
  machine.upcoming?.elim panel (panel.after machine)

theorem nextPanel_of_none (machine : Machine) (panel : Panel) (none : machine.upcoming? = none) :
    machine.nextPanel panel = panel := by
  rw [nextPanel, none, Option.elim_none]

theorem nextPanel_of_some (machine : Machine) (panel : Panel) (instruction : Instruction)
    (upcoming : machine.upcoming? = some instruction) :
    machine.nextPanel panel = panel.after machine instruction := by
  rw [nextPanel, upcoming, Option.elim_some]

theorem execute_withPanel (machine : Machine) (panel : Panel) (source : WordSource)
    (instruction : Instruction)
    (unread : ∀ x, instruction = .readDelay x → panel.delay = machine.delay) :
    (machine.withPanel panel).execute source instruction =
      (machine.execute source instruction).map (·.withPanel (panel.after machine instruction)) := by
  cases instruction with
  | ret =>
    have same : (machine.withPanel panel).stack = machine.stack := rfl
    simp only [execute, pop, same]
    cases machine.stack.pop? with
    | none => rfl
    | some result => rfl
  | call target =>
    have same : (machine.withPanel panel).stack = machine.stack := rfl
    have pc : (machine.withPanel panel).pc = machine.pc := rfl
    simp only [execute, push, same, pc]
    cases machine.stack.push? machine.pc with
    | none => rfl
    | some stack => rfl
  | skip condition =>
    have same : (machine.withPanel panel).holds condition = machine.holds condition := by
      cases condition <;> rfl
    simp only [execute, same]
    cases machine.holds condition with
    | true => rfl
    | false => rfl
  | compute operation x y =>
    have same : ∀ z, (machine.withPanel panel).register z = machine.register z := fun _ => rfl
    simp only [execute, compute, same]
    cases operation.flag? (machine.register x) (machine.register y) with
    | none => rfl
    | some bit => rfl
  | readDelay x =>
    have same : (machine.withPanel panel).delay = machine.delay := unread x rfl
    simp only [execute, same]
    rfl
  | awaitKey x =>
    have same : (machine.withPanel panel).keypad.lowest? = machine.keypad.lowest? := rfl
    simp only [execute, awaitKey, same]
    cases machine.keypad.lowest? with
    | none => rfl
    | some key => rfl
  | _ => rfl

theorem executeNext_withPanel (machine : Machine) (panel : Panel) (source : WordSource)
    (running : machine.awaiting = none)
    (unread : ∀ x, machine.upcoming? = some (.readDelay x) → panel.delay = machine.delay) :
    (machine.withPanel panel).executeNext source =
      ((machine.executeNext source).1,
        (machine.executeNext source).2.1.withPanel (machine.nextPanel panel),
        (machine.executeNext source).2.2) := by
  have upcoming := upcoming?_of_running machine running
  have fetched : (machine.withPanel panel).fetch =
      (machine.fetch.1, machine.fetch.2.withPanel panel) := rfl
  simp only [executeNext, fetched]
  cases decoded : Instruction.decode machine.fetch.1 with
  | none =>
    rw [nextPanel_of_none machine panel (upcoming.trans decoded)]
    rfl
  | some instruction =>
    have same := execute_withPanel machine.fetch.2 panel source instruction (by
      rintro x rfl
      exact unread x (upcoming.trans decoded))
    rw [nextPanel_of_some machine panel instruction (upcoming.trans decoded)]
    dsimp only
    rw [same]
    cases executed : machine.fetch.2.execute source instruction with
    | error fault =>
      rcases (execute_eq_error_iff _ _ _ _).mp executed with ⟨rfl, -, -⟩ | ⟨⟨target, rfl⟩, -, -⟩
      · rfl
      · rfl
    | ok next => rfl

/-- A step does not look at the panel, unless it reads the delay timer. -/
theorem step_withPanel (machine : Machine) (panel : Panel) (source : WordSource)
    (unread : ∀ x, machine.upcoming? = some (.readDelay x) → panel.delay = machine.delay) :
    (machine.withPanel panel).step source =
      ((machine.step source).1, (machine.step source).2.1.withPanel (machine.nextPanel panel),
        (machine.step source).2.2) := by
  cases waiting : machine.awaiting with
  | none =>
    rw [step_of_running machine source waiting, step_of_running (machine.withPanel panel) source waiting]
    exact executeNext_withPanel machine panel source waiting unread
  | some x =>
    have none : machine.upcoming? = none := by simp [upcoming?, waiting]
    have same : (machine.withPanel panel).keypad.lowest? = machine.keypad.lowest? := rfl
    have waits : (machine.withPanel panel).awaiting = some x := waiting
    rw [nextPanel_of_none machine panel none]
    unfold step sample
    rw [waiting, waits, same]
    cases machine.keypad.lowest? with
    | none => rfl
    | some key =>
      simp only [deliver, waiting, waits]
      rfl

/-- How a step changes the panel. -/
theorem panel_step (machine : Machine) (source : WordSource) :
    (machine.step source).2.1.panel = machine.nextPanel machine.panel := by
  have same : machine.step source = (_, _, _) :=
    step_withPanel machine machine.panel source fun _ _ => rfl
  exact congrArg (fun stepped : Outcome × Machine × WordSource => stepped.2.1.panel) same

theorem timers_nextPanel (machine : Machine) (panel other : Panel) (delay : panel.delay = other.delay)
    (sound : panel.sound = other.sound) :
    (machine.nextPanel panel).delay = (machine.nextPanel other).delay ∧
      (machine.nextPanel panel).sound = (machine.nextPanel other).sound := by
  unfold nextPanel
  cases machine.upcoming? with
  | none => exact ⟨delay, sound⟩
  | some instruction =>
    cases instruction with
    | setDelay => exact ⟨rfl, sound⟩
    | setSound => exact ⟨delay, rfl⟩
    | _ => exact ⟨delay, sound⟩

theorem redraw_nextPanel (machine : Machine) (panel other : Panel)
    (redraw : panel.redraw = other.redraw) :
    (machine.nextPanel panel).redraw = (machine.nextPanel other).redraw := by
  unfold nextPanel
  cases machine.upcoming? with
  | none => exact redraw
  | some instruction =>
    cases instruction with
    | clearScreen | draw => rfl
    | _ => exact redraw

def untimed (machine : Machine) : Machine := { machine with delay := 0, sound := 0 }

theorem eq_of_untimed (left right : Machine) (same : left.untimed = right.untimed) :
    left = right.withPanel ⟨left.delay, left.sound, right.redraw⟩ := by
  obtain ⟨registers, index, pc, stack, delay, sound, memory, screen, redraw, keypad, awaiting⟩ := left
  simp only [untimed, mk.injEq] at same
  obtain ⟨rfl, rfl, rfl, rfl, -, -, rfl, rfl, rfl, rfl, rfl⟩ := same
  rfl

theorem untimed_withPanel (machine : Machine) (panel : Panel)
    (redraw : panel.redraw = machine.redraw) :
    (machine.withPanel panel).untimed = machine.untimed := by
  simp only [untimed, withPanel, redraw]

theorem upcoming?_untimed (left right : Machine) (same : left.untimed = right.untimed) :
    left.upcoming? = right.upcoming? := by
  rw [eq_of_untimed left right same]
  rfl

/-- Machines that differ in their timers alone go on doing so, until the delay timer is read. -/
theorem step_untimed (left right : Machine) (source : WordSource)
    (same : left.untimed = right.untimed)
    (unread : ∀ x, right.upcoming? ≠ some (.readDelay x)) :
    (left.step source).1 = (right.step source).1 ∧
      (left.step source).2.1.untimed = (right.step source).2.1.untimed ∧
      (left.step source).2.2 = (right.step source).2.2 := by
  let panel : Panel := ⟨left.delay, left.sound, right.redraw⟩
  have redraw : (right.nextPanel panel).redraw = (right.step source).2.1.redraw :=
    (redraw_nextPanel right panel right.panel rfl).trans
      (congrArg Panel.redraw (panel_step right source).symm)
  rw [eq_of_untimed left right same,
    step_withPanel right panel source fun x upcoming => absurd upcoming (unread x)]
  exact ⟨rfl, untimed_withPanel _ _ redraw, rfl⟩

end Machine

end ChipEight
