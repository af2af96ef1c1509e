import ChipEight.Proofs.Console.Steps

/-! The keypad belongs to the host. Whether a key is held was decided by the latest request that names the
key, unless a reset let go of all keys since. Programs only read the keypad, and a rewinding brings back
every part of an earlier machine but this one. -/

namespace ChipEight

/-- What a request decides about whether a key is held. -/
def Request.decides? (key : Key) : Request → Option Bool
  | .setKey changed held => if changed.toNat = key.val then some held else none
  | .reset => some false
  | _ => none

/-- Whether the host holds a key after a run of requests from power-on. -/
def Request.isHeldAfter (requests : List Request) (key : Key) : Bool :=
  (requests.reverse.findSome? (Request.decides? key)).getD false

namespace Console

theorem isHeld_setKey (console : Console) (changed : UInt8) (held : Bool) (key : Key) :
    (console.perform (.setKey changed held)).2.machine.keypad.isHeld key =
      if changed.toNat = key.val then held else console.machine.keypad.isHeld key := by
  by_cases valid : changed.toNat < 16
  · have named : (⟨changed.toNat, valid⟩ : Key) = key ↔ changed.toNat = key.val := Fin.ext_iff
    have set := console.machine.keypad.isHeld_set ⟨changed.toNat, valid⟩ key held
    simp only [named] at set
    rw [← set]
    simp only [perform, setKey, dif_pos valid, accept]
    cases held with
    | false => rfl
    | true =>
      rw [if_pos rfl]
      obtain ⟨registers, pc, awaiting, same⟩ := Machine.deliver_changes
        { console.machine with keypad := console.machine.keypad.set ⟨changed.toNat, valid⟩ true } changed
      rw [same]
  · have other : changed.toNat ≠ key.val := by omega
    rw [if_neg other]
    simp only [perform, setKey, dif_neg valid, accept]

/-- A request that decides nothing about a key leaves it as it was. -/
theorem isHeld_perform (console : Console) (request : Request) (key : Key) :
    (console.perform request).2.machine.keypad.isHeld key =
      (request.decides? key).getD (console.machine.keypad.isHeld key) := by
  cases request with
  | load image =>
    obtain ⟨memory, same⟩ := console.perform_load image
    rw [same]
    rfl
  | setKey changed held =>
    rw [isHeld_setKey, Request.decides?]
    split
    · rfl
    · rfl
  | step => exact congrArg (Keypad.isHeld · key) (Machine.step_keypad console.machine console.source)
  | frame => exact congrArg (Keypad.isHeld · key) console.frame_keypad
  | rewind =>
    rcases console.perform_rewind with ⟨-, same⟩ | ⟨earlier, older, -, same⟩
    · rw [same]
      rfl
    · rw [same]
      rfl
  | reset => exact Keypad.isHeld_released key
  | tick | takeRedraw | takeScreen | setSpeed => rfl

theorem isHeld_performAll (console : Console) (requests : List Request) (key : Key) :
    (console.performAll requests).2.machine.keypad.isHeld key =
      (requests.reverse.findSome? (Request.decides? key)).getD (console.machine.keypad.isHeld key) := by
  induction requests generalizing console with
  | nil => rfl
  | cons request rest ih =>
    rw [performAll_cons_snd, ih, isHeld_perform, List.reverse_cons, List.findSome?_append, Option.getD_or,
      List.findSome?_singleton]

/-- After every run from power-on a key is held as the latest request about it since the latest reset
demands, and a request that names no key is refused and changes nothing, not even a wait. -/
theorem keypad_is_held_by_host (settings : Settings) (source : WordSource) (requests : List Request) :
    let console := ((start settings source).performAll requests).2
    (∀ key, console.machine.keypad.isHeld key = Request.isHeldAfter requests key) ∧
    ∀ key held, 16 ≤ key.toNat →
      console.perform (.setKey key held) = (.failed (.refusal (.invalidKey key)), console) := by
  intro console
  constructor
  · intro key
    have released : Machine.initial.keypad.isHeld key = false := Keypad.isHeld_released key
    exact (isHeld_performAll _ requests key).trans (congrArg _ released)
  · intro key held invalid
    simp only [perform, setKey, dif_neg (Nat.not_lt.mpr invalid), accept]

/-- The frame that is taken back was recorded while key 5 was down. -/
theorem keypad_is_held_by_host_rewound :
    let console := ((start { instructionsPerFrame := 1 } (.cycle [7])).performAll
      [.setKey 5 true, .frame, .setKey 5 false, .setKey 9 true, .rewind]).2
    console.machine.keypad.isHeld 5 = false ∧ console.machine.keypad.isHeld 9 = true ∧
      16 ≤ (16 : UInt8).toNat ∧
      console.perform (.setKey 16 true) = (.failed (.refusal (.invalidKey 16)), console) := by
  have held := keypad_is_held_by_host { instructionsPerFrame := 1 } (.cycle [7])
    [.setKey 5 true, .frame, .setKey 5 false, .setKey 9 true, .rewind]
  dsimp only at held ⊢
  obtain ⟨decided, refused⟩ := held
  rw [decided, decided]
  exact ⟨by decide, by decide, by decide, refused 16 true (by decide)⟩

end Console

end ChipEight
