import ChipEight.Digit

/-! The keypad has the sixteen keys 0 to F, each held down or not. The lowest held key is the one that a
program which waits for any key receives. -/

namespace ChipEight

abbrev Key := Digit

structure Keypad where
  down : Vector Bool 16
  deriving DecidableEq

namespace Keypad

def size : Nat := 16

/-- The keypad on which exactly the keys of a list are held. -/
def ofList (keys : List Key) : Keypad := ⟨Vector.ofFn fun key => keys.contains key⟩

def released : Keypad := ofList []

def isHeld (keypad : Keypad) (key : Key) : Bool := keypad.down[key]

def set (keypad : Keypad) (key : Key) (held : Bool) : Keypad :=
  ⟨keypad.down.set key.val held key.isLt⟩

/-- The held keys in ascending order. -/
def toList (keypad : Keypad) : List Key := (List.finRange 16).filter keypad.isHeld

def lowest? (keypad : Keypad) : Option Key := keypad.toList.head?

theorem isHeld_ofList (keys : List Key) (key : Key) : (ofList keys).isHeld key = keys.contains key := by
  simp [isHeld, ofList]

@[simp] theorem isHeld_released (key : Key) : released.isHeld key = false := isHeld_ofList [] key

theorem isHeld_set (keypad : Keypad) (key other : Key) (held : Bool) :
    (keypad.set key held).isHeld other = if key = other then held else keypad.isHeld other := by
  simp [isHeld, set, Vector.getElem_set, Fin.ext_iff]

theorem mem_toList (keypad : Keypad) (key : Key) :
    key ∈ keypad.toList ↔ keypad.isHeld key = true := by
  simp [toList]

theorem lowest?_eq_none_iff (keypad : Keypad) :
    keypad.lowest? = none ↔ ∀ key, keypad.isHeld key = false := by
  simp [lowest?, toList]

theorem lowest?_release (keypad : Keypad) (key : Key) (released : keypad.lowest? = none) :
    (keypad.set key false).lowest? = none := by
  rw [lowest?_eq_none_iff] at released ⊢
  intro other
  rw [isHeld_set, released other, ite_self]

theorem isHeld_of_lowest? (keypad : Keypad) (key : Key) (found : keypad.lowest? = some key) :
    keypad.isHeld key = true :=
  (keypad.mem_toList key).mp (List.mem_of_head? found)

theorem lowest?_press (keypad : Keypad) (key : Key) (released : keypad.lowest? = none) :
    (keypad.set key true).lowest? = some key := by
  rw [lowest?_eq_none_iff] at released
  cases found : (keypad.set key true).lowest? with
  | none =>
    have absent := (lowest?_eq_none_iff _).mp found key
    rw [isHeld_set, if_pos rfl] at absent
    contradiction
  | some other =>
    have held := isHeld_of_lowest? _ other found
    rw [isHeld_set, released other] at held
    by_cases same : key = other
    · rw [same]
    · rw [if_neg same] at held
      contradiction

theorem lowest?_le (keypad : Keypad) (key other : Key) (found : keypad.lowest? = some key)
    (held : keypad.isHeld other = true) : key ≤ other := by
  have member : other ∈ keypad.toList := (keypad.mem_toList other).mpr held
  have sorted : keypad.toList.Pairwise (· < ·) := (List.pairwise_lt_finRange 16).filter _
  obtain ⟨rest, split⟩ := List.head?_eq_some_iff.mp found
  rw [split] at member sorted
  rcases List.mem_cons.mp member with rfl | later
  · exact Nat.le_refl _
  · exact Nat.le_of_lt ((List.pairwise_cons.mp sorted).1 other later)

end Keypad

end ChipEight
