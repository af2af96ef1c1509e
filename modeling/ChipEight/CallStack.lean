import ChipEight.Address

/-! The stack of return addresses. It has sixteen slots and a depth; the live entries are the slots below
the depth, the oldest first. A slot above the depth keeps what was last written to it. -/

namespace ChipEight

structure CallStack where
  slots : Vector Address 16
  depth : UInt8
  deriving DecidableEq

namespace CallStack

def capacity : Nat := 16

def empty : CallStack := ⟨Vector.replicate 16 0, 0⟩

def live (stack : CallStack) : List Address := stack.slots.toList.take stack.depth.toNat

def push? (stack : CallStack) (address : Address) : Option CallStack :=
  if room : stack.depth.toNat < 16 then
    some ⟨stack.slots.set stack.depth.toNat address room, stack.depth + 1⟩
  else none

/-- Refuses if no slot is in use. A depth beyond the slots, which pushing cannot reach, yields zero. -/
def pop? (stack : CallStack) : Option (Address × CallStack) :=
  if stack.depth = 0 then none
  else some (stack.slots[stack.depth.toNat - 1]?.getD 0, { stack with depth := stack.depth - 1 })

theorem live_empty : empty.live = [] := rfl

theorem length_live (stack : CallStack) : stack.live.length = min stack.depth.toNat 16 := by
  simp [live]

theorem push?_eq_none_iff (stack : CallStack) (address : Address) :
    stack.push? address = none ↔ 16 ≤ stack.depth.toNat := by
  unfold push?
  split <;> simp <;> omega

theorem live_push? (stack next : CallStack) (address : Address)
    (pushed : stack.push? address = some next) : next.live = stack.live ++ [address] := by
  unfold push? at pushed
  split at pushed
  next room =>
    obtain rfl := Option.some.inj pushed
    have one : (1 : UInt8).toNat = 1 := rfl
    have depth : (stack.depth + 1).toNat = stack.depth.toNat + 1 := by
      rw [UInt8.toNat_add, one]
      omega
    simp only [live, depth, Vector.toList_set]
    rw [List.take_add_one, List.take_set_of_le (Nat.le_refl _)]
    simp [room]
  next => contradiction

theorem pop?_eq_none_iff (stack : CallStack) : stack.pop? = none ↔ stack.depth.toNat = 0 := by
  unfold pop?
  split
  next empty => simp [empty]
  next filled =>
    simp only [reduceCtorEq, false_iff]
    exact fun zero => filled (UInt8.toNat_inj.mp zero)

theorem address_of_pop? (stack next : CallStack) (address : Address)
    (popped : stack.pop? = some (address, next)) :
    0 < stack.depth.toNat ∧ address = stack.slots[stack.depth.toNat - 1]?.getD 0 := by
  unfold pop? at popped
  split at popped
  next => contradiction
  next filled =>
    obtain ⟨rfl, -⟩ := Prod.mk.inj (Option.some.inj popped)
    exact ⟨Nat.pos_of_ne_zero fun zero => filled (UInt8.toNat_inj.mp zero), rfl⟩

theorem slots_pop? (stack next : CallStack) (address : Address)
    (popped : stack.pop? = some (address, next)) : next.slots = stack.slots := by
  unfold pop? at popped
  split at popped
  next => contradiction
  next =>
    obtain ⟨-, rfl⟩ := Prod.mk.inj (Option.some.inj popped)
    rfl

theorem live_pop? (stack next : CallStack) (address : Address) (bounded : stack.depth.toNat ≤ 16)
    (popped : stack.pop? = some (address, next)) : stack.live = next.live ++ [address] := by
  unfold pop? at popped
  split at popped
  next => contradiction
  next filled =>
    obtain ⟨rfl, rfl⟩ := Prod.mk.inj (Option.some.inj popped)
    have positive : stack.depth.toNat ≠ 0 := fun zero => filled (UInt8.toNat_inj.mp zero)
    have one : (1 : UInt8).toNat = 1 := rfl
    have depth : (stack.depth - 1).toNat = stack.depth.toNat - 1 := by
      rw [UInt8.toNat_sub, one]
      have := stack.depth.toNat_lt
      omega
    have inside : stack.depth.toNat - 1 < 16 := by omega
    have split : stack.depth.toNat = stack.depth.toNat - 1 + 1 := by omega
    simp only [live, depth]
    conv => lhs; rw [split, List.take_add_one]
    simp [inside]

end CallStack

end ChipEight
