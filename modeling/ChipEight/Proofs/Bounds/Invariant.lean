import ChipEight.Proofs.Console.Run

/-! The bounds of a machine. Its program counter, its index and every address on its stack stay within
memory, and the depth of the stack stays within its slots, whatever the program and the host do. -/

namespace ChipEight

namespace CallStack

/-- No more slots are live than there are, and every slot, live or not, names a cell of memory. -/
structure Bounded (stack : CallStack) : Prop where
  depth : stack.depth.toNat ≤ 16
  slot : ∀ slot : Fin 16, stack.slots[slot].toNat ≤ 0xFFF

theorem empty_bounded : empty.Bounded := by
  constructor
  · decide
  · intro slot
    simp [empty]

theorem push?_bounded (stack next : CallStack) (address : Address) (bounded : stack.Bounded)
    (inside : address.toNat ≤ 0xFFF) (pushed : stack.push? address = some next) : next.Bounded := by
  unfold push? at pushed
  split at pushed
  next room =>
    obtain rfl := Option.some.inj pushed
    have one : (1 : UInt8).toNat = 1 := rfl
    constructor
    · change (stack.depth + 1).toNat ≤ 16
      rw [UInt8.toNat_add, one]
      omega
    · intro slot
      simp only [Fin.getElem_fin, Vector.getElem_set]
      split
      · exact inside
      · exact bounded.slot slot
  next => contradiction

theorem pop?_bounded (stack next : CallStack) (address : Address) (bounded : stack.Bounded)
    (popped : stack.pop? = some (address, next)) : address.toNat ≤ 0xFFF ∧ next.Bounded := by
  unfold pop? at popped
  split at popped
  next => contradiction
  next filled =>
    obtain ⟨rfl, rfl⟩ := Prod.mk.inj (Option.some.inj popped)
    have depth := bounded.depth
    have positive : stack.depth.toNat ≠ 0 := fun zero => filled (UInt8.toNat_inj.mp zero)
    have inside : stack.depth.toNat - 1 < 16 := by omega
    have one : (1 : UInt8).toNat = 1 := rfl
    refine ⟨?_, ?_, bounded.slot⟩
    · rw [Vector.getElem?_eq_getElem inside]
      exact bounded.slot ⟨stack.depth.toNat - 1, inside⟩
    · change (stack.depth - 1).toNat ≤ 16
      rw [UInt8.toNat_sub, one]
      omega

end CallStack

namespace Machine

structure Bounded (machine : Machine) : Prop where
  pc : machine.pc.toNat ≤ 0xFFF
  index : machine.index.toNat ≤ 0xFFF
  stack : machine.stack.Bounded

theorem wrap_bounded (address : Address) : (Address.wrap address).toNat ≤ 0xFFF :=
  Nat.le_of_lt_succ (Address.toNat_wrap_lt address)

theorem target_bounded (target : Fin 4096) : (UInt16.ofNat target.val : Address).toNat ≤ 0xFFF := by
  rw [UInt16.toNat_ofNat']
  omega

theorem initial_bounded : initial.Bounded :=
  ⟨by decide, by decide, CallStack.empty_bounded⟩

theorem next_bounded (machine : Machine) (bounded : machine.Bounded) :
    Bounded { machine with pc := machine.pc.next } :=
  ⟨wrap_bounded _, bounded.index, bounded.stack⟩

theorem execute_bounded (machine next : Machine) (source : WordSource) (instruction : Instruction)
    (bounded : machine.Bounded) (executed : machine.execute source instruction = .ok next) :
    next.Bounded := by
  cases instruction with
  | ret =>
    obtain ⟨address, stack, popped, rfl⟩ := execute_ret _ _ _ executed
    obtain ⟨inside, shorter⟩ := CallStack.pop?_bounded _ _ _ bounded.stack popped
    exact ⟨inside, bounded.index, shorter⟩
  | jump target =>
    obtain rfl := Except.ok.inj executed
    exact ⟨target_bounded target, bounded.index, bounded.stack⟩
  | call target =>
    obtain ⟨stack, pushed, rfl⟩ := execute_call _ _ _ _ executed
    exact ⟨target_bounded target, bounded.index,
      CallStack.push?_bounded _ _ _ bounded.stack bounded.pc pushed⟩
  | skip condition =>
    obtain rfl := Except.ok.inj executed
    rcases skipWhen_eq machine (machine.holds condition) with stays | skips
    · rw [stays]
      exact bounded
    · rw [skips]
      exact next_bounded machine bounded
  | compute operation x y =>
    obtain rfl := Except.ok.inj executed
    obtain ⟨registers, same⟩ := compute_changes machine operation x y
    rw [same]
    exact ⟨bounded.pc, bounded.index, bounded.stack⟩
  | setIndex target =>
    obtain rfl := Except.ok.inj executed
    exact ⟨bounded.pc, target_bounded target, bounded.stack⟩
  | jumpFromV0 target =>
    obtain rfl := Except.ok.inj executed
    exact ⟨wrap_bounded _, bounded.index, bounded.stack⟩
  | awaitKey x =>
    obtain rfl := Except.ok.inj executed
    unfold awaitKey
    split
    · exact ⟨bounded.pc, bounded.index, bounded.stack⟩
    · exact ⟨wrap_bounded _, bounded.index, bounded.stack⟩
  | pointToGlyph x =>
    obtain rfl := Except.ok.inj executed
    refine ⟨bounded.pc, ?_, bounded.stack⟩
    have digit := (Digit.low (machine.register x)).isLt
    change (Glyph.address _).toNat ≤ 0xFFF
    rw [Glyph.toNat_address]
    omega
  | restoreRegisters x =>
    obtain rfl := Except.ok.inj executed
    obtain ⟨registers, same⟩ := restore_changes machine x
    rw [same]
    exact ⟨bounded.pc, wrap_bounded _, bounded.stack⟩
  | advanceIndex x | storeRegisters x =>
    obtain rfl := Except.ok.inj executed
    exact ⟨bounded.pc, wrap_bounded _, bounded.stack⟩
  | _ =>
    obtain rfl := Except.ok.inj executed
    exact ⟨bounded.pc, bounded.index, bounded.stack⟩

theorem deliver_bounded (machine : Machine) (key : UInt8) (bounded : machine.Bounded) :
    (machine.deliver key).Bounded := by
  unfold deliver
  split
  · exact ⟨wrap_bounded _, bounded.index, bounded.stack⟩
  · exact bounded

theorem step_bounded (machine : Machine) (source : WordSource) (bounded : machine.Bounded) :
    (machine.step source).2.1.Bounded := by
  have fetched := next_bounded machine bounded
  have cycle := step_cycle machine source
  generalize machine.step source = result at cycle ⊢
  cases cycle with
  | parked => exact bounded
  | woken x key => exact deliver_bounded machine _ bounded
  | unassigned => exact fetched
  | faulted => exact fetched
  | suspended => exact ⟨wrap_bounded _, bounded.index, bounded.stack⟩
  | completed instruction next _ _ executed =>
    exact execute_bounded _ next source instruction fetched executed

theorem bounded_stable : Stable Bounded where
  initial := initial_bounded
  step := step_bounded
  tick _ bounded := ⟨bounded.pc, bounded.index, bounded.stack⟩
  place _ _ bounded := ⟨bounded.pc, bounded.index, bounded.stack⟩
  press _ _ key bounded := deliver_bounded _ key ⟨bounded.pc, bounded.index, bounded.stack⟩
  hold _ _ _ bounded := ⟨bounded.pc, bounded.index, bounded.stack⟩

end Machine

end ChipEight
