import ChipEight.Proofs.Machine.Cycle

/-! Addresses matter modulo 4096 only. Machines that are alike except that the addresses they hold may differ
by multiples of 4096 do the same: they read and write the same cells, fetch the same words, raise the same
faults, and stay alike. An address that is stored as it is, not wrapped, is wrapped when it is used. -/

namespace ChipEight

namespace Address

/-- The addresses differ by a multiple of 4096. -/
def Congruent (left right : Address) : Prop := left.toNat % 4096 = right.toNat % 4096

instance (left right : Address) : Decidable (left.Congruent right) :=
  inferInstanceAs (Decidable (_ = _))

theorem Congruent.of_eq {left right : Address} (same : left = right) : left.Congruent right := by
  rw [same]
  rfl

theorem wrap_congr (left right : Address) (same : left.Congruent right) : left.wrap = right.wrap := by
  apply UInt16.toNat_inj.mp
  rw [toNat_wrap, toNat_wrap]
  exact same

theorem add_congr (left right offset : Address) (same : left.Congruent right) :
    (left + offset).Congruent (right + offset) := by
  unfold Congruent at same ⊢
  rw [UInt16.toNat_add, UInt16.toNat_add]
  omega

theorem next_congr (left right : Address) (same : left.Congruent right) : left.next = right.next :=
  wrap_congr _ _ (add_congr left right 2 same)

theorem previous_congr (left right : Address) (same : left.Congruent right) :
    left.previous = right.previous := by
  apply UInt16.toNat_inj.mp
  unfold Congruent at same
  rw [toNat_previous, toNat_previous]
  omega

end Address

theorem Memory.readWord_congr (memory : Memory) (left right : Address) (same : left.Congruent right) :
    memory.readWord left = memory.readWord right := by
  rw [← readWord_wrap, Address.wrap_congr left right same, readWord_wrap]

/-- Two answers with related values or with one fault. -/
inductive Agree {α : Type} (relation : α → α → Prop) : Except Fault α → Except Fault α → Prop
  | ok (left right : α) (related : relation left right) : Agree relation (.ok left) (.ok right)
  | error (fault : Fault) : Agree relation (.error fault) (.error fault)

theorem Agree.bind {α β : Type} {relation : α → α → Prop} {result : β → β → Prop}
    {left right : Except Fault α} {leftNext rightNext : α → Except Fault β}
    (first : Agree relation left right)
    (next : ∀ a b, relation a b → Agree result (leftNext a) (rightNext b)) :
    Agree result (left >>= leftNext) (right >>= rightNext) := by
  cases first with
  | ok a b related => exact next a b related
  | error fault => exact .error fault

/-- Stacks of one depth whose slots hold congruent addresses, also the slots above the depth. -/
structure CallStack.Congruent (left right : CallStack) : Prop where
  depth : left.depth = right.depth
  slots : ∀ slot (inside : slot < 16), Address.Congruent left.slots[slot] right.slots[slot]

/-- Machines that hold congruent addresses and agree in everything else. -/
structure Machine.Congruent (left right : Machine) : Prop where
  index : left.index.Congruent right.index
  pc : left.pc.Congruent right.pc
  stack : left.stack.Congruent right.stack
  rest : right = { left with index := right.index, pc := right.pc, stack := right.stack }

namespace CallStack

variable (left right : CallStack) (same : left.Congruent right)

include same

theorem push?_congr (address other : Address) (congruent : address.Congruent other) :
    Option.Rel Congruent (left.push? address) (right.push? other) := by
  obtain ⟨slots, depth⟩ := left
  obtain ⟨others, count⟩ := right
  obtain ⟨rfl, slots⟩ := same
  unfold push?
  dsimp only at slots ⊢
  split
  next room =>
    refine .some ⟨rfl, fun slot inside => ?_⟩
    simp only [Vector.getElem_set]
    split
    · exact congruent
    · exact slots slot inside
  next => exact .none

theorem pop?_congr :
    Option.Rel (fun popped other => popped.1.Congruent other.1 ∧ popped.2.Congruent other.2)
      left.pop? right.pop? := by
  obtain ⟨slots, depth⟩ := left
  obtain ⟨others, count⟩ := right
  obtain ⟨rfl, slots⟩ := same
  unfold pop?
  dsimp only at slots ⊢
  split
  next => exact .none
  next filled =>
    refine .some ⟨?_, rfl, slots⟩
    dsimp only
    by_cases inside : depth.toNat - 1 < 16
    · rw [Vector.getElem?_eq_getElem inside, Vector.getElem?_eq_getElem inside]
      exact slots _ inside
    · rw [Vector.getElem?_eq_none (Nat.le_of_not_lt inside), Vector.getElem?_eq_none (Nat.le_of_not_lt inside)]
      rfl

end CallStack

namespace Machine

section

variable (left right : Machine) (same : left.Congruent right)

include same

theorem register_congr (x : Register) : left.register x = right.register x := by
  rw [same.rest]
  rfl

theorem memory_congr : left.memory = right.memory := by
  rw [same.rest]

theorem keypad_congr : left.keypad = right.keypad := by
  rw [same.rest]

theorem goTo_congr (pc other : Address) (congruent : pc.Congruent other) :
    Congruent { left with pc } { right with pc := other } := by
  rw [same.rest]
  exact ⟨same.index, congruent, same.stack, rfl⟩

theorem point_congr (index other : Address) (congruent : index.Congruent other) :
    Congruent { left with index } { right with index := other } := by
  rw [same.rest]
  exact ⟨congruent, same.pc, same.stack, rfl⟩

theorem store_congr (memory : Memory) : Congruent { left with memory } { right with memory } := by
  rw [same.rest]
  exact ⟨same.index, same.pc, same.stack, rfl⟩

theorem setRegister_congr (x : Register) (value : UInt8) :
    (left.setRegister x value).Congruent (right.setRegister x value) := by
  rw [same.rest]
  exact ⟨same.index, same.pc, same.stack, rfl⟩

theorem next_congr : Congruent { left with pc := left.pc.next } { right with pc := right.pc.next } :=
  goTo_congr left right same _ _ (.of_eq (Address.next_congr _ _ same.pc))

theorem origin_congr : left.origin = right.origin := Address.previous_congr _ _ same.pc

theorem fetch_congr : left.fetch.1 = right.fetch.1 ∧ left.fetch.2.Congruent right.fetch.2 := by
  refine ⟨?_, next_congr left right same⟩
  rw [fetch_word, fetch_word, memory_congr left right same]
  exact right.memory.readWord_congr _ _ same.pc

theorem skipWhen_congr (condition : Bool) :
    (left.skipWhen condition).Congruent (right.skipWhen condition) := by
  cases condition with
  | false => exact same
  | true => exact next_congr left right same

theorem push_congr (address other : Address) (congruent : address.Congruent other) :
    Agree Congruent (left.push address) (right.push other) := by
  have pushed := CallStack.push?_congr _ _ same.stack address other congruent
  unfold push
  rw [origin_congr left right same]
  generalize left.stack.push? address = mine, right.stack.push? other = yours at pushed
  cases pushed with
  | none => exact .error _
  | some related =>
    rw [same.rest]
    exact .ok _ _ ⟨same.index, same.pc, related, rfl⟩

theorem pop_congr :
    Agree (fun popped other => popped.1.Congruent other.1 ∧ popped.2.Congruent other.2)
      left.pop right.pop := by
  have popped := CallStack.pop?_congr _ _ same.stack
  unfold pop
  rw [origin_congr left right same]
  generalize left.stack.pop? = mine, right.stack.pop? = yours at popped
  cases popped with
  | none => exact .error _
  | some related =>
    rw [same.rest]
    exact .ok _ _ ⟨related.1, same.index, same.pc, related.2, rfl⟩

theorem deliver_congr (key : UInt8) : (left.deliver key).Congruent (right.deliver key) := by
  have awaiting : left.awaiting = right.awaiting := by rw [same.rest]
  have next := Address.next_congr _ _ same.pc
  unfold deliver
  rw [awaiting, next]
  cases right.awaiting with
  | none => exact same
  | some x =>
    rw [same.rest]
    exact ⟨same.index, rfl, same.stack, rfl⟩

theorem compute_congr (operation : Arithmetic) (x y : Register) :
    (left.compute operation x y).Congruent (right.compute operation x y) := by
  simp only [compute, register_congr left right same]
  have computed := setRegister_congr left right same x
    (operation.result (right.register x) (right.register y))
  split
  · exact setRegister_congr _ _ computed _ _
  · exact computed

theorem holds_congr (condition : Condition) : left.holds condition = right.holds condition := by
  cases condition with
  | _ => simp only [holds, register_congr left right same, keypad_congr left right same]

/-- The bytes from the index on are the same bytes. -/
theorem read_congr (offset : Address) :
    left.memory.read (left.index + offset) = right.memory.read (right.index + offset) := by
  rw [memory_congr left right same]
  exact right.memory.read_congr _ _ (Address.add_congr _ _ _ same.index)

theorem draw_congr (x y : Register) (height : Nat) :
    (left.draw x y height).Congruent (right.draw x y height) := by
  have sprite : left.sprite x y height = right.sprite x y height := by
    simp only [sprite, read_congr left right same, register_congr left right same]
  unfold draw
  rw [sprite, same.rest]
  exact ⟨same.index, same.pc, same.stack, rfl⟩

theorem awaitKey_congr (x : Register) : (left.awaitKey x).Congruent (right.awaitKey x) := by
  unfold awaitKey
  rw [origin_congr left right same, keypad_congr left right same]
  cases right.keypad.lowest? with
  | some key => exact setRegister_congr left right same _ _
  | none =>
    rw [same.rest]
    exact ⟨same.index, rfl, same.stack, rfl⟩

theorem advanceIndex_congr (count : Nat) :
    (left.advanceIndex count).Congruent (right.advanceIndex count) :=
  point_congr left right same _ _ (.of_eq (Address.wrap_congr _ _ (Address.add_congr _ _ _ same.index)))

theorem writeAll_congr (values : List UInt8) :
    Congruent { left with memory := left.memory.writeAll left.index values }
      { right with memory := right.memory.writeAll right.index values } := by
  rw [memory_congr left right same, right.memory.writeAll_congr _ _ values same.index]
  exact store_congr left right same _

theorem restore_congr (x : Register) : (left.restore x).Congruent (right.restore x) := by
  simp only [restore, read_congr left right same, register_congr left right same]
  rw [same.rest]
  exact ⟨same.index, same.pc, same.stack, rfl⟩

theorem execute_congr (source : WordSource) (instruction : Instruction) :
    Agree Congruent (left.execute source instruction) (right.execute source instruction) := by
  cases instruction with
  | ret =>
    refine (pop_congr left right same).bind ?_
    rintro ⟨address, popped⟩ ⟨other, twin⟩ ⟨congruent, after⟩
    exact .ok _ _ (goTo_congr popped twin after _ _ congruent)
  | call target =>
    refine (push_congr left right same _ _ same.pc).bind ?_
    intro pushed twin after
    exact .ok _ _ (goTo_congr pushed twin after _ _ rfl)
  | jump target => exact .ok _ _ (goTo_congr left right same _ _ rfl)
  | jumpFromV0 target =>
    simp only [execute, register_congr left right same]
    exact .ok _ _ (goTo_congr left right same _ _ rfl)
  | skip condition =>
    simp only [execute, holds_congr left right same]
    exact .ok _ _ (skipWhen_congr left right same _)
  | compute operation x y => exact .ok _ _ (compute_congr left right same operation x y)
  | draw x y height => exact .ok _ _ (draw_congr left right same x y height.val)
  | awaitKey x => exact .ok _ _ (awaitKey_congr left right same x)
  | setIndex target => exact .ok _ _ (point_congr left right same _ _ rfl)
  | pointToGlyph x =>
    simp only [execute, register_congr left right same]
    exact .ok _ _ (point_congr left right same _ _ rfl)
  | advanceIndex x =>
    simp only [execute, register_congr left right same]
    exact .ok _ _ (advanceIndex_congr left right same _)
  | storeDecimal x =>
    simp only [execute, register_congr left right same]
    exact .ok _ _ (writeAll_congr left right same _)
  | storeRegisters x =>
    have registers : left.leadingRegisters x = right.leadingRegisters x := by
      rw [same.rest]
      rfl
    simp only [execute, registers]
    exact .ok _ _ (advanceIndex_congr _ _ (writeAll_congr left right same _) _)
  | restoreRegisters x =>
    exact .ok _ _ (advanceIndex_congr _ _ (restore_congr left right same x) _)
  | clearScreen | load | increase | random | readDelay | setDelay | setSound =>
    rw [same.rest]
    exact .ok _ _ ⟨same.index, same.pc, same.stack, rfl⟩

/-- The results of a cycle that starts on congruent machines. -/
theorem executeNext_congr (source : WordSource) :
    (left.executeNext source).1 = (right.executeNext source).1 ∧
      (left.executeNext source).2.1.Congruent (right.executeNext source).2.1 ∧
      (left.executeNext source).2.2 = (right.executeNext source).2.2 := by
  obtain ⟨word, fetched⟩ := fetch_congr left right same
  simp only [executeNext, word]
  rw [origin_congr _ _ fetched]
  cases Instruction.decode right.fetch.1 with
  | none => exact ⟨rfl, fetched, rfl⟩
  | some instruction =>
    have executed := execute_congr _ _ fetched source instruction
    dsimp only
    generalize left.fetch.2.execute source instruction = mine,
      right.fetch.2.execute source instruction = yours at executed
    cases executed with
    | error fault => exact ⟨rfl, fetched, rfl⟩
    | ok next twin after =>
      have awaiting : next.awaiting = twin.awaiting := by rw [after.rest]
      dsimp only
      rw [awaiting]
      exact ⟨rfl, after, rfl⟩

theorem step_congr (source : WordSource) :
    (left.step source).1 = (right.step source).1 ∧
      (left.step source).2.1.Congruent (right.step source).2.1 ∧
      (left.step source).2.2 = (right.step source).2.2 := by
  have awaiting : left.awaiting = right.awaiting := by rw [same.rest]
  unfold step sample
  rw [awaiting, keypad_congr left right same]
  cases right.awaiting with
  | none => exact executeNext_congr left right same source
  | some x =>
    cases right.keypad.lowest? with
    | none => exact ⟨rfl, same, rfl⟩
    | some key => exact ⟨rfl, deliver_congr left right same _, rfl⟩

end

/-- Whatever a machine does with its addresses, congruent machines do alike: they give the same answers, the
addresses that faults name included, and are congruent afterwards. -/
theorem addresses_modulo (left right : Machine) (source : WordSource) (same : left.Congruent right) :
    (∀ address other, address.Congruent other →
      left.memory.read address = right.memory.read other ∧
      ∀ value, Congruent { left with memory := left.memory.write address value }
        { right with memory := right.memory.write other value }) ∧
    (left.fetch.1 = right.fetch.1 ∧ left.fetch.2.Congruent right.fetch.2) ∧
    left.origin = right.origin ∧
    (∀ condition, (left.skipWhen condition).Congruent (right.skipWhen condition)) ∧
    (∀ address other, address.Congruent other →
      Agree Congruent (left.push address) (right.push other)) ∧
    Agree (fun popped other => popped.1.Congruent other.1 ∧ popped.2.Congruent other.2)
      left.pop right.pop ∧
    left.keypad.lowest? = right.keypad.lowest? ∧
    (∀ key, (left.deliver key).Congruent (right.deliver key)) ∧
    ((left.executeNext source).1 = (right.executeNext source).1 ∧
      (left.executeNext source).2.1.Congruent (right.executeNext source).2.1 ∧
      (left.executeNext source).2.2 = (right.executeNext source).2.2) ∧
    ((left.step source).1 = (right.step source).1 ∧
      (left.step source).2.1.Congruent (right.step source).2.1 ∧
      (left.step source).2.2 = (right.step source).2.2) := by
  refine ⟨?_, fetch_congr left right same, origin_congr left right same, skipWhen_congr left right same,
    push_congr left right same, pop_congr left right same, ?_, deliver_congr left right same,
    executeNext_congr left right same source, step_congr left right same source⟩
  · intro address other congruent
    rw [memory_congr left right same]
    refine ⟨right.memory.read_congr _ _ congruent, fun value => ?_⟩
    rw [right.memory.write_congr _ _ value congruent]
    exact store_congr left right same _
  · rw [keypad_congr left right same]

/-- A machine whose stack is full of one address. -/
private def filled (memory : Memory) (index pc entry : Address) : Machine :=
  { initial with index, pc, memory, stack := ⟨Vector.replicate 16 entry, 16⟩ }

private theorem filled_congruent (memory : Memory) :
    (filled memory 0xF010 0xFFFF 0x1234).Congruent (filled memory 0x010 0xFFF 0x234) := by
  have indices : Address.Congruent 0xF010 0x010 := by decide
  have counters : Address.Congruent 0xFFFF 0xFFF := by decide
  have entries : Address.Congruent 0x1234 0x234 := by decide
  refine ⟨indices, counters, ⟨rfl, fun slot inside => ?_⟩, rfl⟩
  simpa only [filled, Vector.getElem_replicate] using entries

/-- The word of this call lies in the last cell and the first one. -/
private theorem executeNext_filled (memory : Memory) (source : WordSource)
    (stored : memory.readWord 0xFFF = Instruction.encode (.call 0xAF0)) :
    ((filled memory 0x010 0xFFF 0x234).executeNext source).1 = .faulted (.stackOverflow 0xFFF) := by
  have word : (filled memory 0x010 0xFFF 0x234).fetch.1 = Instruction.encode (.call 0xAF0) := stored
  have edge : Address.wrap 0xFFF = 0xFFF := by decide
  have origin : (filled memory 0x010 0xFFF 0x234).fetch.2.origin = 0xFFF := (origin_fetch _).trans edge
  have raised : (filled memory 0x010 0xFFF 0x234).fetch.2.execute source (.call 0xAF0) =
      .error (.stackOverflow 0xFFF) :=
    (execute_eq_error_iff _ _ _ _).mpr (Or.inr ⟨⟨_, rfl⟩, Nat.le_refl 16, by rw [origin]⟩)
  simp only [executeNext, word, Instruction.decode_encode, raised]

/-- The program counters are the two edges at which addresses wrap, of sixteen bits and of twelve. -/
theorem addresses_modulo_wrapped :
    let memory := Memory.initial.write 0xFFF 0x2A
    let left := filled memory 0xF010 0xFFFF 0x1234
    let right := filled memory 0x010 0xFFF 0x234
    left.Congruent right ∧ (left.executeNext (.cycle [7])).1 = .faulted (.stackOverflow 0xFFF) ∧
      (left.executeNext (.cycle [7])).2.1.Congruent (right.executeNext (.cycle [7])).2.1 := by
  have stored : (Memory.initial.write 0xFFF 0x2A).readWord 0xFFF = Instruction.encode (.call 0xAF0) := by
    apply UInt16.toNat_inj.mp
    rw [Memory.toNat_readWord, Memory.read_write, Memory.read_write, if_pos rfl, if_neg (by decide),
      Memory.read_initial]
    rfl
  generalize Memory.initial.write 0xFFF 0x2A = memory at stored
  intro memory left right
  have same : left.Congruent right := filled_congruent memory
  obtain ⟨-, -, -, -, -, -, -, -, ⟨outcome, after, -⟩, -⟩ := addresses_modulo left right (.cycle [7]) same
  exact ⟨same, outcome.trans (executeNext_filled memory _ stored), after⟩

end Machine

end ChipEight
