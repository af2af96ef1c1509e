/-! A history of bounded depth, the newest entry first. Recording in a full history drops the oldest entry,
and a history of depth zero records nothing. -/

namespace ChipEight

abbrev History (α : Type) := List α

namespace History

variable {α : Type}

def record (depth : Nat) (entry : α) (history : History α) : History α :=
  (entry :: history).take depth

/-- Recording entry by entry: nothing is recorded without a depth, and the oldest entry is dropped first only
where the history is full. -/
def save (depth : Nat) (entry : α) (history : History α) : History α :=
  if depth = 0 then history
  else entry :: if history.length = depth then history.dropLast else history

theorem length_record (depth : Nat) (entry : α) (history : History α) :
    (record depth entry history).length = min depth (history.length + 1) := by
  simp [record]

theorem record_zero (entry : α) (history : History α) : record 0 entry history = [] := rfl

/-- A history that was within its depth before stays so either way. -/
theorem save_eq_record (depth : Nat) (entry : α) (history : History α)
    (within : history.length ≤ depth) : save depth entry history = record depth entry history := by
  cases depth with
  | zero =>
    obtain rfl := List.eq_nil_of_length_eq_zero (Nat.le_zero.mp within)
    rfl
  | succ depth =>
    rw [save, if_neg (Nat.succ_ne_zero depth), record, List.take_succ_cons]
    congr 1
    split
    next full => rw [List.dropLast_eq_take, full, Nat.add_sub_cancel]
    next spare => rw [List.take_of_length_le (by omega)]

/-- What a bounded history holds is a beginning of the unbounded one. -/
theorem record_take (depth count : Nat) (entry : α) (history : History α) (within : count ≤ depth) :
    record depth entry (history.take count) = (entry :: history).take (min (count + 1) depth) := by
  cases depth with
  | zero => simp [record]
  | succ depth =>
    simp only [record, List.take_succ_cons, List.take_take]
    rw [Nat.min_def, Nat.min_def]
    split <;> split <;> simp_all <;> omega

end History

end ChipEight
