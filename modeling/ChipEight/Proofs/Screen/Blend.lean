import ChipEight.Proofs.Bounds.Drawing

/-! Screens under exclusive or. Marks that are put on a screen one after the other amount to a single mark, in
which their order does not count and two equal ones cancel. -/

namespace ChipEight.Screen

theorem xor_self (screen : Screen) : screen ^^^ screen = dark := by
  apply ext_pixel
  intro row column
  simp

theorem xor_left_comm (first second third : Screen) :
    first ^^^ (second ^^^ third) = second ^^^ (first ^^^ third) := by
  apply ext_pixel
  intro row column
  simp only [pixel_xor]
  exact Bool.xor_left_comm _ _ _

theorem xor_cancel_left (mark screen : Screen) : mark ^^^ (mark ^^^ screen) = screen := by
  apply ext_pixel
  intro row column
  simp

theorem xor_cancel_right (screen mark : Screen) : screen ^^^ mark ^^^ mark = screen := by
  rw [xor_assoc, xor_self, xor_dark]

/-- The mark that a list of marks amounts to. -/
def blend (marks : List Screen) : Screen := marks.foldr (· ^^^ ·) dark

theorem blend_cons (mark : Screen) (marks : List Screen) :
    blend (mark :: marks) = mark ^^^ blend marks := rfl

theorem blend_perm {marks others : List Screen} (permuted : marks.Perm others) :
    blend marks = blend others :=
  permuted.foldr_eq' (fun first _ second _ rest => xor_left_comm second first rest) dark

/-- Two equal marks cancel wherever they occur. -/
theorem blend_cancel (early middle late : List Screen) (mark : Screen) :
    blend (early ++ mark :: middle ++ mark :: late) = blend (early ++ middle ++ late) := by
  have second : (early ++ mark :: middle ++ mark :: late).Perm
      (mark :: (early ++ mark :: middle ++ late)) := List.perm_middle
  have first : (early ++ mark :: middle ++ late).Perm (mark :: (early ++ middle ++ late)) := by
    rw [List.append_assoc, List.append_assoc]
    exact List.perm_middle
  calc blend (early ++ mark :: middle ++ mark :: late)
      = mark ^^^ blend (early ++ mark :: middle ++ late) := by rw [blend_perm second, blend_cons]
    _ = mark ^^^ (mark ^^^ blend (early ++ middle ++ late)) := by rw [blend_perm first, blend_cons]
    _ = blend (early ++ middle ++ late) := xor_cancel_left mark _

end ChipEight.Screen
