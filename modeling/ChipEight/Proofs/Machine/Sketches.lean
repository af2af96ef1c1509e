import ChipEight.Proofs.Machine.Sprites
import ChipEight.Proofs.Screen.Blend

/-! Lists of words that draw. A word that does not take its corner from the flag register finds its sprite
unchanged by other drawing, so a list of such words puts one blended mark on the screen, however it is
ordered, and drawing a word twice takes it back. -/

namespace ChipEight

/-- A word that draws and whose corner no drawing overwrites. -/
def Word.Sketch (word : UInt16) : Prop :=
  Word.leading word = 0xD ∧ Word.x word ≠ .flag ∧ Word.y word ≠ .flag

instance (word : UInt16) : Decidable (Word.Sketch word) := inferInstanceAs (Decidable (_ ∧ _ ∧ _))

namespace Machine

variable (machine : Machine) (source : WordSource)

/-- The mark that a word which draws puts on the screen. -/
def stamp (word : UInt16) : Screen :=
  machine.sprite (Word.x word) (Word.y word) (Word.last word).val

/-- The machine after a word that draws. -/
def stamped (word : UInt16) : Machine :=
  machine.draw (Word.x word) (Word.y word) (Word.last word).val

theorem executeWord_sketch (word : UInt16) (sketch : Word.Sketch word) :
    machine.executeWord source word = .ok (machine.stamped word) := by
  have decoded : Instruction.decode word =
      some (.draw (Word.x word) (Word.y word) (Word.last word)) := by
    simp only [Instruction.decode, sketch.1]
  simp only [executeWord, decoded]
  rfl

theorem screen_stamped (word : UInt16) :
    (machine.stamped word).screen = machine.screen ^^^ machine.stamp word := rfl

/-- Drawing leaves memory, the index and the corners alone, hence every sprite. -/
theorem sprite_draw (x y z w : Register) (height other : Nat) (across : z ≠ .flag) (along : w ≠ .flag) :
    (machine.draw x y height).sprite z w other = machine.sprite z w other := by
  have left : (machine.draw x y height).register z = machine.register z := by
    rw [register_draw, if_neg across.symm]
  have top : (machine.draw x y height).register w = machine.register w := by
    rw [register_draw, if_neg along.symm]
  unfold sprite
  rw [left, top]
  rfl

theorem stamp_stamped (word other : UInt16) (sketch : Word.Sketch other) :
    (machine.stamped word).stamp other = machine.stamp other :=
  sprite_draw machine _ _ _ _ _ _ sketch.2.1 sketch.2.2

theorem executeWords_sketches (words : List UInt16) (sketches : ∀ word ∈ words, Word.Sketch word) :
    ∃ last, machine.executeWords source words = .ok last ∧
      last.screen = machine.screen ^^^ Screen.blend (words.map machine.stamp) := by
  induction words generalizing machine with
  | nil => exact ⟨machine, rfl, (Screen.xor_dark machine.screen).symm⟩
  | cons word rest ih =>
    have later : ∀ other ∈ rest, Word.Sketch other := fun other member =>
      sketches other (List.mem_cons_of_mem _ member)
    have first := machine.executeWord_sketch source word (sketches word List.mem_cons_self)
    have stamps : rest.map (machine.stamped word).stamp = rest.map machine.stamp :=
      List.map_congr_left fun other member => stamp_stamped machine word other (later other member)
    obtain ⟨last, executed, shown⟩ := ih (machine.stamped word) later
    refine ⟨last, ?_, ?_⟩
    · rw [executeWords_cons, first]
      exact executed
    · rw [shown, stamps, screen_stamped, Screen.xor_assoc, List.map_cons, Screen.blend_cons]

/-- Two lists of words run without a fault and leave the same screen. -/
def SameScreen (left right : List UInt16) : Prop :=
  ∃ first second, machine.executeWords source left = .ok first ∧
    machine.executeWords source right = .ok second ∧ first.screen = second.screen

theorem sameScreen_of_blend (left right : List UInt16) (first : ∀ word ∈ left, Word.Sketch word)
    (second : ∀ word ∈ right, Word.Sketch word)
    (blends : Screen.blend (left.map machine.stamp) = Screen.blend (right.map machine.stamp)) :
    machine.SameScreen source left right := by
  obtain ⟨early, ran, shown⟩ := machine.executeWords_sketches source left first
  obtain ⟨late, reran, shownAgain⟩ := machine.executeWords_sketches source right second
  exact ⟨early, late, ran, reran, by rw [shown, shownAgain, blends]⟩

/-- A sprite was drawn twice in a row. The screen is back; the first drawing reports the lit pixels that it
met and the second one the dark ones, so a sprite that has a pixel is reported at least once. -/
structure Retraces (once twice : Machine) (x y : Register) (height : Nat) : Prop where
  restored : twice.screen = machine.screen
  first : once.register .flag = 1 ↔ ∃ row column,
    machine.lights x y height row column = true ∧ machine.screen.pixel row column = true
  second : twice.register .flag = 1 ↔ ∃ row column,
    machine.lights x y height row column = true ∧ machine.screen.pixel row column = false
  reported : (∃ place < height, ∃ bit < 8,
      (machine.memory.read (.ofNat ((machine.index.toNat + place) % 4096))).toNat.testBit bit = true) →
    once.register .flag = 1 ∨ twice.register .flag = 1

theorem flag_draw_iff (x y : Register) (height : Nat) :
    (machine.draw x y height).register .flag = 1 ↔ ∃ row column,
      machine.lights x y height row column = true ∧ machine.screen.pixel row column = true := by
  have bit : ∀ met : Bool, met.toUInt8 = 1 ↔ met = true := by decide
  rw [register_draw, if_pos rfl, bit, overlaps_sprite_iff]
  simp only [and_comm]

/-- Every bit of the sprite's rows lights a pixel, since no sprite reaches around the screen to itself. -/
theorem lights_of_bit (x y : Register) (height place bit : Nat) (short : height ≤ 32)
    (reached : place < height) (inside : bit < 8)
    (set : (machine.memory.read (.ofNat ((machine.index.toNat + place) % 4096))).toNat.testBit bit =
      true) :
    ∃ row column, machine.lights x y height row column = true := by
  refine ⟨⟨((machine.register y).toNat + place) % 32, Nat.mod_lt _ (by decide)⟩,
    ⟨((machine.register x).toNat + (7 - bit)) % 64, Nat.mod_lt _ (by decide)⟩, ?_⟩
  have down : ((((((machine.register y).toNat + place) % 32 : Nat) : Int) -
      (machine.register y).toNat) % 32).toNat = place := by omega
  have right : ((((((machine.register x).toNat + (7 - bit)) % 64 : Nat) : Int) -
      (machine.register x).toNat) % 64).toNat = 7 - bit := by omega
  have mirrored : 7 - (7 - bit) = bit := by omega
  unfold lights
  dsimp only
  rw [down, right, if_pos ⟨reached, by omega⟩, mirrored]
  exact set

theorem draw_retraces (x y : Register) (height : Nat) (short : height ≤ 32) (across : x ≠ .flag)
    (along : y ≠ .flag) :
    machine.Retraces (machine.draw x y height) ((machine.draw x y height).draw x y height) x y
      height := by
  have sprite : (machine.draw x y height).sprite x y height = machine.sprite x y height :=
    sprite_draw machine x y x y height height across along
  have lights (row : Fin 32) (column : Fin 64) :
      (machine.draw x y height).lights x y height row column =
        machine.lights x y height row column := by
    rw [← pixel_sprite, sprite, pixel_sprite]
  have second : ((machine.draw x y height).draw x y height).register .flag = 1 ↔ ∃ row column,
      machine.lights x y height row column = true ∧ machine.screen.pixel row column = false := by
    rw [flag_draw_iff]
    constructor
    · rintro ⟨row, column, covered, lit⟩
      rw [lights] at covered
      rw [pixel_draw, covered, Bool.xor_true, Bool.not_eq_true'] at lit
      exact ⟨row, column, covered, lit⟩
    · rintro ⟨row, column, covered, dark⟩
      refine ⟨row, column, (lights row column).trans covered, ?_⟩
      rw [pixel_draw, covered, dark]
      rfl
  refine ⟨?_, flag_draw_iff machine x y height, second, ?_⟩
  · change (machine.screen ^^^ machine.sprite x y height) ^^^
      (machine.draw x y height).sprite x y height = machine.screen
    rw [sprite, Screen.xor_cancel_right]
  · rintro ⟨place, reached, bit, inside, set⟩
    obtain ⟨row, column, covered⟩ := machine.lights_of_bit x y height place bit short reached inside set
    rw [flag_draw_iff, second]
    cases lit : machine.screen.pixel row column with
    | true => exact Or.inl ⟨row, column, covered, lit⟩
    | false => exact Or.inr ⟨row, column, covered, lit⟩

/-- Words that draw commute and cancel in pairs, wherever the two of a pair stand. -/
theorem sketches_blend (words : List UInt16) (sketches : ∀ word ∈ words, Word.Sketch word) :
    (∀ permuted, words.Perm permuted → machine.SameScreen source words permuted) ∧
    (∀ early middle late word, words = early ++ word :: middle ++ word :: late →
      machine.SameScreen source words (early ++ middle ++ late)) ∧
    ∀ word ∈ words, ∃ once twice, machine.executeWord source word = .ok once ∧
      once.executeWord source word = .ok twice ∧
      machine.Retraces once twice (Word.x word) (Word.y word) (Word.last word).val := by
  refine ⟨?_, ?_, ?_⟩
  · intro permuted same
    exact machine.sameScreen_of_blend source words permuted sketches
      (fun word member => sketches word (same.mem_iff.mpr member))
      (Screen.blend_perm (same.map machine.stamp))
  · rintro early middle late word rfl
    have shorter : (early ++ middle ++ late).Sublist (early ++ word :: middle ++ word :: late) :=
      ((List.Sublist.refl early).append (List.sublist_cons_self word middle)).append
        (List.sublist_cons_self word late)
    refine machine.sameScreen_of_blend source _ _ sketches
      (fun other member => sketches other (shorter.subset member)) ?_
    simp only [List.map_append, List.map_cons]
    exact Screen.blend_cancel _ _ _ _
  · intro word member
    have sketch := sketches word member
    refine ⟨_, _, machine.executeWord_sketch source word sketch,
      (machine.stamped word).executeWord_sketch source word sketch, ?_⟩
    exact machine.draw_retraces _ _ _ (by omega) sketch.2.1 sketch.2.2

/-- Two sprites that overlap around the edges of the screen. -/
theorem sketches_blend_wrapped :
    let machine := Machine.initial.setRegister 0 62
    let source := WordSource.cycle [7]
    (∀ word ∈ [0xD015, 0xD105, 0xD015], Word.Sketch word) ∧
    machine.SameScreen source [0xD015, 0xD105, 0xD015] [0xD105, 0xD015, 0xD015] ∧
    machine.SameScreen source [0xD015, 0xD105, 0xD015] [0xD105] ∧
    ∃ once twice, machine.executeWord source 0xD015 = .ok once ∧
      once.executeWord source 0xD015 = .ok twice ∧ twice.screen = .dark ∧
      once.register .flag ≠ 1 ∧ twice.register .flag = 1 := by
  intro machine source
  have upright : Word.Sketch 0xD015 := by decide
  have swapped : Word.Sketch 0xD105 := by decide
  have sketches : ∀ word ∈ [0xD015, 0xD105, 0xD015], Word.Sketch word := by simp [upright, swapped]
  obtain ⟨commute, cancel, retrace⟩ := machine.sketches_blend source _ sketches
  obtain ⟨once, twice, first, second, retraces⟩ := retrace 0xD015 (by decide)
  have unmet : once.register .flag ≠ 1 := by
    intro met
    obtain ⟨row, column, -, lit⟩ := retraces.first.mp met
    rw [show machine.screen = .dark from rfl, Screen.pixel_dark] at lit
    exact Bool.false_ne_true lit
  have glyph : (machine.memory.read (.ofNat ((machine.index.toNat + 0) % 4096))).toNat.testBit 7 =
      true := by
    rw [show machine.memory = .initial from rfl, Memory.read_initial]
    decide
  have met := retraces.reported ⟨0, by decide, 7, by decide, glyph⟩
  exact ⟨sketches, commute _ (List.Perm.swap 0xD105 0xD015 [0xD015]),
    cancel [] [0xD105] [] 0xD015 rfl, once, twice, first, second, retraces.restored, unmet,
    met.resolve_left unmet⟩

end Machine

end ChipEight
