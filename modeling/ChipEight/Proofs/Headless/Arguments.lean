import ChipEight.Headless.Arguments

/-! Command lines that ask for given options. A number written in decimal digits reads back as itself, so
every choice of options can be asked for. -/

namespace ChipEight.Headless

theorem digits?_toDigits (value : Nat) : digits? (Nat.toDigits 10 value) = some value := by
  have digits : (Nat.toDigits 10 value).all Char.isDigit = true := by
    rw [List.all_eq_true]
    intro digit member
    exact Nat.isDigit_of_mem_toDigits (by decide) (by decide) member
  have nonempty : (Nat.toDigits 10 value).isEmpty = false := by
    simp [Nat.toDigits_ne_nil]
  rw [digits?, digits, nonempty]
  exact congrArg some Nat.ofDigitChars_ten_toDigits

/-- The digits of a number begin with no sign. -/
theorem toDigits_ne_sign (value : Nat) (sign : Char) (rest : List Char) (noDigit : sign.isDigit = false) :
    Nat.toDigits 10 value ≠ sign :: rest := by
  intro same
  have digit : sign.isDigit = true := by
    apply Nat.isDigit_of_mem_toDigits (n := value) (b := 10) (by decide) (by decide)
    rw [same]
    exact List.mem_cons_self
  rw [noDigit] at digit
  contradiction

theorem count?_repr (count : UInt32) : count? count.toNat.repr = some count := by
  have small : decide (count.toNat < UInt32.size) = true := decide_eq_true count.toNat_lt
  unfold count?
  rw [Nat.toList_repr]
  split
  next rest signed => exact absurd signed (toDigits_ne_sign _ _ _ (by decide))
  next rest signed => exact absurd signed (toDigits_ne_sign _ _ _ (by decide))
  next =>
    simp only [digits?_toDigits, Option.filter_some, if_pos small, Option.map_some,
      UInt32.ofNat_toNat]

theorem seed?_repr (seed : UInt64) : seed? seed.toNat.repr = some seed := by
  have small : decide (seed.toNat < UInt64.size) = true := decide_eq_true seed.toNat_lt
  unfold seed?
  rw [Nat.toList_repr]
  split
  next rest signed => exact absurd signed (toDigits_ne_sign _ _ _ (by decide))
  next =>
    simp only [digits?_toDigits, Option.filter_some, if_pos small, Option.map_some,
      UInt64.ofNat_toNat]

theorem ofText_repr (value : Nat) : Argument.ofText value.repr = .value value.repr := by
  unfold Argument.ofText
  rw [Nat.toList_repr]
  split
  next signed => exact absurd signed (toDigits_ne_sign _ _ _ (by decide))
  next rest signed => exact absurd signed (toDigits_ne_sign _ _ _ (by decide))
  next second rest signed => exact absurd signed (toDigits_ne_sign _ _ _ (by decide))
  next => rfl

theorem readArguments_option (draft next : Draft) (name text option : String) (rest : List String)
    (isOption : Argument.ofText option = .option name none)
    (isValue : Argument.ofText text = .value text) (set : draft.setOption name text = .ok next) :
    readArguments draft (option :: text :: rest) = readArguments next rest := by
  rw [readArguments, isOption]
  simp only [isValue, set]
  rfl

/-- An option that may be left out. -/
def ask (option : String) (number : Option Nat) : List String :=
  number.elim [] fun value => [option, value.repr]

theorem readArguments_ask {α : Type} (draft : Draft) (change : Option α → Draft)
    (name option : String) (number : α → Nat) (choice : Option α) (rest : List String)
    (isOption : Argument.ofText option = .option name none) (unchanged : change none = draft)
    (set : ∀ value, draft.setOption name (number value).repr = .ok (change (some value))) :
    readArguments draft (ask option (choice.map number) ++ rest) =
      readArguments (change choice) rest := by
  cases choice with
  | none => rw [unchanged]; rfl
  | some value =>
    exact readArguments_option draft _ name _ option rest isOption (ofText_repr _) (set value)

/-- A command line that asks for options. -/
def commandLine (path : String) (instructions : Option UInt32) (seed : Option UInt64)
    (frames : Option UInt32) : List String :=
  path :: (ask "--ipf" (instructions.map UInt32.toNat) ++
    (ask "--seed" (seed.map UInt64.toNat) ++ (ask "--frames" (frames.map UInt32.toNat) ++ [])))

/-- Whatever options are asked for are read from the command line that asks for them. -/
theorem readArguments_commandLine (path : String) (instructions : Option UInt32) (seed : Option UInt64)
    (frames : Option UInt32) (plain : Argument.ofText path = .value path)
    (named : path.isEmpty = false) :
    readArguments {} (commandLine path instructions seed frames) =
      .ok ⟨some path, instructions, seed, frames⟩ := by
  have first : Draft.setImage {} path = .ok ⟨some path, none, none, none⟩ := by
    simp [Draft.setImage, named]
  have second (value : UInt32) : Draft.setOption ⟨some path, none, none, none⟩ "ipf" value.toNat.repr =
      .ok ⟨some path, some value, none, none⟩ := by
    simp only [Draft.setOption, count?_repr]
    rfl
  have third (value : UInt64) :
      Draft.setOption ⟨some path, instructions, none, none⟩ "seed" value.toNat.repr =
        .ok ⟨some path, instructions, some value, none⟩ := by
    simp only [Draft.setOption, seed?_repr]
    rfl
  have fourth (value : UInt32) :
      Draft.setOption ⟨some path, instructions, seed, none⟩ "frames" value.toNat.repr =
        .ok ⟨some path, instructions, seed, some value⟩ := by
    simp only [Draft.setOption, count?_repr]
    rfl
  rw [commandLine, readArguments, plain]
  simp only [first]
  change readArguments ⟨some path, none, none, none⟩ _ = _
  rw [readArguments_ask _ (fun choice => ⟨some path, choice, none, none⟩) "ipf" "--ipf"
      UInt32.toNat instructions _ rfl rfl second,
    readArguments_ask _ (fun choice => ⟨some path, instructions, choice, none⟩) "seed" "--seed"
      UInt64.toNat seed _ rfl rfl third,
    readArguments_ask _ (fun choice => ⟨some path, instructions, seed, choice⟩) "frames" "--frames"
      UInt32.toNat frames _ rfl rfl fourth]
  rfl

example : commandLine "rom.ch8" (some 12) none (some 3) =
    ["rom.ch8", "--ipf", "12", "--frames", "3"] := by rfl

end ChipEight.Headless
