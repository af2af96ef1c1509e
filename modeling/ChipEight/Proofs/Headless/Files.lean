import ChipEight.Proofs.Headless.Output

/-! Runs of images that stand in memory. A path names what its names lead to one after the other, and where they
lead nowhere the first of them that fails says why. A run succeeds exactly if the path of its image names a file
that fits, and of all the files that one alone decides what is printed. -/

namespace ChipEight.Headless

namespace Place

/-- Where one name leads. Only a directory leads anywhere, and the root leads up to itself. -/
inductive Enters (place : Place) : String → Place → Prop
  | stay {entries name} (directory : place.node = .directory entries) (blank : name = "" ∨ name = ".") :
      Enters place name place
  | top {entries} (directory : place.node = .directory entries) (root : place.above = []) :
      Enters place ".." place
  | up {entries nearest farther} (directory : place.node = .directory entries)
      (inside : place.above = nearest :: farther) : Enters place ".." ⟨nearest, farther⟩
  | down {entries name node} (directory : place.node = .directory entries)
      (plain : name ∉ ["", ".", ".."]) (short : name.utf8ByteSize ≤ 255)
      (found : entries.lookup name = some node) : Enters place name ⟨node, place.node :: place.above⟩

/-- Where names lead that are followed one after the other. -/
inductive Leads : Place → List String → Place → Prop
  | done (place : Place) : Leads place [] place
  | next {place between last name names} (first : Enters place name between)
      (rest : Leads between names last) : Leads place (name :: names) last

/-- Where the names of a path are followed from: the root if the path starts with a slash, so that its first
name is empty. -/
def start (place : Place) (path : String) : Place :=
  if (path.splitOn "/").head? = some "" then place.root else place

/-- What a path names. -/
def Names (place : Place) (path : String) (node : FileTree) : Prop :=
  path ≠ "" ∧ path.utf8ByteSize ≤ 4095 ∧
    ∃ above, Leads (place.start path) (path.splitOn "/") ⟨node, above⟩

/-- Why a path names nothing: its first name that cannot be followed. -/
def Strays (place : Place) (path : String) (failure : ReadFailure) : Prop :=
  path ≠ "" ∧ path.utf8ByteSize ≤ 4095 ∧
    ∃ before name after between, path.splitOn "/" = before ++ name :: after ∧
      Leads (place.start path) before between ∧ between.follow name = .error failure

theorem enters_parent (place : Place) (entries : List (String × FileTree))
    (directory : place.node = .directory entries) : Enters place ".." place.parent := by
  fun_cases parent place with
  | case1 root => exact .top directory root
  | case2 nearest farther inside => exact .up directory inside

theorem enters_of_follow (place next : Place) (name : String) (followed : place.follow name = .ok next) :
    Enters place name next := by
  revert followed
  fun_cases follow place name with
  | case1 | case4 | case5 => nofun
  | case2 entries directory blank =>
    rintro ⟨⟩
    exact .stay directory blank
  | case3 entries directory _ dots =>
    rintro ⟨⟩
    exact dots ▸ enters_parent place entries directory
  | case6 entries directory named noDots short node found =>
    rintro ⟨⟩
    refine .down directory ?_ (Nat.le_of_not_lt short) found
    simp only [List.mem_cons, List.not_mem_nil, or_false]
    rintro (empty | dot | dots)
    · exact named (Or.inl empty)
    · exact named (Or.inr dot)
    · exact noDots dots

theorem follow_of_enters (place next : Place) (name : String) (enters : Enters place name next) :
    place.follow name = .ok next := by
  cases enters with
  | stay directory blank => simp only [follow, directory, if_pos blank]
  | top directory root => simp [follow, directory, parent, root]
  | up directory inside => simp [follow, directory, parent, inside]
  | down directory plain short found =>
    simp only [List.mem_cons, List.not_mem_nil, or_false, not_or] at plain
    obtain ⟨empty, dot, dots⟩ := plain
    have fits : ¬ nameCapacity < name.utf8ByteSize := Nat.not_lt_of_le short
    simp only [follow, directory, if_neg (not_or.mpr ⟨empty, dot⟩), if_neg dots, if_neg fits, found]

theorem foldlM_follow_eq_ok_iff (names : List String) (place last : Place) :
    names.foldlM follow place = .ok last ↔ Leads place names last := by
  induction names generalizing place with
  | nil =>
    constructor
    · intro same
      obtain rfl := Except.ok.inj same
      exact .done place
    · rintro ⟨⟩
      rfl
  | cons name names ih =>
    rw [List.foldlM_cons]
    constructor
    · intro followed
      cases first : place.follow name with
      | error failure =>
        rw [first] at followed
        contradiction
      | ok between =>
        rw [first] at followed
        exact .next (enters_of_follow place between name first) ((ih between).mp followed)
    · rintro (_ | ⟨first, rest⟩)
      rw [follow_of_enters _ _ name first]
      exact (ih _).mpr rest

example (image : Array UInt8) : ["", "..", ".", "rom.ch8"].foldlM follow
    ⟨.directory [("rom.ch8", .file image)], []⟩ =
      .ok ⟨.file image, [.directory [("rom.ch8", .file image)]]⟩ := by rfl

/-- The names of a path fail as the first one does that leads nowhere. -/
theorem foldlM_follow_eq_error_iff (names : List String) (place : Place) (failure : ReadFailure) :
    names.foldlM follow place = .error failure ↔
      ∃ before name after between, names = before ++ name :: after ∧ Leads place before between ∧
        between.follow name = .error failure := by
  induction names generalizing place with
  | nil =>
    constructor
    · intro same
      contradiction
    · rintro ⟨before, name, after, -, split, -⟩
      simp at split
  | cons name names ih =>
    rw [List.foldlM_cons]
    constructor
    · intro failed
      cases first : place.follow name with
      | error other =>
        rw [first] at failed
        obtain rfl := Except.error.inj failed
        exact ⟨[], name, names, place, rfl, .done place, first⟩
      | ok between =>
        rw [first] at failed
        obtain ⟨before, bad, after, last, split, leads, fails⟩ := (ih between).mp failed
        have enters := enters_of_follow place between name first
        exact ⟨name :: before, bad, after, last, congrArg (name :: ·) split, .next enters leads, fails⟩
    · rintro ⟨before, bad, after, last, split, leads, fails⟩
      cases leads with
      | done =>
        obtain ⟨rfl, rfl⟩ := List.cons.inj split
        rw [fails]
        rfl
      | next enters rest =>
        obtain ⟨rfl, rfl⟩ := List.cons.inj split
        rw [follow_of_enters _ _ _ enters]
        exact (ih _).mpr ⟨_, bad, after, last, rfl, rest, fails⟩

theorem resolve_of_short (place : Place) (path : String) (named : path ≠ "")
    (short : path.utf8ByteSize ≤ 4095) :
    place.resolve path = (path.splitOn "/").foldlM follow (place.start path) := by
  have fits : ¬ pathCapacity < path.utf8ByteSize := Nat.not_lt_of_le short
  simp only [resolve, if_neg named, if_neg fits, start]

theorem resolve_ne_ok (place last : Place) (path : String)
    (refused : path = "" ∨ 4095 < path.utf8ByteSize) : place.resolve path ≠ .ok last := by
  rcases refused with rfl | long
  · nofun
  · have large : pathCapacity < path.utf8ByteSize := long
    simp only [resolve, if_pos large]
    split <;> nofun

theorem resolve_eq_ok_iff (place last : Place) (path : String) :
    place.resolve path = .ok last ↔
      path ≠ "" ∧ path.utf8ByteSize ≤ 4095 ∧ Leads (place.start path) (path.splitOn "/") last := by
  constructor
  · intro resolved
    have named : path ≠ "" := fun empty => resolve_ne_ok place last path (Or.inl empty) resolved
    have short : path.utf8ByteSize ≤ 4095 :=
      Nat.le_of_not_lt fun long => resolve_ne_ok place last path (Or.inr long) resolved
    rw [resolve_of_short place path named short] at resolved
    exact ⟨named, short, (foldlM_follow_eq_ok_iff _ _ last).mp resolved⟩
  · rintro ⟨named, short, leads⟩
    rw [resolve_of_short place path named short]
    exact (foldlM_follow_eq_ok_iff _ _ last).mpr leads

theorem read_eq_ok_iff (place : Place) (path : String) (content : Array UInt8) :
    place.read path = .ok content ↔ place.Names path (.file content) := by
  constructor
  · intro content
    cases resolved : place.resolve path with
    | error failure =>
      rw [read, resolved] at content
      contradiction
    | ok last =>
      obtain ⟨node, above⟩ := last
      rw [read, resolved] at content
      cases node with
      | file content =>
        obtain rfl := Except.ok.inj content
        obtain ⟨named, short, leads⟩ := (resolve_eq_ok_iff place _ path).mp resolved
        exact ⟨named, short, above, leads⟩
      | directory entries => contradiction
  · rintro ⟨named, short, above, leads⟩
    rw [read, (resolve_eq_ok_iff place _ path).mpr ⟨named, short, leads⟩]
    rfl

theorem read_of_strays (place : Place) (path : String) (failure : ReadFailure)
    (strays : place.Strays path failure) : place.read path = .error failure := by
  obtain ⟨named, short, stray⟩ := strays
  rw [read, resolve_of_short place path named short, (foldlM_follow_eq_error_iff _ _ failure).mpr stray]
  rfl

end Place

theorem Report.exitCode_failure_ne_zero (context cause : String) :
    (Report.failure context cause).exitCode ≠ 0 := by
  change (1 : UInt8) ≠ 0
  decide

theorem run_exitCode_eq_zero_iff (options : Options) (source : WordSource)
    (content : Except ReadFailure (Array UInt8)) :
    (run options source content).exitCode = 0 ↔
      ∃ image, content = .ok image ∧ image.size ≤ Memory.imageCapacity := by
  constructor
  · intro success
    cases content with
    | error failure => exact absurd success (Report.exitCode_failure_ne_zero _ _)
    | ok image =>
      by_cases fits : image.size ≤ Memory.imageCapacity
      · exact ⟨image, rfl, fits⟩
      · simp only [run, Console.load, if_neg fits] at success
        exact absurd success (Report.exitCode_failure_ne_zero _ _)
  · rintro ⟨image, rfl, fits⟩
    rw [run_of_fits options source image fits]
    rfl

/-- A run with the files of a tree succeeds exactly if the path of the image names a file that fits, and
then prints the screen that all frames of that image leave. A path that strays is reported with the reason of its
first name that cannot be followed. -/
theorem process_prints_named_image (arguments : List String) (chosen : UInt64) (place : Place)
    (options : Options) (parsed : Options.ofArguments arguments = .ok options) :
    let report := process (m := Id) arguments chosen place.read
    let fresh := Console.start options.settings (.ofSeed (options.settings.seed.getD chosen))
    (report.exitCode = 0 ↔
      ∃ image, place.Names options.image (.file image) ∧ image.size ≤ Memory.imageCapacity) ∧
    (∀ image, place.Names options.image (.file image) → image.size ≤ Memory.imageCapacity →
      report.output = (fresh.performAll
        (.load image :: List.replicate options.frames.toNat .frame)).2.machine.screen.text ++ "\n") ∧
    ∀ failure, place.Strays options.image failure →
      report = .failure ("unable to read " ++ options.image) failure.message := by
  intro report fresh
  have runs : report = run options (.ofSeed (options.settings.seed.getD chosen))
      (place.read options.image) := by
    simp only [report, process, processWith, parsed]
    rfl
  rw [runs]
  refine ⟨?_, ?_, ?_⟩
  · simp only [run_exitCode_eq_zero_iff, Place.read_eq_ok_iff]
  · intro image named fits
    rw [(Place.read_eq_ok_iff place options.image image).mpr named, run_of_fits _ _ image fits]
    rfl
  · intro failure strays
    rw [Place.read_of_strays place options.image failure strays]
    rfl

end ChipEight.Headless
