/-! Files in memory, and what a path names among them. A path is followed name by name from a working
directory, or from the root if it starts with a slash; the first name that leads nowhere decides the
failure. -/

namespace ChipEight.Headless

/-- Why an image could not be read. Causes that have no name here keep the words of the system. -/
inductive ReadFailure
  | missing
  | notDirectory
  | isDirectory
  | nameTooLong
  | system (reason : String) (code : Nat)
  deriving DecidableEq, Repr

def ReadFailure.reason : ReadFailure → String
  | .missing => "No such file or directory"
  | .notDirectory => "Not a directory"
  | .isDirectory => "Is a directory"
  | .nameTooLong => "File name too long"
  | .system reason _ => reason

def ReadFailure.code : ReadFailure → Nat
  | .missing => 2
  | .notDirectory => 20
  | .isDirectory => 21
  | .nameTooLong => 36
  | .system _ code => code

def ReadFailure.message (failure : ReadFailure) : String :=
  failure.reason ++ " (os error " ++ toString failure.code ++ ")"

inductive FileTree
  | file (content : Array UInt8)
  | directory (entries : List (String × FileTree))

/-- A node of a tree with the directories above it, the nearest first. -/
structure Place where
  node : FileTree
  above : List FileTree

namespace Place

def root (place : Place) : Place := ⟨place.above.getLastD place.node, []⟩

/-- The directory above. The root is its own parent. -/
def parent (place : Place) : Place :=
  match place.above with
  | [] => place
  | nearest :: farther => ⟨nearest, farther⟩

/-- The most bytes that one name may have. -/
def nameCapacity : Nat := 255

/-- The most bytes that a whole path may have. -/
def pathCapacity : Nat := 4095

/-- Follows one name, which only a directory allows. An empty name stays, as between two slashes. -/
def follow (place : Place) (name : String) : Except ReadFailure Place :=
  match place.node with
  | .file _ => .error .notDirectory
  | .directory entries =>
    if name = "" ∨ name = "." then .ok place
    else if name = ".." then .ok place.parent
    else if nameCapacity < name.utf8ByteSize then .error .nameTooLong
    else match entries.lookup name with
      | none => .error .missing
      | some node => .ok ⟨node, place.node :: place.above⟩

def resolve (place : Place) (path : String) : Except ReadFailure Place :=
  if path = "" then .error .missing
  else if pathCapacity < path.utf8ByteSize then .error .nameTooLong
  else
    let names := path.splitOn "/"
    names.foldlM follow (if names.head? = some "" then place.root else place)

def read (place : Place) (path : String) : Except ReadFailure (Array UInt8) := do
  match (← place.resolve path).node with
  | .file content => .ok content
  | .directory _ => .error .isDirectory

end Place

end ChipEight.Headless
