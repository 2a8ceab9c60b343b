import CodeView.Files

/-!
# Directories

A `Directory` holds files and directories by the names that lead to them. Paths are texts with
slashes; an empty name and `.` stay where they are, `..` goes up, and a name in the middle must be
that of a directory. What lies around the directory is not known: there are directories there, and
nothing in them.

* `Directory.find` looks at a path, and `Directory.files` is the directory as the files of a program
  that works in it;
* `Directory.write?` makes a file or directory, with the directories above it, unless something
  stands in the way;
* `Directory.remove` removes files only.
-/

namespace CodeView

/-- The contents of a directory, by the names that lead to each. -/
structure Directory where
  entries : List (List String × FileEntry)
  deriving DecidableEq, Repr

/-- Where a path leads: to names inside a directory, or to a directory around it. -/
inductive Spot where
  | inside (names : List String)
  | around
  deriving DecidableEq, Repr

namespace Directory

/-- A directory without contents. -/
def empty : Directory := ⟨[]⟩

/-- The names of a path. -/
def names (path : String) : List String :=
  path.splitOn "/"

/-- Whether a name or path is longer than a file system takes, the limit being left out. -/
def isTooLong (limit : Nat) (name : String) : Bool :=
  limit ≤ name.utf8ByteSize

/-- A name has fewer bytes. -/
def nameLimit : Nat := 256

/-- A path has fewer bytes. -/
def pathLimit : Nat := 4096

/-- What stands at the end of a list of names. -/
def entry? (d : Directory) (names : List String) : Option FileEntry :=
  if names.isEmpty then some .directory
  else (d.entries.find? fun e => e.1 == names).map (·.2)

/-- What stands at a spot. -/
def entryAt (d : Directory) : Spot → Except FileError FileEntry
  | .around => .ok .directory
  | .inside names =>
    match d.entry? names with
    | some e => .ok e
    | none => .error .notFound

/-- The spot that a name leads to from a directory. -/
def step (spot : Spot) (name : String) : Except FileError Spot :=
  if name = "" ∨ name = "." then .ok spot
  else if name = ".." then
    match spot with
    | .inside (n :: ns) => .ok (.inside (n :: ns).dropLast)
    | _ => .ok .around
  else if isTooLong nameLimit name then .error .nameTooLong
  else
    match spot with
    | .inside names => .ok (.inside (names ++ [name]))
    | .around => .error .notFound

/-- Follows names from a spot on. -/
def follow (d : Directory) : Spot → List String → Except FileError Spot
  | spot, [] => .ok spot
  | spot, name :: rest => do
    match ← d.entryAt spot with
    | .file _ _ => throw .notDirectory
    | .directory => d.follow (← step spot name) rest

/-- Where a path leads that starts in the directory. A path may also start with `here`, which is how
the directory itself is called, and one that starts with a slash comes from outside. -/
def locate (d : Directory) (here path : String) : Except FileError Spot :=
  if path.isEmpty then .error .notFound
  else if isTooLong pathLimit path then .error .nameTooLong
  else
    match names path with
    | "" :: rest => d.follow .around rest
    | first :: rest => d.follow (.inside []) (if first = here then rest else first :: rest)
    | [] => .error .notFound

/-- What stands at a path. -/
def find (d : Directory) (here path : String) : Except FileError FileEntry := do
  d.entryAt (← d.locate here path)

/-- The files of a program that works in the directory, which is called `here`. -/
def files (d : Directory) (here : String) : Files :=
  ⟨d.find here⟩

/-- Puts an entry in the place of what stands at its names. -/
def put (d : Directory) (names : List String) (e : FileEntry) : Directory :=
  ⟨(names, e) :: d.entries.filter fun x => x.1 != names⟩

/-- Follows names from a spot on and makes the directories that are missing. -/
def reach? (d : Directory) : Spot → List String → Option (Directory × Spot)
  | spot, [] => some (d, spot)
  | spot, name :: rest =>
    match step spot name with
    | .error _ => none
    | .ok .around => none
    | .ok (.inside names) =>
      match d.entry? names with
      | some .directory => d.reach? (.inside names) rest
      | some (.file _ _) => none
      | none => (d.put names .directory).reach? (.inside names) rest

/-- Whether the last name of a path, slashes at its end aside, is `.`. -/
def endsInDot (path : String) : Bool :=
  (names path).reverse.find? (· != "") == some "."

/-- Makes a directory, with those above it. A path that ends in `.` does not make the directory it
leads to: only those above it are made, and it has to be there. -/
def makeDirectory? (d : Directory) (path : String) : Option Directory := do
  if endsInDot path then
    let steps := (names path).filter fun name => name != "" && name != "."
    let (d, spot) ← d.reach? (.inside []) steps.dropLast
    let spot ← (d.follow spot steps.getLast?.toList).toOption
    match d.entryAt spot with
    | .ok .directory => return d
    | _ => none
  else
    let (d, _) ← d.reach? (.inside []) (names path)
    return d

/-- Writes a file, with the directories above it. The last name of the path is that of the file. -/
def writeFile? (d : Directory) (path : String) (file : FileEntry) : Option Directory := do
  let last ← (names path).getLast?
  if last = "" ∨ last = "." ∨ last = ".." then none
  let (d, spot) ← d.reach? (.inside []) (names path).dropLast
  match step spot last with
  | .ok (.inside names) => if d.entry? names = some .directory then none else d.put names file
  | _ => none

/-- Writes an entry, with the directories above it, unless the path is no path inside the directory
or something stands in the way. -/
def write? (d : Directory) (path : String) (e : FileEntry) : Option Directory :=
  if path.startsWith "/" || path.contains '\x00' || isTooLong pathLimit path then none
  else
    match e with
    | .directory => d.makeDirectory? path
    | e => d.writeFile? path e

/-- Removes the file at a path, if there is one. -/
def remove (d : Directory) (path : String) : Directory :=
  match d.locate "" path with
  | .ok (.inside names) => ⟨d.entries.filter fun e => e.1 != names || e.2 == .directory⟩
  | _ => d

end Directory

end CodeView
