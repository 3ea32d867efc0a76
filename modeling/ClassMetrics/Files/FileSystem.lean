import ClassMetrics.Files.Tree

/-!
A file system: files, directories, symbolic links and devices, with the directory in which a program
runs. Paths are resolved as the operating system does it, name by name, with a limit on the links
followed. The system may refuse any operation, and it may break off a write. No file stands at two
places.
-/

namespace ClassMetrics

/-- The names that lead from the root of the file system to a place. -/
abbrev Location := List String

/-- The streams that a program writes to without opening them. -/
inductive Stream where
  | output
  | errors
  deriving DecidableEq, Repr

/-- What may stand at a place. The target of a link is a path from the directory of the link. What
is written to a device goes to a stream of the program or is lost. -/
inductive FileNode where
  | file (content : Bytes)
  | directory
  | link (target : String)
  | device (stream? : Option Stream) (content : Bytes)
  deriving DecidableEq, Repr

/-- What the system is asked for at a place. -/
inductive FileOperation where
  | search
  | list (step : ListingStep)
  | read
  | write
  deriving DecidableEq, Repr

/-- Places and what stands there. The directories that lead to the working directory need not be
listed. -/
structure FileSystem where
  nodes : List (Location × FileNode)
  workingDirectory : Location
  /-- Why an operation is refused at a place, if it is. -/
  refusal? : FileOperation → Location → Option IoFault
  /-- How many bytes of a content a place takes before the writing fails, if it does. -/
  shortfall? : Location → Bytes → Option (Nat × IoFault)

namespace FileSystem

/-- An empty working directory, in a system that refuses nothing. -/
def ofDirectory (workingDirectory : Location) : FileSystem where
  nodes := []
  workingDirectory := workingDirectory
  refusal? := fun _ _ => none
  shortfall? := fun _ _ => none

/-- The number of links that are followed in one path. -/
def maxLinks : Nat := 40

def find? (files : FileSystem) (place : Location) : Option FileNode :=
  if place.isPrefixOf files.workingDirectory then some .directory else files.nodes.lookup place

/-- Puts a node at a place, in the stead of what was there. -/
def put (files : FileSystem) (place : Location) (node : FileNode) : FileSystem :=
  { files with nodes := (place, node) :: files.nodes.filter fun entry => entry.1 ≠ place }

/-- Makes sure that there are directories at a place and above it. -/
def makeDirectories (files : FileSystem) (above : Location) : Location → FileSystem
  | [] => files
  | name :: names =>
      let place := above ++ [name]
      let files := if (files.find? place).isSome then files else files.put place .directory
      files.makeDirectories place names

/-- Puts a node at a place, in directories that are made if they are missing. -/
def add (files : FileSystem) (place : Location) (node : FileNode) : FileSystem :=
  (files.makeDirectories [] place.dropLast).put place node

/-- The names between slashes. -/
def components (path : String) : List String :=
  (path.toList.splitOn '/').map String.ofList

/-- All places where something stands. -/
def places (files : FileSystem) : List Location :=
  (List.range (files.workingDirectory.length + 1)).map files.workingDirectory.take ++
    files.nodes.map Prod.fst

/-- The names directly below a place. -/
def entries (files : FileSystem) (place : Location) : List String :=
  (files.places.filterMap fun other =>
    if other ≠ [] ∧ other.dropLast = place then other.getLast? else none).eraseDups

/-- The directory from which a path is walked that is met in the given one. -/
def origin (place : Location) (path : String) : Location :=
  if path.startsWith "/" then [] else place

/-- Where a path leads, from a directory on: the place, whether or not something stands there, and
how many links may still be followed. All names but the last one have to lead to directories, and a
trailing slash asks for a directory too. -/
def walk (files : FileSystem) (links : Nat) (place : Location) :
    List String → Except IoFault (Location × Nat)
  | [] => .ok (place, links)
  | name :: names =>
      if name = "" then walk files links place names
      else match files.refusal? .search place with
        | some fault => .error fault
        | none =>
            if name = "." then walk files links place names
            else if name = ".." then walk files links place.dropLast names
            else match files.find? (place ++ [name]) with
              | none => if names = [] then .ok (place ++ [name], links) else .error .notFound
              | some .directory => walk files links (place ++ [name]) names
              | some (.link target) =>
                  match links with
                  | 0 => .error .tooManyLinks
                  | links + 1 =>
                      walk files links (origin place target) (components target ++ names)
              | some _ => if names = [] then .ok (place ++ [name], links) else .error .notDirectory
termination_by names => (links, names.length)

/-- Where an existing file or directory is that a path names. -/
def resolve (files : FileSystem) (links : Nat) (place : Location) (path : String) :
    Except IoFault (Location × Nat) := do
  if path.isEmpty then throw .notFound
  let (found, left) ← files.walk links (origin place path) (components path)
  if (files.find? found).isSome then return (found, left) else throw .notFound

/-- No place is deeper than this. -/
def height (files : FileSystem) : Nat :=
  (files.places.map List.length).foldl max 0

/-- Why a directory cannot be listed, if it cannot. -/
def listingFault? (files : FileSystem) (place : Location) : Option (ListingStep × IoFault) :=
  [ListingStep.start, .entry].findSome? fun step =>
    (files.refusal? (.list step) place).map (step, ·)

/-- What is found at a place, with at most the given number of links and levels below it. -/
def treeAt (files : FileSystem) (links levels : Nat) (place : Location) : Tree :=
  match files.find? place with
  | none => .unreadable .notFound
  | some (.file content) | some (.device _ content) =>
      match files.refusal? .read place with
      | some fault => .unreadable fault
      | none => .file content
  | some (.link target) =>
      match links with
      | 0 => .unreadable .tooManyLinks
      | left + 1 =>
          match files.resolve left place.dropLast target with
          | .error fault => .unreadable fault
          | .ok (found, remaining) =>
              treeAt files (min left remaining) (files.height + 1) found
  | some .directory =>
      match files.listingFault? place, levels with
      | some (step, fault), _ => .unlistable step fault
      | none, 0 => .directory []
      | none, below + 1 =>
          .directory ((files.entries place).map fun name =>
            (name, match files.refusal? .search place with
              | some fault => .unreadable fault
              | none => treeAt files links below (place ++ [name])))
termination_by (links, levels)

/-- What is found under a path. -/
def view (files : FileSystem) (path : String) : Except IoFault Tree := do
  let (place, links) ← files.resolve maxLinks files.workingDirectory path
  return files.treeAt links (files.height + 1) place

/-- Opens a file for writing, which is created if it is missing. A path with a trailing slash names
no file. -/
def openForWriting (files : FileSystem) (path : String) : Except IoFault Location := do
  if path.isEmpty then throw .notFound
  let names := components path
  let trimmed := (names.reverse.dropWhile (· = "")).reverse
  let (place, _) ← files.walk maxLinks (origin files.workingDirectory path) trimmed
  match files.find? place, decide (names = trimmed) with
  | some .directory, _ => throw .isDirectory
  | some _, false => throw .notDirectory
  | none, false => throw .isDirectory
  | _, true =>
      match files.refusal? .write place with
      | some fault => throw fault
      | none => return place

/-- The bytes of a content that a place takes. -/
def taken (files : FileSystem) (place : Location) (content : Bytes) : Bytes :=
  match files.shortfall? place content with
  | some (count, _) => content.take count
  | none => content

/-- What becomes of a write. -/
structure Written where
  result : Except IoFault Unit
  files : FileSystem
  /-- The stream to which something went, and what went there. -/
  streamed? : Option (Stream × Bytes)

def Written.sentTo (written : Written) (stream : Stream) : Bytes :=
  match written.streamed? with
  | some (other, bytes) => if other = stream then bytes else []
  | none => []

/-- Writes to a file. What it held before is gone once it is opened, and what it takes stays also
if the writing fails then. -/
def write (files : FileSystem) (path : String) (content : Bytes) : Written :=
  match files.openForWriting path with
  | .error fault => ⟨.error fault, files, none⟩
  | .ok place =>
      let bytes := files.taken place content
      let result := (files.shortfall? place content).elim (.ok ()) fun (_, fault) => .error fault
      match files.find? place with
      | some (.device stream? _) => ⟨result, files, stream?.map (·, bytes)⟩
      | _ => ⟨result, files.put place (.file bytes), none⟩

end FileSystem

end ClassMetrics
