import ClassMetrics.Bytes

/-!
Files as a program finds them under a path, links followed.
-/

namespace ClassMetrics

/-- What the operating system says when it refuses an operation. -/
structure IoFault where
  text : String
  code : Nat
  deriving DecidableEq, Repr

namespace IoFault

def notFound : IoFault := ⟨"No such file or directory", 2⟩
def notDirectory : IoFault := ⟨"Not a directory", 20⟩
def isDirectory : IoFault := ⟨"Is a directory", 21⟩
def tooManyLinks : IoFault := ⟨"Too many levels of symbolic links", 40⟩

def message (fault : IoFault) : String :=
  s!"{fault.text} (os error {fault.code})"

end IoFault

/-- What a listing of a directory breaks off at: its start, or one of the entries. -/
inductive ListingStep where
  | start
  | entry
  deriving DecidableEq, Repr

/-- A file, a directory with its entries in any order, or something of either kind that cannot be
looked into. -/
inductive Tree where
  | file (content : Bytes)
  | unreadable (fault : IoFault)
  | directory (entries : List (String × Tree))
  | unlistable (step : ListingStep) (fault : IoFault)

/-- A path extended by a name. -/
def joinPath (path name : String) : String :=
  if path.endsWith "/" then path ++ name else path ++ "/" ++ name

end ClassMetrics
