import ClassMetrics.ClassHeader

/-!
The classes under analysis, by name. A table always holds the class at the top of every hierarchy:
it starts out with the methods that this class is known to declare, and a class of that name that
is added later takes its place.
-/

namespace ClassMetrics

/-- The name of the class that every other one descends from. -/
def rootName : String := "java/lang/Object"

/-- What is assumed of the root class until it is added itself. -/
def ClassHeader.root : ClassHeader where
  name := rootName
  super? := none
  interfaces := Ordered.empty
  declared :=
    [⟨"hashCode", "()"⟩, ⟨"equals", "(Ljava/lang/Object;)"⟩, ⟨"clone", "()"⟩, ⟨"toString", "()"⟩,
      ⟨"finalize", "()"⟩]

def ClassHeader.isRoot (header : ClassHeader) : Bool :=
  header.name == rootName

/-- Classes by name, the root class among them. -/
structure ClassTable where
  classes : Ordered ClassHeader.name
  contains_root : classes.contains rootName = true

namespace ClassTable

@[ext]
theorem ext {table other : ClassTable} (h : table.classes = other.classes) : table = other := by
  cases table
  cases other
  simpa using h

/-- The table that holds the root class alone. -/
def initial : ClassTable where
  classes := Ordered.empty.insert ClassHeader.root
  contains_root := by simp [ClassHeader.root]

/-- Adds a class, in the stead of one that has its name. -/
def insert (table : ClassTable) (header : ClassHeader) : ClassTable where
  classes := table.classes.insert header
  contains_root := by simp [table.contains_root]

def find? (table : ClassTable) (name : String) : Option ClassHeader :=
  table.classes.find? name

def contains (table : ClassTable) (name : String) : Bool :=
  table.classes.contains name

/-- All classes, in the order of their names. -/
def toList (table : ClassTable) : List ClassHeader :=
  table.classes.toList

def names (table : ClassTable) : List String :=
  table.classes.keys

def size (table : ClassTable) : Nat :=
  table.classes.size

/-- The classes other than the root, in the order of their names. -/
def nonRoot (table : ClassTable) : List ClassHeader :=
  table.toList.filter fun header => !header.isRoot

/-- Names of superclasses and interfaces that no class of the table has. -/
def unresolvedParents (table : ClassTable) : NameSet :=
  Ordered.ofList <| table.toList.flatMap fun header =>
    (header.super?.toList ++ header.interfaces.toList).filter fun name => !table.contains name

theorem mem_names_of_find? {table : ClassTable} {name : String} {header : ClassHeader}
    (h : table.find? name = some header) : header.name ∈ table.names :=
  List.mem_map_of_mem (Ordered.mem_of_find? h)

end ClassTable

end ClassMetrics
