import ClassMetrics.Code.Instruction
import ClassMetrics.Ordered

/-!
What is known of a class: its header, by which classes are related, and the bodies of its methods,
which are only counted.
-/

namespace ClassMetrics

/-- What a method is known by to the classes below: its name and the parameter part of its
descriptor. -/
structure Signature where
  name : String
  parameters : String
  deriving DecidableEq, Repr

/-- A signature as one text. -/
def Signature.text (signature : Signature) : String :=
  signature.name ++ signature.parameters

/-- A class with the classes it names as parents and the methods it declares, constructors left
out. Declared methods keep their order, and one may occur more than once. -/
structure ClassHeader where
  name : String
  super? : Option String
  interfaces : NameSet
  declared : List Signature
  deriving DecidableEq, Repr

/-- Whether a class declares a method of this signature. -/
def ClassHeader.declares (header : ClassHeader) (signature : Signature) : Bool :=
  header.declared.contains signature

/-- A method of a compiled class. A method without code has no instructions and no handlers. -/
structure MethodBody where
  name : String
  descriptor : String
  handlers : Nat
  instructions : List Instruction
  deriving DecidableEq, Repr

/-- A class as read from a class file. -/
structure CompiledClass where
  header : ClassHeader
  fieldCount : Nat
  methods : List MethodBody
  deriving DecidableEq, Repr

/-- The name that constructors have. -/
def constructorName : String := "<init>"

end ClassMetrics
