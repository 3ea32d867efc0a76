import ClassMetrics.ClassFile.Fault
import ClassMetrics.ClassHeader
import ClassMetrics.Descriptor

/-!
From constant indices and raw methods to a class: names are looked up in the pool, and a class is
put together from its parts.
-/

namespace ClassMetrics.ClassFile

/-- The text constant of an index. -/
def textAt (pool : List NameConstant) (index : Nat) : Except DecodeFault String :=
  match pool[index]? with
  | some (.text value) => .ok value
  | _ => .error (.constant index .text)

/-- The name of the class constant of an index. -/
def classNameAt (pool : List NameConstant) (index : Nat) : Except DecodeFault String :=
  match pool[index]? with
  | some (.classRef name) => textAt pool name
  | _ => .error (.constant index .className)

/-- The name of the superclass. Index 0 stands for none. -/
def superNameAt (pool : List NameConstant) (index : Nat) : Except DecodeFault (Option String) :=
  if index = 0 then .ok none else (classNameAt pool index).map some

/-- The signature of a method, whose descriptor has to be valid. -/
def signatureOf (method : MethodBody) : Except DecodeFault Signature :=
  match MethodDescriptor.parameterPart? method.descriptor with
  | some parameters => .ok ⟨method.name, parameters⟩
  | none => .error (.descriptor method.descriptor)

/-- A class from its parts. Every descriptor has to be valid, those of constructors too, which are
not declared methods. -/
def assemble (name : String) (super? : Option String) (interfaces : List String) (fieldCount : Nat)
    (methods : List MethodBody) : Except DecodeFault CompiledClass := do
  let signatures ← methods.mapM signatureOf
  let declared := signatures.filter (·.name ≠ constructorName)
  return ⟨⟨name, super?, Ordered.ofList interfaces, declared⟩, fieldCount, methods⟩

/-- Decodes a code array, as part of a class file. -/
def instructionsOf (code : Bytes) : Except DecodeFault (List Instruction) :=
  (Code.decode code).mapError .code

/-- What a class file starts with. -/
def magicNumber : Nat := 0xcafebabe

end ClassMetrics.ClassFile
