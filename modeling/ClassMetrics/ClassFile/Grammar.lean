import ClassMetrics.ClassFile.Attribute
import ClassMetrics.ClassFile.Naming

/-!
Reading a class file by its grammar. Every byte has to belong to a known part of the file, so an
attribute of an unknown name is a fault. Indices are kept as they stand, but for the names of
attributes, by which the grammar goes on.
-/

namespace ClassMetrics.ClassFile.Grammar

/-- The code array of a method and the number of its exception handlers. -/
structure CodeBody where
  code : Bytes
  handlers : Nat
  deriving DecidableEq, Repr

/-- An attribute: the length it declares, the number of bytes its body takes by the grammar, and
its code if it is code. -/
structure Attribute where
  declared : Nat
  size : Nat
  code? : Option CodeBody
  deriving DecidableEq, Repr

/-- A field or method. -/
structure Member where
  name : Nat
  descriptor : Nat
  attributes : List Attribute
  deriving DecidableEq, Repr

/-- A class file with its names still indices. -/
structure ParsedClass where
  pool : List Constant
  thisClass : Nat
  superClass : Nat
  interfaces : List Nat
  fields : List Member
  methods : List Member
  attributes : List Attribute
  deriving DecidableEq, Repr

/-- Two numbers of two bytes each. -/
def pair (make : Nat → Nat → Constant) : GrammarReader Constant := do
  return make (← number 2) (← number 2)

def constant : GrammarReader Constant := do
  match ← number 1 with
  | 1 => return .utf8 (← block (← number 2))
  | 3 => return .integer (Bytes.signed32 (← number 4))
  | 4 => return .float (Bytes.bigEndian (← block 4))
  | 5 => return .long (Bytes.signed64 (← number 8))
  | 6 => return .double (Bytes.bigEndian (← block 8))
  | 7 => return .classRef (← number 2)
  | 8 => return .string (← number 2)
  | 9 => pair .fieldRef
  | 10 => pair .methodRef
  | 11 => pair .interfaceMethodRef
  | 12 => pair .nameAndType
  | 15 => return .methodHandle (← number 1) (← number 2)
  | 16 => return .methodType (← number 2)
  | 17 => pair .dynamic
  | 18 => pair .invokeDynamic
  | 19 => return .module (← number 2)
  | 20 => return .package (← number 2)
  | tag => throw (.constantTag tag)

/-- Whether the slot behind a constant stays empty. -/
def isWide : Constant → Bool
  | .long _ | .double _ => true
  | _ => false

/-- Constants for the given number of slots. A last slot may hold a constant of eight bytes. -/
def constants : Nat → GrammarReader (List Constant)
  | 0 => pure []
  | 1 => return [← constant]
  | slots + 2 => do
      let first ← constant
      if isWide first then
        return first :: .empty :: (← constants slots)
      else
        return first :: (← constants (slots + 1))

/-- The constant pool: a count, of which slot 0 takes one. -/
def pool : GrammarReader (List Constant) := do
  match ← number 2 with
  | 0 => return []
  | slots + 1 => return .empty :: (← constants slots)

section Members

variable (decodeText : Bytes → String) (pool : List Constant)

/-- The body of a code attribute, nested attributes included. -/
def codeBody : GrammarReader CodeBody := do
  let _ ← number 2
  let _ ← number 2
  let code ← block (← number 4)
  let handlers ← number 2
  consume decodeText pool [.repeated handlers Item.handler, Item.attributes]
  return ⟨code, handlers⟩

/-- The body of an attribute of the given name and declared length, with its code if it is code. -/
def content (name : String) (declared : Nat) : GrammarReader (Option CodeBody) := do
  if name = "Code" then
    return some (← codeBody decodeText pool)
  match attributeBody? name declared with
  | some body =>
      consume decodeText pool body
      return none
  | none => throw (.unknownAttribute name)

/-- An attribute of a field, method or class. -/
def «attribute» : GrammarReader Attribute := do
  let name ← attributeName decodeText pool
  let declared ← number 4
  let start ← get
  let code? ← content decodeText pool name declared
  let stop ← get
  return ⟨declared, stop.position - start.position, code?⟩

def attributes : GrammarReader (List Attribute) := do
  Reader.times («attribute» decodeText pool) (← number 2)

def member : GrammarReader Member := do
  let _ ← number 2
  let name ← number 2
  let descriptor ← number 2
  return ⟨name, descriptor, ← attributes decodeText pool⟩

end Members

/-- The tables of a class file, one after another. -/
def tables (decodeText : Bytes → String) : GrammarReader ParsedClass := do
  let _ ← number 4
  let _ ← number 2
  let _ ← number 2
  let pool ← pool
  let _ ← number 2
  let thisClass ← number 2
  let superClass ← number 2
  let interfaces ← Reader.times (number 2) (← number 2)
  let fields ← Reader.times (member decodeText pool) (← number 2)
  let methods ← Reader.times (member decodeText pool) (← number 2)
  let attributes ← attributes decodeText pool
  return ⟨pool, thisClass, superClass, interfaces, fields, methods, attributes⟩

/-- A whole class file, up to its end. -/
def classFile (decodeText : Bytes → String) : GrammarReader ParsedClass := do
  let parsed ← tables decodeText
  let cursor ← get
  if cursor.rest ≠ [] then throw (.trailing cursor.fileLength cursor.position)
  return parsed

/-- Parses a class file, whose texts are read by the given rule. -/
def parse (decodeText : Bytes → String) (data : Bytes) : Except GrammarFault ParsedClass :=
  ((classFile decodeText).run (Cursor.ofBytes data)).map (·.1)

/-- The method that a parsed member stands for. Of several code attributes the first one counts. -/
def methodOf (pool : List NameConstant) (member : Member) : Except DecodeFault MethodBody := do
  let name ← textAt pool member.name
  let descriptor ← textAt pool member.descriptor
  match member.attributes.findSome? (·.code?) with
  | none => return ⟨name, descriptor, 0, []⟩
  | some body => return ⟨name, descriptor, body.handlers, ← instructionsOf body.code⟩

/-- Looks up the names of a parsed class and decodes its code. -/
def resolve (decodeText : Bytes → String) (parsed : ParsedClass) :
    Except DecodeFault CompiledClass := do
  let pool := parsed.pool.map (·.naming decodeText)
  let name ← classNameAt pool parsed.thisClass
  let super? ← superNameAt pool parsed.superClass
  let interfaces ← parsed.interfaces.mapM (classNameAt pool)
  let methods ← parsed.methods.mapM (methodOf pool)
  assemble name super? interfaces parsed.fields.length methods

end ClassMetrics.ClassFile.Grammar
