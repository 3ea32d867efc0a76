import ClassMetrics.ClassFile.Cursor
import ClassMetrics.ClassFile.Naming
import ClassMetrics.Text.Utf8

/-!
Reading a class file by its frames: attributes are passed over by their declared length, and only
code is looked into. Attributes of any name are therefore accepted. Names are looked up as soon as
their index has been read, and what follows the class's own attributes is ignored.
-/

namespace ClassMetrics.ClassFile.Framed

abbrev FrameReader := Reader DecodeFault

/-- The next `count` bytes. A field that is cut off is reported by where it starts. -/
def bytes (count : Nat) : FrameReader Bytes := fun cursor =>
  match cursor.take? count with
  | some taken => .ok taken
  | none => .error (.truncated cursor.position)

def skip (count : Nat) : FrameReader Unit := do
  let _ ← bytes count

/-- A big-endian number of the given number of bytes. -/
def number (width : Nat) : FrameReader Nat := do
  return Bytes.bigEndian (← bytes width)

/-- The next constant, and whether it fills two slots. -/
def constant : FrameReader (NameConstant × Bool) := do
  match ← number 1 with
  | 1 =>
      let size ← number 2
      return (.text (Utf8.decodeLossy (← bytes size)), false)
  | 7 => return (.classRef (← number 2), false)
  | 3 | 4 | 9 | 10 | 11 | 12 | 17 | 18 =>
      skip 4
      return (.other, false)
  | 5 | 6 =>
      skip 8
      return (.other, true)
  | 8 | 16 | 19 | 20 =>
      skip 2
      return (.other, false)
  | 15 =>
      skip 3
      return (.other, false)
  | tag => throw (.unsupportedConstant tag)

/-- Constants until the given number of slots is filled. -/
def constants : Nat → FrameReader (List NameConstant)
  | 0 => pure []
  | slots + 1 => do
      let (constant, wide) ← constant
      if wide then
        return constant :: .other :: (← constants (slots - 1))
      else
        return constant :: (← constants slots)
termination_by slots => slots

/-- The constant pool. Slot 0 holds no constant. -/
def pool : FrameReader (List NameConstant) := do
  let count ← number 2
  return .other :: (← constants (count - 1))

/-- Passes over the attributes of a class or of a field. -/
def skipAttributes : FrameReader Unit := do
  let count ← number 2
  let _ ← Reader.times skipAttribute count
where
  skipAttribute : FrameReader Unit := do
    skip 2
    skip (← number 4)

def skipField : FrameReader Unit := do
  skip 6
  skipAttributes

/-- The instructions and the number of handlers in the body of a code attribute. -/
def codeBody : FrameReader (List Instruction × Nat) := do
  skip 2
  skip 2
  let code ← bytes (← number 4)
  let instructions ← (instructionsOf code : Except DecodeFault _)
  let handlers ← number 2
  skip (8 * handlers)
  return (instructions, handlers)

/-- An attribute of a method, which is code if it is named so. -/
def methodAttribute (pool : List NameConstant) : FrameReader (Option (List Instruction × Nat)) := do
  let name ← textAt pool (← number 2)
  let body ← bytes (← number 4)
  if name = "Code" then
    let (code, _) ← (codeBody.run (Cursor.ofBytes body) : Except DecodeFault _)
    return some code
  else
    return none

/-- A method. Of several code attributes the last one counts. -/
def method (pool : List NameConstant) : FrameReader MethodBody := do
  skip 2
  let name ← textAt pool (← number 2)
  let descriptor ← textAt pool (← number 2)
  let attributes ← Reader.times (methodAttribute pool) (← number 2)
  let (instructions, handlers) := (attributes.filterMap id).getLast?.getD ([], 0)
  return ⟨name, descriptor, handlers, instructions⟩

/-- A whole class file. -/
def classFile : FrameReader CompiledClass := do
  let magic ← number 4
  if magic ≠ magicNumber then throw (.magic magic)
  skip 2
  skip 2
  let pool ← pool
  skip 2
  let thisIndex ← number 2
  let superIndex ← number 2
  let name ← classNameAt pool thisIndex
  let super? ← superNameAt pool superIndex
  let interfaces ← Reader.times (do classNameAt pool (← number 2)) (← number 2)
  let fields ← Reader.times skipField (← number 2)
  let methods ← Reader.times (method pool) (← number 2)
  skipAttributes
  assemble name super? interfaces fields.length methods

/-- Decodes a class file by its frames. -/
def decode (data : Bytes) : Except DecodeFault CompiledClass :=
  (classFile.run (Cursor.ofBytes data)).map (·.1)

end ClassMetrics.ClassFile.Framed
