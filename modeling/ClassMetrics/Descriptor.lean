/-!
Method descriptors: the parameter types in parentheses, then the result type. A descriptor is read
from its start, and what follows the result type is not looked at. `parameterPart?` gives the part
by which methods are told apart.
-/

namespace ClassMetrics

/-- The types that are not built from a class or from another type. -/
inductive BaseType where
  | boolean
  | byte
  | char
  | short
  | int
  | long
  | float
  | double
  | void
  deriving DecidableEq, Repr

/-- A type as descriptors write it. -/
inductive TypeDescriptor where
  | base (type : BaseType)
  | object (name : List Char)
  | array (element : TypeDescriptor)
  deriving DecidableEq, Repr

/-- A method's parameter types and result type. -/
structure MethodDescriptor where
  parameters : List TypeDescriptor
  result : TypeDescriptor
  deriving DecidableEq, Repr

def BaseType.letter : BaseType → Char
  | .boolean => 'Z'
  | .byte => 'B'
  | .char => 'C'
  | .short => 'S'
  | .int => 'I'
  | .long => 'J'
  | .float => 'F'
  | .double => 'D'
  | .void => 'V'

def BaseType.ofLetter? : Char → Option BaseType
  | 'Z' => some .boolean
  | 'B' => some .byte
  | 'C' => some .char
  | 'S' => some .short
  | 'I' => some .int
  | 'J' => some .long
  | 'F' => some .float
  | 'D' => some .double
  | 'V' => some .void
  | _ => none

namespace TypeDescriptor

/-- The text of a type. -/
def text : TypeDescriptor → List Char
  | .base type => [type.letter]
  | .object name => 'L' :: name ++ [';']
  | .array element => '[' :: element.text

/-- The type of arrays with this many dimensions. -/
def arrayOf : Nat → TypeDescriptor → TypeDescriptor
  | 0, element => element
  | dimensions + 1, element => .array (arrayOf dimensions element)

/-- An array type has at most this many dimensions. -/
def maxDimensions : Nat := 255

/-- Reads a type that is no array: a letter, or a class name between `L` and the next semicolon. -/
def readElement? : List Char → Option (TypeDescriptor × List Char)
  | [] => none
  | 'L' :: rest =>
      match rest.dropWhile (· ≠ ';') with
      | [] => none
      | _ :: after => some (.object (rest.takeWhile (· ≠ ';')), after)
  | letter :: rest => (BaseType.ofLetter? letter).map fun type => (.base type, rest)

/-- Reads a type off the front of a text. -/
def read? (text : List Char) : Option (TypeDescriptor × List Char) := do
  let dimensions := (text.takeWhile (· = '[')).length
  if maxDimensions < dimensions then none
  let (element, rest) ← readElement? (text.dropWhile (· = '['))
  return (arrayOf dimensions element, rest)

theorem readElement?_length {text rest : List Char} {type : TypeDescriptor}
    (h : readElement? text = some (type, rest)) : rest.length < text.length := by
  unfold readElement? at h
  split at h
  · cases h
  · next tail =>
      split at h
      · cases h
      · next after hafter =>
          simp only [Option.some.injEq, Prod.mk.injEq] at h
          have hle := (List.dropWhile_sublist (l := tail) (· ≠ ';')).length_le
          rw [hafter] at hle
          rw [← h.2]
          simp only [List.length_cons] at hle ⊢
          omega
  · simp only [Option.map_eq_some_iff, Prod.mk.injEq] at h
    obtain ⟨_, _, _, rfl⟩ := h
    simp

theorem read?_length {text rest : List Char} {type : TypeDescriptor}
    (h : read? text = some (type, rest)) : rest.length < text.length := by
  have hle := (List.dropWhile_sublist (l := text) (· = '[')).length_le
  simp only [read?, bind, Option.bind] at h
  split at h
  · cases h
  · split at h
    · cases h
    · next parsed hparsed =>
        simp only [pure, Option.some.injEq, Prod.mk.injEq] at h
        have hlt : parsed.2.length < _ := readElement?_length hparsed
        rw [← h.2]
        omega

end TypeDescriptor

namespace MethodDescriptor

/-- Reads types up to the closing parenthesis, which is taken off as well. -/
def readParameters? (text : List Char) : Option (List TypeDescriptor × List Char) :=
  if text.head? = some ')' then some ([], text.tail)
  else match _h : TypeDescriptor.read? text with
    | none => none
    | some (type, rest) => (readParameters? rest).map fun (types, after) => (type :: types, after)
termination_by text.length
decreasing_by exact TypeDescriptor.read?_length _h

/-- Reads a method descriptor. -/
def parse? : List Char → Option MethodDescriptor
  | '(' :: rest => do
      let (parameters, after) ← readParameters? rest
      let (result, _) ← TypeDescriptor.read? after
      return ⟨parameters, result⟩
  | _ => none

/-- The parameter part of a valid descriptor: its text up to the first closing parenthesis. -/
def parameterPart? (descriptor : String) : Option String :=
  let text := descriptor.toList
  (parse? text).map fun _ => String.ofList (text.takeWhile (· ≠ ')') ++ [')'])

end MethodDescriptor

end ClassMetrics
