import Mathlib.Tactic
import ClassMetrics.ClassFile.Naming
import ClassMetrics.Proofs.Words
import ClassMetrics.Text.Utf8

/-!
The layout of class files, stated without a reader: what the tables of a class file hold, how they
are written, and which class they mean. Attributes are kept as they are, but for the code of
methods. A layout can only be built with counts and lengths that fit their fields.
-/

namespace ClassMetrics.ClassFile

/-- A table that is written with the number of its items in front, in two bytes. -/
structure Table (α : Type) where
  items : List α
  fits : items.length < 2 ^ 16
  deriving DecidableEq

def Table.bytes {α : Type} (write : α → Bytes) (table : Table α) : Bytes :=
  Bytes.bigEndianBytes 2 table.items.length ++ table.items.flatMap write

/-- A number of two bytes. -/
def wordBytes (word : UInt16) : Bytes :=
  Bytes.bigEndianBytes 2 word.toNat

/-- The size of the constants that names are not found through, by their tag: numbers, texts by
reference, references to members, handles, types, dynamic constants, modules and packages. -/
def opaqueSize? (tag : UInt8) : Option Nat :=
  if tag ∈ [3, 4, 9, 10, 11, 12, 17, 18] then some 4
  else if tag ∈ [5, 6] then some 8
  else if tag ∈ [8, 16, 19, 20] then some 2
  else if tag = 15 then some 3
  else none

theorem opaqueSize?_cases {tag : UInt8} {size : Nat} (h : opaqueSize? tag = some size) :
    tag ∈ [3, 4, 9, 10, 11, 12, 17, 18] ∧ size = 4 ∨ tag ∈ [5, 6] ∧ size = 8 ∨
      tag ∈ [8, 16, 19, 20] ∧ size = 2 ∨ tag = 15 ∧ size = 3 := by
  unfold opaqueSize? at h
  split at h
  · next htag => exact .inl ⟨htag, (Option.some.inj h).symm⟩
  split at h
  · next htag => exact .inr (.inl ⟨htag, (Option.some.inj h).symm⟩)
  split at h
  · next htag => exact .inr (.inr (.inl ⟨htag, (Option.some.inj h).symm⟩))
  split at h
  · next htag => exact .inr (.inr (.inr ⟨htag, (Option.some.inj h).symm⟩))
  · cases h

/-- An entry of the constant pool. -/
inductive PoolEntry where
  | utf8 (text : Bytes) (fits : text.length < 2 ^ 16)
  | classRef (name : UInt16)
  | other (tag : UInt8) (content : Bytes) (known : opaqueSize? tag = some content.length)
  deriving DecidableEq

namespace PoolEntry

def bytes : PoolEntry → Bytes
  | .utf8 text _ => 1 :: (Bytes.bigEndianBytes 2 text.length ++ text)
  | .classRef name => 7 :: wordBytes name
  | .other tag content _ => tag :: content

/-- Whether an entry is a long or a double. -/
def isWide : PoolEntry → Bool
  | .other tag _ _ => tag ∈ [5, 6]
  | _ => false

/-- The numbers that an entry takes up. -/
def numbers (entry : PoolEntry) : Nat :=
  if entry.isWide then 2 else 1

/-- What an entry is to names. -/
def naming : PoolEntry → NameConstant
  | .utf8 text _ => .text (Utf8.decodeLossy text)
  | .classRef name => .classRef name.toNat
  | .other _ _ _ => .other

/-- What stands under the numbers of an entry. The second number of a long or double stands for
nothing. -/
def slots {α : Type} (value : PoolEntry → α) (gap : α) (entry : PoolEntry) : List α :=
  if entry.isWide then [value entry, gap] else [value entry]

end PoolEntry

/-- What stands under the numbers of a pool, from 0 on, each entry having a value. -/
def numberedSlots {α : Type} (value : PoolEntry → α) (gap : α) (pool : List PoolEntry) : List α :=
  gap :: pool.flatMap (PoolEntry.slots value gap)

/-- The pool as far as names are concerned. -/
def poolSlots (pool : List PoolEntry) : List NameConstant :=
  numberedSlots PoolEntry.naming .other pool

/-- The numbers that a pool takes up. They start with 1. -/
def poolNumbers (pool : List PoolEntry) : Nat :=
  (pool.map PoolEntry.numbers).sum

/-- The count that stands in front of a pool: one more than the numbers it takes up. It may leave
out the second number of a long or double at the end, and an empty pool may be counted as 0. -/
def IsPoolCount (pool : List PoolEntry) (count : Nat) : Prop :=
  count < 2 ^ 16 ∧
    (count = 1 + poolNumbers pool ∨
      (∃ entry ∈ pool.getLast?, entry.isWide) ∧ count = poolNumbers pool ∨
      pool = [] ∧ count = 0)

/-- The entries fill a number of slots, one after another. The last one may be cut off. -/
def Fills : List PoolEntry → Nat → Prop
  | [], slots => slots = 0
  | entry :: others, slots => 0 < slots ∧ Fills others (slots - entry.numbers)

theorem PoolEntry.numbers_pos (entry : PoolEntry) : 0 < entry.numbers := by
  unfold PoolEntry.numbers
  split <;> omega

@[simp]
theorem poolNumbers_nil : poolNumbers [] = 0 := rfl

@[simp]
theorem poolNumbers_cons (entry : PoolEntry) (pool : List PoolEntry) :
    poolNumbers (entry :: pool) = entry.numbers + poolNumbers pool := by
  simp [poolNumbers]

theorem two_le_poolNumbers {pool : List PoolEntry} (h : ∃ entry ∈ pool.getLast?, entry.isWide) :
    2 ≤ poolNumbers pool := by
  obtain ⟨entry, hlast, hwide⟩ := h
  have htwo : entry.numbers = 2 := by simp [PoolEntry.numbers, hwide]
  have hmem : entry ∈ pool := List.mem_of_mem_getLast? hlast
  have hle : entry.numbers ≤ (pool.map PoolEntry.numbers).sum :=
    List.le_sum_of_mem (List.mem_map_of_mem hmem)
  rw [poolNumbers]
  omega

theorem fills_iff (pool : List PoolEntry) (slots : Nat) :
    Fills pool slots ↔
      slots = poolNumbers pool ∨
        (∃ entry ∈ pool.getLast?, entry.isWide) ∧ slots + 1 = poolNumbers pool := by
  induction pool generalizing slots with
  | nil => simp [Fills]
  | cons entry others ih =>
      have hpos := entry.numbers_pos
      rw [Fills, ih, poolNumbers_cons]
      cases others with
      | nil =>
          -- the last entry: a wide one may have its second number left out
          by_cases hwide : entry.isWide
          · have htwo : entry.numbers = 2 := by simp [PoolEntry.numbers, hwide]
            simp [hwide, htwo]
            omega
          · have hone : entry.numbers = 1 := by simp [PoolEntry.numbers, hwide]
            simp [hwide, hone]
            omega
      | cons next later =>
          have hnext := next.numbers_pos
          rw [poolNumbers_cons, List.getLast?_cons_cons]
          constructor
          · rintro ⟨-, hexact | ⟨hwide, hcut⟩⟩
            · exact Or.inl (by omega)
            · have htwo := two_le_poolNumbers hwide
              rw [poolNumbers_cons] at htwo
              exact Or.inr ⟨hwide, by omega⟩
          · rintro (hexact | ⟨hwide, hcut⟩)
            · exact ⟨by omega, Or.inl (by omega)⟩
            · exact ⟨by omega, Or.inr ⟨hwide, by omega⟩⟩

/-- A count is right when the entries fill the slots behind slot 0. -/
theorem isPoolCount_iff (pool : List PoolEntry) (count : Nat) :
    IsPoolCount pool count ↔ count < 2 ^ 16 ∧ Fills pool (count - 1) := by
  rw [IsPoolCount, fills_iff]
  apply and_congr_right
  intro
  cases pool with
  | nil =>
      simp only [poolNumbers_nil, List.getLast?_nil, Option.mem_def, reduceCtorEq, false_and,
        exists_false, true_and, false_or, or_false]
      omega
  | cons entry others =>
      have hpos := entry.numbers_pos
      simp only [poolNumbers_cons, reduceCtorEq, false_and, or_false]
      constructor
      · rintro (hexact | ⟨hwide, hcut⟩)
        · exact Or.inl (by omega)
        · exact Or.inr ⟨hwide, by omega⟩
      · rintro (hexact | ⟨hwide, hcut⟩)
        · exact Or.inl (by omega)
        · have htwo := two_le_poolNumbers hwide
          rw [poolNumbers_cons] at htwo
          exact Or.inr ⟨hwide, by omega⟩

/-- The entry has this number in the pool. -/
def Numbered (pool : List PoolEntry) (number : Nat) (entry : PoolEntry) : Prop :=
  ∃ before after, pool = before ++ entry :: after ∧ number = 1 + poolNumbers before

/-- The text that a number stands for. -/
def NamesText (pool : List PoolEntry) (number : UInt16) (value : String) : Prop :=
  ∃ text fits, Numbered pool number.toNat (.utf8 text fits) ∧ Utf8.decodeLossy text = value

/-- The class that a number stands for. -/
def NamesClass (pool : List PoolEntry) (number : UInt16) (value : String) : Prop :=
  ∃ name, Numbered pool number.toNat (.classRef name) ∧ NamesText pool name value

/-- An attribute: the number of its name, and its body. -/
structure AttributeLayout where
  name : UInt16
  body : Bytes
  fits : body.length < 2 ^ 32
  deriving DecidableEq

def AttributeLayout.bytes (layout : AttributeLayout) : Bytes :=
  wordBytes layout.name ++ (Bytes.bigEndianBytes 4 layout.body.length ++ layout.body)

/-- A field or method. -/
structure MemberLayout where
  access : UInt16
  name : UInt16
  descriptor : UInt16
  attributes : Table AttributeLayout
  deriving DecidableEq

def MemberLayout.bytes (layout : MemberLayout) : Bytes :=
  wordBytes layout.access ++ (wordBytes layout.name ++ (wordBytes layout.descriptor ++
    layout.attributes.bytes AttributeLayout.bytes))

/-- An exception handler: the range it covers, where it starts and what it catches. -/
structure HandlerLayout where
  start : UInt16
  stop : UInt16
  target : UInt16
  catchType : UInt16
  deriving DecidableEq

def HandlerLayout.bytes (layout : HandlerLayout) : Bytes :=
  wordBytes layout.start ++ (wordBytes layout.stop ++ (wordBytes layout.target ++
    wordBytes layout.catchType))

/-- The body of a code attribute. What follows the handlers is arbitrary. -/
structure CodeLayout where
  maxStack : UInt16
  maxLocals : UInt16
  code : Bytes
  fits : code.length < 2 ^ 32
  handlers : Table HandlerLayout
  remaining : Bytes
  deriving DecidableEq

def CodeLayout.bytes (layout : CodeLayout) : Bytes :=
  wordBytes layout.maxStack ++ (wordBytes layout.maxLocals ++
    (Bytes.bigEndianBytes 4 layout.code.length ++ (layout.code ++
      (layout.handlers.bytes HandlerLayout.bytes ++ layout.remaining))))

/-- A class file. -/
structure ClassLayout where
  minor : UInt16
  major : UInt16
  pool : List PoolEntry
  access : UInt16
  thisClass : UInt16
  superClass : UInt16
  interfaces : Table UInt16
  fields : Table MemberLayout
  methods : Table MemberLayout
  attributes : Table AttributeLayout
  deriving DecidableEq

/-- What follows the constant pool. -/
def ClassLayout.bodyBytes (layout : ClassLayout) : Bytes :=
  wordBytes layout.access ++ (wordBytes layout.thisClass ++ (wordBytes layout.superClass ++
    (layout.interfaces.bytes wordBytes ++ (layout.fields.bytes MemberLayout.bytes ++
      (layout.methods.bytes MemberLayout.bytes ++
        layout.attributes.bytes AttributeLayout.bytes)))))

/-- A class file with the given count in front of its pool. -/
def ClassLayout.bytes (layout : ClassLayout) (count : Nat) : Bytes :=
  Bytes.bigEndianBytes 4 0xcafebabe ++ (wordBytes layout.minor ++ (wordBytes layout.major ++
    (Bytes.bigEndianBytes 2 count ++ (layout.pool.flatMap PoolEntry.bytes ++ layout.bodyBytes))))

/-- The bytes are a written form of the layout. -/
def ClassLayout.Encodes (layout : ClassLayout) (data : Bytes) : Prop :=
  ∃ count, IsPoolCount layout.pool count ∧ data = layout.bytes count

section Meaning

/-- What an attribute of a method contributes: its instructions and the number of its handlers, if
it is code. -/
inductive AttributeMeans (pool : List PoolEntry) :
    AttributeLayout → Option (List Instruction × Nat) → Prop where
  | code {layout : AttributeLayout} {body : CodeLayout} {instructions : List Instruction}
      (named : NamesText pool layout.name "Code") (isBody : layout.body = body.bytes)
      (decodes : Code.decode body.code = .ok instructions) :
      AttributeMeans pool layout (some (instructions, body.handlers.items.length))
  | other {layout : AttributeLayout} {name : String}
      (named : NamesText pool layout.name name) (isOther : name ≠ "Code") :
      AttributeMeans pool layout none

/-- The method that a layout stands for. Of several code attributes the last one counts, and a
method without one has no instructions and no handlers. -/
structure MethodMeans (pool : List PoolEntry) (layout : MemberLayout) (method : MethodBody) :
    Prop where
  name : NamesText pool layout.name method.name
  descriptor : NamesText pool layout.descriptor method.descriptor
  code : ∃ found, List.Forall₂ (AttributeMeans pool) layout.attributes.items found ∧
    (found.filterMap id).getLast?.getD ([], 0) = (method.instructions, method.handlers)

/-- The signature of a method whose descriptor is valid. -/
def HasSignature (method : MethodBody) (signature : Signature) : Prop :=
  signature.name = method.name ∧
    MethodDescriptor.parameterPart? method.descriptor = some signature.parameters

/-- The class that a layout stands for. -/
structure ClassLayout.Means (layout : ClassLayout) (compiled : CompiledClass) : Prop where
  name : NamesClass layout.pool layout.thisClass compiled.header.name
  super : if layout.superClass = 0 then compiled.header.super? = none
    else ∃ name, NamesClass layout.pool layout.superClass name ∧
      compiled.header.super? = some name
  interfacesNamed : ∀ index ∈ layout.interfaces.items, ∃ name, NamesClass layout.pool index name
  interfaces : ∀ name, name ∈ compiled.header.interfaces.toList ↔
    ∃ index ∈ layout.interfaces.items, NamesClass layout.pool index name
  fieldCount : compiled.fieldCount = layout.fields.items.length
  methods : List.Forall₂ (MethodMeans layout.pool) layout.methods.items compiled.methods
  declared : ∃ signatures, List.Forall₂ HasSignature compiled.methods signatures ∧
    compiled.header.declared = signatures.filter (·.name ≠ "<init>")

end Meaning

end ClassMetrics.ClassFile
