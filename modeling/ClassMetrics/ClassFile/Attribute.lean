import ClassMetrics.ClassFile.Cursor
import ClassMetrics.ClassFile.Fault

/-!
The grammar of attributes. The body of an attribute is a list of items, read one after another;
reading an item may put further items in its place. Declared lengths do not say where an attribute
ends: the grammar does.
-/

namespace ClassMetrics.ClassFile.Grammar

abbrev GrammarReader := Reader GrammarFault

/-- A big-endian number of the given number of bytes. -/
def number (width : Nat) : GrammarReader Nat := fun cursor =>
  match cursor.take? width with
  | some (digits, next) => .ok (Bytes.bigEndian digits, next)
  | none => .error (.numberPastEnd cursor.position cursor.fileLength)

/-- A block of bytes. -/
def block (size : Nat) : GrammarReader Bytes := fun cursor =>
  match cursor.take? size with
  | some taken => .ok taken
  | none => .error (.blockPastEnd (cursor.position + size) cursor.fileLength)

/-- A part of an attribute that is still to be read. -/
inductive Item where
  | number (width : Nat)
  | block (size : Nat)
  /-- A block that has to be there but is read again by the items behind it. -/
  | ahead (size : Nat)
  /-- A block with its size in front, in four bytes. -/
  | sizedBlock
  /-- The given items, the given number of times. -/
  | repeated (count : Nat) (body : List Item)
  /-- The given items, as often as the byte in front says. -/
  | counted8 (body : List Item)
  /-- The given items, as often as the two bytes in front say. -/
  | counted16 (body : List Item)
  | attribute
  | element
  | typeUse
  | frame
  | verificationType

namespace Item

mutual

/-- Bounds the number of steps that items take without reading. -/
def weight : Item → Nat
  | .repeated count body => 1 + count * (1 + weights body)
  | _ => 1

def weights : List Item → Nat
  | [] => 0
  | item :: rest => weight item + weights rest

end

@[simp]
theorem weights_nil : weights [] = 0 := by
  simp [weights]

@[simp]
theorem weights_cons (item : Item) (rest : List Item) :
    weights (item :: rest) = weight item + weights rest := by
  simp [weights]

@[simp]
theorem weights_append (first second : List Item) :
    weights (first ++ second) = weights first + weights second := by
  induction first with
  | nil => simp
  | cons item rest ih => simp [ih, Nat.add_assoc]

theorem weight_pos (item : Item) : 0 < weight item := by
  cases item with
  | repeated count body => simp only [weight]; omega
  | _ => simp [weight]

/-- Two-byte numbers in a row. -/
def words (count : Nat) : List Item :=
  List.replicate count (.number 2)

def annotationItems : List Item :=
  [.number 2, .counted16 [.number 2, .element]]

def attributes : Item :=
  .counted16 [.attribute]

/-- An exception handler of a code array. -/
def handler : List Item :=
  words 4

end Item

open Item

/-- The body of an attribute, by its name and declared length. -/
def attributeBody? (name : String) (length : Nat) : Option (List Item) :=
  match name with
  | "ConstantValue" | "SourceFile" | "Signature" | "NestHost" => some (words 1)
  | "Code" => some (words 2 ++ [.sizedBlock, .counted16 handler, attributes])
  | "Exceptions" | "NestMembers" | "PermittedSubclasses" => some [.counted16 (words 1)]
  | "Synthetic" | "Deprecated" => some []
  | "LineNumberTable" => some [.counted16 (words 2)]
  | "LocalVariableTable" | "LocalVariableTypeTable" => some [.counted16 (words 5)]
  | "InnerClasses" => some [.counted16 (words 4)]
  | "EnclosingMethod" => some (words 2)
  | "RuntimeVisibleAnnotations" => some [.ahead length, .counted16 annotationItems]
  | "RuntimeInvisibleAnnotations" => some [.counted16 annotationItems]
  | "RuntimeVisibleParameterAnnotations" | "RuntimeInvisibleParameterAnnotations" =>
      some [.counted8 [.counted16 annotationItems]]
  | "RuntimeVisibleTypeAnnotations" | "RuntimeInvisibleTypeAnnotations" =>
      some [.counted16 [.typeUse]]
  | "AnnotationDefault" => some [.ahead length, .element]
  | "StackMapTable" => some [.counted16 [.frame]]
  | "BootstrapMethods" => some [.counted16 [.number 2, .counted16 (words 1)]]
  | "MethodParameters" => some [.counted8 (words 2)]
  | "Record" => some [.counted16 (words 2 ++ [attributes])]
  | "SourceDebugExtension" => some [.block length]
  | _ => none

/-- What follows the tag of an annotation element's value. The tags are ASCII letters and signs. -/
def elementBody? (tag : Nat) : Option (List Item) :=
  match Char.ofNat tag with
  | 'B' | 'C' | 'D' | 'F' | 'I' | 'J' | 'S' | 'Z' | 's' | 'c' => some (words 1)
  | 'e' => some (words 2)
  | '@' => some annotationItems
  | '[' => some [.counted16 [.element]]
  | _ => none

/-- What follows the target type of a type annotation: the target, the path and the annotation. -/
def typeUseBody? (target : Nat) : Option (List Item) :=
  (target? target).map (· ++ .counted8 [.number 1, .number 1] :: annotationItems)
where
  target? (target : Nat) : Option (List Item) :=
    match target with
    | 0x00 | 0x01 | 0x16 => some [.number 1]
    | 0x10 | 0x17 | 0x42 | 0x43 | 0x44 | 0x45 | 0x46 => some (words 1)
    | 0x11 | 0x12 => some [.number 1, .number 1]
    | 0x13 | 0x14 | 0x15 => some []
    | 0x40 | 0x41 => some [.counted16 (words 3)]
    | 0x47 | 0x48 | 0x49 | 0x4a | 0x4b => some [.number 2, .number 1]
    | _ => none

/-- What follows the type of a stack map frame. -/
def frameBody? (type : Nat) : Option (List Item) :=
  if type ≤ 63 then some []
  else if type ≤ 127 then some [.verificationType]
  else if type = 247 then some [.number 2, .verificationType]
  else if 248 ≤ type ∧ type ≤ 251 then some (words 1)
  else if 252 ≤ type ∧ type ≤ 254 then
    some (.number 2 :: List.replicate (type - 251) .verificationType)
  else if type = 255 then
    some [.number 2, .counted16 [.verificationType], .counted16 [.verificationType]]
  else none

/-- What follows the tag of a verification type. -/
def verificationTypeBody? (tag : Nat) : Option (List Item) :=
  if tag ≤ 6 then some []
  else if tag ≤ 8 then some (words 1)
  else none

/-- The name of the attribute that starts here. Its constant has to be text. -/
def attributeName (decodeText : Bytes → String) (pool : List Constant) : GrammarReader String := do
  let index ← number 2
  match pool[index]? with
  | some (.utf8 bytes) => return decodeText bytes
  | some constant => throw (.notText constant)
  | none => throw (.noConstant index)

/-- The items that a tag of one byte calls for. -/
def tagged (body? : Nat → Option (List Item)) (fault : Nat → GrammarFault) :
    GrammarReader (List Item) := do
  let tag ← number 1
  match body? tag with
  | some body => return body
  | none => throw (fault tag)

/-- The header of an attribute, and the items of its body. -/
def attributeStart (decodeText : Bytes → String) (pool : List Constant) :
    GrammarReader (List Item) := do
  let name ← attributeName decodeText pool
  let length ← number 4
  match attributeBody? name length with
  | some body => return body
  | none => throw (.unknownAttribute name)

/-- Reads one item, and gives the items that take its place. -/
def step (decodeText : Bytes → String) (pool : List Constant) : Item → GrammarReader (List Item)
  | .number width => do
      let _ ← number width
      return []
  | .block size => do
      let _ ← block size
      return []
  | .ahead size => fun cursor => (block size cursor).map fun _ => ([], cursor)
  | .sizedBlock => do
      let size ← number 4
      return [.block size]
  | .repeated 0 _ => return []
  | .repeated (count + 1) body => return body ++ [.repeated count body]
  | .counted8 body => do
      let count ← number 1
      return [.repeated count body]
  | .counted16 body => do
      let count ← number 2
      return [.repeated count body]
  | .attribute => attributeStart decodeText pool
  | .element => tagged elementBody? .elementTag
  | .typeUse => tagged typeUseBody? .targetType
  | .frame => tagged frameBody? .frameType
  | .verificationType => tagged verificationTypeBody? .verificationTag

theorem number_length {width value : Nat} {cursor next : Cursor}
    (h : number width cursor = .ok (value, next)) :
    next.rest.length + width = cursor.rest.length := by
  unfold number at h
  split at h
  · next digits after htake =>
      simp only [Except.ok.injEq, Prod.mk.injEq] at h
      obtain ⟨-, rfl⟩ := h
      exact Cursor.length_of_take? htake
  · cases h

theorem block_length {size : Nat} {taken : Bytes} {cursor next : Cursor}
    (h : block size cursor = .ok (taken, next)) :
    next.rest.length + size = cursor.rest.length := by
  unfold block at h
  split at h
  · next front htake =>
      simp only [Except.ok.injEq] at h
      subst h
      exact Cursor.length_of_take? htake
  · cases h

theorem tagged_length {body? : Nat → Option (List Item)} {fault : Nat → GrammarFault}
    {items : List Item} {cursor next : Cursor}
    (h : tagged body? fault cursor = .ok (items, next)) :
    next.rest.length < cursor.rest.length := by
  obtain ⟨tag, after, htag, h⟩ := Reader.bind_eq_ok.1 h
  have hlength := number_length htag
  cases hbody : body? tag with
  | none => simp only [hbody] at h; cases h
  | some body =>
      simp only [hbody] at h
      obtain ⟨-, rfl⟩ := Reader.pure_eq_ok.1 h
      omega

theorem attributeName_length {decodeText : Bytes → String} {pool : List Constant}
    {name : String} {cursor next : Cursor}
    (h : attributeName decodeText pool cursor = .ok (name, next)) :
    next.rest.length < cursor.rest.length := by
  obtain ⟨index, after, hindex, h⟩ := Reader.bind_eq_ok.1 h
  have hlength := number_length hindex
  cases hconstant : pool[index]? with
  | none => simp only [hconstant] at h; cases h
  | some constant =>
      cases constant with
      | utf8 bytes =>
          simp only [hconstant] at h
          obtain ⟨-, rfl⟩ := Reader.pure_eq_ok.1 h
          omega
      | _ => simp only [hconstant] at h; cases h

theorem attributeStart_length {decodeText : Bytes → String} {pool : List Constant}
    {items : List Item} {cursor next : Cursor}
    (h : attributeStart decodeText pool cursor = .ok (items, next)) :
    next.rest.length < cursor.rest.length := by
  obtain ⟨name, afterName, hname, h⟩ := Reader.bind_eq_ok.1 h
  obtain ⟨length, afterLength, hlength, h⟩ := Reader.bind_eq_ok.1 h
  have hshorter := attributeName_length hname
  have hrest := number_length hlength
  cases hbody : attributeBody? name length with
  | none => simp only [hbody] at h; cases h
  | some body =>
      simp only [hbody] at h
      obtain ⟨-, rfl⟩ := Reader.pure_eq_ok.1 h
      omega

/-- Every step reads something or makes what is to be read lighter. -/
theorem step_progress {decodeText : Bytes → String} {pool : List Constant} {item : Item}
    {items : List Item} {cursor next : Cursor}
    (h : step decodeText pool item cursor = .ok (items, next)) :
    next.rest.length < cursor.rest.length ∨
      next.rest.length = cursor.rest.length ∧ weights items < weight item := by
  cases item with
  | number width =>
      obtain ⟨value, after, hvalue, h⟩ := Reader.bind_eq_ok.1 h
      obtain ⟨rfl, rfl⟩ := Reader.pure_eq_ok.1 h
      have hlength := number_length hvalue
      simp only [weights_nil]
      have := weight_pos (.number width)
      omega
  | block size =>
      obtain ⟨taken, after, htaken, h⟩ := Reader.bind_eq_ok.1 h
      obtain ⟨rfl, rfl⟩ := Reader.pure_eq_ok.1 h
      have hlength := block_length htaken
      simp only [weights_nil]
      have := weight_pos (.block size)
      omega
  | ahead size =>
      simp only [step] at h
      cases hblock : block size cursor with
      | error fault => simp [hblock, Except.map] at h
      | ok taken =>
          simp only [hblock, Except.map, Except.ok.injEq, Prod.mk.injEq] at h
          obtain ⟨rfl, rfl⟩ := h
          exact Or.inr ⟨rfl, by simp [weight]⟩
  | sizedBlock =>
      obtain ⟨size, after, hsize, h⟩ := Reader.bind_eq_ok.1 h
      obtain ⟨rfl, rfl⟩ := Reader.pure_eq_ok.1 h
      have hlength := number_length hsize
      exact Or.inl (by omega)
  | repeated count body =>
      cases count with
      | zero =>
          obtain ⟨rfl, rfl⟩ := Reader.pure_eq_ok.1 h
          exact Or.inr ⟨rfl, by simp [weight]⟩
      | succ count =>
          obtain ⟨rfl, rfl⟩ := Reader.pure_eq_ok.1 h
          refine Or.inr ⟨rfl, ?_⟩
          simp only [weights_append, weights_cons, weights_nil, weight, Nat.succ_mul]
          omega
  | counted8 body =>
      obtain ⟨count, after, hcount, h⟩ := Reader.bind_eq_ok.1 h
      obtain ⟨rfl, rfl⟩ := Reader.pure_eq_ok.1 h
      have hlength := number_length hcount
      exact Or.inl (by omega)
  | counted16 body =>
      obtain ⟨count, after, hcount, h⟩ := Reader.bind_eq_ok.1 h
      obtain ⟨rfl, rfl⟩ := Reader.pure_eq_ok.1 h
      have hlength := number_length hcount
      exact Or.inl (by omega)
  | «attribute» => exact Or.inl (attributeStart_length h)
  | element => exact Or.inl (tagged_length h)
  | typeUse => exact Or.inl (tagged_length h)
  | frame => exact Or.inl (tagged_length h)
  | verificationType => exact Or.inl (tagged_length h)

/-- Reads items until none is left. -/
def consume (decodeText : Bytes → String) (pool : List Constant) (items : List Item)
    (cursor : Cursor) : Except GrammarFault (Unit × Cursor) :=
  match items with
  | [] => .ok ((), cursor)
  | item :: later =>
      match _h : step decodeText pool item cursor with
      | .error fault => .error fault
      | .ok (earlier, next) => consume decodeText pool (earlier ++ later) next
termination_by (cursor.rest.length, weights items)
decreasing_by
  rcases step_progress _h with hshorter | ⟨hsame, hlighter⟩
  · exact Prod.Lex.left _ _ hshorter
  · rw [hsame]
    apply Prod.Lex.right
    simp only [weights_append, weights_cons]
    omega

end ClassMetrics.ClassFile.Grammar
