import Mathlib
import ClassMetrics.Proofs.Agreement
import ClassMetrics.Proofs.InstructionStarts

/-!
What a class contributes to the counters, against the size of its file. Every reader has taken at
least as many bytes as what it made counts for, in the framed reading and in that by the grammar,
where attributes need not be as long as they declare. Main statement: a class file has at least 24
bytes, one more for each field and each method, and one for each assignment, branch and condition.
-/

namespace ClassMetrics

namespace Reader

variable {ε α β : Type}

/-- Whatever the reader makes, it has taken at least as many bytes as that costs. -/
def Takes (reader : Reader ε α) (cost : α → Nat) : Prop :=
  ∀ ⦃cursor next : Cursor⦄ ⦃value : α⦄, reader cursor = .ok (value, next) →
    cost value + next.rest.length ≤ cursor.rest.length

variable {first reader : Reader ε α} {second : α → Reader ε β} {base other : α → Nat}
variable {cost : β → Nat}

theorem Takes.mono (h : Takes reader base) (hle : ∀ value, other value ≤ base value) :
    Takes reader other := by
  intro cursor next value hread
  have hbase := h hread
  have hother := hle value
  omega

theorem takes_pure {value : α} (h : base value = 0) : Takes (pure value : Reader ε α) base := by
  intro cursor next made hread
  obtain ⟨rfl, rfl⟩ := pure_eq_ok.1 hread
  omega

/-- What the first reader has paid is taken off the cost of the second. -/
theorem Takes.bind (hfirst : Takes first base)
    (hsecond : ∀ value, Takes (second value) fun made => cost made - base value) :
    Takes (first >>= second) cost := by
  intro cursor next made hread
  obtain ⟨value, middle, hvalue, hmade⟩ := bind_eq_ok.1 hread
  have hfront := hfirst hvalue
  have hback : cost made - base value + next.rest.length ≤ middle.rest.length :=
    hsecond value hmade
  omega

theorem takes_lift {result : Except ε α} (h : ∀ value, result = .ok value → base value = 0) :
    Takes (liftM result : Reader ε α) base := by
  intro cursor next made hread
  obtain ⟨hresult, rfl⟩ := lift_eq_ok.1 hread
  have hzero := h made hresult
  omega

theorem Takes.lift_bind {result : Except ε α}
    (h : ∀ value, result = .ok value → Takes (second value) cost) :
    Takes ((liftM result : Reader ε α) >>= second) cost := by
  intro cursor next made hread
  obtain ⟨value, middle, hvalue, hmade⟩ := bind_eq_ok.1 hread
  obtain ⟨hresult, rfl⟩ := lift_eq_ok.1 hvalue
  exact h value hresult hmade

theorem takes_throw (fault : ε) : Takes (throw fault : Reader ε α) base := by
  intro cursor next made hread
  cases hread

/-- A repetition costs what its items cost. -/
theorem Takes.times (h : Takes reader base) (count : Nat) :
    Takes (times reader count) fun values => (values.map base).sum := by
  induction count with
  | zero => exact takes_pure rfl
  | succ count ih =>
      apply h.bind
      intro value
      apply ih.bind
      intro values
      apply takes_pure
      simp

end Reader

namespace ClassFile

open Reader

/-- What the code of a method counts for. -/
def codeCost (code : List Instruction × Nat) : Nat :=
  (codeAbc code.2 code.1).total

/-- What a class counts for, its own record included. -/
def classCost (compiled : CompiledClass) : Nat :=
  24 + compiled.fieldCount + compiled.methods.length + compiled.abc.total

theorem classCost_eq (compiled : CompiledClass) :
    classCost compiled =
      24 + compiled.fieldCount + (compiled.methods.map fun method => 1 + method.abc.total).sum := by
  have habc : compiled.abc.total = (compiled.methods.map fun method => method.abc.total).sum := by
    rw [CompiledClass.abc, Abc.total_sum, List.map_map]
    rfl
  rw [classCost, habc, List.sum_map_add]
  simp
  omega

namespace Framed

theorem takes_bytes (count : Nat) : Takes (bytes count) List.length := by
  intro cursor next content hread
  obtain ⟨hrest, -⟩ := bytes_ok hread
  rw [hrest, List.length_append]

theorem takes_number (width : Nat) : Takes (number width) fun _ => width := by
  intro cursor next value hread
  obtain ⟨-, hrest⟩ := number_ok hread
  rw [hrest, List.length_append, Bytes.bigEndianBytes_length]

theorem takes_skip (count : Nat) : Takes (skip count) fun _ => count := by
  intro cursor next value hread
  obtain ⟨content, hrest, rfl⟩ := skip_ok hread
  rw [hrest, List.length_append]

theorem takes_pool : Takes pool fun _ => 2 := by
  intro cursor next slots hread
  obtain ⟨layout, count, -, hrest⟩ := pool_ok hread
  simp only [hrest, List.length_append, Bytes.bigEndianBytes_length]
  omega

theorem takes_skipAttributes : Takes skipAttributes fun _ => 2 := by
  intro cursor next value hread
  obtain ⟨layout, hrest⟩ := skipAttributes_ok hread
  simp only [hrest, Table.bytes, List.length_append, Bytes.bigEndianBytes_length]
  omega

theorem takes_skipField : Takes skipField fun _ => 8 := by
  apply (takes_skip 6).bind
  intro _
  exact takes_skipAttributes

theorem takes_codeBody : Takes codeBody codeCost := by
  refine (takes_skip 2).bind fun _ => ?_
  refine (takes_skip 2).bind fun _ => ?_
  refine (takes_number 4).bind fun size => ?_
  refine (takes_bytes size).bind fun code => ?_
  refine Takes.lift_bind fun instructions hinstructions => ?_
  refine (takes_number 2).bind fun handlers => ?_
  refine (takes_skip (8 * handlers)).bind fun _ => ?_
  apply takes_pure
  have hbound := Code.total_codeAbc_le (instructionsOf_eq_ok.1 hinstructions) handlers
  simp only [codeCost]
  omega

theorem takes_methodAttribute (pool : List NameConstant) :
    Takes (methodAttribute pool) fun code? => 6 + code?.elim 0 codeCost := by
  refine (takes_number 2).bind fun index => ?_
  refine Takes.lift_bind fun name _ => ?_
  refine (takes_number 4).bind fun size => ?_
  refine (takes_bytes size).bind fun body => ?_
  by_cases hcode : name = "Code"
  · rw [if_pos hcode]
    refine Takes.lift_bind fun (code, next) hbody => ?_
    apply takes_pure
    have hcost := takes_codeBody hbody
    simp only [Option.elim_some, Cursor.ofBytes] at hcost ⊢
    omega
  · rw [if_neg hcode]
    apply takes_pure
    simp

theorem codeCost_last_le (codes : List (Option (List Instruction × Nat))) :
    codeCost ((codes.filterMap id).getLast?.getD ([], 0)) ≤
      (codes.map fun code? => 6 + code?.elim 0 codeCost).sum := by
  cases hlast : (codes.filterMap id).getLast? with
  | none => exact Nat.zero_le _
  | some code =>
      have hmem : some code ∈ codes := by
        have hfound := List.mem_of_mem_getLast? hlast
        simpa using hfound
      have hle : 6 + codeCost code ≤ (codes.map fun code? => 6 + code?.elim 0 codeCost).sum :=
        List.le_sum_of_mem (List.mem_map_of_mem (f := fun code? => 6 + code?.elim 0 codeCost) hmem)
      simp only [Option.getD_some]
      omega

theorem takes_method (pool : List NameConstant) :
    Takes (method pool) fun made => 8 + made.abc.total := by
  refine (takes_skip 2).bind fun _ => ?_
  refine (takes_number 2).bind fun nameIndex => ?_
  refine Takes.lift_bind fun name _ => ?_
  refine (takes_number 2).bind fun descriptorIndex => ?_
  refine Takes.lift_bind fun descriptor _ => ?_
  refine (takes_number 2).bind fun count => ?_
  refine ((takes_methodAttribute pool).times count).bind fun codes => ?_
  have hlast := codeCost_last_le codes
  cases hcode : (codes.filterMap id).getLast?.getD ([], 0) with
  | mk instructions handlers =>
      rw [hcode] at hlast
      apply takes_pure
      simp only [codeCost] at hlast
      simp only [MethodBody.abc]
      omega

theorem takes_interface (pool : List NameConstant) :
    Takes (do classNameAt pool (← number 2) : FrameReader String) fun _ => 0 := by
  refine (takes_number 2).bind fun index => ?_
  exact takes_lift fun _ _ => rfl

theorem takes_classFile : Takes classFile classCost := by
  refine (takes_number 4).bind fun magic => ?_
  by_cases hmagic : magic ≠ magicNumber
  · rw [if_pos hmagic]
    exact takes_throw _
  · rw [if_neg hmagic]
    refine (takes_skip 2).bind fun _ => ?_
    refine (takes_skip 2).bind fun _ => ?_
    refine takes_pool.bind fun slots => ?_
    refine (takes_skip 2).bind fun _ => ?_
    refine (takes_number 2).bind fun thisIndex => ?_
    refine (takes_number 2).bind fun superIndex => ?_
    refine Takes.lift_bind fun name _ => ?_
    refine Takes.lift_bind fun super? _ => ?_
    refine (takes_number 2).bind fun interfaceCount => ?_
    refine ((takes_interface slots).times interfaceCount).bind fun interfaces => ?_
    refine (takes_number 2).bind fun fieldCount => ?_
    refine (takes_skipField.times fieldCount).bind fun fields => ?_
    refine (takes_number 2).bind fun methodCount => ?_
    refine ((takes_method slots).times methodCount).bind fun methods => ?_
    refine takes_skipAttributes.bind fun _ => ?_
    apply takes_lift
    intro compiled hcompiled
    obtain ⟨signatures, -, rfl⟩ := assemble_eq_ok.1 hcompiled
    have hmethods : (methods.map fun method => 1 + method.abc.total).sum ≤
        (methods.map fun method => 8 + method.abc.total).sum :=
      List.sum_le_sum fun method _ => by omega
    rw [classCost_eq]
    simp only [List.map_const', List.sum_replicate, smul_eq_mul]
    omega

end Framed

namespace Grammar

/-- What the code of an attribute takes at least. -/
def CodeBody.size (body : CodeBody) : Nat :=
  body.handlers + body.code.length

def attributeSize (made : Attribute) : Nat :=
  6 + made.code?.elim 0 CodeBody.size

def memberSize (made : Member) : Nat :=
  8 + (made.attributes.map attributeSize).sum

def parsedSize (made : ParsedClass) : Nat :=
  24 + 8 * made.fields.length + (made.methods.map memberSize).sum

theorem takes_number (width : Nat) : Takes (number width) fun _ => width := by
  intro cursor next value hread
  exact (Nat.add_comm _ _).trans_le (number_length hread).le

theorem takes_pool : Takes pool fun _ => 2 := by
  intro cursor next slots hread
  obtain ⟨layout, count, -, -, hrest⟩ := pool_ok hread
  simp only [hrest, List.length_append, Bytes.bigEndianBytes_length]
  omega

section Members

variable (decodeText : Bytes → String) (pool : List Constant)

theorem takes_content (name : String) (declared : Nat) :
    Takes (content decodeText pool name declared) fun code? => code?.elim 0 CodeBody.size := by
  intro cursor next code? hread
  obtain ⟨-, body, hbody, rfl⟩ | ⟨-, rfl⟩ := content_ok hread
  · obtain ⟨layout, hpasses, hcode, hhandlers⟩ := codeBody_ok hbody
    have htable := Bytes.flatMap_length Framed.HandlerLayout.bytes_length layout.handlers.items
    simp only [Option.elim_some, CodeBody.size, hpasses.rest, ← hcode, ← hhandlers,
      CodeLayout.bytes, Table.bytes, List.length_append, htable]
    omega
  · obtain ⟨front, hpasses, -⟩ := content_replays (fun _ _ h => h) name declared hread
    simp only [Option.elim_none, hpasses.rest, List.length_append]
    omega

theorem takes_attribute : Takes («attribute» decodeText pool) attributeSize := by
  intro cursor next made hread
  obtain ⟨name, middle, start, hname, hdeclared, hcontent, -⟩ := attribute_parts hread
  obtain ⟨index, text, hindex, -, -⟩ := attributeName_ok hname
  have hfirst := number_length hindex
  have hsecond := number_length hdeclared
  have hthird : made.code?.elim 0 CodeBody.size + next.rest.length ≤ start.rest.length :=
    takes_content decodeText pool name made.declared hcontent
  simp only [attributeSize]
  omega

theorem takes_attributes :
    Takes (attributes decodeText pool) fun made => 2 + (made.map attributeSize).sum := by
  refine (takes_number 2).bind fun count => ?_
  apply ((takes_attribute decodeText pool).times count).mono
  intro made
  omega

theorem takes_member : Takes (member decodeText pool) memberSize := by
  refine (takes_number 2).bind fun _ => ?_
  refine (takes_number 2).bind fun name => ?_
  refine (takes_number 2).bind fun descriptor => ?_
  refine (takes_attributes decodeText pool).bind fun made => ?_
  apply takes_pure
  simp only [memberSize]
  omega

end Members

theorem takes_tables (decodeText : Bytes → String) : Takes (tables decodeText) parsedSize := by
  refine (takes_number 4).bind fun _ => ?_
  refine (takes_number 2).bind fun _ => ?_
  refine (takes_number 2).bind fun _ => ?_
  refine takes_pool.bind fun slots => ?_
  refine (takes_number 2).bind fun _ => ?_
  refine (takes_number 2).bind fun thisClass => ?_
  refine (takes_number 2).bind fun superClass => ?_
  refine (takes_number 2).bind fun interfaceCount => ?_
  refine ((takes_number 2).times interfaceCount).bind fun interfaces => ?_
  refine (takes_number 2).bind fun fieldCount => ?_
  refine ((takes_member decodeText slots).times fieldCount).bind fun fields => ?_
  refine (takes_number 2).bind fun methodCount => ?_
  refine ((takes_member decodeText slots).times methodCount).bind fun methods => ?_
  refine (takes_attributes decodeText slots).bind fun made => ?_
  apply takes_pure
  have hfields : (fields.map fun _ => 8).sum ≤ (fields.map memberSize).sum :=
    List.sum_le_sum fun field _ => Nat.le_add_right 8 _
  rw [List.map_const', List.sum_replicate, smul_eq_mul, Nat.mul_comm] at hfields
  simp only [parsedSize]
  omega

theorem parsedSize_le {decodeText : Bytes → String} {data : Bytes} {made : ParsedClass}
    (h : parse decodeText data = .ok made) : parsedSize made ≤ data.length := by
  obtain ⟨next, hread⟩ := parse_eq_ok.1 h
  have hsize := takes_tables decodeText (classFile_eq_ok.1 hread).1
  change parsedSize made + next.rest.length ≤ data.length at hsize
  omega

/-- The code that is taken for a method is that of one of its attributes. -/
theorem methodOf_size {pool : List NameConstant} {made : Member} {method : MethodBody}
    (h : methodOf pool made = .ok method) : 1 + method.abc.total ≤ memberSize made := by
  obtain ⟨name, -, h⟩ := except_bind_eq_ok.1 h
  obtain ⟨descriptor, -, h⟩ := except_bind_eq_ok.1 h
  cases hcode : made.attributes.findSome? (·.code?) with
  | none =>
      rw [hcode] at h
      obtain rfl := Except.ok.inj h
      have hzero : (MethodBody.mk name descriptor 0 []).abc.total = 0 := rfl
      simp only [memberSize, hzero]
      omega
  | some body =>
      rw [hcode] at h
      obtain ⟨instructions, hinstructions, h⟩ := except_bind_eq_ok.1 h
      obtain rfl := Except.ok.inj h
      obtain ⟨item, hitem, hbody⟩ := List.exists_of_findSome?_eq_some hcode
      have hbound := Code.total_codeAbc_le (instructionsOf_eq_ok.1 hinstructions) body.handlers
      have hsize : attributeSize item ≤ (made.attributes.map attributeSize).sum :=
        List.le_sum_of_mem (List.mem_map_of_mem hitem)
      simp only [attributeSize, hbody, Option.elim_some, CodeBody.size] at hsize
      simp only [memberSize, MethodBody.abc]
      omega

theorem resolve_size {decodeText : Bytes → String} {parsed : ParsedClass} {compiled : CompiledClass}
    (h : resolve decodeText parsed = .ok compiled) : classCost compiled ≤ parsedSize parsed := by
  obtain ⟨name, -, h⟩ := except_bind_eq_ok.1 h
  obtain ⟨super?, -, h⟩ := except_bind_eq_ok.1 h
  obtain ⟨interfaces, -, h⟩ := except_bind_eq_ok.1 h
  obtain ⟨methods, hmethods, h⟩ := except_bind_eq_ok.1 h
  obtain ⟨signatures, -, rfl⟩ := assemble_eq_ok.1 h
  have hsizes : List.Forall₂ (fun method made => 1 + method.abc.total ≤ memberSize made) methods
      parsed.methods :=
    ((mapM_eq_ok.1 hmethods).imp fun _ _ => methodOf_size).flip
  have hsum : (methods.map fun method => 1 + method.abc.total).sum ≤
      (parsed.methods.map memberSize).sum :=
    (List.forall₂_map_left_iff.2 (List.forall₂_map_right_iff.2 hsizes)).sum_le_sum
  rw [classCost_eq, parsedSize]
  simp only
  omega

end Grammar

/-- A class that is decoded by its frames counts for no more than its file has bytes. -/
theorem classCost_le_of_framed {data : Bytes} {compiled : CompiledClass}
    (h : Framed.decode data = .ok compiled) : classCost compiled ≤ data.length := by
  obtain ⟨next, hread⟩ := Framed.decode_eq_ok_iff.1 h
  exact (Nat.le_add_right _ _).trans (Framed.takes_classFile hread)

/-- A class that is decoded is made of what the grammar gives, or of frames. -/
theorem resolved_or_framed {data : Bytes} {compiled : CompiledClass}
    (h : decode data = .ok compiled) :
    (∃ parsed, Grammar.parse ModifiedUtf8.decode data = .ok parsed ∧
        Grammar.resolve ModifiedUtf8.decode parsed = .ok compiled) ∨
      Framed.decode data = .ok compiled := by
  unfold decode decodeWith decodeBody at h
  split at h
  · cases h
  · split at h
    · split at h
      case h_1 parsed hparse => exact Or.inl ⟨parsed, hparse, h⟩
      case h_2 => exact Or.inr h
      case h_3 => cases h
    · cases h

/-- A class that is decoded counts for no more than its file has bytes, whichever reader it came
from. -/
theorem classCost_le {data : Bytes} {compiled : CompiledClass}
    (h : decode data = .ok compiled) : classCost compiled ≤ data.length := by
  rcases resolved_or_framed h with ⟨parsed, hparse, hresolve⟩ | hframed
  · exact (Grammar.resolve_size hresolve).trans (Grammar.parsedSize_le hparse)
  · exact classCost_le_of_framed hframed

end ClassFile

end ClassMetrics
