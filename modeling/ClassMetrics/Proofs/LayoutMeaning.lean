import Mathlib.Tactic
import ClassMetrics.Proofs.CodeReading
import ClassMetrics.Proofs.FramedReading
import ClassMetrics.Proofs.Lookup

/-!
The framed reader decodes exactly the layouts of class files. What it makes of a layout is compared
with what the layout means, part by part: numbers and the names they stand for, attributes, methods,
and the class. Main statement: a file is decoded as a class exactly when it starts with a written
layout that means the class.
-/

namespace ClassMetrics.ClassFile

section Names

variable {pool : List PoolEntry}

theorem PoolEntry.slots_length {α : Type} (value : PoolEntry → α) (gap : α) (entry : PoolEntry) :
    (entry.slots value gap).length = entry.numbers := by
  unfold PoolEntry.slots PoolEntry.numbers
  split <;> rfl

section Slots

variable {α : Type} {value : PoolEntry → α} {gap found : α}

theorem PoolEntry.getElem?_slots {entry : PoolEntry} {index : Nat} (hfound : found ≠ gap) :
    (entry.slots value gap)[index]? = some found ↔ index = 0 ∧ value entry = found := by
  unfold PoolEntry.slots
  split
  · match index with
    | 0 => simp
    | 1 => simp [hfound.symm]
    | index + 2 => simp
  · match index with
    | 0 => simp
    | index + 1 => simp

/-- A slot that is not empty belongs to the entry whose number it has. -/
theorem getElem?_flatMap_slots {index : Nat} (hfound : found ≠ gap) :
    (pool.flatMap (PoolEntry.slots value gap))[index]? = some found ↔
      ∃ before entry after, pool = before ++ entry :: after ∧ index = poolNumbers before ∧
        value entry = found := by
  induction pool generalizing index with
  | nil => simp
  | cons first others ih =>
      have hpos := first.numbers_pos
      have hlength := first.slots_length value gap
      rw [List.flatMap_cons]
      by_cases hindex : index < first.numbers
      · rw [List.getElem?_append_left (by omega), first.getElem?_slots hfound]
        constructor
        · rintro ⟨rfl, hvalue⟩
          exact ⟨[], first, others, rfl, rfl, hvalue⟩
        · rintro ⟨before, entry, after, hpool, rfl, hvalue⟩
          cases before with
          | nil =>
              obtain ⟨rfl, -⟩ := List.cons.inj hpool
              exact ⟨rfl, hvalue⟩
          | cons other before =>
              obtain ⟨rfl, -⟩ := List.cons.inj hpool
              rw [poolNumbers_cons] at hindex
              omega
      · rw [List.getElem?_append_right (by omega), hlength, ih]
        constructor
        · rintro ⟨before, entry, after, rfl, hnumber, hvalue⟩
          exact ⟨first :: before, entry, after, rfl, by rw [poolNumbers_cons]; omega, hvalue⟩
        · rintro ⟨before, entry, after, hpool, rfl, hvalue⟩
          cases before with
          | nil => exact absurd hpos hindex
          | cons other before =>
              obtain ⟨rfl, rfl⟩ := List.cons.inj hpool
              exact ⟨before, entry, after, rfl, by rw [poolNumbers_cons]; omega, hvalue⟩

theorem getElem?_numberedSlots {number : Nat} (hfound : found ≠ gap) :
    (numberedSlots value gap pool)[number]? = some found ↔
      ∃ entry, Numbered pool number entry ∧ value entry = found := by
  cases number with
  | zero =>
      constructor
      · intro h
        exact absurd (Option.some.inj h).symm hfound
      · rintro ⟨entry, ⟨before, after, -, hnumber⟩, -⟩
        omega
  | succ number =>
      change (pool.flatMap (PoolEntry.slots value gap))[number]? = _ ↔ _
      rw [getElem?_flatMap_slots hfound]
      constructor
      · rintro ⟨before, entry, after, hpool, hnumber, hvalue⟩
        exact ⟨entry, ⟨before, after, hpool, by omega⟩, hvalue⟩
      · rintro ⟨entry, ⟨before, after, hpool, hnumber⟩, hvalue⟩
        exact ⟨before, entry, after, hpool, by omega, hvalue⟩

end Slots

theorem getElem?_poolSlots {number : Nat} {constant : NameConstant}
    (hconstant : constant ≠ .other) :
    (poolSlots pool)[number]? = some constant ↔
      ∃ entry, Numbered pool number entry ∧ entry.naming = constant :=
  getElem?_numberedSlots hconstant

theorem textAt_eq_ok {slots : List NameConstant} {index : Nat} {value : String} :
    textAt slots index = .ok value ↔ slots[index]? = some (.text value) := by
  unfold textAt
  split
  · next other h => simp [h]
  · next h =>
      constructor
      · intro hok
        cases hok
      · intro hsome
        exact absurd hsome (h value)

theorem classNameAt_eq_ok {slots : List NameConstant} {index : Nat} {value : String} :
    classNameAt slots index = .ok value ↔
      ∃ name, slots[index]? = some (.classRef name) ∧ textAt slots name = .ok value := by
  unfold classNameAt
  split
  · next name h => simp [h]
  · next h =>
      constructor
      · intro hok
        cases hok
      · rintro ⟨name, hsome, -⟩
        exact absurd hsome (h name)

theorem textAt_poolSlots {number : UInt16} {value : String} :
    textAt (poolSlots pool) number.toNat = .ok value ↔ NamesText pool number value := by
  rw [textAt_eq_ok, getElem?_poolSlots (by simp)]
  constructor
  · rintro ⟨entry, hentry, hnaming⟩
    cases entry with
    | utf8 text fits => exact ⟨text, fits, hentry, NameConstant.text.inj hnaming⟩
    | classRef name => cases hnaming
    | other tag content known => cases hnaming
  · rintro ⟨text, fits, hentry, rfl⟩
    exact ⟨_, hentry, rfl⟩

theorem classNameAt_poolSlots {number : UInt16} {value : String} :
    classNameAt (poolSlots pool) number.toNat = .ok value ↔ NamesClass pool number value := by
  rw [classNameAt_eq_ok]
  constructor
  · rintro ⟨index, hindex, hvalue⟩
    obtain ⟨entry, hentry, hnaming⟩ := (getElem?_poolSlots (by simp)).1 hindex
    cases entry with
    | utf8 text fits => cases hnaming
    | classRef name =>
        obtain rfl := NameConstant.classRef.inj hnaming
        exact ⟨name, hentry, textAt_poolSlots.1 hvalue⟩
    | other tag content known => cases hnaming
  · rintro ⟨name, hentry, hvalue⟩
    exact ⟨name.toNat, (getElem?_poolSlots (by simp)).2 ⟨_, hentry, rfl⟩,
      textAt_poolSlots.2 hvalue⟩

theorem superNameAt_poolSlots {number : UInt16} {value : Option String} :
    superNameAt (poolSlots pool) number.toNat = .ok value ↔
      if number = 0 then value = none
      else ∃ name, NamesClass pool number name ∧ value = some name := by
  have hzero : number.toNat = 0 ↔ number = 0 := by
    rw [← UInt16.toNat_inj]
    rfl
  unfold superNameAt
  by_cases hnumber : number = 0
  · rw [if_pos (hzero.2 hnumber), if_pos hnumber]
    constructor
    · intro h
      exact (Except.ok.inj h).symm
    · rintro rfl
      rfl
  · rw [if_neg (mt hzero.1 hnumber), if_neg hnumber]
    constructor
    · intro h
      cases hname : classNameAt (poolSlots pool) number.toNat with
      | error fault => simp [hname, Except.map] at h
      | ok name =>
          simp only [hname, Except.map, Except.ok.injEq] at h
          exact ⟨name, classNameAt_poolSlots.1 hname, h.symm⟩
    · rintro ⟨name, hname, rfl⟩
      rw [classNameAt_poolSlots.2 hname]
      rfl

end Names

section Values

theorem instructionsOf_eq_ok {code : Bytes} {instructions : List Instruction} :
    instructionsOf code = .ok instructions ↔ Code.decode code = .ok instructions := by
  unfold instructionsOf
  cases Code.decode code with
  | error fault => simp [Except.mapError]
  | ok decoded => simp [Except.mapError]

namespace Framed

open Reader

theorem HandlerLayout.bytes_length (layout : HandlerLayout) : layout.bytes.length = 8 := by
  simp [HandlerLayout.bytes]

theorem exists_handlerBytes {block : Bytes} (h : block.length = 8) :
    ∃ layout : HandlerLayout, layout.bytes = block := by
  obtain ⟨start, block, rfl, hstart⟩ := Bytes.exists_front (show 2 ≤ block.length by omega)
  rw [List.length_append] at h
  obtain ⟨stop, block, rfl, hstop⟩ := Bytes.exists_front (show 2 ≤ block.length by omega)
  rw [List.length_append] at h
  obtain ⟨target, catchType, rfl, htarget⟩ := Bytes.exists_front (show 2 ≤ block.length by omega)
  rw [List.length_append] at h
  obtain ⟨start, rfl⟩ := exists_wordBytes hstart
  obtain ⟨stop, rfl⟩ := exists_wordBytes hstop
  obtain ⟨target, rfl⟩ := exists_wordBytes htarget
  obtain ⟨catchType, rfl⟩ := exists_wordBytes (show catchType.length = 2 by omega)
  exact ⟨⟨start, stop, target, catchType⟩, rfl⟩

/-- The part of a code attribute's body that is looked at. -/
theorem reads_codeBody (layout : CodeLayout) :
    Reads codeBody (wordBytes layout.maxStack ++ (wordBytes layout.maxLocals ++
        (Bytes.bigEndianBytes 4 layout.code.length ++ (layout.code ++
          layout.handlers.bytes HandlerLayout.bytes))))
      (do return (← instructionsOf layout.code, layout.handlers.items.length)) := by
  refine (reads_skip_word layout.maxStack).bind_ok ?_
  refine (reads_skip_word layout.maxLocals).bind_ok ?_
  refine (reads_number layout.fits).bind_ok ?_
  refine (reads_bytes layout.code).bind_ok ?_
  refine Reads.lift_bind fun instructions => ?_
  refine (reads_number layout.handlers.fits).bind_ok ?_
  have hhandlers : (layout.handlers.items.flatMap HandlerLayout.bytes).length =
      8 * layout.handlers.items.length := Bytes.flatMap_length HandlerLayout.bytes_length _
  exact (reads_skip hhandlers).bind_pure fun _ => (instructions, layout.handlers.items.length)

theorem codeBody_ok {cursor next : Cursor} {instructions : List Instruction} {handlers : Nat}
    (h : codeBody cursor = .ok ((instructions, handlers), next)) :
    ∃ layout : CodeLayout, cursor.rest = layout.bytes ∧
      Code.decode layout.code = .ok instructions ∧ layout.handlers.items.length = handlers := by
  obtain ⟨_, afterStack, hstack, h⟩ := bind_eq_ok.1 h
  obtain ⟨_, afterLocals, hlocals, h⟩ := bind_eq_ok.1 h
  obtain ⟨size, afterSize, hsize, h⟩ := bind_eq_ok.1 h
  obtain ⟨code, afterCode, hcode, h⟩ := bind_eq_ok.1 h
  obtain ⟨decoded, afterDecoded, hlift, h⟩ := bind_eq_ok.1 h
  obtain ⟨hdecoded, rfl⟩ := lift_eq_ok.1 hlift
  obtain ⟨count, afterCount, hcount, h⟩ := bind_eq_ok.1 h
  obtain ⟨_, afterTable, htable, h⟩ := bind_eq_ok.1 h
  obtain ⟨hvalue, rfl⟩ := pure_eq_ok.1 h
  obtain ⟨rfl, rfl⟩ := Prod.mk.inj hvalue
  obtain ⟨maxStack, hrest⟩ := skip_word_ok hstack
  obtain ⟨maxLocals, hafterStack⟩ := skip_word_ok hlocals
  obtain ⟨hfits, hafterLocals⟩ := number_ok hsize
  obtain ⟨hafterSize, rfl⟩ := bytes_ok hcode
  obtain ⟨hbound, hafterCode⟩ := number_ok hcount
  obtain ⟨table, hafterCount, hlength⟩ := skip_ok htable
  obtain ⟨handlers, rfl, rfl⟩ := Bytes.exists_flatMap (fun _ hblock => exists_handlerBytes hblock)
    hlength
  refine ⟨⟨maxStack, maxLocals, code, hfits, ⟨handlers, hbound⟩, afterTable.rest⟩, ?_, ?_, rfl⟩
  · rw [hrest, hafterStack, hafterLocals, hafterSize, hafterCode, hafterCount]
    simp only [CodeLayout.bytes, Table.bytes, List.append_assoc]
  · exact instructionsOf_eq_ok.1 hdecoded

theorem attributeValue_eq_ok {pool : List PoolEntry} {layout : AttributeLayout}
    {made : Option (List Instruction × Nat)} :
    attributeValue (poolSlots pool) layout = .ok made ↔ AttributeMeans pool layout made := by
  constructor
  · intro h
    obtain ⟨name, hname, h⟩ := except_bind_eq_ok.1 h
    by_cases hcode : name = "Code"
    · rw [if_pos hcode] at h
      obtain ⟨⟨⟨instructions, handlers⟩, next⟩, hbody, h⟩ := except_bind_eq_ok.1 h
      obtain ⟨body, hbytes, hdecodes, rfl⟩ := codeBody_ok hbody
      obtain rfl := Except.ok.inj h
      exact .code (textAt_poolSlots.1 (hcode ▸ hname)) hbytes hdecodes
    · rw [if_neg hcode] at h
      obtain rfl := Except.ok.inj h
      exact .other (textAt_poolSlots.1 hname) hcode
  · intro h
    cases h with
    | @code body instructions named isBody decodes =>
        have hbody := (reads_codeBody body).run body.remaining
        rw [instructionsOf_eq_ok.2 decodes] at hbody
        refine except_bind_eq_ok.2 ⟨_, textAt_poolSlots.2 named, ?_⟩
        rw [if_pos rfl, isBody]
        simp only [List.append_assoc] at hbody
        exact except_bind_eq_ok.2 ⟨_, hbody, rfl⟩
    | other named isOther =>
        refine except_bind_eq_ok.2 ⟨_, textAt_poolSlots.2 named, ?_⟩
        rw [if_neg isOther]
        rfl

theorem attributeValues_eq_ok {pool : List PoolEntry} {layouts : List AttributeLayout}
    {found : List (Option (List Instruction × Nat))} :
    layouts.mapM (attributeValue (poolSlots pool)) = .ok found ↔
      List.Forall₂ (AttributeMeans pool) layouts found := by
  rw [mapM_eq_ok]
  simp only [attributeValue_eq_ok]

theorem methodValue_eq_ok {pool : List PoolEntry} {layout : MemberLayout} {method : MethodBody} :
    methodValue (poolSlots pool) layout = .ok method ↔ MethodMeans pool layout method := by
  constructor
  · intro h
    obtain ⟨name, hname, h⟩ := except_bind_eq_ok.1 h
    obtain ⟨descriptor, hdescriptor, h⟩ := except_bind_eq_ok.1 h
    obtain ⟨found, hfound, h⟩ := except_bind_eq_ok.1 h
    obtain rfl := Except.ok.inj h
    exact ⟨textAt_poolSlots.1 hname, textAt_poolSlots.1 hdescriptor, found,
      attributeValues_eq_ok.1 hfound, rfl⟩
  · rintro ⟨hname, hdescriptor, found, hfound, hcode⟩
    refine except_bind_eq_ok.2 ⟨_, textAt_poolSlots.2 hname, ?_⟩
    refine except_bind_eq_ok.2 ⟨_, textAt_poolSlots.2 hdescriptor, ?_⟩
    refine except_bind_eq_ok.2 ⟨_, attributeValues_eq_ok.2 hfound, ?_⟩
    rw [hcode]
    rfl

end Framed

theorem signatureOf_eq_ok {method : MethodBody} {signature : Signature} :
    signatureOf method = .ok signature ↔ HasSignature method signature := by
  unfold signatureOf HasSignature
  cases MethodDescriptor.parameterPart? method.descriptor with
  | none => simp
  | some parameters =>
      constructor
      · intro h
        obtain rfl := Except.ok.inj h
        exact ⟨rfl, rfl⟩
      · rintro ⟨hname, hparameters⟩
        obtain rfl := Option.some.inj hparameters
        rw [← hname]

theorem assemble_eq_ok {name : String} {super? : Option String} {interfaces : List String}
    {fieldCount : Nat} {methods : List MethodBody} {compiled : CompiledClass} :
    assemble name super? interfaces fieldCount methods = .ok compiled ↔
      ∃ signatures, List.Forall₂ HasSignature methods signatures ∧
        compiled = ⟨⟨name, super?, Ordered.ofList interfaces,
          signatures.filter (·.name ≠ constructorName)⟩, fieldCount, methods⟩ := by
  unfold assemble
  rw [except_bind_eq_ok]
  simp only [mapM_eq_ok, signatureOf_eq_ok]
  constructor
  · rintro ⟨signatures, hsignatures, h⟩
    exact ⟨signatures, hsignatures, (Except.ok.inj h).symm⟩
  · rintro ⟨signatures, hsignatures, rfl⟩
    exact ⟨signatures, hsignatures, rfl⟩

end Values

section Classes

variable {pool : List PoolEntry}

theorem NamesClass.unique {number : UInt16} {first second : String}
    (hfirst : NamesClass pool number first) (hsecond : NamesClass pool number second) :
    first = second := by
  have hsame := (classNameAt_poolSlots.2 hfirst).symm.trans (classNameAt_poolSlots.2 hsecond)
  exact Except.ok.inj hsame

theorem mem_iff_of_namesClass {indexes : List UInt16} {names : List String}
    (h : List.Forall₂ (NamesClass pool) indexes names) (name : String) :
    name ∈ names ↔ ∃ index ∈ indexes, NamesClass pool index name := by
  constructor
  · exact exists_mem_of_forall₂ h name
  · rintro ⟨index, hindex, hname⟩
    obtain ⟨other, hother, hnamed⟩ := exists_mem_of_forall₂ h.flip index hindex
    rwa [hname.unique hnamed]

/-- What the framed reader makes of a layout is what the layout means. -/
theorem classValue_eq_ok {layout : ClassLayout} {compiled : CompiledClass} :
    Framed.classValue layout = .ok compiled ↔ layout.Means compiled := by
  constructor
  · intro h
    obtain ⟨name, hname, h⟩ := except_bind_eq_ok.1 h
    obtain ⟨super?, hsuper, h⟩ := except_bind_eq_ok.1 h
    obtain ⟨interfaces, hinterfaces, h⟩ := except_bind_eq_ok.1 h
    obtain ⟨methods, hmethods, h⟩ := except_bind_eq_ok.1 h
    obtain ⟨signatures, hsignatures, rfl⟩ := assemble_eq_ok.1 h
    have hnamed : List.Forall₂ (NamesClass layout.pool) layout.interfaces.items interfaces := by
      simpa only [classNameAt_poolSlots] using mapM_eq_ok.1 hinterfaces
    refine ⟨classNameAt_poolSlots.1 hname, superNameAt_poolSlots.1 hsuper,
      exists_forall₂_iff.1 ⟨interfaces, hnamed⟩, ?_, rfl, ?_, signatures, hsignatures, rfl⟩
    · intro name
      rw [Ordered.mem_ofList, mem_iff_of_namesClass hnamed]
    · simpa only [Framed.methodValue_eq_ok] using mapM_eq_ok.1 hmethods
  · rintro ⟨hname, hsuper, hnamed, hinterfaces, hfields, hmethods, signatures, hsignatures,
      hdeclared⟩
    obtain ⟨names, hnames⟩ := exists_forall₂_iff.2 hnamed
    refine except_bind_eq_ok.2 ⟨_, classNameAt_poolSlots.2 hname, ?_⟩
    refine except_bind_eq_ok.2 ⟨_, superNameAt_poolSlots.2 hsuper, ?_⟩
    refine except_bind_eq_ok.2 ⟨names, mapM_eq_ok.2 ?_, ?_⟩
    · simpa only [classNameAt_poolSlots] using hnames
    refine except_bind_eq_ok.2 ⟨compiled.methods, mapM_eq_ok.2 ?_, ?_⟩
    · simpa only [Framed.methodValue_eq_ok] using hmethods
    have hset : compiled.header.interfaces = Ordered.ofList names := by
      apply Ordered.ext_mem
      intro name
      rw [hinterfaces, Ordered.mem_ofList, mem_iff_of_namesClass hnames]
    refine assemble_eq_ok.2 ⟨signatures, hsignatures, ?_⟩
    rw [← hset, ← hfields]
    change compiled = ⟨⟨_, _, _, signatures.filter (·.name ≠ "<init>")⟩, _, _⟩
    rw [← hdeclared]

/-- Decoding a written layout gives what the layout is worth, whatever follows it. -/
theorem framed_decode_bytes {layout : ClassLayout} {count : Nat}
    (h : IsPoolCount layout.pool count) (trailing : Bytes) :
    Framed.decode (layout.bytes count ++ trailing) = Framed.classValue layout := by
  rw [Framed.decode, (Framed.reads_classFile h).run trailing]
  cases Framed.classValue layout with
  | error fault => rfl
  | ok compiled => rfl

/-- What can be decoded starts with a written layout. -/
theorem exists_layout_of_framed_decode {data : Bytes} {compiled : CompiledClass}
    (h : Framed.decode data = .ok compiled) :
    ∃ (layout : ClassLayout) (count : Nat) (trailing : Bytes), IsPoolCount layout.pool count ∧
      data = layout.bytes count ++ trailing := by
  obtain ⟨next, hread⟩ := Framed.decode_eq_ok_iff.1 h
  obtain ⟨layout, count, hcount, hdata⟩ := Framed.classFile_ok hread
  exact ⟨layout, count, next.rest, hcount, hdata⟩

/-- The framed reader decodes a file as a class exactly when the file starts with a written layout
that means the class. What follows is not looked at. -/
theorem framed_decode_eq_ok_iff (data : Bytes) (compiled : CompiledClass) :
    Framed.decode data = .ok compiled ↔
      ∃ (layout : ClassLayout) (front trailing : Bytes), layout.Encodes front ∧
        data = front ++ trailing ∧ layout.Means compiled := by
  constructor
  · intro h
    obtain ⟨layout, count, trailing, hcount, rfl⟩ := exists_layout_of_framed_decode h
    rw [framed_decode_bytes hcount] at h
    exact ⟨layout, layout.bytes count, trailing, ⟨count, hcount, rfl⟩, rfl, classValue_eq_ok.1 h⟩
  · rintro ⟨layout, front, trailing, ⟨count, hcount, rfl⟩, rfl, hmeans⟩
    rw [framed_decode_bytes hcount]
    exact classValue_eq_ok.2 hmeans

end Classes

end ClassMetrics.ClassFile
