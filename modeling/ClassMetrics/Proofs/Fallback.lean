import Mathlib
import ClassMetrics.Proofs.KnownAttributes

/-!
Attributes of an unknown name, added to a class file whose attributes are all known. The grammar
reader fails at the first of them, and the framed reader, which is asked then, passes over them and
finds the class that was there before. Main statement: decoding gives the same class with and
without them.
-/

namespace ClassMetrics.ClassFile

section Additions

/-- The second list has the attributes of the first one, and attributes whose name has the given
number, anywhere among them. -/
inductive Inserted (number : UInt16) : List AttributeLayout → List AttributeLayout → Prop where
  | nil : Inserted number [] []
  | keep {items extended : List AttributeLayout} (item : AttributeLayout)
      (rest : Inserted number items extended) : Inserted number (item :: items) (item :: extended)
  | add {items extended : List AttributeLayout} {item : AttributeLayout}
      (named : item.name = number) (rest : Inserted number items extended) :
      Inserted number items (item :: extended)

/-- A field or method to which attributes may have been added. -/
structure MemberLayout.Extends (number : UInt16) (layout extended : MemberLayout) : Prop where
  access : extended.access = layout.access
  name : extended.name = layout.name
  descriptor : extended.descriptor = layout.descriptor
  attributes : Inserted number layout.attributes.items extended.attributes.items

/-- A text at the end of a class's pool, and attributes of that name added to the class, to its
fields and to its methods. -/
structure Addition (layout : ClassLayout) where
  text : Bytes
  fits : text.length < 2 ^ 16
  number : UInt16
  isNumber : number.toNat = 1 + poolNumbers layout.pool
  fields : Table MemberLayout
  methods : Table MemberLayout
  attributes : Table AttributeLayout
  extendsFields : List.Forall₂ (MemberLayout.Extends number) layout.fields.items fields.items
  extendsMethods : List.Forall₂ (MemberLayout.Extends number) layout.methods.items methods.items
  extendsAttributes : Inserted number layout.attributes.items attributes.items

/-- The class with what has been added. -/
def Addition.extended {layout : ClassLayout} (addition : Addition layout) : ClassLayout :=
  { layout with
    pool := layout.pool ++ [.utf8 addition.text addition.fits]
    fields := addition.fields
    methods := addition.methods
    attributes := addition.attributes }

theorem Inserted.mem {number : UInt16} {items extended : List AttributeLayout}
    (h : Inserted number items extended) :
    ∀ item ∈ extended, item ∈ items ∨ item.name = number := by
  induction h with
  | nil => simp
  | keep item _ ih =>
      intro other hother
      rcases List.mem_cons.1 hother with rfl | hother
      · exact Or.inl List.mem_cons_self
      · exact (ih other hother).imp_left (List.mem_cons_of_mem _)
  | add named _ ih =>
      intro other hother
      rcases List.mem_cons.1 hother with rfl | hother
      · exact Or.inr named
      · exact ih other hother

variable {pool : List PoolEntry}

theorem Numbered.append {number : Nat} {entry : PoolEntry} (h : Numbered pool number entry)
    (more : List PoolEntry) : Numbered (pool ++ more) number entry := by
  obtain ⟨before, after, rfl, hnumber⟩ := h
  exact ⟨before, after ++ more, by simp, hnumber⟩

theorem NamesText.append {number : UInt16} {value : String} (h : NamesText pool number value)
    (more : List PoolEntry) : NamesText (pool ++ more) number value := by
  obtain ⟨text, fits, hnumbered, hvalue⟩ := h
  exact ⟨text, fits, hnumbered.append more, hvalue⟩

theorem NamesClass.append {number : UInt16} {value : String} (h : NamesClass pool number value)
    (more : List PoolEntry) : NamesClass (pool ++ more) number value := by
  obtain ⟨name, hnumbered, hvalue⟩ := h
  exact ⟨name, hnumbered.append more, hvalue.append more⟩

theorem AttributeMeans.append {layout : AttributeLayout} {made : Option (List Instruction × Nat)}
    (h : AttributeMeans pool layout made) (more : List PoolEntry) :
    AttributeMeans (pool ++ more) layout made := by
  cases h with
  | code named isBody decodes => exact .code (named.append more) isBody decodes
  | other named isOther => exact .other (named.append more) isOther

/-- Attributes that are not code contribute nothing to a method. -/
theorem Inserted.exists_means {number : UInt16} {items extended : List AttributeLayout}
    (h : Inserted number items extended) {more : List PoolEntry} {name : String}
    (hnamed : NamesText (pool ++ more) number name) (hother : name ≠ "Code")
    {found : List (Option (List Instruction × Nat))}
    (hfound : List.Forall₂ (AttributeMeans pool) items found) :
    ∃ all, List.Forall₂ (AttributeMeans (pool ++ more)) extended all ∧
      all.filterMap id = found.filterMap id := by
  induction h generalizing found with
  | nil =>
      cases hfound
      exact ⟨[], .nil, rfl⟩
  | keep item _ ih =>
      obtain ⟨made, others, hmade, hothers, rfl⟩ := List.forall₂_cons_left_iff.1 hfound
      obtain ⟨all, hall, hsame⟩ := ih hothers
      refine ⟨made :: all, .cons (hmade.append more) hall, ?_⟩
      rw [List.filterMap_cons, List.filterMap_cons, hsame]
  | add named _ ih =>
      obtain ⟨all, hall, hsame⟩ := ih hfound
      refine ⟨none :: all, .cons (.other (named ▸ hnamed) hother) hall, ?_⟩
      rw [List.filterMap_cons_none rfl, hsame]

theorem MethodMeans.of_extends {number : UInt16} {layout extended : MemberLayout}
    (h : layout.Extends number extended) {more : List PoolEntry} {name : String}
    (hnamed : NamesText (pool ++ more) number name) (hother : name ≠ "Code") {method : MethodBody}
    (hmeans : MethodMeans pool layout method) : MethodMeans (pool ++ more) extended method := by
  obtain ⟨found, hfound, hcode⟩ := hmeans.code
  obtain ⟨all, hall, hsame⟩ := h.attributes.exists_means hnamed hother hfound
  refine ⟨?_, ?_, all, hall, ?_⟩
  · rw [h.name]
    exact hmeans.name.append more
  · rw [h.descriptor]
    exact hmeans.descriptor.append more
  · rw [hsame, hcode]

/-- What has been added does not change the class, if it is not code. -/
theorem Addition.means {layout : ClassLayout} (addition : Addition layout)
    {compiled : CompiledClass} (h : layout.Means compiled)
    (hother : Utf8.decodeLossy addition.text ≠ "Code") : addition.extended.Means compiled := by
  have hnamed : NamesText addition.extended.pool addition.number (Utf8.decodeLossy addition.text) :=
    ⟨addition.text, addition.fits, ⟨layout.pool, [], rfl, addition.isNumber⟩, rfl⟩
  refine ⟨h.name.append _, ?_, ?_, ?_, ?_, ?_, h.declared⟩
  · have hsuper := h.super
    change if layout.superClass = 0 then _ else _
    split at hsuper
    · next hzero =>
        rw [if_pos hzero]
        exact hsuper
    · next hzero =>
        rw [if_neg hzero]
        obtain ⟨name, hname, hsome⟩ := hsuper
        exact ⟨name, hname.append _, hsome⟩
  · intro index hindex
    obtain ⟨name, hname⟩ := h.interfacesNamed index hindex
    exact ⟨name, hname.append _⟩
  · intro name
    rw [h.interfaces]
    constructor
    · rintro ⟨index, hindex, hname⟩
      exact ⟨index, hindex, hname.append _⟩
    · rintro ⟨index, hindex, hname⟩
      obtain ⟨other, hother⟩ := h.interfacesNamed index hindex
      obtain rfl := (hother.append _).unique hname
      exact ⟨index, hindex, hother⟩
  · rw [h.fieldCount]
    exact addition.extendsFields.length_eq
  · exact forall₂_of_forall₂ addition.extendsMethods h.methods
      fun _ _ _ hextends hmeans => hmeans.of_extends hextends hnamed hother

end Additions

section Transparency

open Grammar

variable {decodeText : Bytes → String} {layout : ClassLayout} {count extendedCount : Nat}

theorem PoolEntry.constant_eq_utf8 {entry : PoolEntry} {text : Bytes} :
    entry.constant = .utf8 text ↔ ∃ fits, entry = .utf8 text fits := by
  cases entry with
  | utf8 other fits =>
      constructor
      · intro h
        obtain rfl := Constant.utf8.inj h
        exact ⟨fits, rfl⟩
      · rintro ⟨_, h⟩
        obtain ⟨rfl, -⟩ := PoolEntry.utf8.inj h
        rfl
  | classRef name => simp [PoolEntry.constant]
  | other tag content known => simp [PoolEntry.constant, opaqueConstant_ne_utf8]

theorem getElem?_constantSlots_utf8 {pool : List PoolEntry} (hcount : IsPoolCount pool count)
    {number : Nat} {text : Bytes} :
    (constantSlots pool count)[number]? = some (.utf8 text) ↔
      ∃ fits, Numbered pool number (.utf8 text fits) := by
  rw [getElem?_constantSlots hcount (by simp)]
  simp only [PoolEntry.constant_eq_utf8]
  constructor
  · rintro ⟨entry, hentry, fits, rfl⟩
    exact ⟨fits, hentry⟩
  · rintro ⟨fits, hentry⟩
    exact ⟨_, hentry, fits, rfl⟩

/-- The framed reader decodes a class of known attributes as the grammar reader does, if no method
has more than one code attribute. -/
theorem framed_decode_of_known (hcount : IsPoolCount layout.pool count)
    (hknown : layout.AllAttributes (Known decodeText (constantSlots layout.pool count)))
    (hone : ∀ method ∈ layout.methods.items,
      OneCode decodeText (constantSlots layout.pool count) method.attributes.items)
    (htexts : ∀ text fits, .utf8 text fits ∈ layout.pool →
      decodeText text = Utf8.decodeLossy text) :
    Framed.decode (layout.bytes count) = (decodeWith decodeText (layout.bytes count)).result := by
  obtain ⟨parsed, hfound, hparse⟩ := parse_of_known hcount hknown
  have hsettled : ∀ method ∈ parsed.methods, Settled method.codes := by
    intro method hmethod
    obtain ⟨item, hitem, hmember⟩ := exists_mem_of_forall₂ hfound.methods method hmethod
    exact settled_of_length_le_one (codes_length_le_one hmember (hone item hitem))
  have hparsedTexts : ∀ text, .utf8 text ∈ parsed.pool →
      decodeText text = Utf8.decodeLossy text := by
    intro text htext
    rw [hfound.constants] at htext
    obtain ⟨number, hnumber⟩ := List.mem_iff_getElem?.1 htext
    obtain ⟨fits, before, after, hpool, -⟩ := (getElem?_constantSlots_utf8 hcount).1 hnumber
    exact htexts text fits (by rw [hpool]; simp)
  obtain ⟨fault, hfirst, hlast⟩ | ⟨slots, hfirst, hlast⟩ :=
    exists_classWith_of_parse hparse hfound.exact hparsedTexts
  · rw [hfirst, hlast]
  · rw [hfirst, hlast, classWith_of_settled slots hsettled]

variable {addition : Addition layout}

theorem Addition.keepsTexts (hcount : IsPoolCount layout.pool count)
    (hextended : IsPoolCount addition.extended.pool extendedCount) :
    KeepsTexts (constantSlots layout.pool count)
      (constantSlots addition.extended.pool extendedCount) := by
  intro number text htext
  obtain ⟨fits, hnumbered⟩ := (getElem?_constantSlots_utf8 hcount).1 htext
  exact (getElem?_constantSlots_utf8 hextended).2 ⟨fits, hnumbered.append _⟩

/-- Attributes of the added name have that name in the extended pool. -/
theorem Addition.hasName (hextended : IsPoolCount addition.extended.pool extendedCount)
    {item : AttributeLayout} (hname : item.name = addition.number) :
    HasName decodeText (constantSlots addition.extended.pool extendedCount)
      (decodeText addition.text) item := by
  refine ⟨addition.text, ?_, rfl⟩
  rw [hname, getElem?_constantSlots_utf8 hextended]
  exact ⟨addition.fits, layout.pool, [], rfl, addition.isNumber⟩

/-- Every attribute of the extended class was there before or has the added name. -/
theorem Addition.allAttributes {property : AttributeLayout → Prop}
    (h : layout.AllAttributes property) :
    addition.extended.AllAttributes fun item => property item ∨ item.name = addition.number where
  fields field hfield item hitem := by
    obtain ⟨before, hbefore, hextends⟩ :=
      exists_mem_of_forall₂ addition.extendsFields field hfield
    exact (hextends.attributes.mem item hitem).imp_left (h.fields before hbefore item)
  methods method hmethod item hitem := by
    obtain ⟨before, hbefore, hextends⟩ :=
      exists_mem_of_forall₂ addition.extendsMethods method hmethod
    exact (hextends.attributes.mem item hitem).imp_left (h.methods before hbefore item)
  attributes item hitem :=
    (addition.extendsAttributes.mem item hitem).imp_left (h.attributes item)

theorem Addition.parse_extended (hcount : IsPoolCount layout.pool count)
    (hextended : IsPoolCount addition.extended.pool extendedCount)
    (hknown : layout.AllAttributes (Known decodeText (constantSlots layout.pool count)))
    (hunknown : IsUnknown (decodeText addition.text))
    (hadded : ¬addition.extended.AllAttributes (·.name ≠ addition.number)) :
    parse decodeText (addition.extended.bytes extendedCount) =
      .error (.unknownAttribute (decodeText addition.text)) := by
  refine parse_of_unknown hextended hunknown ?_ ?_
  · refine (addition.allAttributes hknown).mono fun item hitem => hitem.imp ?_ ?_
    · exact Known.mono (addition.keepsTexts hcount hextended)
    · exact addition.hasName hextended
  · intro hall
    apply hadded
    refine hall.mono fun item hitem hname => ?_
    exact not_known_of_hasName (addition.hasName hextended hname) hunknown hitem

/-- Where the grammar has met an unknown name, the framed reader is asked. -/
theorem decodeWith_bytes_of_unknown {name : String}
    (h : parse decodeText (layout.bytes count) = .error (.unknownAttribute name)) :
    decodeWith decodeText (layout.bytes count) =
      ⟨Framed.decode (layout.bytes count), some (.unknownAttribute name)⟩ := by
  have hlength : (Bytes.bigEndianBytes 4 0xcafebabe).length = 4 := Bytes.bigEndianBytes_length _ _
  have hmagic : (Bytes.bigEndianBytes 4 0xcafebabe).bigEndian = magicNumber :=
    Bytes.bigEndian_bigEndianBytes (by decide)
  unfold ClassLayout.bytes at h ⊢
  rw [decodeWith_append hlength, if_pos hmagic, decodeBody, h]

/-- Adding attributes of an unknown name to a class of known attributes does not change what it is
decoded as, although another reader decodes it then. -/
theorem decode_extended_eq (hcount : IsPoolCount layout.pool count)
    (hextended : IsPoolCount addition.extended.pool extendedCount)
    (hknown : layout.AllAttributes (Known decodeText (constantSlots layout.pool count)))
    (hone : ∀ method ∈ layout.methods.items,
      OneCode decodeText (constantSlots layout.pool count) method.attributes.items)
    (hunknown : IsUnknown (decodeText addition.text))
    (hadded : ¬addition.extended.AllAttributes (·.name ≠ addition.number))
    (htexts : ∀ text fits, .utf8 text fits ∈ addition.extended.pool →
      decodeText text = Utf8.decodeLossy text)
    (compiled : CompiledClass)
    (hdecode : (decodeWith decodeText (layout.bytes count)).result = .ok compiled) :
    decodeWith decodeText (addition.extended.bytes extendedCount) =
      ⟨.ok compiled, some (.unknownAttribute (decodeText addition.text))⟩ := by
  have hbefore : ∀ text fits, .utf8 text fits ∈ layout.pool →
      decodeText text = Utf8.decodeLossy text :=
    fun text fits htext => htexts text fits (List.mem_append_left _ htext)
  have hmeans : layout.Means compiled := by
    have hframed := framed_decode_bytes hcount []
    rw [List.append_nil, framed_decode_of_known hcount hknown hone hbefore, hdecode] at hframed
    exact classValue_eq_ok.1 hframed.symm
  have hother : Utf8.decodeLossy addition.text ≠ "Code" := by
    rw [← htexts addition.text addition.fits (List.mem_append_right _ List.mem_cons_self)]
    exact hunknown.ne_code
  have hframed := framed_decode_bytes hextended []
  rw [List.append_nil, classValue_eq_ok.2 (addition.means hmeans hother)] at hframed
  rw [decodeWith_bytes_of_unknown
    (addition.parse_extended hcount hextended hknown hunknown hadded), hframed]

/-- Code that returns at once. -/
def sampleCode : AttributeLayout :=
  ⟨7, [0, 0, 0, 0, 0, 0, 0, 1, 0xb1, 0, 0, 0, 0], by decide⟩

/-- A class with a long among its constants, a deprecated field and a method with code. -/
def sampleLayout : ClassLayout where
  minor := 0
  major := 52
  pool := [.utf8 [65] (by decide), .classRef 1, .other 5 [0, 0, 0, 0, 0, 0, 0, 7] (by decide),
    .utf8 [102] (by decide), .utf8 [40, 41, 86] (by decide), .utf8 [67, 111, 100, 101] (by decide),
    .utf8 [68, 101, 112, 114, 101, 99, 97, 116, 101, 100] (by decide)]
  access := 0
  thisClass := 2
  superClass := 0
  interfaces := ⟨[], by decide⟩
  fields := ⟨[⟨0, 5, 5, ⟨[⟨8, [], by decide⟩], by decide⟩⟩], by decide⟩
  methods := ⟨[⟨0, 5, 6, ⟨[sampleCode], by decide⟩⟩], by decide⟩
  attributes := ⟨[], by decide⟩

/-- Attributes named `X`, in front of the code and at the end of the class. -/
def sampleAddition : Addition sampleLayout where
  text := [88]
  fits := by decide
  number := 9
  isNumber := by decide
  fields := sampleLayout.fields
  methods := ⟨[⟨0, 5, 6, ⟨[⟨9, [1, 2, 3], by decide⟩, sampleCode], by decide⟩⟩],
    by decide⟩
  attributes := ⟨[⟨9, [], by decide⟩], by decide⟩
  extendsFields := .cons ⟨rfl, rfl, rfl, .keep _ .nil⟩ .nil
  extendsMethods := .cons ⟨rfl, rfl, rfl, .add rfl (.keep _ .nil)⟩ .nil
  extendsAttributes := .add rfl .nil

def sampleClass : CompiledClass :=
  ⟨⟨"A", none, Ordered.ofList [], [⟨"f", "()"⟩]⟩, 1, [⟨"f", "()V", 0, [⟨0, 0xb1, .other⟩]⟩]⟩

theorem sampleLayout_known :
    sampleLayout.AllAttributes (Known ModifiedUtf8.decode (constantSlots sampleLayout.pool 9)) := by
  refine ⟨?_, ?_, ?_⟩
  · intro field hfield item hitem
    obtain rfl := List.mem_singleton.1 hfield
    obtain rfl := List.mem_singleton.1 hitem
    refine ⟨[68, 101, 112, 114, 101, 99, 97, 116, 101, 100], none, rfl, ?_⟩
    have hname : ModifiedUtf8.decode [68, 101, 112, 114, 101, 99, 97, 116, 101, 100] =
        "Deprecated" := by cbv
    have hbody : ∀ length, attributeBody? "Deprecated" length = some [] := fun _ => rfl
    rw [hname, content, if_neg (by decide), hbody]
    exact Reader.bind_eq_ok.2 ⟨(), _, by rw [consume]; rfl, rfl⟩
  · intro method hmethod item hitem
    obtain rfl := List.mem_singleton.1 hmethod
    obtain rfl := List.mem_singleton.1 hitem
    exact ⟨[67, 111, 100, 101], some ⟨[0xb1], 0⟩, rfl, by cbv⟩
  · rintro item ⟨⟩

theorem sampleLayout_oneCode : ∀ method ∈ sampleLayout.methods.items,
    OneCode ModifiedUtf8.decode (constantSlots sampleLayout.pool 9) method.attributes.items := by
  intro method hmethod
  obtain rfl := List.mem_singleton.1 hmethod
  exact List.pairwise_singleton _ _

theorem sampleAddition_texts : ∀ text fits, .utf8 text fits ∈ sampleAddition.extended.pool →
    ModifiedUtf8.decode text = Utf8.decodeLossy text := by
  intro text fits htext
  simp only [sampleAddition, Addition.extended, sampleLayout, List.cons_append, List.nil_append,
    List.mem_cons, PoolEntry.utf8.injEq, reduceCtorEq, List.not_mem_nil, false_or, or_false]
    at htext
  rcases htext with rfl | rfl | rfl | rfl | rfl | rfl <;> cbv

theorem decode_sampleAddition :
    decodeWith ModifiedUtf8.decode (sampleAddition.extended.bytes 10) =
      ⟨.ok sampleClass, some (.unknownAttribute "X")⟩ := by
  have hname : ModifiedUtf8.decode sampleAddition.text = "X" := by cbv
  have hcount : IsPoolCount sampleLayout.pool 9 := ⟨by decide, Or.inl (by decide)⟩
  have hextended : IsPoolCount sampleAddition.extended.pool 10 := ⟨by decide, Or.inl (by decide)⟩
  have hunknown : IsUnknown (ModifiedUtf8.decode sampleAddition.text) := by
    rw [hname]
    exact fun _ => rfl
  have hadded : ¬sampleAddition.extended.AllAttributes (·.name ≠ sampleAddition.number) :=
    fun h => h.attributes _ List.mem_cons_self rfl
  have hbefore : ∀ text fits, .utf8 text fits ∈ sampleLayout.pool →
      ModifiedUtf8.decode text = Utf8.decodeLossy text :=
    fun text fits htext => sampleAddition_texts text fits (List.mem_append_left _ htext)
  have hdecode : (decodeWith ModifiedUtf8.decode (sampleLayout.bytes 9)).result =
      .ok sampleClass := by
    have hvalue : Framed.classValue sampleLayout = .ok sampleClass := by cbv
    rw [← framed_decode_of_known hcount sampleLayout_known sampleLayout_oneCode hbefore, ← hvalue,
      ← framed_decode_bytes hcount [], List.append_nil]
  rw [decode_extended_eq hcount hextended sampleLayout_known sampleLayout_oneCode hunknown hadded
    sampleAddition_texts _ hdecode, hname]

end Transparency

end ClassMetrics.ClassFile
