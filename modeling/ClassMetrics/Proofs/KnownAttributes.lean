import Mathlib.Tactic
import ClassMetrics.Proofs.Agreement

/-!
Class files by the names of their attributes. A file of which the grammar knows every attribute is
parsed. A file with attributes of one unknown name among them is refused for that name, at the first
of them.
-/

namespace ClassMetrics.ClassFile

/-- Every attribute of the class, of its fields and of its methods has the property. -/
structure ClassLayout.AllAttributes (layout : ClassLayout) (property : AttributeLayout → Prop) :
    Prop where
  fields : ∀ field ∈ layout.fields.items, ∀ item ∈ field.attributes.items, property item
  methods : ∀ method ∈ layout.methods.items, ∀ item ∈ method.attributes.items, property item
  attributes : ∀ item ∈ layout.attributes.items, property item

theorem ClassLayout.AllAttributes.mono {layout : ClassLayout}
    {property other : AttributeLayout → Prop} (h : layout.AllAttributes property)
    (himp : ∀ item, property item → other item) : layout.AllAttributes other where
  fields field hfield item hitem := himp item (h.fields field hfield item hitem)
  methods method hmethod item hitem := himp item (h.methods method hmethod item hitem)
  attributes item hitem := himp item (h.attributes item hitem)

theorem ClassLayout.not_allAttributes_iff {layout : ClassLayout}
    {property : AttributeLayout → Prop} :
    ¬layout.AllAttributes property ↔
      (∃ field ∈ layout.fields.items, ∃ item ∈ field.attributes.items, ¬property item) ∨
        (∃ method ∈ layout.methods.items, ∃ item ∈ method.attributes.items, ¬property item) ∨
          ∃ item ∈ layout.attributes.items, ¬property item := by
  rw [← not_iff_not, not_not]
  push Not
  exact ⟨fun h => ⟨h.fields, h.methods, h.attributes⟩, fun ⟨hf, hm, ha⟩ => ⟨hf, hm, ha⟩⟩

namespace Grammar

open Reader

section Known

variable {decodeText : Bytes → String} {pool later : List Constant}

/-- The attribute has a name, and the grammar knows it and takes its body to the end. -/
def Known (decodeText : Bytes → String) (pool : List Constant) (layout : AttributeLayout) : Prop :=
  ∃ text code?, pool[layout.name.toNat]? = some (.utf8 text) ∧
    content decodeText pool (decodeText text) layout.body.length (Cursor.ofBytes layout.body) =
      .ok (code?, ⟨layout.body.length, []⟩)

/-- The attribute has the given name. -/
def HasName (decodeText : Bytes → String) (pool : List Constant) (name : String)
    (layout : AttributeLayout) : Prop :=
  ∃ text, pool[layout.name.toNat]? = some (.utf8 text) ∧ decodeText text = name

/-- The grammar has no attribute of this name. -/
def IsUnknown (name : String) : Prop :=
  ∀ length, attributeBody? name length = none

/-- A body that is taken to its end is so wherever it stands. -/
theorem content_append (hpool : KeepsTexts pool later) {name : String} {body : Bytes}
    {code? : Option CodeBody}
    (h : content decodeText pool name body.length (Cursor.ofBytes body) =
      .ok (code?, ⟨body.length, []⟩)) :
    Reads (content decodeText later name body.length) body (.ok code?) := by
  obtain ⟨front, hpasses, hagain⟩ := content_replays hpool name body.length h
  obtain rfl : body = front := by
    have hrest := hpasses.rest
    rwa [List.append_nil] at hrest
  exact fun position rest => hagain position rest (Nat.zero_le _)

theorem Known.mono (hpool : KeepsTexts pool later) {layout : AttributeLayout}
    (h : Known decodeText pool layout) : Known decodeText later layout := by
  obtain ⟨text, code?, hnamed, hcontent⟩ := h
  have hagain := (content_append hpool hcontent).run []
  rw [List.append_nil] at hagain
  exact ⟨text, code?, hpool _ _ hnamed, hagain⟩

theorem IsUnknown.ne_code {name : String} (h : IsUnknown name) : name ≠ "Code" := by
  rintro rfl
  exact Option.some_ne_none _ (h 0)

theorem content_of_isUnknown {name : String} (h : IsUnknown name) (declared : Nat) :
    content decodeText pool name declared = throw (.unknownAttribute name) := by
  rw [content, if_neg h.ne_code, h declared]

theorem not_known_of_hasName {name : String} {layout : AttributeLayout}
    (hname : HasName decodeText pool name layout) (hunknown : IsUnknown name) :
    ¬Known decodeText pool layout := by
  obtain ⟨text, hnamed, rfl⟩ := hname
  rintro ⟨other, code?, hother, hcontent⟩
  obtain rfl := Constant.utf8.inj (Option.some.inj (hnamed.symm.trans hother))
  rw [content_of_isUnknown hunknown] at hcontent
  cases hcontent

theorem reads_attributeName {layout : AttributeLayout} {text : Bytes}
    (hnamed : pool[layout.name.toNat]? = some (.utf8 text)) :
    Reads (attributeName decodeText pool) (wordBytes layout.name) (.ok (decodeText text)) := by
  refine (reads_word layout.name).bind_ok_nil ?_
  rw [hnamed]
  exact reads_pure (decodeText text)

/-- What the grammar reader finds in a known attribute. -/
structure Found (decodeText : Bytes → String) (pool : List Constant) (layout : AttributeLayout)
    (made : Attribute) : Prop where
  exact : made.declared = made.size
  code : made.code? ≠ none → HasName decodeText pool "Code" layout

theorem reads_measured {reader : GrammarReader (Option CodeBody)} {body : Bytes}
    {code? : Option CodeBody} (h : Reads reader body (.ok code?)) (declared : Nat) :
    Reads (do
        let start ← get
        let code? ← reader
        let stop ← get
        return Attribute.mk declared (stop.position - start.position) code?) body
      (.ok ⟨declared, body.length, code?⟩) := by
  intro position rest
  refine bind_eq_ok.2 ⟨_, _, rfl, ?_⟩
  refine bind_eq_ok.2 ⟨_, _, h position rest, ?_⟩
  refine bind_eq_ok.2 ⟨_, _, rfl, ?_⟩
  rw [Nat.add_sub_cancel_left]
  rfl

theorem reads_known {layout : AttributeLayout} (h : Known decodeText pool layout) :
    ∃ made, Found decodeText pool layout made ∧
      Reads («attribute» decodeText pool) layout.bytes (.ok made) := by
  obtain ⟨text, code?, hnamed, hcontent⟩ := h
  refine ⟨⟨layout.body.length, layout.body.length, code?⟩, ⟨rfl, ?_⟩, ?_⟩
  · intro hcode
    obtain ⟨hname, -⟩ | ⟨-, hnone⟩ := content_ok hcontent
    · exact ⟨text, hnamed, hname⟩
    · exact absurd hnone hcode
  · refine (reads_attributeName hnamed).bind_ok ?_
    refine (reads_number layout.fits).bind_ok ?_
    exact reads_measured (content_append (fun _ _ h => h) hcontent) layout.body.length

theorem reads_unknown {name : String} {layout : AttributeLayout}
    (hname : HasName decodeText pool name layout) (hunknown : IsUnknown name) :
    Reads («attribute» decodeText pool) layout.bytes (.error (.unknownAttribute name)) := by
  obtain ⟨text, hnamed, rfl⟩ := hname
  refine (reads_attributeName hnamed).bind_ok ?_
  refine (reads_number layout.fits).bind_ok ?_
  intro position rest
  rw [content_of_isUnknown hunknown]
  rfl

end Known

section Outcomes

variable {decodeText : Bytes → String} {pool : List Constant} {name : String}

theorem attribute_outcome {layout : AttributeLayout} (hunknown : IsUnknown name)
    (h : Known decodeText pool layout ∨ HasName decodeText pool name layout) :
    Outcome («attribute» decodeText pool) layout.bytes (.unknownAttribute name)
      (¬Known decodeText pool layout) (Found decodeText pool layout) := by
  constructor
  · intro hbad
    exact reads_unknown (h.resolve_left hbad) hunknown
  · intro hknown
    exact reads_known (not_not.1 hknown)

theorem attributes_outcome {table : Table AttributeLayout} (hunknown : IsUnknown name)
    (h : ∀ layout ∈ table.items,
      Known decodeText pool layout ∨ HasName decodeText pool name layout) :
    Outcome (attributes decodeText pool) (table.bytes AttributeLayout.bytes)
      (.unknownAttribute name) (∃ layout ∈ table.items, ¬Known decodeText pool layout)
      (List.Forall₂ (Found decodeText pool) table.items) :=
  .bind_ok (reads_number table.fits)
    (.times fun layout hlayout => attribute_outcome hunknown (h layout hlayout))

/-- What the grammar reader finds in a field or method of known attributes. -/
def MemberFound (decodeText : Bytes → String) (pool : List Constant) (layout : MemberLayout)
    (made : Member) : Prop :=
  List.Forall₂ (Found decodeText pool) layout.attributes.items made.attributes

theorem member_outcome {layout : MemberLayout} (hunknown : IsUnknown name)
    (h : ∀ item ∈ layout.attributes.items,
      Known decodeText pool item ∨ HasName decodeText pool name item) :
    Outcome (member decodeText pool) layout.bytes (.unknownAttribute name)
      (∃ item ∈ layout.attributes.items, ¬Known decodeText pool item)
      (MemberFound decodeText pool layout) := by
  refine .bind_ok (reads_word layout.access) ?_
  refine .bind_ok (reads_word layout.name) ?_
  refine .bind_ok (reads_word layout.descriptor) ?_
  exact (attributes_outcome hunknown h).bind_pure fun made hmade => hmade

/-- What the grammar reader finds in a class of known attributes. -/
structure ClassFound (decodeText : Bytes → String) (layout : ClassLayout) (pool : List Constant)
    (made : ParsedClass) : Prop where
  constants : made.pool = pool
  fields : List.Forall₂ (MemberFound decodeText pool) layout.fields.items made.fields
  methods : List.Forall₂ (MemberFound decodeText pool) layout.methods.items made.methods
  attributes : List.Forall₂ (Found decodeText pool) layout.attributes.items made.attributes

theorem reads_interfaces (layout : Table UInt16) :
    Reads (times (number 2) layout.items.length) (layout.items.flatMap wordBytes)
      (.ok (layout.items.map UInt16.toNat)) := by
  have hitems := Reads.times layout.items fun word _ => reads_word word
  rwa [mapM_ok] at hitems

theorem tables_outcome {layout : ClassLayout} {count : Nat} (hcount : IsPoolCount layout.pool count)
    (hunknown : IsUnknown name)
    (h : layout.AllAttributes fun item =>
      Known decodeText (constantSlots layout.pool count) item ∨
        HasName decodeText (constantSlots layout.pool count) name item) :
    Outcome (tables decodeText) (layout.bytes count) (.unknownAttribute name)
      (¬layout.AllAttributes (Known decodeText (constantSlots layout.pool count)))
      (ClassFound decodeText layout (constantSlots layout.pool count)) := by
  rw [ClassLayout.not_allAttributes_iff]
  refine .bind_ok (reads_number (by decide)) ?_
  refine .bind_ok (reads_word layout.minor) ?_
  refine .bind_ok (reads_word layout.major) ?_
  rw [← List.append_assoc]
  refine .bind_ok (reads_pool hcount) ?_
  refine .bind_ok (reads_word layout.access) ?_
  refine .bind_ok (reads_word layout.thisClass) ?_
  refine .bind_ok (reads_word layout.superClass) ?_
  rw [Table.bytes, List.append_assoc]
  refine .bind_ok (reads_number layout.interfaces.fits) ?_
  refine .bind_ok (reads_interfaces layout.interfaces) ?_
  rw [Table.bytes, List.append_assoc]
  refine .bind_ok (reads_number layout.fields.fits) ?_
  refine .bind (.times fun field hfield => member_outcome hunknown (h.fields field hfield))
    fun fields hfields => ?_
  rw [Table.bytes, List.append_assoc]
  refine .bind_ok (reads_number layout.methods.fits) ?_
  refine .bind (.times fun method hmethod => member_outcome hunknown (h.methods method hmethod))
    fun methods hmethods => ?_
  refine .bind_pure (attributes_outcome hunknown h.attributes) fun attributes hattributes => ?_
  exact ⟨rfl, hfields, hmethods, hattributes⟩

/-- A class of which some attributes are known and the others have the unknown name is refused for
that name. -/
theorem parse_of_unknown {layout : ClassLayout} {count : Nat}
    (hcount : IsPoolCount layout.pool count) (hunknown : IsUnknown name)
    (h : layout.AllAttributes fun item =>
      Known decodeText (constantSlots layout.pool count) item ∨
        HasName decodeText (constantSlots layout.pool count) name item)
    (hbad : ¬layout.AllAttributes (Known decodeText (constantSlots layout.pool count))) :
    parse decodeText (layout.bytes count) = .error (.unknownAttribute name) := by
  have hfails : Reads (classFile decodeText) (layout.bytes count ++ [])
      (.error (.unknownAttribute name)) :=
    ((tables_outcome hcount hunknown h).fails hbad).bind_error []
  have hrun := hfails.run []
  rw [List.append_nil, List.append_nil] at hrun
  rw [parse, hrun]
  rfl

/-- A class of known attributes can be parsed. -/
theorem parse_of_known {layout : ClassLayout} {count : Nat}
    (hcount : IsPoolCount layout.pool count)
    (h : layout.AllAttributes (Known decodeText (constantSlots layout.pool count))) :
    ∃ parsed, ClassFound decodeText layout (constantSlots layout.pool count) parsed ∧
      parse decodeText (layout.bytes count) = .ok parsed := by
  have hempty : IsUnknown "" := fun _ => rfl
  have houtcome : Outcome (tables decodeText) (layout.bytes count) (.unknownAttribute "") _ _ :=
    tables_outcome hcount hempty (h.mono fun _ hknown => Or.inl hknown)
  obtain ⟨parsed, hfound, hreads⟩ := houtcome.reads (not_not.2 h)
  have hrun := hreads.run []
  rw [List.append_nil] at hrun
  refine ⟨parsed, hfound, parse_eq_ok.2 ⟨⟨(layout.bytes count).length, []⟩, ?_⟩⟩
  exact classFile_eq_ok.2 ⟨hrun, rfl⟩

end Outcomes

section Codes

variable {decodeText : Bytes → String} {pool : List Constant}

theorem ClassFound.exact {layout : ClassLayout} {made : ParsedClass}
    (h : ClassFound decodeText layout pool made) : made.Exact where
  fields member hmember item hitem := by
    obtain ⟨_, _, hmade⟩ := exists_mem_of_forall₂ h.fields member hmember
    obtain ⟨_, _, hfound⟩ := exists_mem_of_forall₂ hmade item hitem
    exact hfound.exact
  methods member hmember item hitem := by
    obtain ⟨_, _, hmade⟩ := exists_mem_of_forall₂ h.methods member hmember
    obtain ⟨_, _, hfound⟩ := exists_mem_of_forall₂ hmade item hitem
    exact hfound.exact
  attributes item hitem := by
    obtain ⟨_, _, hfound⟩ := exists_mem_of_forall₂ h.attributes item hitem
    exact hfound.exact

/-- Not more than one of the attributes is code. -/
def OneCode (decodeText : Bytes → String) (pool : List Constant) (items : List AttributeLayout) :
    Prop :=
  items.Pairwise fun item other =>
    ¬(HasName decodeText pool "Code" item ∧ HasName decodeText pool "Code" other)

theorem codes_length_le_one {items : List AttributeLayout} {values : List Attribute}
    (h : List.Forall₂ (Found decodeText pool) items values) (hone : OneCode decodeText pool items) :
    (values.filterMap (·.code?)).length ≤ 1 := by
  induction h with
  | nil => simp
  | @cons item value items values hfirst hothers ih =>
      obtain ⟨hnone, hone⟩ := List.pairwise_cons.1 hone
      cases hcode : value.code? with
      | none =>
          rw [List.filterMap_cons_none hcode]
          exact ih hone
      | some body =>
          -- the first attribute is code, so none of the others is
          have hname := hfirst.code (by simp [hcode])
          have hempty : values.filterMap (·.code?) = [] := by
            rw [List.filterMap_eq_nil_iff]
            intro other hother
            by_contra hsome
            obtain ⟨second, hsecond, hfound⟩ := exists_mem_of_forall₂ hothers other hother
            exact hnone second hsecond ⟨hname, hfound.code hsome⟩
          rw [List.filterMap_cons_some hcode, hempty]
          rfl

theorem settled_of_length_le_one {codes : List CodeBody} (h : codes.length ≤ 1) :
    Settled codes := by
  match codes with
  | [] => rintro first ⟨⟩
  | [body] =>
      intro first hfirst meaning hmeaning
      obtain rfl := Option.some.inj hfirst
      refine ⟨?_, ?_⟩
      · intro other hother
        obtain rfl := List.mem_singleton.1 hother
        exact ⟨meaning, hmeaning⟩
      · intro last hlast
        obtain rfl := Option.some.inj hlast
        exact hmeaning
  | _ :: _ :: _ => simp at h

end Codes

end Grammar

end ClassMetrics.ClassFile
