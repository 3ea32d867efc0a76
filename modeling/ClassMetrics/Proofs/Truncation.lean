import Mathlib
import ClassMetrics.Proofs.FramedReading

/-!
Class files that are cut short. A framed reader needs every byte that it takes: what it has made of
some bytes it makes of them whatever follows, and if any of them is missing it reports a field that
is cut off, since all that it checks on the way it has found in order before. Main statement: a
decoded class file takes up some number of bytes, and any fewer of them are reported as truncated.
-/

namespace ClassMetrics.ClassFile

namespace Framed

open Reader

variable {α β : Type}

/-- The bytes end within a field that the reader asks for. -/
def CutOff (reader : FrameReader α) (part : Bytes) : Prop :=
  ∀ position, ∃ offset ≤ position + part.length,
    reader ⟨position, part⟩ = .error (.truncated offset)

/-- The reader makes the value of the bytes, and can do without none of them. -/
structure Needs (reader : FrameReader α) (front : Bytes) (value : α) : Prop where
  reads : Reads reader front (.ok value)
  cutOff : ∀ part, part <+: front → part ≠ front → CutOff reader part

/-- The reader needs all bytes that it takes. -/
def NeedsAll (reader : FrameReader α) : Prop :=
  ∀ ⦃cursor next : Cursor⦄ ⦃value : α⦄, reader cursor = .ok (value, next) →
    ∃ front, cursor.rest = front ++ next.rest ∧ Needs reader front value

section Sequencing

variable {first reader : FrameReader α} {second : α → FrameReader β}

theorem CutOff.bind {part : Bytes} (h : CutOff first part) : CutOff (first >>= second) part := by
  intro position
  obtain ⟨offset, hoffset, hfails⟩ := h position
  refine ⟨offset, hoffset, ?_⟩
  change (first ⟨position, part⟩ >>= fun (value, cursor) => second value cursor) = _
  rw [hfails]
  rfl

/-- The cut may also come behind what the first reader takes. -/
theorem CutOff.bind_ok {front part : Bytes} {value : α} (hfirst : Reads first front (.ok value))
    (h : CutOff (second value) part) : CutOff (first >>= second) (front ++ part) := by
  intro position
  obtain ⟨offset, hoffset, hfails⟩ := h (position + front.length)
  refine ⟨offset, by rw [List.length_append]; omega, ?_⟩
  change (first ⟨position, front ++ part⟩ >>= fun (value, cursor) => second value cursor) = _
  rw [hfirst]
  exact hfails

theorem Needs.bind {front back : Bytes} {value : α} {made : β} (hfirst : Needs first front value)
    (hsecond : Needs (second value) back made) : Needs (first >>= second) (front ++ back) made where
  reads := hfirst.reads.bind_ok hsecond.reads
  cutOff := by
    intro part hpart hproper
    by_cases hfront : front <+: part
    · obtain ⟨rest, rfl⟩ := hfront
      have hrest : rest <+: back := (List.prefix_append_right_inj front).1 hpart
      exact .bind_ok hfirst.reads (hsecond.cutOff rest hrest fun hsame => hproper (hsame ▸ rfl))
    · have hshort : part <+: front :=
        (List.prefix_or_prefix_of_prefix hpart (List.prefix_append front back)).resolve_right hfront
      exact .bind (hfirst.cutOff part hshort fun hsame => hfront (hsame ▸ List.prefix_rfl))

theorem NeedsAll.bind (hfirst : NeedsAll first) (hsecond : ∀ value, NeedsAll (second value)) :
    NeedsAll (first >>= second) := by
  intro cursor next made h
  obtain ⟨value, middle, hvalue, hmade⟩ := bind_eq_ok.1 h
  obtain ⟨front, hfront, hneeds⟩ := hfirst hvalue
  obtain ⟨back, hback, hlater⟩ := hsecond value hmade
  exact ⟨front ++ back, by rw [hfront, hback, List.append_assoc], hneeds.bind hlater⟩

/-- Nothing is missing from no bytes. -/
theorem needs_nil {value : α} (h : Reads reader [] (.ok value)) : Needs reader [] value where
  reads := h
  cutOff := fun _ hpart hproper => absurd (List.prefix_nil.1 hpart) hproper

theorem needsAll_pure (value : α) : NeedsAll (pure value) := by
  intro cursor next made h
  obtain ⟨rfl, rfl⟩ := pure_eq_ok.1 h
  exact ⟨[], rfl, needs_nil (reads_pure value)⟩

/-- What is worked out from bytes read before needs no more of them. -/
theorem needsAll_lift (result : Except DecodeFault α) : NeedsAll (liftM result) := by
  intro cursor next made h
  obtain ⟨rfl, rfl⟩ := lift_eq_ok.1 h
  exact ⟨[], rfl, needs_nil (reads_lift _)⟩

theorem needsAll_throw (fault : DecodeFault) : NeedsAll (throw fault : FrameReader α) := by
  intro cursor next made h
  cases h

theorem NeedsAll.times (h : NeedsAll reader) (count : Nat) : NeedsAll (times reader count) := by
  induction count with
  | zero => exact needsAll_pure []
  | succ count ih => exact h.bind fun first => ih.bind fun others => needsAll_pure _

end Sequencing

section Fields

theorem needsAll_bytes (count : Nat) : NeedsAll (bytes count) := by
  intro cursor next content h
  obtain ⟨hrest, rfl⟩ := bytes_ok h
  refine ⟨content, hrest, reads_bytes content, ?_⟩
  intro part hpart hproper position
  have hshort : part.length < content.length :=
    lt_of_le_of_ne hpart.length_le fun hlength => hproper (hpart.eq_of_length hlength)
  have hmissing : Cursor.take? ⟨position, part⟩ content.length = none := by
    rw [Cursor.take?, Bytes.split?_eq_none_iff.2 hshort]
    rfl
  exact ⟨position, Nat.le_add_right _ _, by rw [bytes, hmissing]⟩

theorem needsAll_skip (count : Nat) : NeedsAll (skip count) :=
  (needsAll_bytes count).bind fun _ => needsAll_pure ()

theorem needsAll_number (width : Nat) : NeedsAll (number width) :=
  (needsAll_bytes width).bind fun _ => needsAll_pure _

theorem needsAll_constant : NeedsAll constant := by
  refine (needsAll_number 1).bind fun tag => ?_
  split
  case h_1 =>
    refine (needsAll_number 2).bind fun size => ?_
    exact (needsAll_bytes size).bind fun text => needsAll_pure _
  case h_2 => exact (needsAll_number 2).bind fun name => needsAll_pure _
  case h_18 => exact needsAll_throw _
  all_goals exact (needsAll_skip _).bind fun _ => needsAll_pure _

theorem needsAll_constants (slots : Nat) : NeedsAll (constants slots) := by
  induction slots using Nat.strongRecOn with
  | ind slots ih =>
      cases slots with
      | zero =>
          rw [constants]
          exact needsAll_pure []
      | succ slots =>
          rw [constants]
          apply needsAll_constant.bind
          rintro ⟨entry, wide⟩
          cases wide with
          | true => exact (ih (slots - 1) (by omega)).bind fun others => needsAll_pure _
          | false => exact (ih slots (by omega)).bind fun others => needsAll_pure _

theorem needsAll_pool : NeedsAll pool :=
  (needsAll_number 2).bind fun count => (needsAll_constants (count - 1)).bind fun _ =>
    needsAll_pure _

theorem needsAll_skipAttributes : NeedsAll skipAttributes := by
  have hitem : NeedsAll skipAttributes.skipAttribute :=
    (needsAll_skip 2).bind fun _ => (needsAll_number 4).bind needsAll_skip
  exact (needsAll_number 2).bind fun count => (hitem.times count).bind fun _ => needsAll_pure ()

theorem needsAll_skipField : NeedsAll skipField :=
  (needsAll_skip 6).bind fun _ => needsAll_skipAttributes

/-- The body of a code attribute is looked into only after all of it has been read. -/
theorem needsAll_methodAttribute (pool : List NameConstant) : NeedsAll (methodAttribute pool) := by
  refine (needsAll_number 2).bind fun index => ?_
  refine (needsAll_lift (textAt pool index)).bind fun name => ?_
  refine (needsAll_number 4).bind fun size => ?_
  refine (needsAll_bytes size).bind fun body => ?_
  split
  · exact (needsAll_lift _).bind fun code => needsAll_pure _
  · exact needsAll_pure none

theorem needsAll_method (pool : List NameConstant) : NeedsAll (method pool) := by
  refine (needsAll_skip 2).bind fun _ => ?_
  refine (needsAll_number 2).bind fun nameIndex => ?_
  refine (needsAll_lift (textAt pool nameIndex)).bind fun name => ?_
  refine (needsAll_number 2).bind fun descriptorIndex => ?_
  refine (needsAll_lift (textAt pool descriptorIndex)).bind fun descriptor => ?_
  refine (needsAll_number 2).bind fun count => ?_
  exact ((needsAll_methodAttribute pool).times count).bind fun attributes => needsAll_pure _

theorem needsAll_interface (pool : List NameConstant) :
    NeedsAll (do classNameAt pool (← number 2)) :=
  (needsAll_number 2).bind fun index => needsAll_lift (classNameAt pool index)

theorem needsAll_classFile : NeedsAll classFile := by
  refine (needsAll_number 4).bind fun magic => ?_
  split
  · exact needsAll_throw _
  · refine (needsAll_skip 2).bind fun _ => ?_
    refine (needsAll_skip 2).bind fun _ => ?_
    refine needsAll_pool.bind fun pool => ?_
    refine (needsAll_skip 2).bind fun _ => ?_
    refine (needsAll_number 2).bind fun thisIndex => ?_
    refine (needsAll_number 2).bind fun superIndex => ?_
    refine (needsAll_lift (classNameAt pool thisIndex)).bind fun name => ?_
    refine (needsAll_lift (superNameAt pool superIndex)).bind fun super? => ?_
    refine (needsAll_number 2).bind fun interfaceCount => ?_
    refine ((needsAll_interface pool).times interfaceCount).bind fun interfaces => ?_
    refine (needsAll_number 2).bind fun fieldCount => ?_
    refine (needsAll_skipField.times fieldCount).bind fun fields => ?_
    refine (needsAll_number 2).bind fun methodCount => ?_
    refine ((needsAll_method pool).times methodCount).bind fun methods => ?_
    exact needsAll_skipAttributes.bind fun _ => needsAll_lift _

end Fields

theorem decode_of_fault {data : Bytes} {fault : DecodeFault}
    (h : classFile (Cursor.ofBytes data) = .error fault) : decode data = .error fault := by
  change (classFile (Cursor.ofBytes data)).map (·.1) = _
  rw [h]
  rfl

end Framed

/-- A decoded class file takes up a number of bytes. Whatever else starts with these bytes is decoded
as the same class, and what ends before the last of them is truncated. -/
theorem framed_decode_truncated {data : Bytes} {compiled : CompiledClass}
    (h : Framed.decode data = .ok compiled) :
    ∃ size ≤ data.length,
      (∀ other, other.take size = data.take size → Framed.decode other = .ok compiled) ∧
        ∀ part, part <+: data.take size → part ≠ data.take size →
          ∃ offset ≤ part.length, Framed.decode part = .error (.truncated offset) := by
  obtain ⟨next, hrun⟩ := Framed.decode_eq_ok_iff.1 h
  obtain ⟨front, hfront, hneeds⟩ := Framed.needsAll_classFile hrun
  obtain rfl : data = front ++ next.rest := hfront
  rw [List.length_append]
  refine ⟨front.length, Nat.le_add_right _ _, ?_⟩
  rw [List.take_left]
  constructor
  · intro other hshared
    rw [← List.take_append_drop front.length other, hshared]
    exact Framed.decode_eq_ok_iff.2 ⟨_, hneeds.reads 0 _⟩
  · intro part hpart hproper
    obtain ⟨offset, hoffset, hfails⟩ := hneeds.cutOff part hpart hproper 0
    exact ⟨offset, by omega, Framed.decode_of_fault hfails⟩

/-- A class with a method and its code, and a byte behind the class. -/
def trailedFile : Bytes :=
  [0xca, 0xfe, 0xba, 0xbe, 0, 0, 0, 52, 0, 6,
    -- the constants: `A`, the class of that name, `f`, `()V`, `Code`
    1, 0, 1, 65, 7, 0, 1, 1, 0, 1, 102, 1, 0, 3, 40, 41, 86, 1, 0, 4, 67, 111, 100, 101,
    0, 0, 0, 2, 0, 0, 0, 0, 0, 0, 0, 1, 0, 0, 0, 3, 0, 4, 0, 1,
    0, 5, 0, 0, 0, 13, 0, 0, 0, 0, 0, 0, 0, 1, 0xb1, 0, 0, 0, 0, 0, 0, 0xff]

theorem trailedFile_truncated :
    Framed.decode trailedFile =
        .ok ⟨⟨"A", none, .empty, [⟨"f", "()"⟩]⟩, 0, [⟨"f", "()V", 0, [⟨0, 0xb1, .other⟩]⟩]⟩ ∧
      ∃ size ≤ trailedFile.length,
        (∀ other, other.take size = trailedFile.take size →
          Framed.decode other = Framed.decode trailedFile) ∧
          ∀ part, part <+: trailedFile.take size → part ≠ trailedFile.take size →
            ∃ offset ≤ part.length, Framed.decode part = .error (.truncated offset) := by
  have hdecodes : Framed.decode trailedFile =
      .ok ⟨⟨"A", none, .empty, [⟨"f", "()"⟩]⟩, 0, [⟨"f", "()V", 0, [⟨0, 0xb1, .other⟩]⟩]⟩ := by cbv
  have htruncated := framed_decode_truncated hdecodes
  rw [← hdecodes] at htruncated
  exact ⟨hdecodes, htruncated⟩

end ClassMetrics.ClassFile
