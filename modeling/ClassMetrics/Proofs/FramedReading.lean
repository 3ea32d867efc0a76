import Mathlib.Tactic
import ClassMetrics.ClassFile.Framed
import ClassMetrics.Proofs.ClassLayout
import ClassMetrics.Proofs.Reading

/-!
The framed reader on written layouts. Each part of a layout is read as what it is, and where a part
has been read, a layout of it stands in the file.
-/

namespace ClassMetrics.ClassFile

@[simp]
theorem wordBytes_length (word : UInt16) : (wordBytes word).length = 2 := by
  simp [wordBytes]

namespace Framed

open Reader

theorem reads_bytes (content : Bytes) : Reads (bytes content.length) content (.ok content) := by
  intro position rest
  simp only [bytes, Cursor.take?_append]
  rfl

theorem reads_skip {content : Bytes} {size : Nat} (h : content.length = size) :
    Reads (skip size) content (.ok ()) := by
  subst h
  intro position rest
  have hbytes := reads_bytes content position rest
  change (bytes content.length _ >>= _) = _
  rw [hbytes]
  rfl

theorem reads_number {width value : Nat} (h : value < 256 ^ width) :
    Reads (number width) (Bytes.bigEndianBytes width value) (.ok value) := by
  intro position rest
  have hbytes := reads_bytes (Bytes.bigEndianBytes width value) position rest
  rw [Bytes.bigEndianBytes_length] at hbytes
  change (bytes width _ >>= _) = _
  rw [hbytes]
  change Except.ok _ = Except.ok _
  rw [Bytes.bigEndian_bigEndianBytes h, Bytes.bigEndianBytes_length]

theorem reads_word (word : UInt16) : Reads (number 2) (wordBytes word) (.ok word.toNat) :=
  reads_number word.toNat_lt

theorem reads_skip_word (word : UInt16) : Reads (skip 2) (wordBytes word) (.ok ()) :=
  reads_skip (wordBytes_length word)

theorem reads_byte (byte : UInt8) : Reads (number 1) [byte] (.ok byte.toNat) := by
  have hbound : byte.toNat < 256 ^ 1 := by simpa using byte.toNat_lt
  simpa [Bytes.bigEndianBytes] using reads_number hbound

/-- The content of an opaque constant is passed over as one block. -/
theorem reads_skip_content {content : Bytes} {size : Nat} {made : NameConstant × Bool}
    (h : content.length = size) :
    Reads (skip size >>= fun _ => pure made) content (.ok made) :=
  (reads_skip h).bind_pure fun _ => made

theorem reads_constant (entry : PoolEntry) :
    Reads constant entry.bytes (.ok (entry.naming, entry.isWide)) := by
  cases entry with
  | utf8 text fits =>
      refine (reads_byte 1).bind_ok ?_
      refine (reads_number fits).bind_ok ?_
      exact (reads_bytes text).bind_pure fun text =>
        (NameConstant.text (Utf8.decodeLossy text), false)
  | classRef name =>
      refine (reads_byte 7).bind_ok ?_
      exact (reads_word name).bind_pure fun name => (NameConstant.classRef name, false)
  | other tag content known =>
      refine (reads_byte tag).bind_ok ?_
      rcases opaqueSize?_cases known with
        ⟨htag, hsize⟩ | ⟨htag, hsize⟩ | ⟨htag, hsize⟩ | ⟨rfl, hsize⟩
      case inr.inr.inr => exact reads_skip_content hsize
      all_goals
        fin_cases htag
        all_goals exact reads_skip_content hsize

theorem reads_constants {pool : List PoolEntry} {slots : Nat} (h : Fills pool slots) :
    Reads (constants slots) (pool.flatMap PoolEntry.bytes)
      (.ok (pool.flatMap (PoolEntry.slots PoolEntry.naming .other))) := by
  induction pool generalizing slots with
  | nil =>
      obtain rfl : slots = 0 := h
      rw [constants]
      exact reads_pure []
  | cons entry others ih =>
      obtain ⟨hpos, hothers⟩ := h
      obtain ⟨slots, rfl⟩ := Nat.exists_eq_add_one_of_ne_zero hpos.ne'
      rw [constants]
      refine (reads_constant entry).bind_ok ?_
      by_cases hwide : entry.isWide
      · have hnumbers : entry.numbers = 2 := by simp [PoolEntry.numbers, hwide]
        rw [hnumbers] at hothers
        simp only [hwide, if_true, List.flatMap_cons, PoolEntry.slots]
        exact (ih hothers).bind_pure (entry.naming :: NameConstant.other :: ·)
      · have hnumbers : entry.numbers = 1 := by simp [PoolEntry.numbers, hwide]
        rw [hnumbers] at hothers
        simp only [hwide, List.flatMap_cons, PoolEntry.slots]
        exact (ih hothers).bind_pure (entry.naming :: ·)

theorem reads_pool {layout : List PoolEntry} {count : Nat} (h : IsPoolCount layout count) :
    Reads pool (Bytes.bigEndianBytes 2 count ++ layout.flatMap PoolEntry.bytes)
      (.ok (poolSlots layout)) := by
  obtain ⟨hcount, hfills⟩ := (isPoolCount_iff layout count).1 h
  exact (reads_number hcount).bind_ok ((reads_constants hfills).bind_pure (NameConstant.other :: ·))

theorem reads_skipAttribute (layout : AttributeLayout) :
    Reads skipAttributes.skipAttribute layout.bytes (.ok ()) :=
  (reads_skip_word layout.name).bind_ok ((reads_number layout.fits).bind_ok (reads_skip rfl))

theorem reads_skipAttributes (layout : Table AttributeLayout) :
    Reads skipAttributes (layout.bytes AttributeLayout.bytes) (.ok ()) := by
  have hitems := Reads.times layout.items fun item _ => reads_skipAttribute item
  rw [mapM_ok] at hitems
  exact (reads_number layout.fits).bind_ok (hitems.bind_pure fun _ => ())

theorem reads_skipField (layout : MemberLayout) : Reads skipField layout.bytes (.ok ()) := by
  have hnames : Reads (skip 6) (wordBytes layout.access ++ (wordBytes layout.name ++
      wordBytes layout.descriptor)) (.ok ()) := reads_skip (by simp)
  rw [MemberLayout.bytes, ← List.append_assoc, ← List.append_assoc, List.append_assoc (wordBytes _)]
  exact hnames.bind_ok (reads_skipAttributes layout.attributes)

/-- What the framed reader makes of an attribute of a method. -/
def attributeValue (pool : List NameConstant) (layout : AttributeLayout) :
    Except DecodeFault (Option (List Instruction × Nat)) := do
  let name ← textAt pool layout.name.toNat
  if name = "Code" then
    let (code, _) ← codeBody.run (Cursor.ofBytes layout.body)
    return some code
  else
    return none

/-- What the framed reader makes of a method. -/
def methodValue (pool : List NameConstant) (layout : MemberLayout) :
    Except DecodeFault MethodBody := do
  let name ← textAt pool layout.name.toNat
  let descriptor ← textAt pool layout.descriptor.toNat
  let attributes ← layout.attributes.items.mapM (attributeValue pool)
  let (instructions, handlers) := (attributes.filterMap id).getLast?.getD ([], 0)
  return ⟨name, descriptor, handlers, instructions⟩

/-- What the framed reader makes of a class file. -/
def classValue (layout : ClassLayout) : Except DecodeFault CompiledClass := do
  let pool := poolSlots layout.pool
  let name ← classNameAt pool layout.thisClass.toNat
  let super? ← superNameAt pool layout.superClass.toNat
  let interfaces ← layout.interfaces.items.mapM fun index => classNameAt pool index.toNat
  let methods ← layout.methods.items.mapM (methodValue pool)
  assemble name super? interfaces layout.fields.items.length methods

theorem reads_methodAttribute (pool : List NameConstant) (layout : AttributeLayout) :
    Reads (methodAttribute pool) layout.bytes (attributeValue pool layout) := by
  refine (reads_word layout.name).bind_ok ?_
  refine Reads.lift_bind fun name => ?_
  refine (reads_number layout.fits).bind_ok ?_
  refine (reads_bytes layout.body).bind_ok_nil ?_
  split
  · exact Reads.lift_bind fun _ => reads_pure _
  · exact reads_pure none

theorem reads_method (pool : List NameConstant) (layout : MemberLayout) :
    Reads (method pool) layout.bytes (methodValue pool layout) := by
  refine (reads_skip_word layout.access).bind_ok ?_
  refine (reads_word layout.name).bind_ok ?_
  refine Reads.lift_bind fun name => ?_
  refine (reads_word layout.descriptor).bind_ok ?_
  refine Reads.lift_bind fun descriptor => ?_
  refine (reads_number layout.attributes.fits).bind_ok ?_
  have hattributes := Reads.times layout.attributes.items fun item _ =>
    reads_methodAttribute pool item
  exact hattributes.bind_nil fun attributes => reads_pure _

theorem reads_interface (pool : List NameConstant) (index : UInt16) :
    Reads (do classNameAt pool (← number 2)) (wordBytes index) (classNameAt pool index.toNat) :=
  (reads_word index).bind_nil fun number => reads_lift (classNameAt pool number)

theorem reads_fields (layouts : List MemberLayout) :
    Reads (times skipField layouts.length) (layouts.flatMap MemberLayout.bytes)
      (.ok (layouts.map fun _ => ())) := by
  have hfields := Reads.times layouts fun item _ => reads_skipField item
  rwa [mapM_ok] at hfields

/-- A written class file is read as what its layout is worth. -/
theorem reads_classFile {layout : ClassLayout} {count : Nat} (h : IsPoolCount layout.pool count) :
    Reads classFile (layout.bytes count) (classValue layout) := by
  refine (reads_number (by decide)).bind_ok ?_
  refine (reads_skip_word layout.minor).bind_ok ?_
  refine (reads_skip_word layout.major).bind_ok ?_
  rw [← List.append_assoc]
  refine (reads_pool h).bind_ok ?_
  refine (reads_skip_word layout.access).bind_ok ?_
  refine (reads_word layout.thisClass).bind_ok ?_
  refine (reads_word layout.superClass).bind_ok ?_
  refine Reads.lift_bind fun name => ?_
  refine Reads.lift_bind fun super? => ?_
  rw [Table.bytes, List.append_assoc]
  refine (reads_number layout.interfaces.fits).bind_ok ?_
  refine (Reads.times layout.interfaces.items fun item _ => reads_interface _ item).bind
    fun interfaces => ?_
  rw [Table.bytes, List.append_assoc]
  refine (reads_number layout.fields.fits).bind_ok ?_
  refine (reads_fields layout.fields.items).bind_ok ?_
  rw [Table.bytes, List.append_assoc, List.length_map]
  refine (reads_number layout.methods.fits).bind_ok ?_
  refine (Reads.times layout.methods.items fun item _ => reads_method _ item).bind
    fun methods => ?_
  exact (reads_skipAttributes layout.attributes).bind_nil fun _ => reads_lift _

section Converse

variable {cursor next : Cursor}

theorem bytes_ok {count : Nat} {content : Bytes} (h : bytes count cursor = .ok (content, next)) :
    cursor.rest = content ++ next.rest ∧ content.length = count := by
  unfold bytes at h
  split at h
  · next taken htake =>
      obtain rfl := Except.ok.inj h
      obtain ⟨hpasses, hlength⟩ := Cursor.take?_eq_some htake
      exact ⟨hpasses.rest, hlength⟩
  · cases h

theorem skip_ok {count : Nat} {made : Unit} (h : skip count cursor = .ok (made, next)) :
    ∃ content, cursor.rest = content ++ next.rest ∧ content.length = count := by
  obtain ⟨content, after, hcontent, h⟩ := bind_eq_ok.1 h
  obtain ⟨-, rfl⟩ := pure_eq_ok.1 h
  exact ⟨content, bytes_ok hcontent⟩

theorem number_ok {width value : Nat} (h : number width cursor = .ok (value, next)) :
    value < 256 ^ width ∧ cursor.rest = Bytes.bigEndianBytes width value ++ next.rest := by
  obtain ⟨content, after, hcontent, h⟩ := bind_eq_ok.1 h
  obtain ⟨rfl, rfl⟩ := pure_eq_ok.1 h
  obtain ⟨hrest, rfl⟩ := bytes_ok hcontent
  exact ⟨Bytes.bigEndian_lt content, by rw [Bytes.bigEndianBytes_bigEndian, hrest]⟩

theorem exists_wordBytes {content : Bytes} (h : content.length = 2) :
    ∃ word, wordBytes word = content := by
  refine ⟨UInt16.ofNat (Bytes.bigEndian content), ?_⟩
  have hbound := Bytes.bigEndian_lt content
  rw [h] at hbound
  rw [wordBytes, UInt16.toNat_ofNat_of_lt' hbound, ← h, Bytes.bigEndianBytes_bigEndian]

theorem skip_word_ok {made : Unit} (h : skip 2 cursor = .ok (made, next)) :
    ∃ word, cursor.rest = wordBytes word ++ next.rest := by
  obtain ⟨content, hrest, hlength⟩ := skip_ok h
  obtain ⟨word, rfl⟩ := exists_wordBytes hlength
  exact ⟨word, hrest⟩

theorem word_ok {value : Nat} (h : number 2 cursor = .ok (value, next)) :
    ∃ word : UInt16, word.toNat = value ∧ cursor.rest = wordBytes word ++ next.rest := by
  obtain ⟨hbound, hrest⟩ := number_ok h
  have hvalue : (UInt16.ofNat value).toNat = value := UInt16.toNat_ofNat_of_lt' hbound
  exact ⟨UInt16.ofNat value, hvalue, by rw [wordBytes, hvalue, hrest]⟩

/-- A counted table stands where one has been read. -/
theorem table_ok {α γ : Type} {reader : FrameReader α} {write : γ → Bytes}
    (h : ∀ {cursor next : Cursor} {value : α}, reader cursor = .ok (value, next) →
      ∃ item, cursor.rest = write item ++ next.rest)
    {count : Nat} {values : List α} {middle : Cursor}
    (hcount : number 2 cursor = .ok (count, middle))
    (hread : times reader count middle = .ok (values, next)) :
    ∃ table : Table γ, cursor.rest = table.bytes write ++ next.rest := by
  obtain ⟨hbound, hrest⟩ := number_ok hcount
  have hitem : ∀ value ∈ values, ∀ {cursor next : Cursor}, reader cursor = .ok (value, next) →
      ∃ item, True ∧ cursor.rest = write item ++ next.rest := by
    intro value _ cursor next hvalue
    obtain ⟨item, hitem⟩ := h hvalue
    exact ⟨item, trivial, hitem⟩
  obtain ⟨items, rfl, -, hitems⟩ := exists_items_of_times hitem hread
  exact ⟨⟨items, hbound⟩, by rw [hrest, hitems, Table.bytes, List.append_assoc]⟩

theorem other_ok {tag : UInt8} {size : Nat} {wide : Bool} {made : NameConstant × Bool}
    {after : Cursor} (hsize : opaqueSize? tag = some size)
    (hwide : decide (tag ∈ [5, 6]) = wide) (hrest : cursor.rest = tag :: after.rest)
    (h : (skip size >>= fun _ => (pure (.other, wide) : FrameReader _)) after = .ok (made, next)) :
    ∃ entry : PoolEntry, cursor.rest = entry.bytes ++ next.rest ∧ entry.isWide = made.2 := by
  obtain ⟨_, middle, hskip, h⟩ := bind_eq_ok.1 h
  obtain ⟨rfl, rfl⟩ := pure_eq_ok.1 h
  obtain ⟨content, hcontent, rfl⟩ := skip_ok hskip
  exact ⟨.other tag content hsize, by rw [hrest, hcontent]; rfl, hwide⟩

theorem constant_ok {made : NameConstant × Bool} (h : constant cursor = .ok (made, next)) :
    ∃ entry : PoolEntry, cursor.rest = entry.bytes ++ next.rest ∧ entry.isWide = made.2 := by
  obtain ⟨tag, after, htag, h⟩ := bind_eq_ok.1 h
  obtain ⟨-, hrest⟩ := number_ok htag
  split at h
  case h_1 =>
    obtain ⟨size, middle, hsize, h⟩ := bind_eq_ok.1 h
    obtain ⟨text, behind, htext, h⟩ := bind_eq_ok.1 h
    obtain ⟨rfl, rfl⟩ := pure_eq_ok.1 h
    obtain ⟨hfits, hmiddle⟩ := number_ok hsize
    obtain ⟨hbehind, rfl⟩ := bytes_ok htext
    exact ⟨.utf8 text hfits, by rw [hrest, hmiddle, hbehind, ← List.append_assoc]; rfl, rfl⟩
  case h_2 =>
    obtain ⟨name, middle, hname, h⟩ := bind_eq_ok.1 h
    obtain ⟨rfl, rfl⟩ := pure_eq_ok.1 h
    obtain ⟨word, rfl, hword⟩ := word_ok hname
    exact ⟨.classRef word, by rw [hrest, hword]; rfl, rfl⟩
  case h_18 => cases h
  all_goals exact other_ok (by decide) (by decide) hrest h

theorem constants_ok {slots : Nat} {made : List NameConstant}
    (h : constants slots cursor = .ok (made, next)) :
    ∃ pool, Fills pool slots ∧ cursor.rest = pool.flatMap PoolEntry.bytes ++ next.rest := by
  induction slots using Nat.strongRecOn generalizing cursor made with
  | ind slots ih =>
      cases slots with
      | zero =>
          rw [constants] at h
          obtain ⟨-, rfl⟩ := pure_eq_ok.1 h
          exact ⟨[], rfl, rfl⟩
      | succ slots =>
          rw [constants] at h
          obtain ⟨⟨naming, wide⟩, after, hfirst, h⟩ := bind_eq_ok.1 h
          obtain ⟨entry, hentry, rfl⟩ := constant_ok hfirst
          by_cases hwide : entry.isWide
          · simp only [hwide, if_true] at h
            obtain ⟨others, behind, hothers, h⟩ := bind_eq_ok.1 h
            obtain ⟨-, rfl⟩ := pure_eq_ok.1 h
            obtain ⟨pool, hfills, hpool⟩ := ih (slots - 1) (by omega) hothers
            refine ⟨entry :: pool, ⟨by omega, ?_⟩, ?_⟩
            · rw [show slots + 1 - entry.numbers = slots - 1 by simp [PoolEntry.numbers, hwide]]
              exact hfills
            · rw [hentry, hpool, List.flatMap_cons, List.append_assoc]
          · simp only [hwide] at h
            obtain ⟨others, behind, hothers, h⟩ := bind_eq_ok.1 h
            obtain ⟨-, rfl⟩ := pure_eq_ok.1 h
            obtain ⟨pool, hfills, hpool⟩ := ih slots (by omega) hothers
            refine ⟨entry :: pool, ⟨by omega, ?_⟩, ?_⟩
            · rw [show slots + 1 - entry.numbers = slots by simp [PoolEntry.numbers, hwide]]
              exact hfills
            · rw [hentry, hpool, List.flatMap_cons, List.append_assoc]

theorem pool_ok {made : List NameConstant} (h : pool cursor = .ok (made, next)) :
    ∃ layout count, IsPoolCount layout count ∧ cursor.rest =
      Bytes.bigEndianBytes 2 count ++ (layout.flatMap PoolEntry.bytes ++ next.rest) := by
  obtain ⟨count, after, hcount, h⟩ := bind_eq_ok.1 h
  obtain ⟨others, behind, hothers, h⟩ := bind_eq_ok.1 h
  obtain ⟨-, rfl⟩ := pure_eq_ok.1 h
  obtain ⟨hbound, hrest⟩ := number_ok hcount
  obtain ⟨layout, hfills, hlayout⟩ := constants_ok hothers
  exact ⟨layout, count, (isPoolCount_iff layout count).2 ⟨hbound, hfills⟩, by rw [hrest, hlayout]⟩

theorem skipAttribute_ok {made : Unit}
    (h : skipAttributes.skipAttribute cursor = .ok (made, next)) :
    ∃ layout : AttributeLayout, cursor.rest = layout.bytes ++ next.rest := by
  obtain ⟨_, afterName, hname, h⟩ := bind_eq_ok.1 h
  obtain ⟨length, afterLength, hlength, h⟩ := bind_eq_ok.1 h
  obtain ⟨name, hrest⟩ := skip_word_ok hname
  obtain ⟨hbound, hafterName⟩ := number_ok hlength
  obtain ⟨body, hbody, rfl⟩ := skip_ok h
  refine ⟨⟨name, body, hbound⟩, ?_⟩
  rw [hrest, hafterName, hbody, AttributeLayout.bytes, List.append_assoc, List.append_assoc]

theorem skipAttributes_ok {made : Unit} (h : skipAttributes cursor = .ok (made, next)) :
    ∃ layout : Table AttributeLayout,
      cursor.rest = layout.bytes AttributeLayout.bytes ++ next.rest := by
  obtain ⟨count, after, hcount, h⟩ := bind_eq_ok.1 h
  obtain ⟨items, behind, hitems, h⟩ := bind_eq_ok.1 h
  obtain ⟨-, rfl⟩ := pure_eq_ok.1 h
  exact table_ok skipAttribute_ok hcount hitems

theorem skipField_ok {made : Unit} (h : skipField cursor = .ok (made, next)) :
    ∃ layout : MemberLayout, cursor.rest = layout.bytes ++ next.rest := by
  obtain ⟨_, after, hnames, h⟩ := bind_eq_ok.1 h
  obtain ⟨content, hrest, hlength⟩ := skip_ok hnames
  obtain ⟨attributes, hattributes⟩ := skipAttributes_ok h
  obtain ⟨access, content, rfl, haccess⟩ := Bytes.exists_front (show 2 ≤ content.length by omega)
  rw [List.length_append] at hlength
  obtain ⟨name, descriptor, rfl, hname⟩ := Bytes.exists_front (show 2 ≤ content.length by omega)
  rw [List.length_append] at hlength
  obtain ⟨access, rfl⟩ := exists_wordBytes haccess
  obtain ⟨name, rfl⟩ := exists_wordBytes hname
  obtain ⟨descriptor, rfl⟩ := exists_wordBytes (show descriptor.length = 2 by omega)
  refine ⟨⟨access, name, descriptor, attributes⟩, ?_⟩
  rw [hrest, hattributes]
  simp only [MemberLayout.bytes, List.append_assoc]

theorem methodAttribute_ok {pool : List NameConstant} {made : Option (List Instruction × Nat)}
    (h : methodAttribute pool cursor = .ok (made, next)) :
    ∃ layout : AttributeLayout, cursor.rest = layout.bytes ++ next.rest := by
  obtain ⟨nameIndex, afterName, hname, h⟩ := bind_eq_ok.1 h
  obtain ⟨text, afterText, htext, h⟩ := bind_eq_ok.1 h
  obtain ⟨-, rfl⟩ := lift_eq_ok.1 htext
  obtain ⟨length, afterLength, hlength, h⟩ := bind_eq_ok.1 h
  obtain ⟨body, afterBody, hbody, h⟩ := bind_eq_ok.1 h
  have hnext : afterBody = next := by
    by_cases hcode : text = "Code"
    · rw [if_pos hcode] at h
      obtain ⟨code, afterCode, hlift, h⟩ := bind_eq_ok.1 h
      obtain ⟨-, rfl⟩ := lift_eq_ok.1 hlift
      exact (pure_eq_ok.1 h).2
    · rw [if_neg hcode] at h
      exact (pure_eq_ok.1 h).2
  obtain ⟨name, -, hrest⟩ := word_ok hname
  obtain ⟨hbound, hafterName⟩ := number_ok hlength
  obtain ⟨hafterLength, rfl⟩ := bytes_ok hbody
  refine ⟨⟨name, body, hbound⟩, ?_⟩
  rw [hrest, hafterName, hafterLength, hnext, AttributeLayout.bytes, List.append_assoc,
    List.append_assoc]

theorem method_ok {pool : List NameConstant} {made : MethodBody}
    (h : method pool cursor = .ok (made, next)) :
    ∃ layout : MemberLayout, cursor.rest = layout.bytes ++ next.rest := by
  obtain ⟨_, afterAccess, haccess, h⟩ := bind_eq_ok.1 h
  obtain ⟨nameIndex, afterName, hname, h⟩ := bind_eq_ok.1 h
  obtain ⟨nameText, afterNameText, hnameText, h⟩ := bind_eq_ok.1 h
  obtain ⟨-, rfl⟩ := lift_eq_ok.1 hnameText
  obtain ⟨descriptorIndex, afterDescriptor, hdescriptor, h⟩ := bind_eq_ok.1 h
  obtain ⟨descriptorText, afterText, hdescriptorText, h⟩ := bind_eq_ok.1 h
  obtain ⟨-, rfl⟩ := lift_eq_ok.1 hdescriptorText
  obtain ⟨count, afterCount, hcount, h⟩ := bind_eq_ok.1 h
  obtain ⟨values, afterItems, hitems, h⟩ := bind_eq_ok.1 h
  obtain ⟨-, rfl⟩ := pure_eq_ok.1 h
  obtain ⟨access, hrest⟩ := skip_word_ok haccess
  obtain ⟨name, -, hafterAccess⟩ := word_ok hname
  obtain ⟨descriptor, -, hafterName⟩ := word_ok hdescriptor
  obtain ⟨attributes, hattributes⟩ := table_ok methodAttribute_ok hcount hitems
  refine ⟨⟨access, name, descriptor, attributes⟩, ?_⟩
  rw [hrest, hafterAccess, hafterName, hattributes]
  simp only [MemberLayout.bytes, List.append_assoc]

theorem interface_ok {pool : List NameConstant} {made : String}
    (h : (do classNameAt pool (← number 2) : FrameReader String) cursor = .ok (made, next)) :
    ∃ index, cursor.rest = wordBytes index ++ next.rest := by
  obtain ⟨number, after, hnumber, h⟩ := bind_eq_ok.1 h
  obtain ⟨-, rfl⟩ := lift_eq_ok.1 h
  obtain ⟨index, -, hrest⟩ := word_ok hnumber
  exact ⟨index, hrest⟩

/-- A class file stands where one has been read. -/
theorem classFile_ok {made : CompiledClass} (h : classFile cursor = .ok (made, next)) :
    ∃ (layout : ClassLayout) (count : Nat), IsPoolCount layout.pool count ∧
      cursor.rest = layout.bytes count ++ next.rest := by
  obtain ⟨magic, afterMagic, hmagic, h⟩ := bind_eq_ok.1 h
  by_cases hwrong : magic ≠ magicNumber
  · rw [if_pos hwrong] at h
    cases h
  obtain rfl := not_ne_iff.1 hwrong
  rw [if_neg hwrong] at h
  obtain ⟨_, afterMinor, hminor, h⟩ := bind_eq_ok.1 h
  obtain ⟨_, afterMajor, hmajor, h⟩ := bind_eq_ok.1 h
  obtain ⟨slots, afterPool, hpool, h⟩ := bind_eq_ok.1 h
  obtain ⟨_, afterAccess, haccess, h⟩ := bind_eq_ok.1 h
  obtain ⟨thisIndex, afterThis, hthis, h⟩ := bind_eq_ok.1 h
  obtain ⟨superIndex, afterSuper, hsuper, h⟩ := bind_eq_ok.1 h
  obtain ⟨name, afterName, hname, h⟩ := bind_eq_ok.1 h
  obtain ⟨-, rfl⟩ := lift_eq_ok.1 hname
  obtain ⟨super?, afterSuperName, hsuperName, h⟩ := bind_eq_ok.1 h
  obtain ⟨-, rfl⟩ := lift_eq_ok.1 hsuperName
  obtain ⟨interfaceCount, afterInterfaceCount, hinterfaceCount, h⟩ := bind_eq_ok.1 h
  obtain ⟨interfaceNames, afterInterfaces, hinterfaces, h⟩ := bind_eq_ok.1 h
  obtain ⟨fieldCount, afterFieldCount, hfieldCount, h⟩ := bind_eq_ok.1 h
  obtain ⟨passed, afterFields, hfields, h⟩ := bind_eq_ok.1 h
  obtain ⟨methodCount, afterMethodCount, hmethodCount, h⟩ := bind_eq_ok.1 h
  obtain ⟨bodies, afterMethods, hmethods, h⟩ := bind_eq_ok.1 h
  obtain ⟨_, afterAttributes, hattributes, h⟩ := bind_eq_ok.1 h
  obtain ⟨-, rfl⟩ := lift_eq_ok.1 h
  obtain ⟨-, hrest⟩ := number_ok hmagic
  obtain ⟨minor, hafterMagic⟩ := skip_word_ok hminor
  obtain ⟨major, hafterMinor⟩ := skip_word_ok hmajor
  obtain ⟨pool, count, hcount, hafterMajor⟩ := pool_ok hpool
  obtain ⟨access, hafterPool⟩ := skip_word_ok haccess
  obtain ⟨thisClass, -, hafterAccess⟩ := word_ok hthis
  obtain ⟨superClass, -, hafterThis⟩ := word_ok hsuper
  obtain ⟨interfaces, hafterSuper⟩ := table_ok interface_ok hinterfaceCount hinterfaces
  obtain ⟨fields, hafterInterfaces⟩ := table_ok skipField_ok hfieldCount hfields
  obtain ⟨methods, hafterFields⟩ := table_ok method_ok hmethodCount hmethods
  obtain ⟨attributes, hafterMethods⟩ := skipAttributes_ok hattributes
  refine ⟨⟨minor, major, pool, access, thisClass, superClass, interfaces, fields, methods,
    attributes⟩, count, hcount, ?_⟩
  rw [hrest, hafterMagic, hafterMinor, hafterMajor, hafterPool, hafterAccess, hafterThis,
    hafterSuper, hafterInterfaces, hafterFields, hafterMethods]
  simp only [ClassLayout.bytes, ClassLayout.bodyBytes, List.append_assoc, magicNumber]

end Converse

theorem decode_eq_ok_iff {data : Bytes} {compiled : CompiledClass} :
    decode data = .ok compiled ↔
      ∃ next, classFile (Cursor.ofBytes data) = .ok (compiled, next) := by
  change (classFile (Cursor.ofBytes data)).map (·.1) = _ ↔ _
  cases classFile (Cursor.ofBytes data) with
  | error fault => simp [Except.map]
  | ok made =>
      cases made
      simp [Except.map]

end Framed

end ClassMetrics.ClassFile
