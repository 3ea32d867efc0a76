import Mathlib
import ClassMetrics.Analysis
import ClassMetrics.Proofs.Lookup
import ClassMetrics.Proofs.Pairing

/-!
The order in which entries are recorded. Two classes of different names can be taken in one after
the other or the other way round; hence only the order among classes of one name counts. Main
statement: sequences with the same entries, those of each class in the same order, are recorded
alike, and what is found in their analysis is the same.
-/

namespace ClassMetrics

theorem Totals.record_comm (totals : Totals) (first second : CompiledClass) :
    (totals.record first).record second = (totals.record second).record first := by
  simp only [record, addAbc, Totals.mk.injEq]
  refine ⟨?_, ?_, ?_, ?_, trivial, ?_⟩
  all_goals ac_rfl

namespace ClassTable

variable {table : ClassTable} {first second : ClassHeader}

theorem insert_comm (h : first.name ≠ second.name) :
    (table.insert first).insert second = (table.insert second).insert first :=
  ext (Ordered.insert_comm h)

theorem contains_insert_of_ne (h : first.name ≠ second.name) :
    (table.insert first).contains second.name = table.contains second.name := by
  simp [contains, insert, h]

end ClassTable

attribute [ext] ScanState

namespace ScanState

variable {state : ScanState} {first second : CompiledClass}

theorem replaced_add (state : ScanState) (compiled : CompiledClass) :
    (state.add compiled).replaced =
      state.replaced + (state.classes.contains compiled.header.name).toNat := by
  rw [add]
  cases state.classes.contains compiled.header.name with
  | false => rfl
  | true => rfl

/-- Classes of different names are taken in alike in both orders. -/
theorem add_comm (h : first.header.name ≠ second.header.name) :
    (state.add first).add second = (state.add second).add first := by
  have hsecond : (state.add first).classes.contains second.header.name =
      state.classes.contains second.header.name := ClassTable.contains_insert_of_ne h
  have hfirst : (state.add second).classes.contains first.header.name =
      state.classes.contains first.header.name := ClassTable.contains_insert_of_ne h.symm
  apply ScanState.ext
  · exact ClassTable.insert_comm h
  · exact state.totals.record_comm first second
  · rfl
  · rw [replaced_add, replaced_add, replaced_add, replaced_add, hfirst, hsecond]
    omega

/-- A class can be taken in before others that do not have its name. -/
theorem foldl_add_middle {compiled : CompiledClass} {before after : List CompiledClass}
    (h : ∀ other ∈ before, other.header.name ≠ compiled.header.name) :
    (before ++ compiled :: after).foldl add state =
      (compiled :: (before ++ after)).foldl add state := by
  induction before generalizing state with
  | nil => rfl
  | cons other rest ih =>
      have hother : other.header.name ≠ compiled.header.name := h other List.mem_cons_self
      have hrest : (rest ++ compiled :: after).foldl add (state.add other) =
          (compiled :: (rest ++ after)).foldl add (state.add other) :=
        ih fun later hlater => h later (List.mem_cons_of_mem _ hlater)
      rw [List.cons_append, List.foldl_cons, hrest, List.foldl_cons, add_comm hother]
      rfl

/-- Only the order among classes of one name counts. -/
theorem foldl_add_eq {classes others : List CompiledClass}
    (h : ∀ name, classes.filter (·.header.name == name) = others.filter (·.header.name == name)) :
    classes.foldl add state = others.foldl add state := by
  induction classes generalizing others state with
  | nil =>
      cases others with
      | nil => rfl
      | cons compiled rest =>
          have hnone := h compiled.header.name
          simp at hnone
  | cons compiled rest ih =>
      have hown := h compiled.header.name
      rw [List.filter_cons_of_pos (by simp)] at hown
      obtain ⟨before, after, rfl, hbefore, -, hafter⟩ := List.filter_eq_cons_iff.1 hown.symm
      have hapart : ∀ other ∈ before, other.header.name ≠ compiled.header.name := by
        intro other hother hsame
        exact hbefore other hother (beq_iff_eq.2 hsame)
      rw [foldl_add_middle hapart, List.foldl_cons, List.foldl_cons]
      apply ih
      intro name
      rw [List.filter_append]
      by_cases hname : compiled.header.name = name
      · subst hname
        rw [List.filter_eq_nil_iff.2 hbefore, List.nil_append, hafter]
      · have hother := h name
        rwa [List.filter_cons_of_neg (by simpa using hname), List.filter_append,
          List.filter_cons_of_neg (by simpa using hname)] at hother

end ScanState

/-- The class that an entry decodes to. -/
def ClassEntry.class? (entry : ClassEntry) : Option CompiledClass :=
  (ClassFile.decode entry.data).toOption

/-- Whether an entry decodes to a class of the given name. -/
def ClassEntry.hasClass (name : String) (entry : ClassEntry) : Bool :=
  entry.class?.any (·.header.name == name)

/-- Two sequences have the same entries, and those of classes of one name are in the same order. -/
structure SameByClass (first second : List ClassEntry) : Prop where
  perm : first.Perm second
  order : ∀ name, first.filter (·.hasClass name) = second.filter (·.hasClass name)

namespace ScanState

/-- Records entries one after another. -/
def recordAll (state : ScanState) (entries : List ClassEntry) : Except DecodeFault ScanState :=
  entries.foldlM (fun state entry => state.record entry.data) state

variable {state final : ScanState} {entries : List ClassEntry}

theorem recordAll_of_decodes
    (h : ∀ entry ∈ entries, ∃ compiled, ClassFile.decode entry.data = .ok compiled) :
    state.recordAll entries = .ok ((entries.filterMap (·.class?)).foldl add state) := by
  induction entries generalizing state with
  | nil => rfl
  | cons entry rest ih =>
      obtain ⟨compiled, hcompiled⟩ := h entry List.mem_cons_self
      have hclass : entry.class? = some compiled := by rw [ClassEntry.class?, hcompiled]; rfl
      have hrest : (state.add compiled).recordAll rest =
          .ok ((rest.filterMap (·.class?)).foldl add (state.add compiled)) :=
        ih fun later hlater => h later (List.mem_cons_of_mem _ hlater)
      rw [List.filterMap_cons_some hclass, List.foldl_cons, ← hrest, recordAll, List.foldlM_cons,
        record, hcompiled]
      rfl

/-- A scan of entries records them. -/
theorem scan_of_recordAll (h : state.recordAll entries = .ok final) :
    (state.scan (entries.map .ok)).result = .ok final := by
  induction entries generalizing state with
  | nil =>
      obtain rfl := Except.ok.inj h
      rfl
  | cons entry rest ih =>
      rw [recordAll, List.foldlM_cons, except_bind_eq_ok] at h
      obtain ⟨next, hrecord, hrest⟩ := h
      rw [record] at hrecord
      cases hdecode : ClassFile.decode entry.data with
      | error fault =>
          rw [hdecode] at hrecord
          cases hrecord
      | ok compiled =>
          rw [hdecode] at hrecord
          obtain rfl := Except.ok.inj hrecord
          have hresult : (ClassFile.decodeWith ModifiedUtf8.decode entry.data).result =
              .ok compiled := hdecode
          have hlater : ((state.add compiled).scan (rest.map .ok)).result = .ok final := ih hrest
          rw [List.map_cons, scan, hresult]
          exact hlater

end ScanState

theorem ClassEntry.hasClass_of_class? {entry : ClassEntry} {compiled : CompiledClass}
    (h : entry.class? = some compiled) (name : String) :
    entry.hasClass name = (compiled.header.name == name) := by
  rw [hasClass, h]
  rfl

/-- The classes of one name are those of the entries that have it. -/
theorem filter_classes (name : String) (entries : List ClassEntry) :
    (entries.filterMap (·.class?)).filter (·.header.name == name) =
      (entries.filter (·.hasClass name)).filterMap (·.class?) := by
  induction entries with
  | nil => rfl
  | cons entry rest ih =>
      cases hclass : entry.class? with
      | none =>
          have hnone : ¬entry.hasClass name = true := by simp [ClassEntry.hasClass, hclass]
          rw [List.filterMap_cons_none hclass, List.filter_cons_of_neg hnone, ih]
      | some compiled =>
          have hhas := ClassEntry.hasClass_of_class? hclass name
          rw [List.filterMap_cons_some hclass, List.filter_cons, List.filter_cons, hhas, ih]
          split
          · rw [List.filterMap_cons_some hclass]
          · rfl

/-- Entries in two orders that agree on the entries of each class are recorded alike, and an
analysis of either sequence finds the same. -/
theorem record_eq_of_sameByClass {first second : List ClassEntry}
    (hdecodes : ∀ entry ∈ first, ∃ compiled, ClassFile.decode entry.data = .ok compiled)
    (hsame : SameByClass first second) :
    ∃ state, ∀ entries ∈ [first, second],
      ScanState.initial.recordAll entries = .ok state ∧
        ∀ reader path input, Listing.ofInput reader path input = entries.map .ok →
          (Analysis.run reader path input).result =
            .ok ⟨state, Summary.ofTable path state.classes state.totals⟩ := by
  have hsecond : ∀ entry ∈ second, ∃ compiled, ClassFile.decode entry.data = .ok compiled :=
    fun entry hentry => hdecodes entry (hsame.perm.mem_iff.2 hentry)
  have hclasses : (first.filterMap (·.class?)).foldl ScanState.add .initial =
      (second.filterMap (·.class?)).foldl ScanState.add .initial := by
    apply ScanState.foldl_add_eq
    intro name
    rw [filter_classes, filter_classes, hsame.order]
  have hrecords : ∀ entries ∈ [first, second], ScanState.initial.recordAll entries =
      .ok ((first.filterMap (·.class?)).foldl ScanState.add .initial) := by
    intro entries hentries
    rcases List.mem_pair.1 hentries with rfl | rfl
    · exact ScanState.recordAll_of_decodes hdecodes
    · rw [hclasses]
      exact ScanState.recordAll_of_decodes hsecond
  refine ⟨_, fun entries hentries => ⟨hrecords entries hentries, ?_⟩⟩
  intro reader path input hlisting
  have hscan := ScanState.scan_of_recordAll (hrecords entries hentries)
  rw [Analysis.run, hlisting, hscan]

/-- An entry for a class without methods that is named by one letter. Its table of fields is given
as it is written. -/
def bareEntry (letter : UInt8) (fields : Bytes) : ClassEntry where
  label := "bare.class"
  data := [0xca, 0xfe, 0xba, 0xbe, 0, 0, 0, 0x34, 0, 3, 1, 0, 1, letter, 7, 0, 1, 0, 0, 0, 2, 0, 0,
    0, 0] ++ fields ++ [0, 0, 0, 0]

def noField : Bytes := [0, 0]
def oneField : Bytes := [0, 1, 0, 0, 0, 1, 0, 1, 0, 0]

def bareEntries : List ClassEntry :=
  [bareEntry 65 noField, bareEntry 66 noField, bareEntry 65 oneField]

def swappedEntries : List ClassEntry :=
  [bareEntry 66 noField, bareEntry 65 noField, bareEntry 65 oneField]

/-- Two entries for one class stay in their order, while one for another class changes places with
the first. -/
theorem record_bareEntries :
    SameByClass bareEntries swappedEntries ∧
      ∃ state, ∀ entries ∈ [bareEntries, swappedEntries],
        ScanState.initial.recordAll entries = .ok state ∧
          ∀ reader path input, Listing.ofInput reader path input = entries.map .ok →
            (Analysis.run reader path input).result =
              .ok ⟨state, Summary.ofTable path state.classes state.totals⟩ := by
  have hold : ClassFile.decode (bareEntry 65 noField).data =
      .ok ⟨⟨"A", none, .empty, []⟩, 0, []⟩ := by cbv
  have hother : ClassFile.decode (bareEntry 66 noField).data =
      .ok ⟨⟨"B", none, .empty, []⟩, 0, []⟩ := by cbv
  have hnew : ClassFile.decode (bareEntry 65 oneField).data =
      .ok ⟨⟨"A", none, .empty, []⟩, 1, []⟩ := by cbv
  have hsame : SameByClass bareEntries swappedEntries := by
    refine ⟨List.Perm.swap _ _ _, fun name => ?_⟩
    have hapart : (bareEntry 65 noField).hasClass name = false ∨
        (bareEntry 66 noField).hasClass name = false := by
      simp only [ClassEntry.hasClass, ClassEntry.class?, hold, hother]
      by_cases hname : "A" = name
      · subst hname
        exact Or.inr rfl
      · exact Or.inl (beq_false_of_ne hname)
    rcases hapart with hfirst | hsecond
    · simp [bareEntries, swappedEntries, List.filter_cons, hfirst]
    · simp [bareEntries, swappedEntries, List.filter_cons, hsecond]
  refine ⟨hsame, record_eq_of_sameByClass ?_ hsame⟩
  intro entry hentry
  rcases List.mem_cons.1 hentry with rfl | hlater
  · exact ⟨_, hold⟩
  · rcases List.mem_pair.1 hlater with rfl | rfl
    · exact ⟨_, hother⟩
    · exact ⟨_, hnew⟩

end ClassMetrics
