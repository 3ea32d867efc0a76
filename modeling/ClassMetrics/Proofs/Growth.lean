import Mathlib
import ClassMetrics.Proofs.DepthPaths
import ClassMetrics.Proofs.OverrideCounts

/-!
Tables that grow. A table extends another one if it holds all of its classes as they are. Steps from
class to class stay what they are then, and new ones may come in between: a name that led nowhere
may now lead into the middle of a chain, or close a cycle. Main statement: a class under a new name
takes away no edge, no recorded class, no superclass, no inherited signature and no override. The
counters follow the overrides as far as 64 bits go, and not beyond.
-/

namespace ClassMetrics.ClassTable

/-- The second table holds every class of the first. -/
def Extends (table grown : ClassTable) : Prop :=
  ∀ ⦃name header⦄, table.find? name = some header → grown.find? name = some header

/-- What a table keeps when it grows. The counters hold the numbers of overriding methods as long as
these can be held. -/
structure GrowsInto (table grown : ClassTable) : Prop where
  edges : ∀ parent child, child ∈ (ClassGraph.ofTable table).children parent →
    child ∈ (ClassGraph.ofTable grown).children parent
  recorded : ∀ name, (ClassGraph.ofTable table).depths.contains name = true →
    (ClassGraph.ofTable grown).depths.contains name = true
  chains : ∀ header ∈ table.toList,
    table.superclassChain header <+: grown.superclassChain header
  signatures : ∀ header ∈ table.toList,
    table.interfaceSignatures header ⊆ grown.interfaceSignatures header
  superclassOverrides : table.superclassOverrides ≤ grown.superclassOverrides
  interfaceOverrides : table.interfaceOverrides ≤ grown.interfaceOverrides
  superclassTally : grown.superclassOverrides < 2 ^ 64 →
    table.overrides.superclass ≤ grown.overrides.superclass
  interfaceTally : grown.interfaceOverrides < 2 ^ 64 →
    table.overrides.interface ≤ grown.overrides.interface

theorem extends_insert {table : ClassTable} {header : ClassHeader}
    (hfresh : table.contains header.name = false) : table.Extends (table.insert header) := by
  intro name found hfound
  have hother : header.name ≠ name := by
    rintro rfl
    have hcontains : table.contains header.name = true := Option.isSome_of_eq_some hfound
    rw [hfresh] at hcontains
    cases hcontains
  rw [find?, insert, Ordered.find?_insert, if_neg hother]
  exact hfound

section Chain

variable {table : ClassTable} {seen : List String} {name : String} {ancestor : ClassHeader}

/-- A chain goes on with a class that has not been seen. -/
theorem chainFrom_of_find? (hfound : table.find? name = some ancestor)
    (hnew : ancestor.name ∉ seen) :
    table.chainFrom seen (some name) =
      ancestor :: table.chainFrom (ancestor.name :: seen) ancestor.super? := by
  rw [chainFrom]
  split
  · next hmissing => simp [hfound] at hmissing
  · next other hother =>
      obtain rfl : ancestor = other := by simpa [hfound] using hother
      rw [if_neg hnew]

theorem chainFrom_of_missing (hmissing : table.find? name = none) :
    table.chainFrom seen (some name) = [] := by
  rw [chainFrom]
  split
  · rfl
  · next other hother => simp [hmissing] at hother

end Chain

namespace Extends

variable {table grown : ClassTable} {header ancestor : ClassHeader}

theorem contains (h : table.Extends grown) {name : String} (hname : table.contains name = true) :
    grown.contains name = true := by
  obtain ⟨header, hfound⟩ := Option.isSome_iff_exists.1 hname
  exact Option.isSome_of_eq_some (h hfound)

theorem toList_subset (h : table.Extends grown) : table.toList ⊆ grown.toList := by
  intro header hheader
  have hfound : table.find? header.name = some header := find?_eq_some_iff.2 ⟨hheader, rfl⟩
  exact (find?_eq_some_iff.1 (h hfound)).1

theorem isChild (h : table.Extends grown) {parent child : String}
    (hchild : table.IsChild parent child) : grown.IsChild parent child := by
  obtain ⟨hparent, header, hfound, hnamed⟩ := hchild
  exact ⟨h.contains hparent, header, h hfound, hnamed⟩

/-- Every path from the root is still there. -/
theorem recorded (h : table.Extends grown) {name : String}
    (hname : (ClassGraph.ofTable table).depths.contains name = true) :
    (ClassGraph.ofTable grown).depths.contains name = true := by
  rw [Ordered.contains_iff, mem_keys_iff] at hname ⊢
  obtain ⟨hother, hpath⟩ := hname
  exact ⟨hother, Relation.ReflTransGen.mono (fun _ _ => h.isChild) _ _ hpath⟩

/-- What ends a chain early in the first table ends it in the second one as well, unless it was that
a name led nowhere. -/
theorem chainFrom_prefix (h : table.Extends grown) (seen : List String) (next : Option String) :
    table.chainFrom seen next <+: grown.chainFrom seen next := by
  fun_induction chainFrom table seen next with
  | case1 => exact List.nil_prefix
  | case2 => exact List.nil_prefix
  | case3 => exact List.nil_prefix
  | case4 seen name ancestor hfound hnew ih =>
      rw [chainFrom_of_find? (h hfound) hnew]
      exact (List.prefix_cons_inj ancestor).2 ih

theorem interfaceStep (h : table.Extends grown) {interface : ClassHeader}
    (hstep : table.InterfaceStep header interface) : grown.InterfaceStep header interface := by
  obtain ⟨name, hname, hfound⟩ := hstep
  exact ⟨name, hname, h hfound⟩

theorem interfaceSignatures_subset (h : table.Extends grown) (header : ClassHeader) :
    table.interfaceSignatures header ⊆ grown.interfaceSignatures header := by
  intro signature hsignature
  rw [mem_interfaceSignatures] at hsignature ⊢
  obtain ⟨interface, hsteps, hdeclared⟩ := hsignature
  have hgrown := Relation.TransGen.mono (fun _ _ => h.interfaceStep) _ _ hsteps
  exact ⟨interface, hgrown, hdeclared⟩

theorem superclassMatches_le (h : table.Extends grown) (header : ClassHeader) :
    table.superclassMatches header ≤ grown.superclassMatches header := by
  rw [superclassMatches, superclassMatches, ← List.sum_eq_foldr, ← List.sum_eq_foldr]
  apply List.sum_le_sum
  intro signature _
  exact (h.chainFrom_prefix [header.name] header.super?).sublist.countP_le

theorem interfaceMatches_le (h : table.Extends grown) (header : ClassHeader) :
    table.interfaceMatches header ≤ grown.interfaceMatches header := by
  apply List.countP_mono_left
  intro signature _ hinherited
  rw [List.contains_iff_mem] at hinherited ⊢
  exact h.interfaceSignatures_subset header hinherited

/-- A count over all classes but the root grows with the table, if that of each class does. -/
theorem sum_nonRoot_le (h : table.Extends grown) {count more : ClassHeader → Nat}
    (hle : ∀ header, count header ≤ more header) :
    (table.nonRoot.map count).sum ≤ (grown.nonRoot.map more).sum := by
  have hsubset : table.nonRoot ⊆ grown.nonRoot := by
    intro header hheader
    obtain ⟨hmem, hother⟩ := List.mem_filter.1 hheader
    exact List.mem_filter.2 ⟨h.toList_subset hmem, hother⟩
  have hnodup : table.nonRoot.Nodup := table.classes.nodup.filter _
  obtain ⟨classes, hperm, hsublist⟩ := hnodup.subperm hsubset
  calc (table.nonRoot.map count).sum
      ≤ (table.nonRoot.map more).sum := List.sum_le_sum fun header _ => hle header
    _ = (classes.map more).sum := ((hperm.map more).sum_eq).symm
    _ ≤ (grown.nonRoot.map more).sum :=
        (hsublist.map more).sum_le_sum fun _ _ => Nat.zero_le _

theorem superclassOverrides_le (h : table.Extends grown) :
    table.superclassOverrides ≤ grown.superclassOverrides := by
  rw [superclassOverrides_eq, superclassOverrides_eq]
  exact h.sum_nonRoot_le h.superclassMatches_le

theorem interfaceOverrides_le (h : table.Extends grown) :
    table.interfaceOverrides ≤ grown.interfaceOverrides := by
  rw [interfaceOverrides_eq, interfaceOverrides_eq]
  exact h.sum_nonRoot_le h.interfaceMatches_le

end Extends

theorem superclass_eq (table : ClassTable) :
    table.overrides.superclass = UInt64.ofNat table.superclassOverrides := by
  rw [superclassOverrides_eq, List.sum_eq_foldr]
  rfl

theorem interface_eq (table : ClassTable) :
    table.overrides.interface = UInt64.ofNat table.interfaceOverrides := by
  rw [interfaceOverrides_eq, List.sum_eq_foldr]
  rfl

/-- A class under a new name takes nothing away. -/
theorem insert_growsInto (table : ClassTable) (header : ClassHeader)
    (hfresh : table.contains header.name = false) : table.GrowsInto (table.insert header) := by
  have hgrown := extends_insert hfresh
  have hsuperclass := hgrown.superclassOverrides_le
  have hinterface := hgrown.interfaceOverrides_le
  constructor
  case edges =>
    intro parent child hchild
    rw [ClassGraph.mem_children_ofTable] at hchild ⊢
    exact hgrown.isChild hchild
  case recorded => exact fun name => hgrown.recorded
  case chains => exact fun old _ => hgrown.chainFrom_prefix [old.name] old.super?
  case signatures => exact fun old _ => hgrown.interfaceSignatures_subset old
  case superclassOverrides => exact hsuperclass
  case interfaceOverrides => exact hinterface
  case superclassTally =>
    intro hfits
    rw [superclass_eq, superclass_eq, UInt64.le_iff_toNat_le,
      UInt64.toNat_ofNat_of_lt' (hsuperclass.trans_lt hfits), UInt64.toNat_ofNat_of_lt' hfits]
    exact hsuperclass
  case interfaceTally =>
    intro hfits
    rw [interface_eq, interface_eq, UInt64.le_iff_toNat_le,
      UInt64.toNat_ofNat_of_lt' (hinterface.trans_lt hfits), UInt64.toNat_ofNat_of_lt' hfits]
    exact hinterface

/-- A table in which a superclass and an interface are missing. -/
def openTable : ClassTable :=
  initial
    |>.insert ⟨"A", some "M", .ofList ["I"], [⟨"m", "()"⟩, ⟨"i", "()"⟩]⟩
    |>.insert ⟨"B", some "A", .empty, [⟨"m", "()"⟩]⟩
    |>.insert ⟨"I", some rootName, .ofList ["M"], [⟨"toString", "()"⟩]⟩

/-- The class that is missing: both a subclass of one that descends from it, and an interface that
names one by which it is named. -/
def closingClass : ClassHeader :=
  ⟨"M", some "B", .ofList ["I"], [⟨"m", "()"⟩, ⟨"i", "()"⟩]⟩

theorem insert_closingClass :
    openTable.contains closingClass.name = false ∧
      openTable.GrowsInto (openTable.insert closingClass) := by
  have hfresh : openTable.contains closingClass.name = false := by cbv
  exact ⟨hfresh, insert_growsInto openTable closingClass hfresh⟩

section Repeating

/-- A class that declares one method again and again. -/
def repeating (count : Nat) : ClassHeader :=
  ⟨"A", some "B", .empty, List.replicate count ⟨"m", "()"⟩⟩

/-- Its superclass, which has one too. -/
def middle : ClassHeader :=
  ⟨"B", some "M", .empty, [⟨"m", "()"⟩]⟩

def missing : ClassHeader :=
  ⟨"M", none, .empty, [⟨"m", "()"⟩]⟩

def repeatingTable (count : Nat) : ClassTable :=
  initial |>.insert (repeating count) |>.insert middle

variable (count : Nat)

theorem superclassMatches_repeating (table : ClassTable) :
    table.superclassMatches (repeating count) =
      count * (table.superclassChain (repeating count)).countP (·.declares ⟨"m", "()"⟩) := by
  rw [superclassMatches, repeating, ← List.sum_eq_foldr, List.map_replicate, List.sum_replicate,
    smul_eq_mul]

theorem superclassOverrides_repeatingTable :
    (repeatingTable count).superclassOverrides = count := by
  have hnonRoot : (repeatingTable count).nonRoot = [repeating count, middle] := by cbv
  have hmiddle : (repeatingTable count).find? "B" = some middle := by cbv
  have hmissing : (repeatingTable count).find? "M" = none := by cbv
  have hfirst : (repeatingTable count).superclassChain (repeating count) = [middle] := by
    change chainFrom _ ["A"] (some "B") = [middle]
    rw [chainFrom_of_find? hmiddle (by decide)]
    exact congrArg (middle :: ·) (chainFrom_of_missing hmissing)
  have hsecond : (repeatingTable count).superclassChain middle = [] :=
    chainFrom_of_missing hmissing
  have hcount : (repeatingTable count).superclassMatches middle = 0 := by
    rw [superclassMatches, hsecond]
    rfl
  rw [superclassOverrides_eq, hnonRoot, List.map_cons, List.map_singleton, List.sum_cons,
    List.sum_singleton, superclassMatches_repeating, hfirst, hcount]
  exact Nat.mul_one count

theorem superclassOverrides_insert_missing :
    ((repeatingTable count).insert missing).superclassOverrides = 2 * count + 1 := by
  have hnonRoot : ((repeatingTable count).insert missing).nonRoot =
      [repeating count, middle, missing] := by cbv
  have hmiddle : ((repeatingTable count).insert missing).find? "B" = some middle := by cbv
  have hmissing : ((repeatingTable count).insert missing).find? "M" = some missing := by cbv
  have hlast (seen : List String) (hnew : missing.name ∉ seen) :
      ((repeatingTable count).insert missing).chainFrom seen (some "M") = [missing] := by
    rw [chainFrom_of_find? hmissing hnew, missing, chainFrom]
  have hfirst : ((repeatingTable count).insert missing).superclassChain (repeating count) =
      [middle, missing] := by
    change chainFrom _ ["A"] (some "B") = [middle, missing]
    rw [chainFrom_of_find? hmiddle (by decide)]
    exact congrArg (middle :: ·) (hlast ["B", "A"] (by decide))
  have hsecond : ((repeatingTable count).insert missing).superclassChain middle = [missing] :=
    hlast ["B"] (by decide)
  have hthird : ((repeatingTable count).insert missing).superclassChain missing = [] := by
    rw [superclassChain, missing, chainFrom]
  have hmatches : ((repeatingTable count).insert missing).superclassMatches middle = 1 := by
    rw [superclassMatches, hsecond]
    rfl
  have hnone : ((repeatingTable count).insert missing).superclassMatches missing = 0 := by
    rw [superclassMatches, hthird]
    rfl
  rw [superclassOverrides_eq, hnonRoot]
  simp only [List.map_cons, List.map_nil, List.sum_cons, List.sum_nil, superclassMatches_repeating,
    hfirst, hmatches, hnone]
  change count * 2 + (1 + (0 + 0)) = 2 * count + 1
  omega

/-- The counter wraps around: more methods override others than before, and it is smaller. -/
theorem superclass_wraps_around :
    (repeatingTable (2 ^ 63)).contains missing.name = false ∧
      ((repeatingTable (2 ^ 63)).insert missing).overrides.superclass <
        (repeatingTable (2 ^ 63)).overrides.superclass := by
  have hfresh (count : Nat) : (repeatingTable count).contains missing.name = false := by cbv
  refine ⟨hfresh _, ?_⟩
  rw [superclass_eq, superclass_eq, superclassOverrides_insert_missing,
    superclassOverrides_repeatingTable]
  decide

end Repeating

end ClassMetrics.ClassTable
