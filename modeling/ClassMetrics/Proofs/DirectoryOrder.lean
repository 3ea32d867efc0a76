import Mathlib
import ClassMetrics.Archive.Directory
import ClassMetrics.Proofs.NameOrder
import ClassMetrics.Scan.Run

/-!
The order in which the files of a directory are scanned. A directory lists its entries by their
paths and a subdirectory stands at its own place among them, so that the files of the whole tree
come in the order of the names that lead to them. Main statement: a scan takes in the class files of
a directory in this order, each of them once, however its directories are listed; it ends at the
first one that cannot be taken in, which its fault names.
-/

namespace ClassMetrics

namespace Tree

/-- What is to be shown of a directory may be used of its entries. -/
theorem induction {motive : Tree → Prop} (file : ∀ content, motive (.file content))
    (unreadable : ∀ fault, motive (.unreadable fault))
    (directory : ∀ entries, (∀ entry ∈ entries, motive entry.2) → motive (.directory entries))
    (unlistable : ∀ step fault, motive (.unlistable step fault)) (tree : Tree) : motive tree :=
  @Tree.rec motive (fun entries => ∀ entry ∈ entries, motive entry.2) (fun entry => motive entry.2)
    file unreadable directory unlistable (by simp)
    (fun _ _ hentry hrest => List.forall_mem_cons.2 ⟨hentry, hrest⟩) (fun _ _ htree => htree) tree

/-- The names that lead from a tree to what is found in it. -/
inductive Leads : Tree → List String → Tree → Prop
  | here (tree : Tree) : Leads tree [] tree
  | inside {entries : List (String × Tree)} {name : String} {names : List String}
      {inner found : Tree} (hentry : (name, inner) ∈ entries) (hfound : Leads inner names found) :
      Leads (.directory entries) (name :: names) found

/-- No directory in the tree has two entries of one name. -/
def DistinctNames (tree : Tree) : Prop :=
  ∀ names entries, tree.Leads names (.directory entries) → (entries.map Prod.fst).Nodup

/-- The same tree, with its directories listed in other orders. -/
inductive Relisted : Tree → Tree → Prop
  | refl (tree : Tree) : Relisted tree tree
  | trans {first second third : Tree} (h : Relisted first second) (hnext : Relisted second third) :
      Relisted first third
  | reordered {entries others : List (String × Tree)} (h : entries.Perm others) :
      Relisted (.directory entries) (.directory others)
  | inside {inner other : Tree} (h : Relisted inner other) (name : String)
      (before after : List (String × Tree)) :
      Relisted (.directory (before ++ (name, inner) :: after))
        (.directory (before ++ (name, other) :: after))

/-- Everything but a directory that can be listed. -/
def IsLeaf : Tree → Prop
  | .directory _ => False
  | _ => True

theorem leads_directory_iff {entries : List (String × Tree)} {names : List String} {found : Tree}
    (hleaf : found.IsLeaf) :
    Leads (.directory entries) names found ↔
      ∃ name inner rest, names = name :: rest ∧ (name, inner) ∈ entries ∧
        inner.Leads rest found := by
  constructor
  · intro h
    cases h with
    | here => cases hleaf
    | inside hentry hfound => exact ⟨_, _, _, rfl, hentry, hfound⟩
  · rintro ⟨name, inner, rest, rfl, hentry, hfound⟩
    exact .inside hentry hfound

theorem distinctNames_directory_iff {entries : List (String × Tree)} :
    DistinctNames (.directory entries) ↔
      (entries.map Prod.fst).Nodup ∧ ∀ entry ∈ entries, entry.2.DistinctNames := by
  constructor
  · intro h
    refine ⟨h [] entries (.here _), ?_⟩
    intro entry hentry names inner hinner
    exact h (entry.1 :: names) inner (.inside hentry hinner)
  · rintro ⟨hnodup, hinner⟩ names found hfound
    cases hfound with
    | here => exact hnodup
    | inside hentry hrest => exact hinner _ hentry _ _ hrest

theorem IsLeaf.distinctNames {tree : Tree} (hleaf : tree.IsLeaf) : tree.DistinctNames := by
  intro names entries hleads
  cases hleads with
  | here => cases hleaf
  | inside => cases hleaf

namespace Relisted

variable {tree other : Tree}

theorem symm (h : Relisted tree other) : Relisted other tree := by
  induction h with
  | refl tree => exact .refl tree
  | trans _ _ hfirst hsecond => exact .trans hsecond hfirst
  | reordered hperm => exact .reordered hperm.symm
  | inside _ name before after hinner => exact .inside hinner name before after

theorem leads {names : List String} {found : Tree} (h : Relisted tree other)
    (hleaf : found.IsLeaf) (hleads : tree.Leads names found) : other.Leads names found := by
  induction h generalizing names with
  | refl => exact hleads
  | trans _ _ hfirst hsecond => exact hsecond (hfirst hleads)
  | reordered hperm =>
      cases hleads with
      | here => cases hleaf
      | inside hentry hfound => exact .inside (hperm.mem_iff.1 hentry) hfound
  | inside _ name before after hinner =>
      cases hleads with
      | here => cases hleaf
      | inside hentry hfound =>
          rcases List.mem_append.1 hentry with hbefore | hlater
          · exact .inside (List.mem_append_left _ hbefore) hfound
          · rcases List.mem_cons.1 hlater with hsame | hafter
            · obtain ⟨rfl, rfl⟩ := Prod.mk.inj hsame
              exact .inside (List.mem_append_right _ List.mem_cons_self) (hinner hfound)
            · exact .inside (List.mem_append_right _ (List.mem_cons_of_mem _ hafter)) hfound

theorem distinctNames (h : Relisted tree other) (hnames : tree.DistinctNames) :
    other.DistinctNames := by
  induction h with
  | refl => exact hnames
  | trans _ _ hfirst hsecond => exact hsecond (hfirst hnames)
  | reordered hperm =>
      rw [distinctNames_directory_iff] at hnames ⊢
      refine ⟨(hperm.map Prod.fst).nodup_iff.1 hnames.1, ?_⟩
      intro entry hentry
      exact hnames.2 entry (hperm.mem_iff.2 hentry)
  | inside _ name before after hinner =>
      rw [distinctNames_directory_iff] at hnames ⊢
      obtain ⟨hnodup, hentries⟩ := hnames
      rw [List.map_append, List.map_cons] at hnodup ⊢
      rw [List.forall_mem_append, List.forall_mem_cons] at hentries ⊢
      exact ⟨hnodup, hentries.1, hinner hentries.2.1, hentries.2.2⟩

end Relisted

end Tree

section Paths

/-- A name is put behind a slash. -/
theorem exists_stem (path : String) : ∃ stem, ∀ name, joinPath path name = stem ++ "/" ++ name := by
  by_cases hslash : path.endsWith "/" = true
  · have hsuffix := hslash
    rw [String.endsWith_eq_endsWith_toSlice, String.Slice.endsWith_string_iff,
      String.copy_toSlice] at hsuffix
    obtain ⟨stem, hstem⟩ := hsuffix
    refine ⟨String.ofList stem, ?_⟩
    intro name
    have hpath : path = String.ofList stem ++ "/" := by
      apply String.toList_injective
      rw [String.toList_append, String.toList_ofList, hstem]
    rw [joinPath, if_pos hslash, ← hpath]
  · refine ⟨path, ?_⟩
    intro name
    rw [joinPath, if_neg hslash]

theorem joinPath_lt_joinPath_iff {path name other : String} :
    joinPath path name < joinPath path other ↔ name < other := by
  obtain ⟨stem, hstem⟩ := exists_stem path
  have hmono {first second : String} (h : first < second) :
      joinPath path first < joinPath path second := by
    rw [hstem, hstem, String.lt_iff_toList_lt, String.toList_append,
      String.toList_append (t := second)]
    exact List.append_left_lt (String.lt_iff_toList_lt.1 h)
  constructor
  · intro h
    by_contra hnot
    by_cases hbelow : other < name
    · exact String.lt_asymm h (hmono hbelow)
    · rw [Ordered.eq_of_not_lt hnot hbelow] at h
      exact String.lt_irrefl _ h
  · exact hmono

/-- A suffix that holds no slash does not reach beyond one. -/
theorem suffix_of_suffix_slash {ending stem name : List Char} (hending : '/' ∉ ending)
    (h : ending <:+ stem ++ ['/'] ++ name) : ending <:+ name := by
  rcases List.suffix_or_suffix_of_suffix h (List.suffix_append _ name) with hinside | houtside
  · exact hinside
  · obtain ⟨front, hfront⟩ := h
    obtain ⟨middle, rfl⟩ := houtside
    rw [← List.append_assoc, List.append_left_inj] at hfront
    -- What the suffix has in front of the name would end with the slash.
    rcases List.eq_nil_or_concat middle with rfl | ⟨start, char, rfl⟩
    · exact List.suffix_refl _
    · rw [List.concat_eq_append, ← List.append_assoc] at hfront
      obtain ⟨-, hchar⟩ := List.append_inj' hfront rfl
      simp [List.singleton_inj.1 hchar] at hending

/-- Whether a path has the suffix of a class file depends on its last name. -/
theorem isClassName_joinPath (path name : String) :
    Listing.isClassName (joinPath path name) = true ↔ ".class".toList <:+ name.toList := by
  obtain ⟨stem, hstem⟩ := exists_stem path
  rw [Listing.isClassName, String.endsWith_eq_endsWith_toSlice, String.Slice.endsWith_string_iff,
    String.copy_toSlice, hstem, String.toList_append, String.toList_append]
  constructor
  · intro hsuffix
    exact suffix_of_suffix_slash (by decide) hsuffix
  · intro hsuffix
    exact List.suffix_append_of_suffix hsuffix

end Paths

/-- Something in a directory, and the names that lead to it. -/
structure Visit where
  names : List String
  found : Tree

namespace Visit

/-- The path of what is visited, in a directory under the given path. -/
def label (path : String) (visit : Visit) : String :=
  visit.names.foldl joinPath path

/-- What a scan looks into: class files, and directories that cannot be listed. -/
def Due (visit : Visit) : Prop :=
  match visit.found with
  | .file _ | .unreadable _ => ∃ name ∈ visit.names.getLast?, ".class".toList <:+ name.toList
  | .unlistable _ _ => True
  | .directory _ => False

instance : (visit : Visit) → Decidable visit.Due
  | ⟨names, .file _⟩ | ⟨names, .unreadable _⟩ =>
      inferInstanceAs (Decidable (∃ name ∈ names.getLast?, ".class".toList <:+ name.toList))
  | ⟨_, .unlistable _ _⟩ => inferInstanceAs (Decidable True)
  | ⟨_, .directory _⟩ => inferInstanceAs (Decidable False)

def under (name : String) (visit : Visit) : Visit :=
  { visit with names := name :: visit.names }

/-- What it contributes to the listing of the directory. -/
def part (path : String) (visit : Visit) : Listing :=
  Listing.ofTree (visit.label path) visit.found

/-- The names part, those of the first visit being the lesser ones. -/
def Before (visit other : Visit) : Prop :=
  PartsBelow (· < ·) visit.names other.names

theorem Before.irrefl (visit : Visit) : ¬visit.Before visit :=
  PartsBelow.irrefl String.lt_irrefl visit.names

theorem Before.trans {first second third : Visit} (h : first.Before second)
    (hnext : second.Before third) : first.Before third := by
  unfold Before at h hnext ⊢
  exact h.trans String.lt_trans hnext

instance : Std.Irrefl Before :=
  ⟨Before.irrefl⟩

instance : Std.Antisymm Before where
  antisymm visit _ h hback := absurd (h.trans hback) (Before.irrefl visit)

end Visit

namespace Tree

/-- The leaves of a tree, in the order of the names that lead to them. -/
structure Leaves (tree : Tree) (visits : List Visit) : Prop where
  ascending : visits.Pairwise Visit.Before
  mem_iff : ∀ visit, visit ∈ visits ↔ tree.Leads visit.names visit.found ∧ visit.found.IsLeaf

theorem Leaves.unique {tree : Tree} {visits others : List Visit} (h : Leaves tree visits)
    (hothers : Leaves tree others) : visits = others := by
  apply h.ascending.eq_of_mem_iff hothers.ascending
  intro visit
  rw [h.mem_iff, hothers.mem_iff]

/-- How the directories of a tree are listed does not matter to its leaves. -/
theorem Leaves.relisted {tree other : Tree} {visits : List Visit} (h : Leaves tree visits)
    (hother : Relisted tree other) : Leaves other visits where
  ascending := h.ascending
  mem_iff visit := by
    rw [h.mem_iff]
    constructor
    · rintro ⟨hleads, hleaf⟩
      exact ⟨hother.leads hleaf hleads, hleaf⟩
    · rintro ⟨hleads, hleaf⟩
      exact ⟨hother.symm.leads hleaf hleads, hleaf⟩

theorem leaves_leaf {tree : Tree} (hleaf : tree.IsLeaf) : Leaves tree [⟨[], tree⟩] where
  ascending := List.pairwise_singleton _ _
  mem_iff visit := by
    obtain ⟨names, found⟩ := visit
    simp only [List.mem_singleton, Visit.mk.injEq]
    constructor
    · rintro ⟨rfl, rfl⟩
      exact ⟨.here _, hleaf⟩
    · rintro ⟨hleads, -⟩
      cases hleads with
      | here => exact ⟨rfl, rfl⟩
      | inside => cases hleaf

/-- Leaves that make up the listing of a tree, wherever the tree stands. -/
structure ListedBy (tree : Tree) (visits : List Visit) : Prop extends Leaves tree visits where
  listing : ∀ path, Listing.ofTree path tree = visits.flatMap (·.part path)

theorem listedBy_leaf {tree : Tree} (hleaf : tree.IsLeaf) : ListedBy tree [⟨[], tree⟩] where
  toLeaves := leaves_leaf hleaf
  listing path := by
    rw [List.flatMap_singleton]
    rfl

section Entries

variable {entries : List (String × Tree)}

/-- Behind the leaves of an entry come those of the entries with greater names. -/
theorem leaves_cons {name : String} {tree : Tree} {visits others : List Visit}
    (hfirst : ∀ entry ∈ entries, name < entry.1) (h : Leaves tree visits)
    (hothers : Leaves (.directory entries) others) :
    Leaves (.directory ((name, tree) :: entries)) (visits.map (·.under name) ++ others) where
  ascending := by
    -- Leaves of one entry part behind its name, those of two entries at their names.
    refine List.pairwise_append.2 ⟨List.pairwise_map.2 (h.ascending.imp .later), hothers.ascending, ?_⟩
    intro visit hvisit other hother
    obtain ⟨inner, -, rfl⟩ := List.mem_map.1 hvisit
    obtain ⟨hleads, hleaf⟩ := (hothers.mem_iff other).1 hother
    obtain ⟨next, found, rest, hnames, hentry, -⟩ := (leads_directory_iff hleaf).1 hleads
    rw [Visit.Before, hnames]
    exact .here (hfirst _ hentry)
  mem_iff visit := by
    rw [List.mem_append, List.mem_map, hothers.mem_iff]
    constructor
    · rintro (⟨inner, hinner, rfl⟩ | ⟨hleads, hleaf⟩)
      · obtain ⟨hleads, hleaf⟩ := (h.mem_iff inner).1 hinner
        exact ⟨.inside List.mem_cons_self hleads, hleaf⟩
      · obtain ⟨next, found, rest, hnames, hentry, hfound⟩ := (leads_directory_iff hleaf).1 hleads
        rw [hnames]
        exact ⟨.inside (List.mem_cons_of_mem _ hentry) hfound, hleaf⟩
    · rintro ⟨hleads, hleaf⟩
      obtain ⟨next, found, rest, hnames, hentry, hfound⟩ := (leads_directory_iff hleaf).1 hleads
      rcases List.mem_cons.1 hentry with hsame | hother
      · obtain ⟨rfl, rfl⟩ := Prod.mk.inj hsame
        refine Or.inl ⟨⟨rest, visit.found⟩, (h.mem_iff _).2 ⟨hfound, hleaf⟩, ?_⟩
        rw [Visit.under, ← hnames]
      · rw [hnames]
        exact Or.inr ⟨.inside hother hfound, hleaf⟩

theorem leaves_empty : Leaves (.directory []) [] where
  ascending := .nil
  mem_iff visit := by
    constructor
    · intro h
      cases h
    · rintro ⟨hleads, hleaf⟩
      obtain ⟨name, inner, rest, -, hentry, -⟩ := (leads_directory_iff hleaf).1 hleads
      cases hentry

/-- Entries in the order of their names contribute the leaves of the directory in their order. -/
theorem exists_leaves_of_sorted (hsorted : entries.Pairwise fun entry other => entry.1 < other.1)
    (hinner : ∀ entry ∈ entries, ∃ visits, ListedBy entry.2 visits) :
    ∃ visits, Leaves (.directory entries) visits ∧ ∀ path,
      (entries.flatMap fun entry => Listing.ofTree (joinPath path entry.1) entry.2) =
        visits.flatMap (·.part path) := by
  induction entries with
  | nil => exact ⟨[], leaves_empty, fun _ => rfl⟩
  | cons entry others ih =>
      obtain ⟨hfirst, hrest⟩ := List.pairwise_cons.1 hsorted
      obtain ⟨visits, hvisits⟩ := hinner entry List.mem_cons_self
      obtain ⟨later, hlater, hlisting⟩ :=
        ih hrest fun other hother => hinner other (List.mem_cons_of_mem _ hother)
      refine ⟨visits.map (·.under entry.1) ++ later, leaves_cons hfirst hvisits.toLeaves hlater, ?_⟩
      intro path
      rw [List.flatMap_cons, List.flatMap_append, List.flatMap_map, hlisting, hvisits.listing]
      rfl

theorem partsOf_eq (path : String) (entries : List (String × Tree)) :
    Listing.partsOf path entries =
      entries.map fun entry =>
        (joinPath path entry.1, Listing.ofTree (joinPath path entry.1) entry.2) := by
  induction entries with
  | nil => rfl
  | cons entry rest ih =>
      obtain ⟨name, tree⟩ := entry
      rw [Listing.partsOf, ih, List.map_cons]

def byName (entries : List (String × Tree)) : List (String × Tree) :=
  entries.mergeSort fun entry other => decide (entry.1 ≤ other.1)

theorem byName_perm (entries : List (String × Tree)) : (byName entries).Perm entries :=
  List.mergeSort_perm _ _

theorem byName_sorted (h : (entries.map Prod.fst).Nodup) :
    (byName entries).Pairwise fun entry other => entry.1 < other.1 := by
  have hle : (byName entries).Pairwise fun entry other =>
      decide (entry.1 ≤ other.1) = true := by
    apply List.pairwise_mergeSort
    · intro first second third hfirst hsecond
      exact decide_eq_true (String.le_trans (of_decide_eq_true hfirst) (of_decide_eq_true hsecond))
    · intro first second
      simpa using String.le_total first.1 second.1
  have hne : (byName entries).Pairwise fun entry other => entry.1 ≠ other.1 :=
    List.pairwise_map.1 (((byName_perm entries).map Prod.fst).nodup_iff.2 h)
  refine (hle.and hne).imp ?_
  rintro entry other ⟨hbelow, hdiffers⟩
  by_contra hnot
  exact hdiffers (String.le_antisymm (of_decide_eq_true hbelow) hnot)

/-- The entries of a directory are taken by their paths, which is by their names. -/
theorem ofTree_directory (path : String) (entries : List (String × Tree)) :
    Listing.ofTree path (.directory entries) =
      (byName entries).flatMap fun entry => Listing.ofTree (joinPath path entry.1) entry.2 := by
  rw [Listing.ofTree, Listing.joinParts, partsOf_eq, byName, ← List.map_mergeSort, List.flatMap_map]
  intro entry _ other _
  rw [decide_eq_decide, ← String.not_lt, ← String.not_lt, joinPath_lt_joinPath_iff]

end Entries

/-- Every tree is listed by its leaves. -/
theorem exists_listedBy (tree : Tree) (h : tree.DistinctNames) :
    ∃ visits, ListedBy tree visits := by
  induction tree using Tree.induction with
  | file content => exact ⟨_, listedBy_leaf trivial⟩
  | unreadable fault => exact ⟨_, listedBy_leaf trivial⟩
  | unlistable step fault => exact ⟨_, listedBy_leaf trivial⟩
  | directory entries ih =>
      obtain ⟨hnodup, hinner⟩ := distinctNames_directory_iff.1 h
      have hperm := byName_perm entries
      have hlisted : ∀ entry ∈ byName entries, ∃ visits, ListedBy entry.2 visits := by
        intro entry hentry
        have hmem := hperm.mem_iff.1 hentry
        exact ih entry hmem (hinner entry hmem)
      obtain ⟨visits, hleaves, hlisting⟩ := exists_leaves_of_sorted (byName_sorted hnodup) hlisted
      refine ⟨visits, hleaves.relisted (.reordered hperm), ?_⟩
      intro path
      rw [ofTree_directory, hlisting]

/-- How the directories of a tree are listed does not matter to its listing. -/
theorem Relisted.ofTree_eq {tree other : Tree} (h : Relisted tree other)
    (hnames : tree.DistinctNames) (path : String) :
    Listing.ofTree path other = Listing.ofTree path tree := by
  obtain ⟨visits, hvisits⟩ := exists_listedBy tree hnames
  obtain ⟨others, hothers⟩ := exists_listedBy other (h.distinctNames hnames)
  have hleaves : Leaves other visits := hvisits.toLeaves.relisted h
  rw [hvisits.listing, hothers.listing, hleaves.unique hothers.toLeaves]

end Tree

namespace Visit

variable {path : String} {visit : Visit}

theorem Due.isLeaf (h : visit.Due) : visit.found.IsLeaf := by
  obtain ⟨names, found⟩ := visit
  cases found with
  | directory entries => cases h
  | file content => trivial
  | unreadable fault => trivial
  | unlistable step fault => trivial

/-- Whether a visit below the directory is that of a class file can be told from its path. -/
theorem isClassName_label (path : String) (hbelow : visit.names ≠ []) :
    Listing.isClassName (visit.label path) = true ↔
      ∃ name ∈ visit.names.getLast?, ".class".toList <:+ name.toList := by
  obtain ⟨names, found⟩ := visit
  rcases List.eq_nil_or_concat names with rfl | ⟨front, last, rfl⟩
  · exact absurd rfl hbelow
  · rw [label, List.concat_eq_append, List.foldl_append]
    simp only [List.getLast?_append, List.getLast?_singleton, Option.some_or, Option.mem_def,
      Option.some.injEq, exists_eq_left']
    exact isClassName_joinPath _ last

theorem part_of_not_due (path : String) (hbelow : visit.names ≠ []) (hleaf : visit.found.IsLeaf)
    (h : ¬visit.Due) : visit.part path = [] := by
  have hname := isClassName_label path hbelow
  obtain ⟨names, found⟩ := visit
  cases found with
  | directory entries => cases hleaf
  | file content => exact if_neg (mt hname.1 h)
  | unreadable fault => exact if_neg (mt hname.1 h)
  | unlistable step fault => exact absurd trivial h

/-- The visit is that of a file which holds the class. -/
def DecodesTo (visit : Visit) (compiled : CompiledClass) : Prop :=
  ∃ content, visit.found = .file content ∧ ClassFile.decode content = .ok compiled

/-- What a scan ends with at something that it cannot take in, and the labels that it has handed to
the decoder there. -/
inductive Fails (path : String) : Visit → List String → ScanFault → Prop
  | unreadable (names : List String) (fault : IoFault) :
      Fails path ⟨names, .unreadable fault⟩ []
        (.readFile (label path ⟨names, .unreadable fault⟩) fault)
  | unlistable (names : List String) (step : ListingStep) (fault : IoFault) :
      Fails path ⟨names, .unlistable step fault⟩ []
        (.readDirectory (label path ⟨names, .unlistable step fault⟩) step fault)
  | broken (names : List String) (content : Bytes) {fault : DecodeFault}
      (h : ClassFile.decode content = .error fault) :
      Fails path ⟨names, .file content⟩ [label path ⟨names, .file content⟩]
        (.decode (label path ⟨names, .file content⟩) fault)

/-- The message of the fault ends its first part with the path. -/
theorem Fails.context_eq {handed : List String} {fault : ScanFault}
    (h : visit.Fails path handed fault) :
    ∃ doing, fault.context = doing ++ visit.label path := by
  cases h with
  | unreadable => exact ⟨"failed to read ", rfl⟩
  | unlistable names step fault =>
      cases step with
      | start => exact ⟨"failed to read directory ", rfl⟩
      | entry => exact ⟨"failed to read entry under ", rfl⟩
  | broken => exact ⟨"failed to decode ", rfl⟩

end Visit

/-- A scan takes in what is visited, to the end or up to something that it cannot take in. -/
inductive ScansInOrder (path : String) (state : ScanState) (visits : List Visit) (run : ScanRun) :
    Prop
  | finished (classes : List CompiledClass)
      (decoded : List.Forall₂ Visit.DecodesTo visits classes)
      (labels : run.labels = visits.map (·.label path))
      (result : run.result = .ok (classes.foldl ScanState.add state))
  | stopped (before after : List Visit) (visit : Visit) (handed : List String) (fault : ScanFault)
      (split : visits = before ++ visit :: after)
      (decoded : ∀ earlier ∈ before, ∃ compiled, earlier.DecodesTo compiled)
      (fails : visit.Fails path handed fault)
      (labels : run.labels = before.map (·.label path) ++ handed)
      (result : run.result = .error fault)
      (named : ∃ doing, fault.context = doing ++ visit.label path)

namespace ScansInOrder

variable {path : String} {state : ScanState} {visit : Visit} {visits : List Visit} {run : ScanRun}

theorem of_fails {handed : List String} {fault : ScanFault} (h : visit.Fails path handed fault)
    (hlabels : run.labels = handed) (hresult : run.result = .error fault) :
    ScansInOrder path state (visit :: visits) run :=
  .stopped [] visits visit handed fault rfl (by simp) h hlabels hresult h.context_eq

theorem cons {compiled : CompiledClass} {later : ScanRun} (hvisit : visit.DecodesTo compiled)
    (h : ScansInOrder path (state.add compiled) visits later)
    (hlabels : run.labels = visit.label path :: later.labels)
    (hresult : run.result = later.result) : ScansInOrder path state (visit :: visits) run := by
  cases h with
  | finished classes decoded labels result =>
      apply finished (compiled :: classes) (.cons hvisit decoded)
      · rw [hlabels, labels, List.map_cons]
      · rw [hresult, result, List.foldl_cons]
  | stopped before after stop handed fault split decoded fails labels result named =>
      apply stopped (visit :: before) after stop handed fault _ _ fails _ _ named
      · rw [split, List.cons_append]
      · exact List.forall_mem_cons.2 ⟨⟨compiled, hvisit⟩, decoded⟩
      · rw [hlabels, labels, List.map_cons, List.cons_append]
      · rw [hresult, result]

end ScansInOrder

/-- What is due is scanned in the order of the visits. -/
theorem scansInOrder_of_due {path : String} {visits : List Visit} (state : ScanState)
    (hdue : ∀ visit ∈ visits, visit.names ≠ [] ∧ visit.Due) :
    ScansInOrder path state visits (state.scan (visits.flatMap (·.part path))) := by
  induction visits generalizing state with
  | nil => exact .finished [] .nil rfl rfl
  | cons visit others ih =>
      obtain ⟨⟨hbelow, hvisit⟩, hothers⟩ := List.forall_mem_cons.1 hdue
      have hname := Visit.isClassName_label path hbelow
      obtain ⟨names, found⟩ := visit
      rw [List.flatMap_cons]
      cases found with
      | directory entries => cases hvisit
      | unlistable step fault => exact .of_fails (.unlistable names step fault) rfl rfl
      | unreadable fault =>
          have hpart : Visit.part path ⟨names, .unreadable fault⟩ =
              [.error (.readFile (Visit.label path ⟨names, .unreadable fault⟩) fault)] :=
            if_pos (hname.2 hvisit)
          rw [hpart]
          exact .of_fails (.unreadable names fault) rfl rfl
      | file content =>
          have hpart : Visit.part path ⟨names, .file content⟩ =
              [.ok ⟨Visit.label path ⟨names, .file content⟩, content⟩] :=
            if_pos (hname.2 hvisit)
          rw [hpart, List.singleton_append, ScanState.scan]
          cases hdecode : ClassFile.decode content with
          | error fault =>
              have hresult : (ClassFile.decodeWith ModifiedUtf8.decode content).result =
                  .error fault := hdecode
              rw [hresult]
              exact .of_fails (.broken names content hdecode) rfl rfl
          | ok compiled =>
              have hresult : (ClassFile.decodeWith ModifiedUtf8.decode content).result =
                  .ok compiled := hdecode
              rw [hresult]
              exact .cons ⟨content, rfl, hdecode⟩ (ih (state.add compiled) hothers) rfl rfl

/-- What a scan of a tree visits: all that is due, each once, in the order of the bytes of the names
that lead there. -/
structure Tree.Visits (tree : Tree) (visits : List Visit) : Prop where
  mem_iff : ∀ visit, visit ∈ visits ↔ tree.Leads visit.names visit.found ∧ visit.Due
  once : (visits.map Visit.names).Nodup
  ascending : visits.Pairwise fun visit other =>
    visit.names.map Utf8.encode < other.names.map Utf8.encode

/-- Leaves that are not due contribute nothing. -/
theorem flatMap_part_filter {path : String} {leaves : List Visit}
    (h : ∀ visit ∈ leaves, visit.names ≠ [] ∧ visit.found.IsLeaf) :
    leaves.flatMap (·.part path) = (leaves.filter (·.Due)).flatMap (·.part path) := by
  induction leaves with
  | nil => rfl
  | cons visit others ih =>
      obtain ⟨⟨hbelow, hleaf⟩, hothers⟩ := List.forall_mem_cons.1 h
      by_cases hdue : visit.Due
      · rw [List.filter_cons_of_pos (by simpa using hdue), List.flatMap_cons, List.flatMap_cons,
          ih hothers]
      · rw [List.filter_cons_of_neg (by simpa using hdue), List.flatMap_cons,
          visit.part_of_not_due path hbelow hleaf hdue, List.nil_append, ih hothers]

theorem exists_visits (path : String) (entries : List (String × Tree))
    (hnames : (Tree.directory entries).DistinctNames) :
    ∃ visits, Tree.Visits (.directory entries) visits ∧
      (∀ visit ∈ visits, visit.names ≠ [] ∧ visit.Due) ∧
      Listing.ofTree path (.directory entries) = visits.flatMap (·.part path) := by
  obtain ⟨leaves, hleaves⟩ := Tree.exists_listedBy _ hnames
  have hbelow : ∀ visit ∈ leaves, visit.names ≠ [] ∧ visit.found.IsLeaf := by
    intro visit hvisit
    obtain ⟨hleads, hleaf⟩ := (hleaves.mem_iff visit).1 hvisit
    obtain ⟨name, inner, rest, hname, -⟩ := (Tree.leads_directory_iff hleaf).1 hleads
    exact ⟨by simp [hname], hleaf⟩
  have hascending : (leaves.filter (·.Due)).Pairwise Visit.Before :=
    hleaves.ascending.filter _
  refine ⟨leaves.filter (·.Due), ⟨?_, ?_, ?_⟩, ?_, ?_⟩
  · intro visit
    rw [List.mem_filter, decide_eq_true_iff, hleaves.mem_iff, and_assoc]
    exact and_congr_right fun _ => and_iff_right_of_imp Visit.Due.isLeaf
  · apply List.pairwise_map.2 (hascending.imp _)
    intro visit other hbefore hsame
    rw [Visit.Before, hsame] at hbefore
    exact PartsBelow.irrefl String.lt_irrefl _ hbefore
  · exact hascending.imp PartsBelow.encoded_lt
  · intro visit hvisit
    obtain ⟨hleaf, hdue⟩ := List.mem_filter.1 hvisit
    exact ⟨(hbelow visit hleaf).1, of_decide_eq_true hdue⟩
  · rw [hleaves.listing path, flatMap_part_filter hbelow]

/-- A directory is scanned completely and in the order of the names that lead to its class files, in
whatever order directories are listed. -/
theorem scan_directory_in_order (reader : ArchiveReader) (state : ScanState) (path : String)
    (entries : List (String × Tree)) (hnames : (Tree.directory entries).DistinctNames) :
    ∃ visits, Tree.Visits (.directory entries) visits ∧
      ScansInOrder path state visits
        (state.scan (Listing.ofInput reader path (.ok (.directory entries)))) ∧
      ∀ others, Tree.Relisted (.directory entries) (.directory others) →
        state.scan (Listing.ofInput reader path (.ok (.directory others))) =
          state.scan (Listing.ofInput reader path (.ok (.directory entries))) := by
  obtain ⟨visits, hvisits, hdue, hlisting⟩ := exists_visits path entries hnames
  refine ⟨visits, hvisits, ?_, ?_⟩
  · rw [Listing.ofInput, hlisting]
    exact scansInOrder_of_due state hdue
  · intro others hothers
    rw [Listing.ofInput, Listing.ofInput, hothers.ofTree_eq hnames]

/-- Siblings below which the files are in another order if their paths are compared as texts. -/
def siblings : List (String × Tree) :=
  [("a.class", .unreadable .notFound), ("a-b", .directory [("y.class", .file [])]),
    ("a", .directory [("z.class", .file []), ("notes", .file [])])]

/-- Below the siblings there are three class files and one file that is not visited. -/
theorem scan_siblings :
    (Tree.directory siblings).DistinctNames ∧
      ∃ visits, Tree.Visits (.directory siblings) visits ∧
        ⟨["a", "z.class"], .file []⟩ ∈ visits ∧ ⟨["a-b", "y.class"], .file []⟩ ∈ visits ∧
        ⟨["a.class"], .unreadable .notFound⟩ ∈ visits ∧ ⟨["a", "notes"], .file []⟩ ∉ visits ∧
        ScansInOrder "d" .initial visits
          (ScanState.initial.scan
            (Listing.ofInput Archive.zipReader "d" (.ok (.directory siblings)))) := by
  have hfile : (Tree.file []).DistinctNames := Tree.IsLeaf.distinctNames trivial
  have hunreadable : (Tree.unreadable .notFound).DistinctNames := Tree.IsLeaf.distinctNames trivial
  have hnames : (Tree.directory siblings).DistinctNames := by
    simp [siblings, Tree.distinctNames_directory_iff, hfile, hunreadable]
  obtain ⟨visits, hvisits, hscan, -⟩ :=
    scan_directory_in_order Archive.zipReader .initial "d" siblings hnames
  refine ⟨hnames, visits, hvisits, ?_, ?_, ?_, ?_, hscan⟩
  · apply (hvisits.mem_iff _).2
    exact ⟨.inside (.tail _ (.tail _ (.head _))) (.inside (.head _) (.here _)), "z.class", rfl,
      by decide⟩
  · apply (hvisits.mem_iff _).2
    exact ⟨.inside (.tail _ (.head _)) (.inside (.head _) (.here _)), "y.class", rfl, by decide⟩
  · apply (hvisits.mem_iff _).2
    exact ⟨.inside (.head _) (.here _), "a.class", rfl, by decide⟩
  · intro hnotes
    obtain ⟨-, name, hname, hsuffix⟩ := (hvisits.mem_iff _).1 hnotes
    obtain rfl : "notes" = name := Option.some.inj hname
    revert hsuffix
    decide

end ClassMetrics
