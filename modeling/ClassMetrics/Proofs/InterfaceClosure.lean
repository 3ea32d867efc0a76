import Mathlib
import ClassMetrics.Proofs.ParentSearch

/-!
The signatures that a class has from its interfaces. They are those that the last of some interfaces
declares, of which the first is named by the class and each other one by the interface before it.
Nothing else has a say in them: with other superclasses, and without the names that lead nowhere,
they are the same. Main statement: the search ends, and its result is this set.
-/

namespace ClassMetrics.ClassTable

/-- Steps lead from one class to another if there are classes in between that they pass. -/
theorem transGen_iff_isChain {step : ClassHeader → ClassHeader → Prop} {first last : ClassHeader} :
    Relation.TransGen step first last ↔ ∃ between, (first :: between ++ [last]).IsChain step := by
  rw [Relation.TransGen.tail'_iff]
  constructor
  · rintro ⟨inner, hsteps, hlast⟩
    obtain ⟨between, hchain, hinner⟩ := List.exists_isChain_cons_of_relationReflTransGen hsteps
    refine ⟨between, List.isChain_append.2 ⟨hchain, List.isChain_singleton last, ?_⟩⟩
    intro before hbefore after hafter
    rw [List.getLast?_eq_some_getLast (List.cons_ne_nil _ _), hinner] at hbefore
    obtain rfl := Option.some.inj hbefore
    obtain rfl := Option.some.inj hafter
    exact hlast
  · rintro ⟨between, hchain⟩
    obtain ⟨hfront, -, hstep⟩ := List.isChain_append.1 hchain
    refine ⟨(first :: between).getLast (List.cons_ne_nil _ _), ?_, ?_⟩
    · exact List.relationReflTransGen_of_exists_isChain_cons between hfront rfl
    · exact hstep _ (List.getLast_mem_getLast? _) last rfl

section Equations

variable {table : ClassTable} {seen pending : List String} {name : String} {interface : ClassHeader}

theorem interfacesFrom_of_seen (hfound : table.find? name = some interface)
    (hseen : interface.name ∈ seen) :
    table.interfacesFrom seen (name :: pending) = table.interfacesFrom seen pending := by
  rw [interfacesFrom]
  split
  · rfl
  · next other hother =>
      obtain rfl : interface = other := by simpa [hfound] using hother
      rw [if_pos hseen]

theorem interfacesFrom_of_new (hfound : table.find? name = some interface)
    (hnew : interface.name ∉ seen) :
    table.interfacesFrom seen (name :: pending) =
      interface :: table.interfacesFrom (interface.name :: seen)
        (interface.interfaces.toList ++ pending) := by
  rw [interfacesFrom]
  split
  · next hmissing => simp [hfound] at hmissing
  · next other hother =>
      obtain rfl : interface = other := by simpa [hfound] using hother
      rw [if_neg hnew]

end Equations

section Trimming

/-- A class with another superclass, and with those of its interfaces only that are in the table. -/
def trim (table : ClassTable) (supers : String → Option String) (header : ClassHeader) :
    ClassHeader where
  name := header.name
  super? := supers header.name
  interfaces := ⟨header.interfaces.toList.filter table.contains,
    header.interfaces.ascending.sublist List.filter_sublist⟩
  declared := header.declared

/-- The table of these classes. -/
def trimmed (table : ClassTable) (supers : String → Option String) : ClassTable where
  classes := ⟨table.toList.map (table.trim supers), List.pairwise_map.2 table.classes.ascending⟩
  contains_root := by
    rw [Ordered.contains_iff, Ordered.keys, List.map_map]
    exact Ordered.contains_iff.1 table.contains_root

variable (table : ClassTable) (supers : String → Option String)

theorem find?_trimmed (name : String) :
    (table.trimmed supers).find? name = (table.find? name).map (table.trim supers) := by
  change (table.toList.map (table.trim supers)).find? (fun header => header.name == name) = _
  rw [List.find?_map]
  rfl

/-- A search among the trimmed classes finds what the search finds, trimmed. -/
theorem interfacesFrom_trimmed (seen pending : List String) :
    (table.trimmed supers).interfacesFrom seen (pending.filter table.contains) =
      (table.interfacesFrom seen pending).map (table.trim supers) := by
  fun_induction interfacesFrom table seen pending with
  | case1 seen => simp [interfacesFrom]
  | case2 seen name pending hmissing ih =>
      have habsent : ¬table.contains name = true := by
        change ¬(table.find? name).isSome = true
        simp [hmissing]
      rw [List.filter_cons_of_neg habsent]
      exact ih
  | case3 seen name pending interface hfound hseen ih =>
      have hcontains : table.contains name = true := Option.isSome_of_eq_some hfound
      have htrimmed := table.find?_trimmed supers name
      rw [hfound, Option.map_some] at htrimmed
      rw [List.filter_cons_of_pos hcontains, interfacesFrom_of_seen htrimmed hseen]
      exact ih
  | case4 seen name pending interface hfound hnew ih =>
      have hcontains : table.contains name = true := Option.isSome_of_eq_some hfound
      have htrimmed := table.find?_trimmed supers name
      rw [hfound, Option.map_some] at htrimmed
      rw [List.filter_cons_of_pos hcontains, interfacesFrom_of_new htrimmed hnew, List.map_cons,
        ← ih, List.filter_append]
      rfl

theorem interfaceSignatures_trimmed (header : ClassHeader) :
    (table.trimmed supers).interfaceSignatures (table.trim supers header) =
      table.interfaceSignatures header := by
  have hclosure : (table.trimmed supers).interfaceClosure (table.trim supers header) =
      (table.interfaceClosure header).map (table.trim supers) :=
    table.interfacesFrom_trimmed supers [] header.interfaces.toList
  rw [interfaceSignatures, interfaceSignatures, hclosure, List.flatMap_map]
  rfl

end Trimming

/-- The search for the interfaces of a class ends, and the signatures that these declare are those
at the end of a line of interfaces. Superclasses and names that lead nowhere do not matter to
them. -/
theorem interfaceSignatures_of_lines (table : ClassTable) (header : ClassHeader) :
    (Search.turn table interfaceNames [])^[header.interfaces.size + table.interfaceNameCount]
          ⟨[], interfaceNames header⟩ =
        ⟨(table.interfaceClosure header).reverse, []⟩ ∧
      (∀ signature, signature ∈ table.interfaceSignatures header ↔
        ∃ between last, (header :: between ++ [last]).IsChain table.InterfaceStep ∧
          signature ∈ last.declared) ∧
      ∀ supers, (table.trimmed supers).interfaceSignatures (table.trim supers header) =
        table.interfaceSignatures header := by
  refine ⟨turns_interfaceClosure table header, ?_, ?_⟩
  · intro signature
    rw [mem_interfaceSignatures]
    constructor
    · rintro ⟨last, hsteps, hdeclared⟩
      obtain ⟨between, hline⟩ := transGen_iff_isChain.1 hsteps
      exact ⟨between, last, hline, hdeclared⟩
    · rintro ⟨between, last, hline, hdeclared⟩
      exact ⟨last, transGen_iff_isChain.2 ⟨between, hline⟩, hdeclared⟩
  · intro supers
    exact table.interfaceSignatures_trimmed supers header

end ClassMetrics.ClassTable
