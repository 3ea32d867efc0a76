import Mathlib
import ClassMetrics.Hierarchy.Ancestry
import ClassMetrics.Proofs.Lookup
import ClassMetrics.Proofs.Pairing

/-!
The ancestors of a class, as the classes that steps lead to: from a class to its superclass, or from
a class to its interfaces, as far as they are in the table. The chain of superclasses and the
closure of interfaces are two ways to gather what is reached. Both list it without repetition, with
cycles or without; the chain leaves out the class itself, the closure does not.
-/

namespace ClassMetrics.ClassTable

/-- The ancestor is the superclass of a class. -/
def SuperStep (table : ClassTable) (header ancestor : ClassHeader) : Prop :=
  ∃ name, header.super? = some name ∧ table.find? name = some ancestor

/-- The interface is one of those that a class names. -/
def InterfaceStep (table : ClassTable) (header interface : ClassHeader) : Prop :=
  ∃ name ∈ header.interfaces.toList, table.find? name = some interface

section Gathering

/-- Classes are gathered from the starting ones on, step by step, without those whose names have
been seen. -/
structure Gathers (step : ClassHeader → ClassHeader → Prop) (seen : List String)
    (starting : ClassHeader → Prop) (gathered : List ClassHeader) : Prop where
  fresh : ∀ header ∈ gathered, header.name ∉ seen
  distinct : gathered.Nodup
  reached : ∀ header ∈ gathered, ∃ first, starting first ∧ Relation.ReflTransGen step first header
  begun : ∀ first, starting first → first.name ∈ seen ∨ first ∈ gathered
  closed : ∀ inner ∈ gathered, ∀ outer, step inner outer → outer.name ∈ seen ∨ outer ∈ gathered

variable {step : ClassHeader → ClassHeader → Prop} {seen : List String}
  {starting others : ClassHeader → Prop} {first : ClassHeader} {gathered : List ClassHeader}

theorem Gathers.nothing (h : ∀ header, ¬starting header) : Gathers step seen starting [] where
  fresh := by simp
  distinct := List.nodup_nil
  reached := by simp
  begun := fun header hheader => absurd hheader (h header)
  closed := by simp

/-- A class that has been seen adds nothing. -/
theorem Gathers.skip (hrest : Gathers step seen others gathered) (hseen : first.name ∈ seen)
    (hstarting : ∀ header, starting header ↔ header = first ∨ others header) :
    Gathers step seen starting gathered where
  fresh := hrest.fresh
  distinct := hrest.distinct
  reached := by
    intro header hheader
    obtain ⟨start, hstart, hsteps⟩ := hrest.reached header hheader
    exact ⟨start, (hstarting start).2 (Or.inr hstart), hsteps⟩
  begun := by
    intro header hheader
    rcases (hstarting header).1 hheader with rfl | hother
    · exact Or.inl hseen
    · exact hrest.begun header hother
  closed := hrest.closed

/-- A class that is new is gathered, and the steps from it are among those to be taken next. -/
theorem Gathers.add
    (hrest : Gathers step (first.name :: seen)
      (fun header => step first header ∨ others header) gathered)
    (hnew : first.name ∉ seen)
    (hstarting : ∀ header, starting header ↔ header = first ∨ others header)
    (hname : ∀ header, others header ∨ (∃ inner, step inner header) → header.name = first.name →
      header = first) :
    Gathers step seen starting (first :: gathered) := by
  -- What counts as seen by the rest has been seen before or is the new class itself.
  have hfound : ∀ header, others header ∨ (∃ inner, step inner header) →
      header.name ∈ first.name :: seen ∨ header ∈ gathered →
        header.name ∈ seen ∨ header ∈ first :: gathered := by
    intro header hheader hfound
    rcases hfound with hseen | hgathered
    · rcases List.mem_cons.1 hseen with hsame | hbefore
      · rw [hname header hheader hsame]
        exact Or.inr List.mem_cons_self
      · exact Or.inl hbefore
    · exact Or.inr (List.mem_cons_of_mem _ hgathered)
  refine ⟨?_, ?_, ?_, ?_, ?_⟩
  · refine List.forall_mem_cons.2 ⟨hnew, ?_⟩
    intro header hheader hseen
    exact hrest.fresh header hheader (List.mem_cons_of_mem _ hseen)
  · refine List.nodup_cons.2 ⟨?_, hrest.distinct⟩
    intro hrepeated
    exact hrest.fresh first hrepeated List.mem_cons_self
  · refine List.forall_mem_cons.2 ⟨⟨first, (hstarting first).2 (Or.inl rfl), .refl⟩, ?_⟩
    intro header hheader
    obtain ⟨start, hstart, hsteps⟩ := hrest.reached header hheader
    rcases hstart with hstep | hother
    · exact ⟨first, (hstarting first).2 (Or.inl rfl), .head hstep hsteps⟩
    · exact ⟨start, (hstarting start).2 (Or.inr hother), hsteps⟩
  · intro header hheader
    rcases (hstarting header).1 hheader with rfl | hother
    · exact Or.inr List.mem_cons_self
    · exact hfound header (Or.inl hother) (hrest.begun header (Or.inr hother))
  · intro inner hinner outer hstep
    rcases List.mem_cons.1 hinner with rfl | hgathered
    · exact hfound outer (Or.inr ⟨inner, hstep⟩) (hrest.begun outer (Or.inl hstep))
    · exact hfound outer (Or.inr ⟨inner, hstep⟩) (hrest.closed inner hgathered outer hstep)

/-- All that is reached from a starting class is gathered or has been seen, if the steps from what
has been seen lead to starting classes again. -/
theorem Gathers.mem_of_reachable (h : Gathers step seen starting gathered)
    (hseen : ∀ inner outer, starting inner ∨ (∃ before, step before inner) → inner.name ∈ seen →
      step inner outer → starting outer)
    {header : ClassHeader} (hfirst : starting first)
    (hsteps : Relation.ReflTransGen step first header) :
    (starting header ∨ ∃ before, step before header) ∧
      (header.name ∈ seen ∨ header ∈ gathered) := by
  induction hsteps with
  | refl => exact ⟨Or.inl hfirst, h.begun first hfirst⟩
  | @tail inner outer _ hstep ih =>
      obtain ⟨hmet, hbefore | hgathered⟩ := ih
      · exact ⟨Or.inr ⟨inner, hstep⟩, h.begun outer (hseen inner outer hmet hbefore hstep)⟩
      · exact ⟨Or.inr ⟨inner, hstep⟩, h.closed inner hgathered outer hstep⟩

end Gathering

variable {table : ClassTable} {header ancestor interface : ClassHeader}

/-- What steps inside the table lead to is in the table. -/
theorem mem_toList_of_transGen {step : ClassHeader → ClassHeader → Prop}
    (hstep : ∀ inner outer, step inner outer → outer ∈ table.toList)
    (h : Relation.TransGen step header ancestor) : ancestor ∈ table.toList := by
  obtain ⟨inner, -, hlast⟩ := Relation.TransGen.tail'_iff.1 h
  exact hstep inner ancestor hlast

section Chain

theorem mem_toList_of_superStep (h : table.SuperStep header ancestor) :
    ancestor ∈ table.toList := by
  obtain ⟨name, -, hfound⟩ := h
  exact Ordered.mem_of_find? hfound

/-- The chain gathers by steps to superclasses. -/
theorem chainFrom_gathers (table : ClassTable) (seen : List String) (next : Option String) :
    Gathers table.SuperStep seen
      (fun first => ∃ name, next = some name ∧ table.find? name = some first)
      (table.chainFrom seen next) := by
  fun_induction chainFrom table seen next with
  | case1 => exact .nothing (by simp)
  | case2 seen name hmissing => exact .nothing (by simp [hmissing])
  | case3 seen name first hfound hseen =>
      have hrest : Gathers table.SuperStep seen (fun _ => False) [] := .nothing fun _ => id
      refine hrest.skip hseen ?_
      simp [hfound, eq_comm]
  | case4 seen name first hfound hnew ih =>
      have hrest : Gathers table.SuperStep (first.name :: seen)
          (fun header => table.SuperStep first header ∨ False)
          (table.chainFrom (first.name :: seen) first.super?) := by
        simp only [or_false]
        exact ih
      refine hrest.add hnew ?_ ?_
      · simp [hfound, eq_comm]
      · rintro header (hnone | ⟨inner, hstep⟩) hsame
        · exact hnone.elim
        · exact Ordered.eq_of_key_eq (mem_toList_of_superStep hstep)
            (Ordered.mem_of_find? hfound) hsame

/-- The superclasses of a class are the other classes that steps to superclasses lead to. -/
theorem mem_superclassChain (hheader : header ∈ table.toList) :
    ancestor ∈ table.superclassChain header ↔
      ancestor ≠ header ∧ Relation.TransGen table.SuperStep header ancestor := by
  have hgathers : Gathers table.SuperStep [header.name] (table.SuperStep header)
      (table.superclassChain header) := chainFrom_gathers table [header.name] header.super?
  rw [Relation.TransGen.head'_iff]
  constructor
  · intro hancestor
    refine ⟨?_, hgathers.reached ancestor hancestor⟩
    rintro rfl
    exact hgathers.fresh ancestor hancestor List.mem_cons_self
  · rintro ⟨hother, first, hfirst, hsteps⟩
    have hown : ∀ inner, table.SuperStep header inner ∨ (∃ before, table.SuperStep before inner) →
        inner.name ∈ [header.name] → inner = header := by
      rintro inner hmet hname
      have hinner : inner ∈ table.toList := by
        rcases hmet with hstep | ⟨before, hstep⟩
        · exact mem_toList_of_superStep hstep
        · exact mem_toList_of_superStep hstep
      exact Ordered.eq_of_key_eq hinner hheader (List.mem_singleton.1 hname)
    obtain ⟨hmet, hseen | hgathered⟩ := hgathers.mem_of_reachable
      (fun inner outer hmet hname hstep => hown inner hmet hname ▸ hstep) hfirst hsteps
    · exact absurd (hown ancestor hmet hseen) hother
    · exact hgathered

theorem superclassChain_nodup (table : ClassTable) (header : ClassHeader) :
    (table.superclassChain header).Nodup :=
  (chainFrom_gathers table [header.name] header.super?).distinct

theorem cons_superclassChain_nodup (hheader : header ∈ table.toList) :
    (header :: table.superclassChain header).Nodup := by
  apply List.nodup_cons.2
  refine ⟨?_, table.superclassChain_nodup header⟩
  intro hown
  exact ((mem_superclassChain hheader).1 hown).1 rfl

/-- A class and its superclasses are different classes of the table. -/
theorem superclassChain_length_lt (hheader : header ∈ table.toList) :
    (table.superclassChain header).length < table.size := by
  have hsubset : header :: table.superclassChain header ⊆ table.toList := by
    refine List.cons_subset.2 ⟨hheader, fun ancestor hancestor => ?_⟩
    have hsteps := ((mem_superclassChain hheader).1 hancestor).2
    exact mem_toList_of_transGen (fun _ _ => mem_toList_of_superStep) hsteps
  exact ((cons_superclassChain_nodup hheader).subperm hsubset).length_le

end Chain

section Closure

theorem mem_toList_of_interfaceStep (h : table.InterfaceStep header interface) :
    interface ∈ table.toList := by
  obtain ⟨name, -, hfound⟩ := h
  exact Ordered.mem_of_find? hfound

/-- The closure gathers by steps to interfaces. -/
theorem interfacesFrom_gathers (table : ClassTable) (seen pending : List String) :
    Gathers table.InterfaceStep seen
      (fun first => ∃ name ∈ pending, table.find? name = some first)
      (table.interfacesFrom seen pending) := by
  fun_induction interfacesFrom table seen pending with
  | case1 => exact .nothing (by simp)
  | case2 seen name pending hmissing ih => simpa [hmissing] using ih
  | case3 seen name pending first hfound hseen ih =>
      refine ih.skip hseen ?_
      simp [hfound, eq_comm]
  | case4 seen name pending first hfound hnew ih =>
      have hrest : Gathers table.InterfaceStep (first.name :: seen)
          (fun header => table.InterfaceStep first header ∨
            ∃ name ∈ pending, table.find? name = some header)
          (table.interfacesFrom (first.name :: seen) (first.interfaces.toList ++ pending)) := by
        simpa only [InterfaceStep, List.mem_append, or_and_right, exists_or] using ih
      refine hrest.add hnew ?_ ?_
      · simp [hfound, eq_comm]
      · rintro header (⟨other, -, hother⟩ | ⟨inner, hstep⟩) hsame
        · exact Ordered.eq_of_key_eq (Ordered.mem_of_find? hother) (Ordered.mem_of_find? hfound)
            hsame
        · exact Ordered.eq_of_key_eq (mem_toList_of_interfaceStep hstep)
            (Ordered.mem_of_find? hfound) hsame

/-- The interfaces of a class are those that steps to interfaces lead to. -/
theorem mem_interfaceClosure :
    interface ∈ table.interfaceClosure header ↔
      Relation.TransGen table.InterfaceStep header interface := by
  have hgathers : Gathers table.InterfaceStep [] (table.InterfaceStep header)
      (table.interfaceClosure header) := interfacesFrom_gathers table [] header.interfaces.toList
  rw [Relation.TransGen.head'_iff]
  constructor
  · exact hgathers.reached interface
  · rintro ⟨first, hfirst, hsteps⟩
    obtain ⟨-, hseen | hgathered⟩ := hgathers.mem_of_reachable
      (fun inner _ _ hname _ => absurd hname List.not_mem_nil) hfirst hsteps
    · cases hseen
    · exact hgathered

/-- The signatures that a class has from its interfaces are those that some interface declares. -/
theorem mem_interfaceSignatures {signature : Signature} :
    signature ∈ table.interfaceSignatures header ↔
      ∃ interface, Relation.TransGen table.InterfaceStep header interface ∧
        signature ∈ interface.declared := by
  rw [interfaceSignatures, mem_eraseReps, List.mem_mergeSort, List.mem_flatMap]
  simp only [mem_interfaceClosure]

end Closure

end ClassMetrics.ClassTable
