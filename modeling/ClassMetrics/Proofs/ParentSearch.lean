import Mathlib
import ClassMetrics.Proofs.Ancestors
import ClassMetrics.Proofs.DepthWalk

/-!
The searches among the ancestors of a class, turn by turn. Both of them, the one for superclasses
and the one for interfaces, look at one name at a time, pass over a name that leads nowhere or to a
class that is known, and have the names that a new class gives looked at next. A name is looked at
as often as it is given, and a class gives its names once. So a search has come to its end after as
many turns as there are names to be given.
-/

namespace ClassMetrics.ClassTable

/-- A search on its way: the classes found, last one first, and the names to be looked at. -/
structure Search where
  found : List ClassHeader
  pending : List String

namespace Search

/-- Looks at the name that is pending first. Classes found count as known, like those that are known
beforehand. -/
def turn (table : ClassTable) (gives : ClassHeader → List String) (known : List String) :
    Search → Search
  | ⟨found, []⟩ => ⟨found, []⟩
  | ⟨found, name :: rest⟩ =>
      match table.find? name with
      | none => ⟨found, rest⟩
      | some header =>
          if header.name ∈ found.map (·.name) ++ known then ⟨found, rest⟩
          else ⟨header :: found, gives header ++ rest⟩

/-- The classes that are still to be found. -/
def unseen (table : ClassTable) (seen : List String) : List ClassHeader :=
  table.toList.filter fun header => decide (header.name ∉ seen)

/-- The names that are still to be looked at: those pending, and those that classes still to be
found may give. -/
def outstanding (table : ClassTable) (gives : ClassHeader → List String) (known : List String)
    (search : Search) : Nat :=
  search.pending.length +
    ((unseen table (search.found.map (·.name) ++ known)).map fun header =>
      (gives header).length).sum

variable {table : ClassTable} {gives : ClassHeader → List String} {known : List String}
  {found : List ClassHeader} {name : String} {header : ClassHeader}

theorem turn_of_missing (rest : List String) (hmissing : table.find? name = none) :
    turn table gives known ⟨found, name :: rest⟩ = ⟨found, rest⟩ := by
  rw [turn, hmissing]

theorem turn_of_seen (rest : List String) (hfound : table.find? name = some header)
    (hseen : header.name ∈ found.map (·.name) ++ known) :
    turn table gives known ⟨found, name :: rest⟩ = ⟨found, rest⟩ := by
  rw [turn, hfound]
  exact if_pos hseen

theorem turn_of_new (rest : List String) (hfound : table.find? name = some header)
    (hnew : header.name ∉ found.map (·.name) ++ known) :
    turn table gives known ⟨found, name :: rest⟩ = ⟨header :: found, gives header ++ rest⟩ := by
  rw [turn, hfound]
  exact if_neg hnew

/-- A class that is found now is no longer among those still to be found. -/
theorem unseen_perm {seen : List String} (hheader : header ∈ table.toList)
    (hnew : header.name ∉ seen) :
    (unseen table seen).Perm (header :: unseen table (header.name :: seen)) := by
  have hnodup := table.classes.nodup
  apply (List.perm_ext_iff_of_nodup (hnodup.filter _) _).2
  · intro other
    simp only [unseen, List.mem_filter, List.mem_cons, decide_eq_true_eq, not_or]
    constructor
    · rintro ⟨hother, hunseen⟩
      by_cases hname : other.name = header.name
      · exact Or.inl (Ordered.eq_of_key_eq hother hheader hname)
      · exact Or.inr ⟨hother, hname, hunseen⟩
    · rintro (rfl | ⟨hother, -, hunseen⟩)
      · exact ⟨hheader, hnew⟩
      · exact ⟨hother, hunseen⟩
  · apply List.nodup_cons.2
    exact ⟨by simp [unseen], hnodup.filter _⟩

/-- Each turn looks at one of the outstanding names. -/
theorem outstanding_turn (table : ClassTable) (gives : ClassHeader → List String)
    (known : List String) (found : List ClassHeader) (name : String) (rest : List String) :
    (turn table gives known ⟨found, name :: rest⟩).outstanding table gives known + 1 =
      outstanding table gives known ⟨found, name :: rest⟩ := by
  -- A name that is passed over is itself the one; a new class moves its own names to the front.
  have hpassed : outstanding table gives known ⟨found, rest⟩ + 1 =
      outstanding table gives known ⟨found, name :: rest⟩ := by
    simp only [outstanding, List.length_cons]
    omega
  cases hfound : table.find? name with
  | none =>
      rw [turn_of_missing rest hfound]
      exact hpassed
  | some header =>
      by_cases hseen : header.name ∈ found.map (·.name) ++ known
      · rw [turn_of_seen rest hfound hseen]
        exact hpassed
      · have hsum := ((unseen_perm (Ordered.mem_of_find? hfound) hseen).map
          fun header => (gives header).length).sum_eq
        rw [List.map_cons, List.sum_cons] at hsum
        rw [turn_of_new rest hfound hseen, outstanding, outstanding, hsum]
        simp only [List.map_cons, List.cons_append, List.length_append, List.length_cons]
        omega

/-- A search that comes to an end at all has come to it when no name can be outstanding. -/
theorem turns_eq {search : Search} {result : List ClassHeader} {count bound : Nat}
    (hends : (turn table gives known)^[count] search = ⟨result, []⟩)
    (hbound : search.outstanding table gives known ≤ bound) :
    (turn table gives known)^[bound] search = ⟨result, []⟩ := by
  have hfixed : ∀ search : Search, search.pending = [] →
      search.turn table gives known = search := by
    rintro ⟨found, pending⟩ rfl
    rfl
  have hless : ∀ search : Search, ¬search.pending = [] →
      (search.turn table gives known).outstanding table gives known <
        search.outstanding table gives known := by
    rintro ⟨found, pending⟩ hopen
    obtain ⟨name, rest, rfl⟩ := List.exists_cons_of_ne_nil hopen
    have hturn := outstanding_turn table gives known found name rest
    omega
  have hdone : ((turn table gives known)^[count] search).pending = [] := by rw [hends]
  rw [← hends]
  exact iterate_eq_of_done hfixed (done_iterate hfixed hless hbound) hdone

end Search

section Superclasses

variable {table : ClassTable} {header : ClassHeader}

/-- The name that a class gives to the search for superclasses. -/
def superNames (header : ClassHeader) : List String :=
  header.super?.toList

/-- The chain is what the search for superclasses finds. -/
theorem exists_turns_chainFrom (table : ClassTable) (known : List String) (found : List ClassHeader)
    (next : Option String) {seen : List String} (hseen : found.map (·.name) ++ known = seen) :
    ∃ count, (Search.turn table superNames known)^[count] ⟨found, next.toList⟩ =
      ⟨(table.chainFrom seen next).reverse ++ found, []⟩ := by
  fun_induction chainFrom table seen next generalizing found with
  | case1 seen => exact ⟨0, rfl⟩
  | case2 seen name hmissing => exact ⟨1, Search.turn_of_missing _ hmissing⟩
  | case3 seen name ancestor hfound hmet =>
      rw [← hseen] at hmet
      exact ⟨1, Search.turn_of_seen _ hfound hmet⟩
  | case4 seen name ancestor hfound hnew ih =>
      obtain ⟨count, hcount⟩ := ih (ancestor :: found) (by rw [← hseen]; rfl)
      rw [← hseen] at hnew
      refine ⟨count + 1, ?_⟩
      rw [Function.iterate_succ_apply, Option.toList_some, Search.turn_of_new _ hfound hnew,
        List.append_nil, List.reverse_cons, List.append_assoc]
      exact hcount

/-- The class itself gives one name at most, and so does every other class of the table. -/
theorem outstanding_superNames_le (hheader : header ∈ table.toList) :
    Search.outstanding table superNames [header.name] ⟨[], superNames header⟩ ≤ table.size := by
  have hone : ∀ header, (superNames header).length ≤ 1 := by
    intro header
    rw [superNames]
    cases header.super? with
    | none => exact Nat.zero_le 1
    | some name => exact Nat.le_refl 1
  have hothers : (Search.unseen table [header.name]).length < table.size := by
    apply List.length_filter_lt_length_iff_exists.2
    exact ⟨header, hheader, by simp⟩
  have hsum := List.sum_le_card_nsmul
    ((Search.unseen table [header.name]).map fun header => (superNames header).length) 1
    (List.forall_mem_map.2 fun header _ => hone header)
  rw [List.length_map, smul_eq_mul, Nat.mul_one] at hsum
  have hown := hone header
  simp only [Search.outstanding, List.map_nil, List.nil_append]
  omega

/-- The search for superclasses has ended after as many turns as the table has classes, and it has
found the chain. -/
theorem turns_superclassChain (hheader : header ∈ table.toList) :
    (Search.turn table superNames [header.name])^[table.size] ⟨[], superNames header⟩ =
      ⟨(table.superclassChain header).reverse, []⟩ := by
  obtain ⟨count, hcount⟩ := exists_turns_chainFrom table [header.name] [] header.super? rfl
  rw [List.append_nil] at hcount
  exact Search.turns_eq hcount (outstanding_superNames_le hheader)

end Superclasses

section Interfaces

/-- The names that a class gives to the search for interfaces. -/
def interfaceNames (header : ClassHeader) : List String :=
  header.interfaces.toList

/-- The closure is what the search for interfaces finds. -/
theorem exists_turns_interfacesFrom (table : ClassTable) (known : List String)
    (found : List ClassHeader) (pending : List String) {seen : List String}
    (hseen : found.map (·.name) ++ known = seen) :
    ∃ count, (Search.turn table interfaceNames known)^[count] ⟨found, pending⟩ =
      ⟨(table.interfacesFrom seen pending).reverse ++ found, []⟩ := by
  fun_induction interfacesFrom table seen pending generalizing found with
  | case1 seen => exact ⟨0, rfl⟩
  | case2 seen name pending hmissing ih =>
      obtain ⟨count, hcount⟩ := ih found hseen
      refine ⟨count + 1, ?_⟩
      rw [Function.iterate_succ_apply, Search.turn_of_missing _ hmissing]
      exact hcount
  | case3 seen name pending interface hfound hmet ih =>
      obtain ⟨count, hcount⟩ := ih found hseen
      rw [← hseen] at hmet
      refine ⟨count + 1, ?_⟩
      rw [Function.iterate_succ_apply, Search.turn_of_seen _ hfound hmet]
      exact hcount
  | case4 seen name pending interface hfound hnew ih =>
      obtain ⟨count, hcount⟩ := ih (interface :: found) (by rw [← hseen]; rfl)
      rw [← hseen] at hnew
      refine ⟨count + 1, ?_⟩
      rw [Function.iterate_succ_apply, Search.turn_of_new _ hfound hnew, List.reverse_cons,
        List.append_assoc]
      exact hcount

/-- The names that the classes of a table give to the search for interfaces. -/
def interfaceNameCount (table : ClassTable) : Nat :=
  (table.toList.map fun header => header.interfaces.size).sum

/-- The search for interfaces has ended after as many turns as the class and those of the table name
interfaces, and has found the closure. -/
theorem turns_interfaceClosure (table : ClassTable) (header : ClassHeader) :
    (Search.turn table interfaceNames [])^[header.interfaces.size + table.interfaceNameCount]
        ⟨[], interfaceNames header⟩ =
      ⟨(table.interfaceClosure header).reverse, []⟩ := by
  obtain ⟨count, hcount⟩ :=
    exists_turns_interfacesFrom table [] [] header.interfaces.toList rfl
  rw [List.append_nil] at hcount
  have hunseen : Search.unseen table [] = table.toList := by
    rw [Search.unseen, List.filter_eq_self]
    simp
  apply Search.turns_eq hcount
  rw [Search.outstanding, List.map_nil, List.nil_append, hunseen]
  exact Nat.le_refl _

end Interfaces

end ClassMetrics.ClassTable
