import Mathlib
import ClassMetrics.Hierarchy.ClassTable

/-!
Looking things up by name. A collection holds one item under each of its keys, so that it is
determined by its items, or by what is found in it; putting together items with different keys loses
none of them. A set of names has the names that were inserted.
-/

namespace ClassMetrics

namespace Ordered

variable {α : Type} {key : α → String}

theorem keys_nodup (items : Ordered key) : items.keys.Nodup := by
  refine List.pairwise_map.2 (List.Pairwise.imp ?_ items.ascending)
  intro first second hlt heq
  rw [heq] at hlt
  exact String.lt_irrefl _ hlt

theorem nodup (items : Ordered key) : items.toList.Nodup :=
  List.Nodup.of_map key items.keys_nodup

theorem eq_of_key_eq {items : Ordered key} {item other : α} (hitem : item ∈ items.toList)
    (hother : other ∈ items.toList) (h : key item = key other) : item = other :=
  List.inj_on_of_nodup_map items.keys_nodup hitem hother h

theorem ext_mem {items others : Ordered key}
    (h : ∀ item, item ∈ items.toList ↔ item ∈ others.toList) : items = others := by
  apply ext
  have hperm : items.toList.Perm others.toList :=
    (List.perm_ext_iff_of_nodup items.nodup others.nodup).2 h
  refine hperm.eq_of_pairwise ?_ items.ascending others.ascending
  intro first second _ _ hlt hgt
  exact absurd (String.lt_trans hlt hgt) (String.lt_irrefl _)

/-- What is found under a name is the item that has it as its key. -/
theorem find?_eq_some_iff {items : Ordered key} {name : String} {item : α} :
    items.find? name = some item ↔ item ∈ items.toList ∧ key item = name := by
  constructor
  · intro h
    exact ⟨mem_of_find? h, key_of_find? h⟩
  · rintro ⟨hitem, rfl⟩
    cases hfound : items.find? (key item) with
    | none =>
        have hmissing := List.find?_eq_none.1 hfound item hitem
        simp at hmissing
    | some other =>
        rw [eq_of_key_eq (mem_of_find? hfound) hitem (key_of_find? hfound)]

theorem contains_iff {items : Ordered key} {name : String} :
    items.contains name = true ↔ name ∈ items.keys := by
  rw [contains, Option.isSome_iff_exists, keys, List.mem_map]
  simp only [find?_eq_some_iff]

/-- Collections in which the same is found are equal. -/
theorem ext_find? {items others : Ordered key}
    (h : ∀ name, items.find? name = others.find? name) : items = others := by
  apply ext_mem
  intro item
  have hfound : items.find? (key item) = some item ↔ others.find? (key item) = some item := by
    rw [h]
  simpa [find?_eq_some_iff] using hfound

/-- The last item put under a name counts, so items with different keys change places. -/
theorem insert_comm {items : Ordered key} {item other : α} (h : key item ≠ key other) :
    (items.insert item).insert other = (items.insert other).insert item := by
  apply ext_find?
  intro name
  simp only [find?_insert]
  by_cases hitem : key item = name
  · have hother : key other ≠ name := fun hother => h (hitem.trans hother.symm)
    rw [if_neg hother, if_pos hitem, if_pos hitem]
  · rw [if_neg hitem, if_neg hitem]

theorem mem_insert_iff {items : Ordered key} {item other : α} :
    other ∈ (items.insert item).toList ↔
      other = item ∨ other ∈ items.toList ∧ key other ≠ key item := by
  have hfound : ∀ holder : Ordered key,
      other ∈ holder.toList ↔ holder.find? (key other) = some other := by
    intro holder
    rw [find?_eq_some_iff, and_iff_left rfl]
  rw [hfound, hfound, find?_insert]
  by_cases hkey : key item = key other
  · simp [hkey, eq_comm]
  · have hne : other ≠ item := fun hsame => hkey (congrArg key hsame.symm)
    simp [hkey, hne, Ne.symm hkey]

/-- An inserted item comes to those that have other keys. -/
theorem insert_perm (items : Ordered key) (item : α) :
    (items.insert item).toList.Perm
      (item :: items.toList.filter fun other => key other != key item) := by
  apply (List.perm_ext_iff_of_nodup (items.insert item).nodup _).2
  · intro other
    simp [mem_insert_iff]
  · apply List.nodup_cons.2
    exact ⟨by simp, items.nodup.filter _⟩

theorem size_insert (items : Ordered key) (item : α) :
    (items.insert item).size + (items.contains (key item)).toNat = items.size + 1 := by
  have hsize : (items.insert item).size =
      (items.toList.filter fun other => key other != key item).length + 1 :=
    (items.insert_perm item).length_eq
  have hother : items.size = items.keys.count (key item) +
      (items.toList.filter fun other => key other != key item).length := by
    rw [size, keys, List.count, List.countP_map, List.countP_eq_length_filter]
    exact List.length_eq_length_filter_add _
  have hsame : items.keys.count (key item) = (items.contains (key item)).toNat := by
    rw [items.keys_nodup.count]
    by_cases hkey : key item ∈ items.keys
    · rw [if_pos hkey, contains_iff.2 hkey]
      rfl
    · rw [if_neg hkey, Bool.eq_false_iff.2 (mt contains_iff.1 hkey)]
      rfl
  omega

/-- The last item that was put under a name counts. -/
theorem find?_foldl_insert (items : Ordered key) (others : List α) (name : String) :
    (others.foldl insert items).find? name =
      (others.filter (key · == name)).getLast?.or (items.find? name) := by
  induction others generalizing items with
  | nil => rfl
  | cons first rest ih =>
      rw [List.foldl_cons, ih, find?_insert]
      by_cases hname : key first = name
      · rw [if_pos hname, List.filter_cons_of_pos (by simpa using hname), List.getLast?_cons]
        cases (rest.filter (key · == name)).getLast? with
        | none => rfl
        | some last => rfl
      · rw [if_neg hname, List.filter_cons_of_neg (by simpa using hname)]

theorem place_perm {item : α} {items : List α} (h : ∀ other ∈ items, key other ≠ key item) :
    (place key item items).Perm (item :: items) := by
  induction items with
  | nil => exact .refl _
  | cons first rest ih =>
      have hrest : (place key item rest).Perm (item :: rest) :=
        ih fun other hother => h other (List.mem_cons_of_mem _ hother)
      rw [place]
      split
      · exact .refl _
      · next hbefore =>
          split
          · exact (hrest.cons first).trans (List.Perm.swap item first rest)
          · next hafter => exact absurd (eq_of_not_lt hafter hbefore) (h first List.mem_cons_self)

theorem foldl_insert_perm {items : Ordered key} {others : List α}
    (h : ((items.toList ++ others).map key).Nodup) :
    (others.foldl insert items).toList.Perm (items.toList ++ others) := by
  induction others generalizing items with
  | nil => simp
  | cons first rest ih =>
      have hapart : ∀ other ∈ items.toList, key other ≠ key first := by
        rw [List.map_append, List.nodup_append] at h
        intro other hother
        exact h.2.2 _ (List.mem_map_of_mem hother) _ (List.mem_map_of_mem List.mem_cons_self)
      have hplaced : ((items.insert first).toList ++ rest).Perm (items.toList ++ first :: rest) :=
        ((place_perm hapart).append_right rest).trans List.perm_middle.symm
      have hkeys : (((items.insert first).toList ++ rest).map key).Nodup :=
        (hplaced.map key).nodup_iff.2 h
      exact (ih hkeys).trans hplaced

/-- A collection that is made of items with different keys has exactly these items. -/
theorem ofList_perm {items : List α} (h : (items.map key).Nodup) :
    (ofList items : Ordered key).toList.Perm items := by
  have hkeys : (((empty : Ordered key).toList ++ items).map key).Nodup := h
  exact foldl_insert_perm hkeys

section NameSets

theorem mem_place {item other : String} {items : List String} :
    other ∈ place id item items ↔ other = item ∨ other ∈ items := by
  constructor
  · exact mem_of_mem_place
  · intro h
    induction items with
    | nil => simpa [place] using h
    | cons first rest ih =>
        simp only [place, id]
        split
        · simpa using h
        · next hbefore =>
            split
            · rcases h with hitem | hmem
              · exact List.mem_cons_of_mem _ (ih (Or.inl hitem))
              · rcases List.mem_cons.1 hmem with rfl | hrest
                · exact List.mem_cons_self
                · exact List.mem_cons_of_mem _ (ih (Or.inr hrest))
            · next hafter =>
                rw [eq_of_not_lt hbefore hafter] at h ⊢
                simpa using h

@[simp]
theorem mem_insert {names : NameSet} {item name : String} :
    name ∈ (names.insert item).toList ↔ name = item ∨ name ∈ names.toList :=
  mem_place

theorem mem_foldl_insert {names : NameSet} {items : List String} {name : String} :
    name ∈ (items.foldl insert names).toList ↔ name ∈ items ∨ name ∈ names.toList := by
  induction items generalizing names with
  | nil => simp
  | cons first rest ih =>
      rw [List.foldl_cons, ih, mem_insert, List.mem_cons]
      tauto

theorem mem_ofList {items : List String} {name : String} :
    name ∈ (ofList items : NameSet).toList ↔ name ∈ items := by
  rw [ofList, mem_foldl_insert]
  simp [empty]

end NameSets

end Ordered

namespace ClassTable

theorem find?_eq_some_iff {table : ClassTable} {name : String} {header : ClassHeader} :
    table.find? name = some header ↔ header ∈ table.toList ∧ header.name = name :=
  Ordered.find?_eq_some_iff

theorem contains_iff {table : ClassTable} {name : String} :
    table.contains name = true ↔ name ∈ table.names :=
  Ordered.contains_iff

end ClassTable

end ClassMetrics
