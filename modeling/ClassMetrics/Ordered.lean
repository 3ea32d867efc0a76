/-!
Collections kept in the order of a name. Every item has a key, the keys are strictly ascending by
code point, and inserting an item replaces the one that has its key. Two collections with the same
items are therefore equal.
-/

namespace ClassMetrics

/-- Items in strictly ascending order of their keys. -/
structure Ordered {α : Type} (key : α → String) where
  toList : List α
  ascending : toList.Pairwise fun a b => key a < key b

namespace Ordered

variable {α : Type} {key : α → String}

@[ext]
theorem ext {items others : Ordered key} (h : items.toList = others.toList) : items = others := by
  cases items
  cases others
  simpa using h

instance [DecidableEq α] : DecidableEq (Ordered key) := fun items others =>
  decidable_of_iff (items.toList = others.toList) ⟨ext, fun h => h ▸ rfl⟩

instance [Repr α] : Repr (Ordered key) where
  reprPrec items := reprPrec items.toList

def empty : Ordered key :=
  ⟨[], .nil⟩

instance : Inhabited (Ordered key) :=
  ⟨empty⟩

/-- Puts an item at its place among ascending ones, in the stead of one with the same key. -/
def place (key : α → String) (item : α) : List α → List α
  | [] => [item]
  | other :: rest =>
      if key item < key other then item :: other :: rest
      else if key other < key item then other :: place key item rest
      else item :: rest

theorem eq_of_not_lt {a b : String} (hab : ¬a < b) (hba : ¬b < a) : a = b :=
  String.le_antisymm hba hab

theorem mem_of_mem_place {item other : α} {items : List α} (h : other ∈ place key item items) :
    other = item ∨ other ∈ items := by
  induction items with
  | nil => exact Or.inl (by simpa [place] using h)
  | cons first rest ih =>
      simp only [place] at h
      split at h
      · simpa using h
      · split at h
        · rcases List.mem_cons.1 h with rfl | hrest
          · simp
          · rcases ih hrest with hitem | hold
            · exact Or.inl hitem
            · exact Or.inr (List.mem_cons_of_mem _ hold)
        · rcases List.mem_cons.1 h with hitem | hold
          · exact Or.inl hitem
          · exact Or.inr (List.mem_cons_of_mem _ hold)

theorem pairwise_place (item : α) {items : List α}
    (h : items.Pairwise fun a b => key a < key b) :
    (place key item items).Pairwise fun a b => key a < key b := by
  induction items with
  | nil => simp [place]
  | cons first rest ih =>
      obtain ⟨hfirst, hrest⟩ := List.pairwise_cons.1 h
      simp only [place]
      split
      · next hbefore =>
          refine List.pairwise_cons.2 ⟨fun other hother => ?_, h⟩
          rcases List.mem_cons.1 hother with rfl | hmem
          · exact hbefore
          · exact String.lt_trans hbefore (hfirst other hmem)
      · next hbefore =>
          split
          · next hafter =>
              refine List.pairwise_cons.2 ⟨fun other hother => ?_, ih hrest⟩
              rcases mem_of_mem_place hother with rfl | hmem
              · exact hafter
              · exact hfirst other hmem
          · next hafter =>
              refine List.pairwise_cons.2 ⟨fun other hother => ?_, hrest⟩
              rw [eq_of_not_lt hbefore hafter]
              exact hfirst other hother

/-- Adds an item, or replaces the one that has its key. -/
def insert (items : Ordered key) (item : α) : Ordered key :=
  ⟨place key item items.toList, pairwise_place item items.ascending⟩

/-- The item with the given key. -/
def find? (items : Ordered key) (name : String) : Option α :=
  items.toList.find? fun item => key item == name

def contains (items : Ordered key) (name : String) : Bool :=
  (items.find? name).isSome

def size (items : Ordered key) : Nat :=
  items.toList.length

def keys (items : Ordered key) : List String :=
  items.toList.map key

/-- Inserts the given items one after another. -/
def ofList (items : List α) : Ordered key :=
  items.foldl insert empty

/-- Changes the items, none of which gets another key. -/
def update (items : Ordered key) (change : α → α) (hkey : ∀ item, key (change item) = key item) :
    Ordered key :=
  ⟨items.toList.map change, by simpa [List.pairwise_map, hkey] using items.ascending⟩

theorem find?_place (item : α) {items : List α} (name : String)
    (h : items.Pairwise fun a b => key a < key b) :
    (place key item items).find? (fun other => key other == name) =
      if key item = name then some item else items.find? fun other => key other == name := by
  induction items with
  | nil =>
      by_cases hname : key item = name
      · simp [place, hname]
      · simp [place, hname]
  | cons first rest ih =>
      obtain ⟨hfirst, hrest⟩ := List.pairwise_cons.1 h
      simp only [place]
      split
      · next hbefore =>
          by_cases hname : key item = name
          · simp [hname]
          · simp [hname]
      · next hbefore =>
          split
          · next hafter =>
              by_cases hname : key item = name
              · have hother : key first ≠ name := by
                  intro hsame
                  rw [hsame, ← hname] at hafter
                  exact String.lt_irrefl _ hafter
                simp [hother, hname, ih hrest]
              · simp [List.find?_cons, ih hrest, hname]
          · next hafter =>
              have hsame := eq_of_not_lt hbefore hafter
              by_cases hname : key item = name
              · simp [hname]
              · have hother : key first ≠ name := by rw [← hsame]; exact hname
                simp [hname, hother]

/-- An item is found under its own key, and what has other keys is found as before. -/
@[simp]
theorem find?_insert (items : Ordered key) (item : α) (name : String) :
    (items.insert item).find? name = if key item = name then some item else items.find? name :=
  find?_place item name items.ascending

@[simp]
theorem contains_insert (items : Ordered key) (item : α) (name : String) :
    (items.insert item).contains name = (decide (key item = name) || items.contains name) := by
  by_cases hname : key item = name
  · simp [contains, hname]
  · simp [contains, hname]

@[simp]
theorem find?_update (items : Ordered key) (change : α → α)
    (hkey : ∀ item, key (change item) = key item) (name : String) :
    (items.update change hkey).find? name = (items.find? name).map change := by
  simp [update, find?, List.find?_map, Function.comp_def, hkey]

theorem key_of_find? {items : Ordered key} {name : String} {item : α}
    (h : items.find? name = some item) : key item = name := by
  simpa using List.find?_some h

theorem mem_of_find? {items : Ordered key} {name : String} {item : α}
    (h : items.find? name = some item) : item ∈ items.toList :=
  List.mem_of_find?_eq_some h

end Ordered

/-- A set of names, in ascending order. -/
abbrev NameSet := Ordered (id : String → String)

end ClassMetrics
