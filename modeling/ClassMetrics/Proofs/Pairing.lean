import Mathlib.Tactic

/-!
Computations that may fail, and lists that go together item by item. Mapping a list with a function
that may fail succeeds exactly when there is a list of values that goes together with it. Items that
repeat the one before them can be left out of a list without a loss.
-/

namespace ClassMetrics

theorem except_bind_eq_ok {ε α β : Type} {first : Except ε α} {second : α → Except ε β}
    {value : β} :
    (first >>= second) = .ok value ↔ ∃ middle, first = .ok middle ∧ second middle = .ok value := by
  cases first with
  | error fault => simp [bind, Except.bind]
  | ok middle => simp [bind, Except.bind]

theorem mapM_ok {ε α β : Type} (items : List α) (make : α → β) :
    items.mapM (fun item => (.ok (make item) : Except ε β)) = .ok (items.map make) := by
  induction items with
  | nil => rfl
  | cons first others ih => rw [List.mapM_cons, ih]; rfl

/-- Mapping with failure succeeds when it does so for each item. -/
theorem mapM_eq_ok {ε α β : Type} {make : α → Except ε β} {items : List α} {values : List β} :
    items.mapM make = .ok values ↔
      List.Forall₂ (fun item value => make item = .ok value) items values := by
  induction items generalizing values with
  | nil =>
      rw [List.mapM_nil, List.forall₂_nil_left_iff]
      constructor
      · intro h
        exact (Except.ok.inj h).symm
      · rintro rfl
        rfl
  | cons first others ih =>
      rw [List.mapM_cons, List.forall₂_cons_left_iff, except_bind_eq_ok]
      constructor
      · rintro ⟨value, hfirst, h⟩
        obtain ⟨later, hothers, h⟩ := except_bind_eq_ok.1 h
        obtain rfl := Except.ok.inj h
        exact ⟨value, later, hfirst, ih.1 hothers, rfl⟩
      · rintro ⟨value, later, hfirst, hothers, rfl⟩
        exact ⟨value, hfirst, except_bind_eq_ok.2 ⟨later, ih.2 hothers, rfl⟩⟩

theorem mapM_eq_some_iff {α β : Type} {make? : α → Option β} {items : List α} {values : List β} :
    items.mapM make? = some values ↔
      List.Forall₂ (fun item value => make? item = some value) items values := by
  induction items generalizing values with
  | nil => simp [eq_comm]
  | cons first others ih =>
      cases values with
      | nil => simp [List.mapM_cons, Option.bind_eq_some_iff]
      | cons value later => simp [List.mapM_cons, Option.bind_eq_some_iff, ← ih]

/-- Two mappings that do the same on items that go together. -/
theorem mapM_congr_forall₂ {ε α β γ : Type} {make : α → Except ε γ} {other : β → Except ε γ}
    {items : List α} {others : List β}
    (h : List.Forall₂ (fun item second => make item = other second) items others) :
    items.mapM make = others.mapM other := by
  induction h with
  | nil => rfl
  | cons hfirst _ ih => rw [List.mapM_cons, List.mapM_cons, hfirst, ih]

section Related

variable {α β γ : Type} {related : α → β → Prop} {items : List α} {values : List β}

/-- Each item has a value exactly when there is a list of values. -/
theorem exists_forall₂_iff :
    (∃ values, List.Forall₂ related items values) ↔
      ∀ item ∈ items, ∃ value, related item value := by
  induction items with
  | nil => simp
  | cons first others ih =>
      simp only [List.forall₂_cons_left_iff, List.forall_mem_cons, ← ih]
      constructor
      · rintro ⟨_, value, values, hvalue, hvalues, -⟩
        exact ⟨⟨value, hvalue⟩, values, hvalues⟩
      · rintro ⟨⟨value, hvalue⟩, values, hvalues⟩
        exact ⟨value :: values, value, values, hvalue, hvalues, rfl⟩

theorem exists_mem_of_forall₂ (h : List.Forall₂ related items values) :
    ∀ value ∈ values, ∃ item ∈ items, related item value := by
  induction h with
  | nil => simp
  | @cons item value items values hfirst _ ih =>
      intro other hother
      rcases List.mem_cons.1 hother with rfl | hother
      · exact ⟨item, List.mem_cons_self, hfirst⟩
      · obtain ⟨found, hfound, hrelated⟩ := ih other hother
        exact ⟨found, List.mem_cons_of_mem _ hfound, hrelated⟩

theorem getLast?_of_forall₂ (h : List.Forall₂ related items values) {last : α}
    (hlast : last ∈ items.getLast?) : ∃ value ∈ values.getLast?, related last value := by
  induction h with
  | nil => cases hlast
  | @cons item value items values hfirst hothers ih =>
      cases hothers with
      | nil =>
          obtain rfl := Option.some.inj hlast
          exact ⟨value, rfl, hfirst⟩
      | cons hnext hrest =>
          rw [List.getLast?_cons_cons] at hlast ⊢
          exact ih hlast

/-- Two lists that go together with a third one go together. -/
theorem forall₂_of_forall₂ {other : α → γ → Prop} {both : β → γ → Prop} {others : List γ}
    (h : List.Forall₂ related items values) (hother : List.Forall₂ other items others)
    (himp : ∀ item value second, related item value → other item second → both value second) :
    List.Forall₂ both values others := by
  induction h generalizing others with
  | nil =>
      cases hother
      exact .nil
  | cons hitem _ ih =>
      obtain ⟨second, rest, hsecond, hrest, rfl⟩ := List.forall₂_cons_left_iff.1 hother
      exact .cons (himp _ _ _ hitem hsecond) (ih hrest)

end Related

section Repetitions

variable {α : Type} [BEq α] [LawfulBEq α]

theorem eraseRepsBy_loop_cons [DecidableEq α] (last next : α) (rest found : List α) :
    List.eraseRepsBy.loop (· == ·) last (next :: rest) found =
      if last = next then List.eraseRepsBy.loop (· == ·) last rest found
      else List.eraseRepsBy.loop (· == ·) next rest (last :: found) := by
  rw [List.eraseRepsBy.loop]
  cases hequal : last == next <;> simp_all

theorem mem_eraseRepsBy_loop {value last : α} {rest found : List α} :
    value ∈ List.eraseRepsBy.loop (· == ·) last rest found ↔
      value ∈ found ∨ value ∈ last :: rest := by
  classical
  induction rest generalizing last found with
  | nil => simp [List.eraseRepsBy.loop]
  | cons next rest ih =>
      rw [eraseRepsBy_loop_cons]
      split
      case isTrue hequal => simp [ih, hequal]
      case isFalse =>
          simp only [ih, List.mem_cons]
          tauto

theorem mem_eraseReps {value : α} {values : List α} :
    value ∈ values.eraseReps ↔ value ∈ values := by
  cases values with
  | nil => rfl
  | cons first rest => simp [List.eraseReps, List.eraseRepsBy, mem_eraseRepsBy_loop]

variable {less : α → α → Prop}

theorem pairwise_eraseRepsBy_loop (htrans : ∀ ⦃a b c⦄, less a b → less b c → less a c) {last : α}
    {rest found : List α} (hfound : (found.reverse ++ [last]).Pairwise less)
    (hrest : (last :: rest).Pairwise fun value other => value = other ∨ less value other) :
    (List.eraseRepsBy.loop (· == ·) last rest found).Pairwise less := by
  classical
  induction rest generalizing last found with
  | nil => simpa [List.eraseRepsBy.loop] using hfound
  | cons next rest ih =>
      obtain ⟨hlast, hnext⟩ := List.pairwise_cons.1 hrest
      rw [eraseRepsBy_loop_cons]
      split
      case isTrue hequal => exact ih hfound (hequal ▸ hnext)
      case isFalse hequal =>
          have hless : less last next := (hlast next List.mem_cons_self).resolve_left hequal
          refine ih ?_ hnext
          rw [List.reverse_cons, List.pairwise_append]
          refine ⟨hfound, List.pairwise_singleton _ _, fun value hvalue other hother => ?_⟩
          rw [List.mem_singleton.1 hother]
          rcases List.mem_append.1 hvalue with hbefore | hsame
          · exact htrans ((List.pairwise_append.1 hfound).2.2 value hbefore last
              (List.mem_singleton_self _)) hless
          · rwa [List.mem_singleton.1 hsame]

/-- Sorted values are strictly ascending once their repetitions are left out. -/
theorem pairwise_eraseReps (htrans : ∀ ⦃a b c⦄, less a b → less b c → less a c) {values : List α}
    (hsorted : values.Pairwise fun value other => value = other ∨ less value other) :
    values.eraseReps.Pairwise less := by
  cases values with
  | nil => exact List.Pairwise.nil
  | cons first rest => exact pairwise_eraseRepsBy_loop htrans (List.pairwise_singleton _ _) hsorted

end Repetitions

end ClassMetrics
