import Mathlib
import ClassMetrics.Proofs.LeftOut
import ClassMetrics.Proofs.Overflow

/-!
The levels of the depths. Every class that the walk comes upon is a child of the root, which stands
at depth 1, or of a class that was found one level above it. Whatever the graph looks like, the
classes above a recorded one therefore take up all levels from 2 on. Main statement: recorded depths
have no gaps, so that the greatest of them is bounded by their number, and their average lies
between 2 and the greatest.
-/

namespace ClassMetrics

namespace ClassGraph

/-- A class stands one level below one of its parents, which is the root or has been found. -/
def BelowParent (graph : ClassGraph) (found : List (String × Nat)) (reached : String × Nat) :
    Prop :=
  ∃ parent ∈ (rootName, 1) :: found, graph.Leads parent.1 reached.1 ∧ reached.2 = parent.2 + 1

/-- All that a walk has found or holds pending stands below a parent. -/
structure Layered (graph : ClassGraph) (walk : Walk) : Prop where
  found : ∀ reached ∈ walk.found, graph.BelowParent walk.found reached
  pending : ∀ reached ∈ walk.pending, graph.BelowParent walk.found reached

variable {graph : ClassGraph} {walk : Walk}

theorem BelowParent.cons {found : List (String × Nat)} {reached : String × Nat}
    (h : graph.BelowParent found reached) (other : String × Nat) :
    graph.BelowParent (other :: found) reached := by
  obtain ⟨parent, hparent, hleads, hlevel⟩ := h
  refine ⟨parent, ?_, hleads, hlevel⟩
  rcases List.mem_cons.1 hparent with hroot | hfound
  · rw [hroot]
    exact List.mem_cons_self
  · exact List.mem_cons_of_mem _ (List.mem_cons_of_mem _ hfound)

namespace Layered

theorem start (graph : ClassGraph) : Layered graph (.start graph) where
  found := List.forall_mem_nil _
  pending := by
    intro reached hreached
    obtain ⟨child, hchild, rfl⟩ := List.mem_map.1 hreached
    exact ⟨(rootName, 1), List.mem_cons_self, hchild, rfl⟩

/-- A turn puts the children of a found class one level below it. -/
theorem turn (h : Layered graph walk) : Layered graph (walk.turn graph) := by
  cases hpending : walk.pending with
  | nil =>
      rw [Walk.turn_of_nil hpending]
      exact h
  | cons first rest =>
      have hcovered := h.pending
      rw [hpending] at hcovered
      obtain ⟨hfirst, hrest⟩ := List.forall_mem_cons.1 hcovered
      obtain ⟨name, depth⟩ := first
      by_cases hknown : name = rootName ∨ name ∈ walk.found.map Prod.fst
      · rw [Walk.turn_of_known hpending hknown]
        exact ⟨h.found, hrest⟩
      · rw [Walk.turn_of_new hpending hknown]
        refine ⟨List.forall_mem_cons.2 ⟨hfirst.cons _, ?_⟩, ?_⟩
        · intro reached hreached
          exact (h.found reached hreached).cons _
        · intro reached hreached
          rcases List.mem_append.1 hreached with hchild | hold
          · obtain ⟨child, hleads, rfl⟩ := List.mem_map.1 hchild
            exact ⟨(name, depth), List.mem_cons_of_mem _ List.mem_cons_self, hleads, rfl⟩
          · exact (hrest reached hold).cons _

theorem turns (graph : ClassGraph) (count : Nat) :
    Layered graph ((Walk.turn graph)^[count] (.start graph)) := by
  induction count with
  | zero => exact start graph
  | succ count ih =>
      rw [Function.iterate_succ_apply']
      exact ih.turn

end Layered

section Levels

variable {found : List (String × Nat)}

theorem two_le_level (h : ∀ reached ∈ found, graph.BelowParent found reached) {depth : Nat}
    (hdepth : depth ∈ found.map Prod.snd) : 2 ≤ depth := by
  obtain ⟨reached, hreached, rfl⟩ := List.mem_map.1 hdepth
  obtain ⟨parent, hparent, -, hlevel⟩ := h reached hreached
  rcases List.mem_cons.1 hparent with rfl | hfound
  · exact hlevel.ge
  · obtain ⟨above, -, -, habove⟩ := h parent hfound
    omega

/-- The level above that of a found class is the root's or that of another found class. -/
theorem level_above (h : ∀ reached ∈ found, graph.BelowParent found reached) {depth : Nat}
    (hdepth : depth + 1 ∈ found.map Prod.snd) : depth = 1 ∨ depth ∈ found.map Prod.snd := by
  obtain ⟨reached, hreached, hlevel⟩ := List.mem_map.1 hdepth
  obtain ⟨parent, hparent, -, habove⟩ := h reached hreached
  have hsame : parent.2 = depth := by omega
  rcases List.mem_cons.1 hparent with rfl | hfound
  · exact Or.inl hsame.symm
  · exact Or.inr (hsame ▸ List.mem_map_of_mem hfound)

/-- Found classes take up all levels from 2 to that of any of them. -/
theorem mem_levels (h : ∀ reached ∈ found, graph.BelowParent found reached) {level depth : Nat}
    (hlow : 2 ≤ level) (hhigh : level ≤ depth) (hdepth : depth ∈ found.map Prod.snd) :
    level ∈ found.map Prod.snd := by
  -- From the depth up to the level, one parent at a time; the root is above all levels.
  induction depth, hhigh using Nat.le_induction with
  | base => exact hdepth
  | succ depth hle ih =>
      rcases level_above h hdepth with hroot | hfound
      · omega
      · exact ih hfound

end Levels

end ClassGraph

namespace Depths

variable {depths : Depths}

theorem exists_greatest (h : depths.size ≠ 0) :
    ∃ greatest ∈ depths.toList.map Prod.snd, depths.maximum = greatest ∧
      ∀ depth ∈ depths.toList.map Prod.snd, depth ≤ greatest := by
  cases hmaximum : (depths.toList.map Prod.snd).max? with
  | none =>
      have hnil := List.map_eq_nil_iff.1 (List.max?_eq_none_iff.1 hmaximum)
      exact absurd (congrArg List.length hnil) h
  | some greatest =>
      obtain ⟨hmem, hle⟩ := List.max?_eq_some_iff.1 hmaximum
      exact ⟨greatest, hmem, by rw [maximum, hmaximum], hle⟩

/-- There are as many depths as levels at least. -/
theorem greatest_le_size {greatest : Nat}
    (h : ∀ level, 2 ≤ level → level ≤ greatest → level ∈ depths.toList.map Prod.snd) :
    greatest ≤ depths.size + 1 := by
  have hsubset : List.range' 2 (greatest - 1) ⊆ depths.toList.map Prod.snd := by
    intro level hlevel
    obtain ⟨hlow, hhigh⟩ := List.mem_range'_1.1 hlevel
    exact h level hlow (by omega)
  have hdistinct : (List.range' 2 (greatest - 1)).Nodup := List.nodup_range'
  have hlength := (hdistinct.subperm hsubset).length_le
  rw [List.length_range', List.length_map] at hlength
  rw [Ordered.size]
  omega

theorem mul_size_le_total {least : Nat}
    (h : ∀ depth ∈ depths.toList.map Prod.snd, least ≤ depth) :
    least * depths.size ≤ depths.total := by
  have hsum := List.card_nsmul_le_sum _ least h
  rw [List.length_map, smul_eq_mul, Nat.mul_comm] at hsum
  rw [total, ← List.sum_eq_foldr]
  exact hsum

/-- The levels from 2 to the greatest depth are all taken, and number, sum and average of the depths
are within the bounds that follow from this. -/
structure Gapless (depths : Depths) : Prop where
  levels : ∀ level : Int, 2 ≤ level → level ≤ depths.maximum →
    ∃ record ∈ depths.toList, (record.2 : Int) = level
  two_le_maximum : 2 ≤ depths.maximum
  maximum_le : depths.maximum ≤ depths.size + 1
  le_total : 2 * depths.size ≤ depths.total
  total_le : (depths.total : Int) ≤ depths.maximum * depths.size
  le_average : 2 ≤ (depths.total : ℚ) / depths.size
  average_le : (depths.total : ℚ) / depths.size ≤ depths.maximum

theorem gapless_of_levels (hsome : depths.size ≠ 0)
    (hlow : ∀ depth ∈ depths.toList.map Prod.snd, 2 ≤ depth)
    (hlevels : ∀ level depth, 2 ≤ level → level ≤ depth → depth ∈ depths.toList.map Prod.snd →
      level ∈ depths.toList.map Prod.snd) : depths.Gapless := by
  obtain ⟨greatest, hgreatest, hmaximum, hhigh⟩ := exists_greatest hsome
  have htwo := hlow greatest hgreatest
  have hsize := greatest_le_size fun level hlevel hle => hlevels level greatest hlevel hle hgreatest
  have hle := mul_size_le_total hlow
  have hge := total_le_mul_size hhigh
  have hpositive : (0 : ℚ) < depths.size := by exact_mod_cast Nat.pos_of_ne_zero hsome
  constructor
  case levels =>
    intro level htaken hbelow
    rw [hmaximum] at hbelow
    have hmem := hlevels level.toNat greatest (by omega) (by omega) hgreatest
    obtain ⟨record, hrecord, hlevel⟩ := List.mem_map.1 hmem
    exact ⟨record, hrecord, by omega⟩
  case two_le_maximum =>
    rw [hmaximum]
    exact_mod_cast htwo
  case maximum_le =>
    rw [hmaximum]
    exact_mod_cast hsize
  case le_total => exact hle
  case total_le =>
    rw [hmaximum]
    exact_mod_cast hge
  case le_average =>
    rw [le_div_iff₀ hpositive]
    exact_mod_cast hle
  case average_le =>
    rw [div_le_iff₀ hpositive, hmaximum]
    exact_mod_cast hge

end Depths

namespace ClassTable

/-- Every recorded class stands below a parent that is recorded too, or below the root. -/
theorem recorded_belowParent (table : ClassTable) :
    ∀ record ∈ (ClassGraph.ofTable table).depths.toList,
      (ClassGraph.ofTable table).BelowParent (ClassGraph.ofTable table).depths.toList record := by
  intro record hrecord
  have hperm := ClassGraph.depths_perm_found (ClassGraph.children_ascending table)
  have hlayered := ClassGraph.Layered.turns (.ofTable table) (ClassGraph.ofTable table).edgeCount
  obtain ⟨parent, hparent, hbelow⟩ := hlayered.found record (hperm.mem_iff.1 hrecord)
  exact ⟨parent, (hperm.cons (rootName, 1)).mem_iff.2 hparent, hbelow⟩

/-- Every recorded class is one level below a parent of it. So either nothing is recorded, and the
maximum says this, or the depths have no gaps. All of them are numbers of 32 bits, and so are those
that the walk comes upon on its way. -/
theorem depths_without_gaps (table : ClassTable) (hsize : table.size < 2 ^ 32 - 1) :
    let depths := (ClassGraph.ofTable table).depths
    DepthsFit table ∧
      (∀ record ∈ depths.toList, ∃ parent ∈ (rootName, 1) :: depths.toList,
        table.IsChild parent.1 record.1 ∧ record.2 = parent.2 + 1) ∧
      (depths.size = 0 → depths.maximum = -1) ∧ (depths.size ≠ 0 → depths.Gapless) := by
  intro depths
  have hbelow := table.recorded_belowParent
  refine ⟨depthsFit (by omega), ?_, Depths.maximum_eq_neg_one_iff.2, ?_⟩
  · rw [← ClassGraph.leads_ofTable]
    exact hbelow
  · intro hsome
    apply Depths.gapless_of_levels hsome
    · intro depth hdepth
      exact ClassGraph.two_le_level hbelow hdepth
    · intro level depth hlow hhigh hdepth
      exact ClassGraph.mem_levels hbelow hlow hhigh hdepth

theorem depths_layeredTable :
    layeredTable.size < 2 ^ 32 - 1 ∧ DepthsFit layeredTable ∧
      (ClassGraph.ofTable layeredTable).depths.size ≠ 0 ∧
      (ClassGraph.ofTable layeredTable).depths.Gapless := by
  have hsize : layeredTable.size < 2 ^ 32 - 1 := by decide
  obtain ⟨hfit, -, -, hgapless⟩ := depths_without_gaps layeredTable hsize
  have hchild : layeredTable.IsChild rootName "k" :=
    ⟨layeredTable.contains_root, ⟨"k", some rootName, .empty, []⟩, by decide, Or.inl rfl⟩
  have hrecorded : "k" ∈ (ClassGraph.ofTable layeredTable).depths.keys :=
    mem_keys_iff.2 ⟨by decide, .single hchild⟩
  have hsome : (ClassGraph.ofTable layeredTable).depths.size ≠ 0 := by
    obtain ⟨record, hrecord, -⟩ := List.mem_map.1 hrecorded
    exact (List.length_pos_of_mem hrecord).ne'
  exact ⟨hsize, hfit, hsome, hgapless hsome⟩

end ClassTable

end ClassMetrics
