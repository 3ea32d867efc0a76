import Mathlib
import ClassMetrics.Proofs.DepthWalk
import ClassMetrics.Proofs.GraphEdges
import ClassMetrics.Proofs.NameOrder

/-!
The paths behind the depths. Behind every class that the walk has found or holds pending stands the
path by which it was reached. Pending paths are in ascending order, and every edge that leads from a
found class to a new one is the last step of such a path; therefore the class that is found next is
found by the least of the simple paths that lead to it. Main statements: the classes below the root
are exactly those that are recorded, and a recorded depth is the length of the least simple path.
-/

namespace ClassMetrics

/-- A path from the root to a class that passes no class twice, along the given relation of parents
and children. -/
structure IsSimplePath (related : String → String → Prop) (name : String) (path : List String) :
    Prop where
  starts : path.head? = some rootName
  ends : path.getLast? = some name
  linked : path.IsChain related
  simple : path.Nodup

namespace IsSimplePath

variable {related : String → String → Prop} {name child : String} {path : List String}

theorem root (related : String → String → Prop) : IsSimplePath related rootName [rootName] :=
  ⟨rfl, rfl, .singleton _, List.nodup_singleton _⟩

/-- The only simple path from the root to itself has no step. -/
theorem eq_root (h : IsSimplePath related rootName path) : path = [rootName] := by
  obtain ⟨rest, rfl⟩ := List.head?_eq_some_iff.1 h.starts
  cases rest with
  | nil => rfl
  | cons second others =>
      have hends := h.ends
      rw [List.getLast?_cons_cons] at hends
      exact absurd (List.mem_of_getLast? hends) (List.nodup_cons.1 h.simple).1

theorem extend (h : IsSimplePath related name path) (hchild : related name child)
    (hnew : child ∉ path) : IsSimplePath related child (path ++ [child]) where
  starts := by rw [List.head?_append, h.starts]; rfl
  ends := List.getLast?_concat
  linked := by
    refine List.isChain_append.2 ⟨h.linked, .singleton _, ?_⟩
    intro last hlast first hfirst
    rw [h.ends] at hlast
    obtain rfl := Option.some.inj hlast
    obtain rfl := Option.some.inj hfirst
    exact hchild
  simple := by
    refine List.nodup_append.2 ⟨h.simple, List.nodup_singleton _, ?_⟩
    rintro first hfirst second hsecond rfl
    exact hnew (List.mem_singleton.1 hsecond ▸ hfirst)

/-- The part of a path up to one of its classes, and the step behind it. -/
theorem front {last next : String} {stem rest : List String}
    (h : IsSimplePath related name (stem ++ last :: next :: rest)) :
    IsSimplePath related last (stem ++ [last]) ∧ related last next := by
  have hparts : stem ++ last :: next :: rest = (stem ++ [last]) ++ next :: rest := by simp
  have hlinked := h.linked
  have hsimple := h.simple
  have hstarts := h.starts
  rw [hparts] at hlinked hsimple
  obtain ⟨hfront, -, hstep⟩ := List.isChain_append.1 hlinked
  refine ⟨⟨?_, List.getLast?_concat, hfront, (List.nodup_append.1 hsimple).1⟩, ?_⟩
  · rw [List.head?_append] at hstarts ⊢
    exact hstarts
  · exact hstep last (by simp) next rfl

/-- A simple path to a class ends where it first comes to it. -/
theorem eq_of_begins {stem : List String} (h : IsSimplePath related name path)
    (hbegins : stem ++ [name] <+: path) : stem ++ [name] = path := by
  obtain ⟨rest, rfl⟩ := hbegins
  rcases List.eq_nil_or_concat' rest with rfl | ⟨others, last, rfl⟩
  · simp
  · have hends := h.ends
    rw [← List.append_assoc, List.getLast?_concat] at hends
    obtain rfl := Option.some.inj hends
    have hapart := (List.nodup_append.1 h.simple).2.2
    exact absurd rfl (hapart last (by simp) last (by simp))

theorem reachable (h : IsSimplePath related name path) :
    Relation.ReflTransGen related rootName name := by
  obtain ⟨rest, rfl⟩ := List.head?_eq_some_iff.1 h.starts
  apply List.relationReflTransGen_of_exists_isChain_cons rest h.linked
  exact (List.getLast_eq_iff_getLast?_eq_some _).2 h.ends

end IsSimplePath

/-- A sequence that begins inside a set and ends outside has a step out of it. -/
theorem exists_step_out {inside : String → Prop} {path : List String} {first last : String}
    (hstarts : path.head? = some first) (hends : path.getLast? = some last) (hfirst : inside first)
    (hlast : ¬inside last) :
    ∃ stem inner outer rest, path = stem ++ inner :: outer :: rest ∧ inside inner ∧
      ¬inside outer := by
  induction path generalizing first with
  | nil => cases hstarts
  | cons name rest ih =>
      obtain rfl := Option.some.inj hstarts
      cases rest with
      | nil =>
          obtain rfl := Option.some.inj hends
          exact absurd hfirst hlast
      | cons second others =>
          by_cases hsecond : inside second
          · rw [List.getLast?_cons_cons] at hends
            obtain ⟨stem, inner, outer, after, hpath, hstep⟩ := ih rfl hends hsecond
            exact ⟨name :: stem, inner, outer, after, by rw [hpath]; rfl, hstep⟩
          · exact ⟨[], name, second, others, rfl, hfirst, hsecond⟩

namespace ClassGraph

/-- A path to the last of its classes, which is held apart from the others. -/
structure Trail where
  stem : List String
  last : String

namespace Trail

def names (trail : Trail) : List String :=
  trail.stem ++ [trail.last]

/-- What the walk keeps of a path: the class it leads to and the number of classes on it. -/
def stamp (trail : Trail) : String × Nat :=
  (trail.last, trail.names.length)

def extend (trail : Trail) (child : String) : Trail :=
  ⟨trail.names, child⟩

/-- The path that has not left the root. -/
def root : Trail :=
  ⟨[], rootName⟩

theorem names_extend (trail : Trail) (child : String) :
    (trail.extend child).names = trail.names ++ [child] :=
  rfl

theorem stamp_extend (trail : Trail) (child : String) :
    (trail.extend child).stamp = (child, trail.stamp.2 + 1) := by
  simp [stamp, names, extend]

end Trail

/-- The step from a class to one of its children. -/
def Leads (graph : ClassGraph) (parent child : String) : Prop :=
  child ∈ graph.children parent

/-- The names of the classes that trails lead to. -/
def lasts (trails : List Trail) : List String :=
  trails.map Trail.last

/-- What holds of the paths to the visited classes and of those to the pending ones between two
turns of the walk. -/
structure Explored (graph : ClassGraph) (visited pending : List Trail) : Prop where
  distinct : (lasts visited).Nodup
  rooted : rootName ∈ lasts visited
  reached : ∀ trail ∈ visited, IsSimplePath graph.Leads trail.last trail.names
  within : ∀ trail ∈ visited, trail.names ⊆ lasts visited
  grown : ∀ trail ∈ pending, ∃ parent ∈ visited, graph.Leads parent.last trail.last ∧
    trail = parent.extend trail.last
  covered : ∀ parent ∈ visited, ∀ child, graph.Leads parent.last child →
    child ∈ lasts visited ∨ parent.extend child ∈ pending
  ascending : pending.Pairwise fun trail other => PartsBelow (· < ·) trail.names other.names
  least : ∀ trail ∈ visited, ∀ path, IsSimplePath graph.Leads trail.last path →
    trail.names = path ∨ PartsBelow (· < ·) trail.names path

namespace Explored

variable {graph : ClassGraph} {visited pending : List Trail} {trail : Trail}

theorem extend_ascending {children : List String} (h : children.Pairwise (· < ·)) (trail : Trail) :
    (children.map trail.extend).Pairwise fun first second =>
      PartsBelow (· < ·) first.names second.names := by
  refine List.pairwise_map.2 (h.imp ?_)
  intro first second hlt
  exact PartsBelow.of_last hlt trail.names

theorem initial (hsorted : (graph.children rootName).Pairwise (· < ·)) :
    Explored graph [Trail.root] ((graph.children rootName).map Trail.root.extend) where
  distinct := List.nodup_singleton _
  rooted := List.mem_singleton_self _
  reached := List.forall_mem_singleton.2 (IsSimplePath.root _)
  within := List.forall_mem_singleton.2 (List.Subset.refl _)
  grown := by
    intro trail htrail
    obtain ⟨child, hchild, rfl⟩ := List.mem_map.1 htrail
    exact ⟨Trail.root, List.mem_singleton_self _, hchild, rfl⟩
  covered := by
    intro parent hparent child hchild
    obtain rfl := List.mem_singleton.1 hparent
    exact Or.inr (List.mem_map_of_mem hchild)
  ascending := extend_ascending hsorted Trail.root
  least := List.forall_mem_singleton.2 fun _ hpath => Or.inl hpath.eq_root.symm

/-- A pending path to a class that has been visited is dropped. -/
theorem skip (h : Explored graph visited (trail :: pending)) (hknown : trail.last ∈ lasts visited) :
    Explored graph visited pending where
  distinct := h.distinct
  rooted := h.rooted
  reached := h.reached
  within := h.within
  grown := fun other hother => h.grown other (List.mem_cons_of_mem _ hother)
  covered := by
    intro parent hparent child hchild
    rcases h.covered parent hparent child hchild with hvisited | hpending
    · exact Or.inl hvisited
    · rcases List.mem_cons.1 hpending with rfl | hrest
      · exact Or.inl hknown
      · exact Or.inr hrest
  ascending := (List.pairwise_cons.1 h.ascending).2
  least := h.least

/-- A pending path to a new class is simple, since all of its other classes have been visited. -/
theorem reached_of_new (h : Explored graph visited (trail :: pending))
    (hnew : trail.last ∉ lasts visited) : IsSimplePath graph.Leads trail.last trail.names := by
  obtain ⟨parent, hparent, hleads, htrail⟩ := h.grown trail List.mem_cons_self
  have houtside : trail.last ∉ parent.names := fun hmem => hnew (h.within parent hparent hmem)
  rw [htrail, Trail.names_extend]
  exact (h.reached parent hparent).extend hleads houtside

/-- Where a simple path goes on from a visited class, the path found to this class, when it goes on
to the same child, is a beginning of it or comes before it. -/
theorem begins_or_below (h : Explored graph visited pending) (htrail : trail ∈ visited)
    {stem : List String} (hfront : IsSimplePath graph.Leads trail.last (stem ++ [trail.last]))
    (child : String) (rest : List String) :
    (trail.extend child).names <+: stem ++ trail.last :: child :: rest ∨
      PartsBelow (· < ·) (trail.extend child).names (stem ++ trail.last :: child :: rest) := by
  have hparts : stem ++ trail.last :: child :: rest =
      stem ++ [trail.last] ++ [child] ++ rest := by simp
  rw [hparts, Trail.names_extend]
  rcases h.least trail htrail _ hfront with hsame | hbelow
  · rw [hsame]
    exact Or.inl (List.prefix_append _ _)
  · rw [List.append_assoc (stem ++ [trail.last])]
    exact Or.inr (hbelow.append _ _)

/-- The first pending path comes before every other simple path to its class, if that is new: such a
path leaves the visited classes by an edge, at the end of a pending path that does not come
later. -/
theorem least_of_new (h : Explored graph visited (trail :: pending))
    (hnew : trail.last ∉ lasts visited) {path : List String}
    (hpath : IsSimplePath graph.Leads trail.last path) :
    trail.names = path ∨ PartsBelow (· < ·) trail.names path := by
  obtain ⟨stem, inner, outer, rest, rfl, hinner, houter⟩ :=
    exists_step_out hpath.starts hpath.ends h.rooted hnew
  obtain ⟨hfront, hleads⟩ := hpath.front
  obtain ⟨parent, hparent, rfl⟩ := List.mem_map.1 hinner
  have hpending : parent.extend outer ∈ trail :: pending :=
    (h.covered parent hparent outer hleads).resolve_left houter
  have hahead := h.begins_or_below hparent hfront outer rest
  rcases List.mem_cons.1 hpending with rfl | hlater
  · rcases hahead with hbegins | hbelow
    · exact Or.inl (hpath.eq_of_begins hbegins)
    · exact Or.inr hbelow
  · have hbefore : PartsBelow (· < ·) trail.names (parent.extend outer).names :=
      (List.pairwise_cons.1 h.ascending).1 _ hlater
    rcases hahead with ⟨after, hafter⟩ | hbelow
    · rw [← hafter, ← List.append_nil trail.names]
      exact Or.inr (hbefore.append _ _)
    · exact Or.inr (hbefore.trans String.lt_trans hbelow)

/-- A new class is visited, and its children are pending before all others. -/
theorem discover (hsorted : (graph.children trail.last).Pairwise (· < ·))
    (h : Explored graph visited (trail :: pending)) (hnew : trail.last ∉ lasts visited) :
    Explored graph (trail :: visited)
      ((graph.children trail.last).map trail.extend ++ pending) where
  distinct := List.nodup_cons.2 ⟨hnew, h.distinct⟩
  rooted := List.mem_cons_of_mem _ h.rooted
  reached := List.forall_mem_cons.2 ⟨h.reached_of_new hnew, h.reached⟩
  within := by
    refine List.forall_mem_cons.2 ⟨?_, fun other hother name hname =>
      List.mem_cons_of_mem _ (h.within other hother hname)⟩
    obtain ⟨parent, hparent, -, htrail⟩ := h.grown trail List.mem_cons_self
    intro name hname
    rw [htrail, Trail.names_extend] at hname
    rcases List.mem_append.1 hname with hstem | hlast
    · exact List.mem_cons_of_mem _ (h.within parent hparent hstem)
    · rw [List.mem_singleton.1 hlast]
      exact List.mem_cons_self
  grown := by
    intro other hother
    rcases List.mem_append.1 hother with hchild | hpending
    · obtain ⟨child, hleads, rfl⟩ := List.mem_map.1 hchild
      exact ⟨trail, List.mem_cons_self, hleads, rfl⟩
    · obtain ⟨parent, hparent, hgrown⟩ := h.grown other (List.mem_cons_of_mem _ hpending)
      exact ⟨parent, List.mem_cons_of_mem _ hparent, hgrown⟩
  covered := by
    intro parent hparent child hchild
    rcases List.mem_cons.1 hparent with rfl | hvisited
    · exact Or.inr (List.mem_append_left _ (List.mem_map_of_mem hchild))
    · rcases h.covered parent hvisited child hchild with hknown | hpending
      · exact Or.inl (List.mem_cons_of_mem _ hknown)
      · rcases List.mem_cons.1 hpending with rfl | hrest
        · exact Or.inl List.mem_cons_self
        · exact Or.inr (List.mem_append_right _ hrest)
  ascending := by
    obtain ⟨hfirst, hrest⟩ := List.pairwise_cons.1 h.ascending
    refine List.pairwise_append.2 ⟨extend_ascending hsorted trail, hrest, ?_⟩
    intro extended hextended other hother
    obtain ⟨child, -, rfl⟩ := List.mem_map.1 hextended
    rw [Trail.names_extend, ← List.append_nil other.names]
    exact (hfirst other hother).append _ _
  least := List.forall_mem_cons.2 ⟨fun _ => h.least_of_new hnew, h.least⟩

/-- Once nothing is pending, every class below the root has been visited. -/
theorem mem_lasts_of_reachable (h : Explored graph visited []) {name : String}
    (hreachable : Relation.ReflTransGen graph.Leads rootName name) : name ∈ lasts visited := by
  induction hreachable with
  | refl => exact h.rooted
  | tail _ hleads ih =>
      obtain ⟨parent, hparent, rfl⟩ := List.mem_map.1 ih
      rcases h.covered parent hparent _ hleads with hvisited | hpending
      · exact hvisited
      · cases hpending

end Explored

section Stamps

/-- The walk has, of these paths, what it keeps of a path. The path that stays at the root is not
recorded. -/
structure Keeps (walk : Walk) (visited pending : List Trail) : Prop where
  found : walk.found ++ [Trail.root.stamp] = visited.map Trail.stamp
  pending : walk.pending = pending.map Trail.stamp

variable {graph : ClassGraph} {walk : Walk} {visited pending : List Trail}

theorem Keeps.lasts_eq (h : Keeps walk visited pending) :
    lasts visited = walk.found.map Prod.fst ++ [rootName] := by
  have hnames := congrArg (List.map Prod.fst) h.found
  rw [List.map_append, List.map_map] at hnames
  exact hnames.symm

theorem Keeps.known_iff (h : Keeps walk visited pending) (name : String) :
    name = rootName ∨ name ∈ walk.found.map Prod.fst ↔ name ∈ lasts visited := by
  rw [h.lasts_eq, List.mem_append, List.mem_singleton, or_comm]

theorem keeps_start (graph : ClassGraph) :
    Keeps (.start graph) [Trail.root] ((graph.children rootName).map Trail.root.extend) := by
  refine ⟨rfl, ?_⟩
  rw [Walk.start, List.map_map]
  rfl

/-- A turn of the walk is a turn on the paths behind it. -/
theorem Keeps.turn (hsorted : ∀ name, (graph.children name).Pairwise (· < ·))
    (hkeeps : Keeps walk visited pending) (h : Explored graph visited pending) :
    ∃ visited' pending', Keeps (walk.turn graph) visited' pending' ∧
      Explored graph visited' pending' := by
  cases pending with
  | nil =>
      have hnil : walk.pending = [] := hkeeps.pending
      rw [Walk.turn_of_nil hnil]
      exact ⟨visited, [], hkeeps, h⟩
  | cons trail rest =>
      have hpending : walk.pending = (trail.last, trail.names.length) :: rest.map Trail.stamp :=
        hkeeps.pending
      have hknown := hkeeps.known_iff trail.last
      by_cases hvisited : trail.last ∈ lasts visited
      · rw [Walk.turn_of_known hpending (hknown.2 hvisited)]
        exact ⟨visited, rest, ⟨hkeeps.found, rfl⟩, h.skip hvisited⟩
      · rw [Walk.turn_of_new hpending fun hold => hvisited (hknown.1 hold)]
        refine ⟨trail :: visited, _, ⟨?_, ?_⟩, h.discover (hsorted trail.last) hvisited⟩
        · exact congrArg (trail.stamp :: ·) hkeeps.found
        · rw [List.map_append, List.map_map]
          exact congrArg (· ++ rest.map Trail.stamp)
            (List.map_congr_left fun child _ => (trail.stamp_extend child).symm)

theorem keeps_turns (hsorted : ∀ name, (graph.children name).Pairwise (· < ·)) (count : Nat) :
    ∃ visited pending, Keeps ((Walk.turn graph)^[count] (.start graph)) visited pending ∧
      Explored graph visited pending := by
  induction count with
  | zero => exact ⟨_, _, keeps_start graph, .initial (hsorted rootName)⟩
  | succ count ih =>
      obtain ⟨visited, pending, hkeeps, hexplored⟩ := ih
      rw [Function.iterate_succ_apply']
      exact hkeeps.turn hsorted hexplored

/-- Behind the classes that a whole walk finds stand the paths to all of them. -/
theorem keeps_ended (hsorted : ∀ name, (graph.children name).Pairwise (· < ·)) :
    ∃ visited, Keeps (.ended graph) visited [] ∧ Explored graph visited [] := by
  obtain ⟨visited, pending, hkeeps, hexplored⟩ := keeps_turns hsorted graph.edgeCount
  have hnil : pending.map Trail.stamp = [] := by
    rw [← hkeeps.pending]
    exact Walk.pending_ended graph
  obtain rfl := List.map_eq_nil_iff.1 hnil
  exact ⟨visited, hkeeps, hexplored⟩

end Stamps

section Records

variable {graph : ClassGraph}

/-- What has been found is what is kept of the paths that lead away from the root. -/
theorem Keeps.mem_found_iff {walk : Walk} {visited pending : List Trail} {record : String × Nat}
    (h : Keeps walk visited pending) (hdistinct : (lasts visited).Nodup) :
    record ∈ walk.found ↔ record.1 ≠ rootName ∧ record ∈ visited.map Trail.stamp := by
  rw [← h.found, List.mem_append, List.mem_singleton]
  constructor
  · intro hfound
    rw [h.lasts_eq, List.nodup_append] at hdistinct
    have hother : record.1 ≠ rootName :=
      hdistinct.2.2 _ (List.mem_map_of_mem hfound) _ (List.mem_singleton_self _)
    exact ⟨hother, Or.inl hfound⟩
  · rintro ⟨hother, hfound | rfl⟩
    · exact hfound
    · exact absurd rfl hother

/-- No class is found twice. -/
theorem found_nodup (hsorted : ∀ name, (graph.children name).Pairwise (· < ·)) :
    ((Walk.ended graph).found.map Prod.fst).Nodup := by
  obtain ⟨visited, hkeeps, hexplored⟩ := keeps_ended hsorted
  have hdistinct := hexplored.distinct
  rw [hkeeps.lasts_eq] at hdistinct
  exact (List.nodup_append.1 hdistinct).1

/-- All that has been found is recorded. -/
theorem depths_perm_found (hsorted : ∀ name, (graph.children name).Pairwise (· < ·)) :
    graph.depths.toList.Perm (Walk.ended graph).found := by
  rw [depths, ← Walk.found_ended]
  exact Ordered.ofList_perm (found_nodup hsorted)

theorem mem_keys_depths_iff (hsorted : ∀ name, (graph.children name).Pairwise (· < ·))
    {name : String} : name ∈ graph.depths.keys ↔
      name ≠ rootName ∧ Relation.ReflTransGen graph.Leads rootName name := by
  obtain ⟨visited, hkeeps, hexplored⟩ := keeps_ended hsorted
  rw [Ordered.keys, List.mem_map]
  constructor
  · rintro ⟨record, hrecord, rfl⟩
    have hfound := (depths_perm_found hsorted).mem_iff.1 hrecord
    obtain ⟨hother, hvisited⟩ := (hkeeps.mem_found_iff hexplored.distinct).1 hfound
    obtain ⟨trail, htrail, rfl⟩ := List.mem_map.1 hvisited
    exact ⟨hother, (hexplored.reached trail htrail).reachable⟩
  · rintro ⟨hother, hreachable⟩
    obtain ⟨trail, htrail, rfl⟩ := List.mem_map.1 (hexplored.mem_lasts_of_reachable hreachable)
    have hfound : trail.stamp ∈ (Walk.ended graph).found :=
      (hkeeps.mem_found_iff hexplored.distinct).2 ⟨hother, List.mem_map_of_mem htrail⟩
    exact ⟨trail.stamp, (depths_perm_found hsorted).mem_iff.2 hfound, rfl⟩

/-- A recorded depth is the length of a simple path that comes before all others. -/
theorem exists_path_of_recorded (hsorted : ∀ name, (graph.children name).Pairwise (· < ·))
    {name : String} {depth : Nat} (h : (name, depth) ∈ graph.depths.toList) :
    ∃ path, IsSimplePath graph.Leads name path ∧ path.length = depth ∧
      ∀ other, IsSimplePath graph.Leads name other →
        path = other ∨ PartsBelow (· < ·) path other := by
  obtain ⟨visited, hkeeps, hexplored⟩ := keeps_ended hsorted
  have hfound := (depths_perm_found hsorted).mem_iff.1 h
  obtain ⟨-, hvisited⟩ := (hkeeps.mem_found_iff hexplored.distinct).1 hfound
  obtain ⟨trail, htrail, hstamp⟩ := List.mem_map.1 hvisited
  obtain ⟨rfl, rfl⟩ := Prod.mk.inj hstamp
  exact ⟨trail.names, hexplored.reached trail htrail, rfl, hexplored.least trail htrail⟩

end Records

theorem leads_ofTable (table : ClassTable) : (ofTable table).Leads = table.IsChild := by
  funext parent child
  exact propext mem_children_ofTable

end ClassGraph

namespace ClassTable

/-- A simple path from the root to a class that comes before all others, where paths are compared
as sequences of names and names by the bytes of their UTF-8 forms. -/
def IsLeastPath (table : ClassTable) (name : String) (path : List String) : Prop :=
  IsSimplePath table.IsChild name path ∧
    ∀ other, IsSimplePath table.IsChild name other → other ≠ path →
      path.map Utf8.encode < other.map Utf8.encode

variable {table : ClassTable} {name : String} {path : List String}

theorem IsLeastPath.eq {other : List String} (h : table.IsLeastPath name path)
    (hother : table.IsLeastPath name other) : path = other := by
  by_contra hne
  exact List.lt_asymm (h.2 other hother.1 (Ne.symm hne)) (hother.2 path h.1 hne)

theorem subset_names_of_isChain {first : String} {rest : List String}
    (h : (first :: rest).IsChain table.IsChild) : rest ⊆ table.names := by
  induction rest generalizing first with
  | nil => exact List.nil_subset _
  | cons second others ih =>
      obtain ⟨hstep, hothers⟩ := List.isChain_cons_cons.1 h
      exact List.cons_subset.2 ⟨hstep.child_mem_names, ih hothers⟩

/-- The classes of a simple path are classes of the table, and no two of them are the same. -/
theorem length_le_size (h : IsSimplePath table.IsChild name path) : path.length ≤ table.size := by
  obtain ⟨rest, rfl⟩ := List.head?_eq_some_iff.1 h.starts
  have hroot : rootName ∈ table.names := contains_iff.1 table.contains_root
  have hnames : rootName :: rest ⊆ table.names :=
    List.cons_subset.2 ⟨hroot, subset_names_of_isChain h.linked⟩
  have hlength := (h.simple.subperm hnames).length_le
  rwa [names, Ordered.keys, List.length_map] at hlength

theorem mem_keys_iff :
    name ∈ (ClassGraph.ofTable table).depths.keys ↔
      name ≠ rootName ∧ Relation.ReflTransGen table.IsChild rootName name := by
  rw [← ClassGraph.leads_ofTable]
  exact ClassGraph.mem_keys_depths_iff (ClassGraph.children_ascending table)

theorem exists_leastPath_of_recorded {depth : Nat}
    (h : (name, depth) ∈ (ClassGraph.ofTable table).depths.toList) :
    ∃ path, table.IsLeastPath name path ∧ path.length = depth := by
  obtain ⟨path, hpath, hlength, hleast⟩ :=
    ClassGraph.exists_path_of_recorded (ClassGraph.children_ascending table) h
  rw [ClassGraph.leads_ofTable] at hpath hleast
  refine ⟨path, ⟨hpath, ?_⟩, hlength⟩
  intro other hother hne
  have hbelow := (hleast other hother).resolve_left (Ne.symm hne)
  exact hbelow.encoded_lt

/-- The depth of a class is recorded as the number of classes on the least simple path from the root
to it, which is no more than the table has. -/
theorem recorded_depth_iff_leastPath (table : ClassTable) (name : String) (depth : Nat) :
    (ClassGraph.ofTable table).depths.find? name = some (name, depth) ↔
      name ≠ rootName ∧ ∃ path, table.IsLeastPath name path ∧ path.length = depth ∧
        depth ≤ table.size := by
  constructor
  · intro hfound
    have hrecord := (Ordered.find?_eq_some_iff.1 hfound).1
    have hother : name ≠ rootName := (mem_keys_iff.1 (List.mem_map_of_mem hrecord)).1
    obtain ⟨path, hpath, rfl⟩ := exists_leastPath_of_recorded hrecord
    exact ⟨hother, path, hpath, rfl, length_le_size hpath.1⟩
  · rintro ⟨hother, path, hpath, rfl, -⟩
    have hkey : name ∈ (ClassGraph.ofTable table).depths.keys :=
      mem_keys_iff.2 ⟨hother, hpath.1.reachable⟩
    obtain ⟨⟨name, depth⟩, hrecord, rfl⟩ := List.mem_map.1 hkey
    obtain ⟨found, hfound, rfl⟩ := exists_leastPath_of_recorded hrecord
    rw [hpath.eq hfound]
    exact Ordered.find?_eq_some_iff.2 ⟨hrecord, rfl⟩

/-- Only classes of the table are recorded. -/
theorem depths_size_le (table : ClassTable) :
    (ClassGraph.ofTable table).depths.size ≤ table.size := by
  have hkeys : (ClassGraph.ofTable table).depths.keys ⊆ table.names := by
    intro name hname
    obtain ⟨hother, hreachable⟩ := mem_keys_iff.1 hname
    rcases hreachable.cases_tail with hroot | ⟨parent, -, hchild⟩
    · exact absurd hroot hother
    · exact hchild.child_mem_names
  have hlength := ((Ordered.keys_nodup _).subperm hkeys).length_le
  rwa [names, Ordered.keys, Ordered.keys, List.length_map, List.length_map] at hlength

/-- The walk ends within as many turns as the graph has edges, and what it has found is recorded,
each class once. These are the classes other than the root to which a chain of classes leads from
the root, each naming the one before as its superclass or as an interface. -/
theorem walk_records_reachable (table : ClassTable) :
    let graph := ClassGraph.ofTable table
    let walk := (ClassGraph.Walk.turn graph)^[graph.edgeCount] (.start graph)
    walk.pending = [] ∧
      walk.found = graph.explore [] ((graph.children rootName).map fun child => (child, 2)) ∧
      (walk.found.map Prod.fst).Nodup ∧ graph.depths.toList.Perm walk.found ∧
      ∀ name, name ∈ graph.depths.keys ↔
        name ≠ rootName ∧ Relation.TransGen table.NamesParent rootName name := by
  intro graph walk
  have hsorted := ClassGraph.children_ascending table
  refine ⟨ClassGraph.Walk.pending_ended graph, ClassGraph.Walk.found_ended graph,
    ClassGraph.found_nodup hsorted, ClassGraph.depths_perm_found hsorted, ?_⟩
  intro name
  rw [mem_keys_iff]
  exact and_congr_right reachable_iff

end ClassTable

end ClassMetrics
