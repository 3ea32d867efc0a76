import Mathlib
import ClassMetrics.Files.FileSystem

/-!
What a written file leaves behind. The path to it is walked through directories and links, none of
which the writing changes, so that the same path leads to the file afterwards. Main statement: what
a file has taken is found under its path, and all other places are as they were; a path that cannot
be opened, and one that leads to a device, leave all places as they were.
-/

namespace ClassMetrics.FileSystem

section Places

theorem lookup_filter_ne {nodes : List (Location × FileNode)} {place other : Location}
    (h : other ≠ place) :
    (nodes.filter fun entry => entry.1 ≠ place).lookup other = nodes.lookup other := by
  induction nodes with
  | nil => rfl
  | cons entry rest ih =>
      by_cases hentry : entry.1 = place
      · have hskip : (other == entry.1) = false := by simpa [hentry] using h
        rw [List.filter_cons_of_neg (by simpa using hentry), ih, List.lookup_cons, hskip]
      · rw [List.filter_cons_of_pos (by simpa using hentry), List.lookup_cons, List.lookup_cons, ih]

/-- The working directory is a directory, and so is what leads to it. -/
theorem find?_of_prefix {files : FileSystem} {place : Location}
    (h : place <+: files.workingDirectory) : files.find? place = some .directory :=
  if_pos (List.isPrefixOf_iff_prefix.2 h)

theorem not_prefix_of_free {files : FileSystem} {place : Location}
    (hfree : files.find? place ≠ some .directory) : ¬ place <+: files.workingDirectory :=
  mt find?_of_prefix hfree

/-- A node is found at the place where it was put, and all others where they were. -/
theorem find?_put {files : FileSystem} {place : Location}
    (hfree : files.find? place ≠ some .directory) (node : FileNode) (other : Location) :
    (files.put place node).find? other =
      if other = place then some node else files.find? other := by
  have hplace := not_prefix_of_free hfree
  by_cases hsame : other = place
  · subst hsame
    have hlisted : ¬ other.isPrefixOf files.workingDirectory = true :=
      mt List.isPrefixOf_iff_prefix.1 hplace
    rw [if_pos rfl, find?, put, if_neg hlisted, List.lookup_cons_self]
  · rw [if_neg hsame, find?, find?]
    split
    · rw [if_pos ‹_›]
    · rw [if_neg ‹_›, put, List.lookup_cons, beq_eq_false_iff_ne.2 hsame]
      exact lookup_filter_ne hsame

end Places

section Walking

variable {files : FileSystem} {links left : Nat} {place found : Location} {names : List String}

/-- There are directories at a place and above it. -/
def InDirectories (files : FileSystem) (place : Location) : Prop :=
  ∀ above, above <+: place → files.find? above = some .directory

theorem inDirectories_workingDirectory (files : FileSystem) :
    files.InDirectories files.workingDirectory :=
  fun _ habove => find?_of_prefix habove

theorem InDirectories.origin (h : files.InDirectories place) (path : String) :
    files.InDirectories (origin place path) := by
  unfold FileSystem.origin
  split
  · exact fun above habove => h above (habove.trans (List.nil_prefix))
  · exact h

theorem InDirectories.dropLast (h : files.InDirectories place) :
    files.InDirectories place.dropLast :=
  fun above habove => h above (habove.trans place.dropLast_prefix)

theorem InDirectories.concat {name : String} (h : files.InDirectories place)
    (hfound : files.find? (place ++ [name]) = some .directory) :
    files.InDirectories (place ++ [name]) := by
  intro above habove
  rcases List.prefix_concat_iff.1 habove with rfl | hbefore
  · exact hfound
  · exact h above hbefore

theorem last_of_cons {name : String}
    (h : name :: names = [] ∨ (name :: names).getLast? = some ".") :
    names = [] ∨ names.getLast? = some "." := by
  cases names with
  | nil => exact Or.inl rfl
  | cons next rest => simpa [List.getLast?_cons_cons] using h

section Steps

variable {name : String} (hname : name ≠ "") (hdot : name ≠ ".") (hup : name ≠ "..")
  (hsearch : files.refusal? .search place = none)

include hname hdot hup hsearch

theorem walk_into (hfound : files.find? (place ++ [name]) = some .directory) :
    files.walk links place (name :: names) = files.walk links (place ++ [name]) names := by
  rw [walk, if_neg hname]
  simp only [hsearch, if_neg hdot, if_neg hup, hfound]

theorem walk_follow {target : String}
    (hfound : files.find? (place ++ [name]) = some (.link target)) :
    files.walk (links + 1) place (name :: names) =
      files.walk links (origin place target) (components target ++ names) := by
  rw [walk, if_neg hname]
  simp only [hsearch, if_neg hdot, if_neg hup, hfound]

theorem walk_last (hfound : files.find? (place ++ [name]) = none ∨
      ∃ content, files.find? (place ++ [name]) = some (.file content)) :
    files.walk links place [name] = .ok (place ++ [name], links) := by
  rw [walk, if_neg hname]
  rcases hfound with hnone | ⟨content, hfile⟩
  · simp only [hsearch, if_neg hdot, if_neg hup, hnone, if_true]
  · simp only [hsearch, if_neg hdot, if_neg hup, hfile, if_true]

end Steps

/-- A walk does not end at a link, and behind a dot it ends in a directory. -/
theorem walk_ends (hplace : files.InDirectories place)
    (h : files.walk links place names = .ok (found, left)) :
    (∀ target, files.find? found ≠ some (.link target)) ∧
      (names = [] ∨ names.getLast? = some "." → files.find? found = some .directory) := by
  fun_induction walk files links place names with
  | case1 links place =>
      obtain ⟨rfl, rfl⟩ := Prod.mk.inj (Except.ok.inj h)
      have hdirectory := hplace place List.prefix_rfl
      exact ⟨by simp [hdirectory], fun _ => hdirectory⟩
  | case2 links place names ih =>
      obtain ⟨hlink, hdot⟩ := ih hplace h
      exact ⟨hlink, fun hlast => hdot (last_of_cons hlast)⟩
  | case4 links place names _ _ ih =>
      obtain ⟨hlink, hdot⟩ := ih hplace h
      exact ⟨hlink, fun hlast => hdot (last_of_cons hlast)⟩
  | case5 links place names _ _ _ ih =>
      obtain ⟨hlink, hdot⟩ := ih hplace.dropLast h
      exact ⟨hlink, fun hlast => hdot (last_of_cons hlast)⟩
  | case6 links place name _ _ hdot _ hmissing =>
      obtain ⟨rfl, rfl⟩ := Prod.mk.inj (Except.ok.inj h)
      exact ⟨by simp [hmissing], fun hlast => absurd (by simpa using hlast) hdot⟩
  | case8 links place name names _ _ _ _ hdirectory ih =>
      obtain ⟨hlink, hdot⟩ := ih (hplace.concat hdirectory) h
      exact ⟨hlink, fun hlast => hdot (last_of_cons hlast)⟩
  | case10 place name names _ _ hname _ target _ links ih =>
      obtain ⟨hother, hdot⟩ := ih (hplace.origin target) h
      refine ⟨hother, fun hlast => hdot (Or.inr ?_)⟩
      -- A link is no dot, so that the dot stands behind it.
      rcases last_of_cons hlast with rfl | hrest
      · exact absurd (by simpa using hlast) hname
      · rw [List.getLast?_append, hrest, Option.some_or]
  | case11 links place name _ _ hdot _ node _ hlink hfound =>
      obtain ⟨rfl, rfl⟩ := Prod.mk.inj (Except.ok.inj h)
      refine ⟨fun target htarget => ?_, fun hlast => absurd (by simpa using hlast) hdot⟩
      exact hlink target (Option.some.inj (hfound.symm.trans htarget))
  | case3 => cases h
  | case7 => cases h
  | case9 => cases h
  | case12 => cases h

/-- A walk to a file, or to where none is yet, takes the same way when the file has been put there:
the directories and links on the way are other places. -/
theorem walk_put (content : Bytes) (h : files.walk links place names = .ok (found, left))
    (hfree : files.find? found = none ∨ ∃ old, files.find? found = some (.file old)) :
    (files.put found (.file content)).walk links place names = .ok (found, left) := by
  have hplace : files.find? found ≠ some .directory := by
    rcases hfree with hnone | ⟨old, hold⟩
    · simp [hnone]
    · simp [hold]
  have hput := find?_put hplace (.file content)
  have hpassed : ∀ {other node}, files.find? other = some node → (∀ old, node ≠ .file old) →
      (files.put found (.file content)).find? other = some node := by
    intro other node hother hnode
    rw [hput, if_neg, hother]
    rintro rfl
    rcases hfree with hnone | ⟨old, hold⟩
    · simp [hnone] at hother
    · exact hnode old (Option.some.inj (hother.symm.trans hold))
  have hkept : ∀ {place}, files.refusal? .search place = none →
      (files.put found (.file content)).refusal? .search place = none := fun hsearch => hsearch
  fun_induction walk files links place names with
  | case1 links place => rw [walk, h]
  | case2 links place names ih =>
      rw [walk, if_pos rfl]
      exact ih h
  | case4 links place names hsearch hname ih =>
      rw [walk, if_neg hname]
      simp only [put, hsearch, if_true]
      exact ih h
  | case5 links place names hsearch hname hdot ih =>
      rw [walk, if_neg hname]
      simp only [put, hsearch, if_neg hdot, if_true]
      exact ih h
  | case8 links place name names hname hsearch hdot hup hdirectory ih =>
      rw [walk_into hname hdot hup (hkept hsearch) (hpassed hdirectory (by simp))]
      exact ih h
  | case10 place name names hname hsearch hdot hup target hlink links ih =>
      rw [walk_follow hname hdot hup (hkept hsearch) (hpassed hlink (by simp))]
      exact ih h
  | case6 links place name hname hsearch hdot hup hmissing =>
      obtain ⟨rfl, rfl⟩ := Prod.mk.inj (Except.ok.inj h)
      exact walk_last hname hdot hup (hkept hsearch) (.inr ⟨content, by rw [hput, if_pos rfl]⟩)
  | case11 links place name hname hsearch hdot hup node hdirectory hlink hfound =>
      obtain ⟨rfl, rfl⟩ := Prod.mk.inj (Except.ok.inj h)
      exact walk_last hname hdot hup (hkept hsearch) (.inr ⟨content, by rw [hput, if_pos rfl]⟩)
  | case3 => cases h
  | case7 => cases h
  | case9 => cases h
  | case12 => cases h

end Walking

section Writing

variable {files : FileSystem} {path : String} {place : Location} {content : Bytes}

/-- A path names the file at a place, which may be still to come: it has no trailing slash, it leads
through directories to where no directory is, and the file may be opened for writing. -/
structure NamesFile (files : FileSystem) (path : String) (place : Location) : Prop where
  nonempty : path.isEmpty = false
  closed : (components path).getLast? ≠ some ""
  walked : ∃ left,
    files.walk maxLinks (origin files.workingDirectory path) (components path) = .ok (place, left)
  free : files.find? place ≠ some .directory
  allowed : files.refusal? .write place = none

def IsDevice (files : FileSystem) (place : Location) : Prop :=
  ∃ stream? content, files.find? place = some (.device stream? content)

theorem trimmed_eq_iff {names : List String} :
    names = (names.reverse.dropWhile (· = "")).reverse ↔ names.getLast? ≠ some "" := by
  rw [← List.reverse_inj, List.reverse_reverse, ← List.head?_reverse]
  cases names.reverse with
  | nil => simp
  | cons last rest =>
      by_cases hlast : last = ""
      · have hshort : (rest.dropWhile fun name => decide (name = "")).length ≤ rest.length :=
          (List.dropWhile_suffix _).length_le
        simp only [hlast, decide_true, List.dropWhile_cons_of_pos, List.head?_cons, ne_eq,
          not_true_eq_false, iff_false]
        intro hsame
        have := congrArg List.length hsame
        simp only [List.length_cons] at this
        omega
      · simp [hlast]

namespace NamesFile

variable (h : files.NamesFile path place)

include h

theorem ends {left : Nat} (hwalk : files.walk maxLinks (origin files.workingDirectory path)
    (components path) = .ok (place, left)) :
    (∀ target, files.find? place ≠ some (.link target)) ∧
      (components path).getLast? ≠ some "." := by
  have hstart := (inDirectories_workingDirectory files).origin path
  obtain ⟨hlink, hdirectory⟩ := walk_ends hstart hwalk
  exact ⟨hlink, fun hdot => h.free (hdirectory (.inr hdot))⟩

theorem last_ne_dot : (components path).getLast? ≠ some "." := by
  obtain ⟨left, hwalk⟩ := h.walked
  exact (h.ends hwalk).2

/-- What is not a device is a file, or still to come. -/
theorem free_or_file (hdevice : ¬ files.IsDevice place) :
    files.find? place = none ∨ ∃ old, files.find? place = some (.file old) := by
  obtain ⟨left, hwalk⟩ := h.walked
  cases hnode : files.find? place with
  | none => exact Or.inl rfl
  | some node =>
      cases node with
      | file old => exact Or.inr ⟨old, rfl⟩
      | directory => exact absurd hnode h.free
      | link target => exact absurd hnode ((h.ends hwalk).1 target)
      | device stream? old => exact absurd ⟨stream?, old, hnode⟩ hdevice

end NamesFile

/-- The paths that can be opened for writing are those that name a file. -/
theorem openForWriting_eq_ok_iff :
    files.openForWriting path = .ok place ↔ files.NamesFile path place := by
  simp only [openForWriting, bind, Except.bind, pure, Except.pure, throw, throwThe,
    MonadExceptOf.throw]
  constructor
  · intro h
    split at h
    · cases h
    · next hempty =>
        split at h
        · cases h
        · next reached hwalk =>
            split at h
            · cases h
            · cases h
            · cases h
            · next htrimmed hfree =>
                have htrimmed := of_decide_eq_true htrimmed
                rw [← htrimmed] at hwalk
                split at h
                · cases h
                · next hallowed =>
                    obtain rfl := Except.ok.inj h
                    exact ⟨by simpa using hempty, trimmed_eq_iff.1 htrimmed, ⟨reached.2, hwalk⟩,
                      hfree, hallowed⟩
  · intro h
    obtain ⟨left, hwalk⟩ := h.walked
    have htrimmed := trimmed_eq_iff.2 h.closed
    simp only [← htrimmed, h.nonempty, hwalk, h.allowed, Bool.false_eq_true, if_false, decide_true]
    split
    · exact absurd ‹_› h.free
    · cases ‹true = false›
    · cases ‹true = false›
    · rfl

theorem write_of_unnamed (h : ∀ place, ¬ files.NamesFile path place) :
    ∃ fault, files.write path content = ⟨.error fault, files, none⟩ := by
  cases hopen : files.openForWriting path with
  | error fault => exact ⟨fault, by rw [write, hopen]⟩
  | ok place => exact absurd (openForWriting_eq_ok_iff.1 hopen) (h place)

/-- What is written to a device changes no file. -/
theorem NamesFile.write_device (h : files.NamesFile path place) {stream? : Option Stream}
    {old : Bytes} (hdevice : files.find? place = some (.device stream? old)) (content : Bytes) :
    (files.write path content).files = files ∧
      (files.write path content).streamed? = stream?.map (·, files.taken place content) := by
  rw [write, openForWriting_eq_ok_iff.2 h]
  simp only [hdevice, and_self]

theorem NamesFile.write_file (h : files.NamesFile path place) (hdevice : ¬ files.IsDevice place)
    (content : Bytes) :
    (files.write path content).files = files.put place (.file (files.taken place content)) ∧
      (files.write path content).streamed? = none := by
  rw [write, openForWriting_eq_ok_iff.2 h]
  rcases h.free_or_file hdevice with hnone | ⟨old, hold⟩
  · simp only [hnone, and_self]
  · simp only [hold, and_self]

/-- A content is stored at a place, to which a path leads, and all other places are as before. -/
structure Stored (before after : FileSystem) (path : String) (place : Location) (content : Bytes) :
    Prop where
  named : after.NamesFile path place
  found : after.find? place = some (.file content)
  elsewhere : ∀ other, other ≠ place → after.find? other = before.find? other

theorem NamesFile.stored_put (h : files.NamesFile path place) (hdevice : ¬ files.IsDevice place)
    (content : Bytes) : files.Stored (files.put place (.file content)) path place content := by
  have hput := find?_put h.free (.file content)
  have hfound : (files.put place (.file content)).find? place = some (.file content) := by
    rw [hput, if_pos rfl]
  obtain ⟨left, hwalk⟩ := h.walked
  constructor
  case named =>
    exact ⟨h.nonempty, h.closed, ⟨left, walk_put content hwalk (h.free_or_file hdevice)⟩,
      by simp [hfound], h.allowed⟩
  case found => exact hfound
  case elsewhere =>
    intro other hother
    rw [hput, if_neg hother]

end Writing

end ClassMetrics.FileSystem
