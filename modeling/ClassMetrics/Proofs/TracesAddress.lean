import Mathlib
import ClassMetrics.Proofs.UrlReading
import ClassMetrics.Endpoint.Traces

/-!
The address for traces. It is made from the address of a collector, or from the one for its logs, by
a change of the path alone, and what it is made into stays as it is when it is made again.

Main statement: with any library that reads back what it writes, and that reads a path anew when it
sets one, the address for traces is read back, is its own address for traces, and differs from the
address it is made from in the end of the path at most. The library of this project is such a one.
-/

namespace ClassMetrics.Endpoint

/-! ## Paths for traces -/

/-- The path is that of a collector, or ends in that of its logs. -/
def LeadsToTraces (path : List Char) : Prop :=
  path = "/".toList ∨ "/v1/logs".toList <:+ path

/-- How a path for traces comes from another path: the root is completed, the end for logs is
replaced, and any other path is kept. -/
structure TracesOf (path traces : List Char) : Prop where
  root : path = "/".toList → traces = "/v1/traces".toList
  logs : ∀ front, path = front ++ "/v1/logs".toList → traces = front ++ "/v1/traces".toList
  other : ¬ LeadsToTraces path → traces = path

section

variable {path traces : List Char}

theorem isSuffixOf?_eq_some_iff {last front : List Char} :
    last.isSuffixOf? path = some front ↔ path = front ++ last := by
  simp only [List.isSuffixOf?, Option.map_eq_some_iff, List.isPrefixOf?_eq_some_iff_append_eq]
  constructor
  · rintro ⟨reversed, happend, rfl⟩
    rw [← List.reverse_reverse path, ← happend, List.reverse_append, List.reverse_reverse]
  · rintro rfl
    exact ⟨front.reverse, by simp, by simp⟩

theorem append_ne_of_length_lt {front last : List Char} (hlength : path.length < last.length) :
    front ++ last ≠ path := by
  rintro rfl
  rw [List.length_append] at hlength
  omega

theorem tracesPath?_append_logsPath (front : List Char) :
    tracesPath? (front ++ logsPath) = some (front ++ tracesPath) := by
  have hroot : front ++ logsPath ≠ rootPath := append_ne_of_length_lt (by decide)
  rw [tracesPath?, if_neg hroot, isSuffixOf?_eq_some_iff.2 rfl, Option.map_some]

theorem tracesPath?_eq_none_iff : tracesPath? path = none ↔ ¬ LeadsToTraces path := by
  rw [LeadsToTraces, not_or, tracesPath?]
  by_cases hroot : path = rootPath
  · simp [hroot, rootPath]
  · rw [if_neg hroot, Option.map_eq_none_iff, Option.eq_none_iff_forall_ne_some]
    simp only [ne_eq, isSuffixOf?_eq_some_iff]
    constructor
    · rintro hlogs
      exact ⟨hroot, fun ⟨front, hfront⟩ => hlogs front hfront.symm⟩
    · rintro ⟨-, hlogs⟩ front hfront
      exact hlogs ⟨front, hfront.symm⟩

theorem tracesPath?_cases (h : tracesPath? path = some traces) :
    (path = rootPath ∧ traces = tracesPath) ∨
      ∃ front, path = front ++ logsPath ∧ traces = front ++ tracesPath := by
  rw [tracesPath?] at h
  split at h
  case isTrue hroot => exact .inl ⟨hroot, (Option.some.inj h).symm⟩
  case isFalse =>
      obtain ⟨front, hfront, rfl⟩ := Option.map_eq_some_iff.1 h
      exact .inr ⟨front, isSuffixOf?_eq_some_iff.1 hfront, rfl⟩

theorem not_leadsToTraces_append_tracesPath (front : List Char) :
    ¬ LeadsToTraces (front ++ tracesPath) := by
  rintro (hroot | hlogs)
  · exact append_ne_of_length_lt (by decide) hroot
  · have hshort : logsPath <:+ tracesPath :=
      List.suffix_of_suffix_length_le hlogs (List.suffix_append front tracesPath) (by decide)
    exact absurd hshort (by decide)

theorem not_leadsToTraces_getD (path : List Char) :
    ¬ LeadsToTraces ((tracesPath? path).getD path) := by
  cases htraces : tracesPath? path with
  | none => exact tracesPath?_eq_none_iff.1 htraces
  | some traces =>
      rcases tracesPath?_cases htraces with ⟨-, rfl⟩ | ⟨front, -, rfl⟩
      · exact not_leadsToTraces_append_tracesPath []
      · exact not_leadsToTraces_append_tracesPath front

theorem tracesOf_getD (path : List Char) : TracesOf path ((tracesPath? path).getD path) where
  root := by
    rintro rfl
    rfl
  logs := by
    rintro front rfl
    exact congrArg (Option.getD · _) (tracesPath?_append_logsPath front)
  other hother := by
    rw [tracesPath?_eq_none_iff.2 hother]
    rfl

end

/-! ## Texts of paths -/

namespace UrlPath

theorem text_append (front back : List (List Char)) :
    (segments (front ++ back)).text = (segments front).text ++ (segments back).text :=
  List.flatMap_append

theorem splitOn_append_text (front : List Char) {parts : List (List Char)}
    (hne : parts ≠ []) (hparts : ∀ part ∈ parts, '/' ∉ part) :
    (front ++ (segments parts).text).splitOn '/' = front.splitOn '/' ++ parts := by
  rw [text_segments hne, List.splitOn_append_cons_self, joinedSegments,
    List.splitOn_intercalate '/' hparts hne]

/-- A path whose text ends in that of some segments ends in these segments. -/
theorem exists_append_of_text_eq {front : List Char} {parts last : List (List Char)}
    (hparts : ∀ part ∈ parts, '/' ∉ part) (hne : last ≠ []) (hlast : ∀ part ∈ last, '/' ∉ part)
    (htext : (segments parts).text = front ++ (segments last).text) :
    ∃ kept, parts = kept ++ last ∧ front = (segments kept).text := by
  have hsome : parts ≠ [] := by
    rintro rfl
    rw [text_segments hne] at htext
    simp [text] at htext
  have hsplit : [] :: parts = front.splitOn '/' ++ last := by
    rw [← splitOn_append_text front hne hlast, ← htext]
    exact (splitOn_append_text [] hsome hparts).symm
  obtain ⟨first, kept, hfront⟩ := List.exists_cons_of_ne_nil (List.splitOn_ne_nil '/' front)
  rw [hfront] at hsplit
  obtain rfl : parts = kept ++ last := (List.cons.inj hsplit).2
  rw [text_append] at htext
  exact ⟨kept, rfl, (List.append_cancel_right htext).symm⟩

end UrlPath

/-- The text of a path of the web as it is read. -/
def IsPathText (text : List Char) : Prop :=
  ∃ path : UrlPath, path.IsNormal ∧ path.text = text

/-- The path that a text is read as, in its text. -/
def pathText (kind : SchemeKind) (text : List Char) : List Char :=
  (UrlPath.segments (readPathStart kind (Url.withoutBreaks text))).text

section

variable {defaultPort : Nat}

theorem isPathText_pathText (text : List Char) : IsPathText (pathText (.web defaultPort) text) :=
  ⟨_, isNormal_readPathStart _, rfl⟩

/-- The text of a path that was read is read as that path again. -/
theorem pathText_of_isPathText {text : List Char} (htext : IsPathText text) :
    pathText (.web defaultPort) text = text := by
  obtain ⟨path, hnormal, rfl⟩ := htext
  have hplain : Url.withoutBreaks path.text = path.text :=
    Url.withoutBreaks_of_forall fun char hchar => (hnormal.forall_mem_text char hchar).1
  obtain ⟨parts, rfl, hne, hparts⟩ := hnormal
  rw [pathText, hplain, readPathStart_text hne hparts]

end

theorem isSegment_of_mem_traces : ∀ part ∈ ["v1".toList, "traces".toList], IsSegment part := by
  simp only [List.forall_mem_cons, List.not_mem_nil, false_implies, implies_true, and_true]
  exact ⟨⟨by simp; decide, by simp [isDot], by simp [isDoubleDot]⟩,
    ⟨by simp; decide, by simp [isDot], by simp [isDoubleDot]⟩⟩

/-- The path for traces is one that can be read. -/
theorem IsPathText.traces {path traces : List Char} (hpath : IsPathText path)
    (htraces : tracesPath? path = some traces) : IsPathText traces := by
  rcases tracesPath?_cases htraces with ⟨-, rfl⟩ | ⟨front, rfl, rfl⟩
  · exact ⟨_, ⟨_, rfl, List.cons_ne_nil _ _, isSegment_of_mem_traces⟩, rfl⟩
  · obtain ⟨_, ⟨parts, rfl, -, hparts⟩, htext⟩ := hpath
    have htext : (UrlPath.segments parts).text =
        front ++ (UrlPath.segments ["v1".toList, "logs".toList]).text := htext
    obtain ⟨kept, rfl, rfl⟩ := UrlPath.exists_append_of_text_eq
      (fun part hpart => (hparts part hpart).not_mem_slash) (by simp) (by simp) htext
    refine ⟨.segments (kept ++ ["v1".toList, "traces".toList]), ⟨_, rfl, by simp, ?_⟩,
      UrlPath.text_append _ _⟩
    exact List.forall_mem_append.2 ⟨fun part hpart =>
      hparts part (List.mem_append_left _ hpart), isSegment_of_mem_traces⟩

/-! ## Libraries -/

def UrlParts.IsWeb (parts : UrlParts) : Prop :=
  parts.scheme = "http".toList ∨ parts.scheme = "https".toList

theorem UrlParts.IsWeb.exists_kind {parts : UrlParts} (hweb : parts.IsWeb) :
    ∃ defaultPort, SchemeKind.ofScheme parts.scheme = .web defaultPort := by
  rcases hweb with hscheme | hscheme
  · exact ⟨80, by rw [hscheme]; rfl⟩
  · exact ⟨443, by rw [hscheme]; rfl⟩

namespace UrlLibrary

variable {Url : Type} {library : UrlLibrary Url} {url : Url}

/-- The URL was read from a text, and paths may have been set in it since. -/
inductive Holds (library : UrlLibrary Url) : Url → Prop
  | parse {text : List Char} {url : Url} (hparse : library.parse text = .ok url) :
      Holds library url
  | setPath {url : Url} (path : List Char) (hholds : Holds library url) :
      Holds library (library.setPath path url)

/-- What is relied on of a library, for URLs of the web. A URL is read back from its text, its path
is one that was read from some text, and to set a path is to read the new one and to keep all other
parts. -/
structure Lawful (library : UrlLibrary Url) : Prop where
  parse_text : ∀ url, library.Holds url → (library.parts url).IsWeb →
    library.parse (library.text url) = .ok url
  path_parse : ∀ text url, library.parse text = .ok url → (library.parts url).IsWeb →
    ∃ source, (library.parts url).path =
      pathText (SchemeKind.ofScheme (library.parts url).scheme) source
  parts_setPath : ∀ url path, library.Holds url → (library.parts url).IsWeb →
    library.parts (library.setPath path url) = { library.parts url with
      path := pathText (SchemeKind.ofScheme (library.parts url).scheme) path }

theorem Holds.toTraces (hholds : library.Holds url) : library.Holds (toTraces library url) := by
  rw [Endpoint.toTraces]
  split
  · exact hholds.setPath _
  · exact hholds

/-- What leads nowhere else is its own URL for traces. -/
theorem toTraces_of_not_leadsToTraces (hpath : ¬ LeadsToTraces (library.parts url).path) :
    toTraces library url = url := by
  rw [toTraces, tracesPath?_eq_none_iff.2 hpath]

namespace Lawful

variable (hlawful : library.Lawful)

include hlawful

theorem isPathText {text : List Char} (hparse : library.parse text = .ok url)
    (hweb : (library.parts url).IsWeb) : IsPathText (library.parts url).path := by
  obtain ⟨source, hsource⟩ := hlawful.path_parse text url hparse hweb
  obtain ⟨defaultPort, hkind⟩ := hweb.exists_kind
  rw [hsource, hkind]
  exact isPathText_pathText source

/-- The path for traces is set as it is, since nothing in it is left to be encoded. -/
theorem parts_toTraces {text : List Char} (hparse : library.parse text = .ok url)
    (hweb : (library.parts url).IsWeb) :
    library.parts (toTraces library url) = { library.parts url with
      path := (tracesPath? (library.parts url).path).getD (library.parts url).path } := by
  have hpath := hlawful.isPathText hparse hweb
  obtain ⟨defaultPort, hkind⟩ := hweb.exists_kind
  cases htraces : tracesPath? (library.parts url).path with
  | none => rw [toTraces, htraces, Option.getD_none]
  | some traces =>
      rw [toTraces, htraces, Option.getD_some,
        hlawful.parts_setPath url traces (.parse hparse) hweb, hkind,
        pathText_of_isPathText (hpath.traces htraces)]

end Lawful

end UrlLibrary

theorem tracesAddress_eq {Url : Type} {library : UrlLibrary Url} {url : Url} {text : String}
    (hparse : library.parse text.toList = .ok url) :
    tracesAddress library text = .ok (String.ofList (library.text (toTraces library url))) := by
  rw [tracesAddress, hparse]
  rfl

/-- The address for traces of a web address is read back and is its own address for traces. It
differs from the address it is made from in the path at most, and there in the end for logs, or in
what is missing behind the root. -/
theorem tracesAddress_settles {Url : Type} (library : UrlLibrary Url) (hlawful : library.Lawful)
    (text : String) (url : Url) (hparse : library.parse text.toList = .ok url)
    (hscheme : (library.parts url).scheme = "http".toList ∨
      (library.parts url).scheme = "https".toList) :
    ∃ address traces,
      tracesAddress library text = .ok address ∧
      library.parse address.toList = .ok traces ∧
      tracesAddress library address = .ok address ∧
      library.parts traces =
        { library.parts url with path := (library.parts traces).path } ∧
      ¬ LeadsToTraces (library.parts traces).path ∧
      TracesOf (library.parts url).path (library.parts traces).path := by
  have hparts := hlawful.parts_toTraces hparse hscheme
  have hweb : (library.parts (toTraces library url)).IsWeb := by
    rw [hparts]
    exact hscheme
  have hread : library.parse (String.ofList (library.text (toTraces library url))).toList =
      .ok (toTraces library url) := by
    rw [String.toList_ofList]
    exact hlawful.parse_text _ (UrlLibrary.Holds.parse hparse).toTraces hweb
  have hsettled : ¬ LeadsToTraces (library.parts (toTraces library url)).path := by
    rw [hparts]
    exact not_leadsToTraces_getD _
  refine ⟨String.ofList (library.text (toTraces library url)), toTraces library url,
    tracesAddress_eq hparse, hread, ?_, ?_, hsettled, ?_⟩
  · rw [tracesAddress_eq hread, UrlLibrary.toTraces_of_not_leadsToTraces hsettled]
  · rw [hparts]
  · rw [hparts]
    exact tracesOf_getD _

/-! ## The library of this project -/

namespace Url

theorem parse_of_library {text : List Char} {url : Url} (hparse : library.parse text = .ok url) :
    parse text = .ok url := by
  change (parse text).mapError UrlFault.message = .ok url at hparse
  cases hread : parse text with
  | error fault => rw [hread] at hparse; cases hparse
  | ok found =>
      rw [hread] at hparse
      cases hparse
      rfl

theorem IsNormal.setPath {defaultPort : Nat} {url : Url} (hnormal : url.IsNormal defaultPort)
    (path : List Char) : (url.setPath path).IsNormal defaultPort := by
  refine { hnormal with path := ?_ }
  obtain ⟨parts, hpath, -, -⟩ := hnormal.path
  rw [Url.setPath, hpath, hnormal.kind]
  exact isNormal_readPathStart _

theorem isNormal_of_holds {defaultPort : Nat} {url : Url} (hholds : library.Holds url)
    (hkind : SchemeKind.ofScheme url.scheme = .web defaultPort) : url.IsNormal defaultPort := by
  induction hholds with
  | parse hparse => exact isNormal_of_parse (parse_of_library hparse) hkind
  | setPath path _ ih => exact (ih hkind).setPath path

theorem parts_setPath {defaultPort : Nat} {url : Url} (hnormal : url.IsNormal defaultPort)
    (path : List Char) :
    (url.setPath path).parts = { url.parts with
      path := pathText (SchemeKind.ofScheme url.scheme) path } := by
  obtain ⟨segments, hpath, -, -⟩ := hnormal.path
  rw [Url.setPath, hpath]
  rfl

theorem lawful_library : library.Lawful where
  parse_text := by
    intro url hholds hweb
    obtain ⟨defaultPort, hkind⟩ := hweb.exists_kind
    change (parse url.text).mapError UrlFault.message = .ok url
    rw [(isNormal_of_holds hholds hkind).parse_text]
    rfl
  path_parse := by
    intro text url hparse hweb
    obtain ⟨defaultPort, hkind⟩ := hweb.exists_kind
    have hpath := (isNormal_of_parse (parse_of_library hparse) hkind).path
    refine ⟨url.path.text, ?_⟩
    rw [hkind, pathText_of_isPathText ⟨url.path, hpath, rfl⟩]
    rfl
  parts_setPath := by
    intro url path hholds hweb
    obtain ⟨defaultPort, hkind⟩ := hweb.exists_kind
    exact parts_setPath (isNormal_of_holds hholds hkind) path

end Url

/-- The end of the path is replaced, not the same text in the query; the user is escaped, the port
number that the scheme implies is left out and the dot segments are gone. -/
theorem tracesAddress_settles_logs :
    let text := "HTTP://us er:p@[::ffff:1.2.3.4]:80/a/../v1/logs?x=/v1/logs#/"
    let url : Url := ⟨"http".toList,
      some ⟨"us%20er".toList, "p".toList, .ipv6 [0, 0, 0, 0, 0, 65535, 258, 772], none⟩,
      .segments ["v1".toList, "logs".toList], some "x=/v1/logs".toList, some "/".toList⟩
    (Url.library.Lawful ∧ Url.library.parse text.toList = .ok url ∧
      ((Url.library.parts url).scheme = "http".toList ∨
        (Url.library.parts url).scheme = "https".toList)) ∧
    ∃ address traces,
      tracesAddress Url.library text = .ok address ∧
      Url.library.parse address.toList = .ok traces ∧
      tracesAddress Url.library address = .ok address ∧
      Url.library.parts traces =
        { Url.library.parts url with path := (Url.library.parts traces).path } ∧
      ¬ LeadsToTraces (Url.library.parts traces).path ∧
      TracesOf (Url.library.parts url).path (Url.library.parts traces).path := by
  intro text url
  have hparse : Url.library.parse text.toList = .ok url := by cbv
  have hscheme : (Url.library.parts url).scheme = "http".toList ∨
      (Url.library.parts url).scheme = "https".toList := .inl rfl
  exact ⟨⟨Url.lawful_library, hparse, hscheme⟩,
    tracesAddress_settles Url.library Url.lawful_library text url hparse hscheme⟩

end ClassMetrics.Endpoint
