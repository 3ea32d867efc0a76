import Mathlib
import ClassMetrics.Proofs.HostReading

/-!
Web addresses read back. Reading one encodes what its parts may not hold, leaves out dot segments
and the port number that the scheme implies, and puts the host in normal form; nothing of this is
left to do in the text of what was read.

Main statement: an address that was read is read again from its text.
-/

namespace ClassMetrics.Endpoint

/-! ## Escapes -/

namespace EncodeSet

/-- The set encodes no character that escapes are made of. -/
def SparesEscapes (set : EncodeSet) : Prop :=
  set.contains '%' = false ∧ ∀ digit < 16, set.contains (upperHexDigit digit) = false

instance (set : EncodeSet) : Decidable set.SparesEscapes :=
  inferInstanceAs (Decidable (_ ∧ _))

theorem ne_of_not_contains {set : EncodeSet} {char other : Char} (hother : other ∈ set.chars)
    (hchar : set.contains char = false) : char ≠ other := by
  rintro rfl
  simp [contains, hother] at hchar

theorem lt_of_not_contains {set : EncodeSet} {char : Char} (hspace : ' ' ∈ set.chars)
    (hchar : set.contains char = false) : 0x20 < char.toNat := by
  have hne := ne_of_not_contains hspace hchar
  have hcode : char.toNat ≠ 0x20 := fun hcode => hne (Char.toNat_inj.1 hcode)
  simp [contains] at hchar
  omega

end EncodeSet

section

variable {set : EncodeSet} {text : List Char}

theorem mem_percentEncode {char : Char} (hchar : char ∈ percentEncode set text) :
    (char ∈ text ∧ set.contains char = false) ∨ char = '%' ∨
      ∃ digit < 16, char = upperHexDigit digit := by
  obtain ⟨source, hsource, hencoded⟩ := List.mem_flatMap.1 hchar
  unfold encodeChar at hencoded
  split at hencoded
  case isTrue =>
      obtain ⟨byte, -, hbyte⟩ := List.mem_flatMap.1 hencoded
      have hsize := byte.toNat_lt
      simp only [encodedByte, List.mem_cons, List.not_mem_nil, or_false] at hbyte
      rcases hbyte with hpercent | hhigh | hlow
      · exact .inr (.inl hpercent)
      · exact .inr (.inr ⟨_, by omega, hhigh⟩)
      · exact .inr (.inr ⟨_, by omega, hlow⟩)
  case isFalse hplain =>
      obtain rfl := List.mem_singleton.1 hencoded
      exact .inl ⟨hsource, by simpa using hplain⟩

theorem not_contains_of_mem_percentEncode (hspares : set.SparesEscapes) :
    ∀ char ∈ percentEncode set text, set.contains char = false := by
  intro char hchar
  rcases mem_percentEncode hchar with ⟨-, hplain⟩ | rfl | ⟨digit, hdigit, rfl⟩
  · exact hplain
  · exact hspares.1
  · exact hspares.2 digit hdigit

theorem percentEncode_of_not_contains (htext : ∀ char ∈ text, set.contains char = false) :
    percentEncode set text = text := by
  induction text with
  | nil => rfl
  | cons char text ih =>
      obtain ⟨hchar, hrest⟩ := List.forall_mem_cons.1 htext
      rw [percentEncode, List.flatMap_cons, encodeChar, hchar]
      exact congrArg (char :: ·) (ih hrest)

theorem map_percentEncode_of_not_contains {text? : Option (List Char)}
    (htext : ∀ text ∈ text?, ∀ char ∈ text, set.contains char = false) :
    text?.map (percentEncode set) = text? := by
  cases text? with
  | none => rfl
  | some text => exact congrArg some (percentEncode_of_not_contains (htext text rfl))

end

/-! ## Paths -/

def isSegmentChar (char : Char) : Bool :=
  !EncodeSet.path.contains char && char ≠ '/' && char ≠ '\\'

/-- A segment of a path as it is read. -/
structure IsSegment (segment : List Char) : Prop where
  chars : ∀ char ∈ segment, isSegmentChar char = true
  dot : isDot segment = false
  doubleDot : isDoubleDot segment = false

theorem IsSegment.not_mem_slash {segment : List Char} (hsegment : IsSegment segment) :
    '/' ∉ segment :=
  fun hslash => absurd (hsegment.chars _ hslash) (by decide)

/-- A path of the web as it is read. -/
def UrlPath.IsNormal (path : UrlPath) : Prop :=
  ∃ parts, path = .segments parts ∧ parts ≠ [] ∧ ∀ part ∈ parts, IsSegment part

theorem isSegment_nil : IsSegment [] where
  chars := by simp
  dot := by simp [isDot]
  doubleDot := by simp [isDoubleDot]

section

variable {defaultPort : Nat}

@[simp] theorem isOther_web : (SchemeKind.web defaultPort).isOther = false := rfl

@[simp] theorem isFile_web : (SchemeKind.web defaultPort).isFile = false := rfl

theorem isSlash_web (char : Char) :
    (SchemeKind.web defaultPort).isSlash char = decide (char = '/' ∨ char = '\\') := by
  simp [SchemeKind.isSlash]

theorem mem_of_mem_shorten {path : List (List Char)} {segment : List Char}
    (hsegment : segment ∈ shorten (.web defaultPort) path) : segment ∈ path := by
  unfold shorten at hsegment
  split at hsegment
  · simp at hsegment
  · exact List.mem_of_mem_dropLast hsegment

theorem normalSegment_web (path : List (List Char)) (segment : List Char) :
    normalSegment (.web defaultPort) path segment = segment := by
  simp [normalSegment]

theorem forall_mem_appendSegments {path segments : List (List Char)}
    (hpath : ∀ segment ∈ path, IsSegment segment)
    (hsegments : ∀ segment ∈ segments, ∀ char ∈ segment, isSegmentChar char = true) :
    ∀ segment ∈ appendSegments (.web defaultPort) path segments, IsSegment segment := by
  induction segments generalizing path with
  | nil => exact hpath
  | cons segment segments ih =>
      obtain ⟨hchars, hrest⟩ := List.forall_mem_cons.1 hsegments
      have hslash : ∀ last ∈ (if segments = [] then [[]] else [] : List (List Char)),
          IsSegment last := by
        intro last hlast
        split at hlast
        · rw [List.mem_singleton.1 hlast]
          exact isSegment_nil
        · cases hlast
      simp only [appendSegments]
      split
      · exact ih (List.forall_mem_append.2
          ⟨fun other hother => hpath other (mem_of_mem_shorten hother), hslash⟩) hrest
      · split
        · exact ih (List.forall_mem_append.2 ⟨hpath, hslash⟩) hrest
        · refine ih (List.forall_mem_append.2 ⟨hpath, ?_⟩) hrest
          intro other hother
          rw [List.mem_singleton.1 hother, normalSegment_web]
          exact ⟨hchars, by simpa using ‹¬ isDot segment = true›,
            by simpa using ‹¬ isDoubleDot segment = true›⟩

theorem appendSegments_ne_nil {path segments : List (List Char)} (hne : segments ≠ []) :
    appendSegments (.web defaultPort) path segments ≠ [] := by
  induction segments generalizing path with
  | nil => exact absurd rfl hne
  | cons segment segments ih =>
      simp only [appendSegments]
      cases segments with
      | nil => split <;> [skip; split] <;> simp [appendSegments]
      | cons next segments =>
          split
          · exact ih (List.cons_ne_nil _ _)
          · split <;> exact ih (List.cons_ne_nil _ _)

/-- Segments in normal form are put behind a path as they are. -/
theorem appendSegments_of_isSegment {path segments : List (List Char)}
    (hsegments : ∀ segment ∈ segments, IsSegment segment) :
    appendSegments (.web defaultPort) path segments = path ++ segments := by
  induction segments generalizing path with
  | nil => simp [appendSegments]
  | cons segment segments ih =>
      obtain ⟨hsegment, hrest⟩ := List.forall_mem_cons.1 hsegments
      simp [appendSegments, hsegment.dot, hsegment.doubleDot, normalSegment_web, ih hrest]

/-- A path behind its first slash. -/
def joinedSegments (segments : List (List Char)) : List Char :=
  ['/'].intercalate segments

theorem text_segments {segments : List (List Char)} (hne : segments ≠ []) :
    (UrlPath.segments segments).text = '/' :: joinedSegments segments := by
  induction segments with
  | nil => exact absurd rfl hne
  | cons segment segments ih =>
      cases segments with
      | nil => simp [UrlPath.text, joinedSegments]
      | cons next segments =>
          have hrest := ih (List.cons_ne_nil _ _)
          rw [UrlPath.text, joinedSegments] at hrest
          rw [UrlPath.text, List.flatMap_cons, hrest, joinedSegments, List.intercalate_cons_cons]
          simp

theorem isSegment_of_mem_readPath {text : List Char} :
    ∀ segment ∈ readPath (.web defaultPort) text, IsSegment segment := by
  simp only [readPath, isFile_web, Bool.false_eq_true, if_false]
  apply forall_mem_appendSegments (by simp)
  intro segment hsegment char hchar
  obtain ⟨hmem, hslash⟩ := mem_of_mem_splitOn hsegment hchar
  have hplain := not_contains_of_mem_percentEncode (by decide) char hmem
  have hbackslash : char ≠ '\\' := by
    rintro rfl
    rcases mem_percentEncode hmem with ⟨hsource, -⟩ | hpercent | ⟨digit, hdigit, hescape⟩
    · obtain ⟨source, -, hsource⟩ := List.mem_map.1 hsource
      split at hsource
      · cases hsource
      · simp_all [isSlash_web]
    · cases hpercent
    · revert hescape
      interval_cases digit <;> decide
  simp [isSegmentChar, hplain, hslash, hbackslash]

theorem readPath_ne_nil (text : List Char) : readPath (.web defaultPort) text ≠ [] := by
  simp only [readPath, isFile_web, Bool.false_eq_true, if_false]
  exact appendSegments_ne_nil (List.splitOn_ne_nil _ _)

theorem readPath_joinedSegments {segments : List (List Char)} (hne : segments ≠ [])
    (hsegments : ∀ segment ∈ segments, IsSegment segment) :
    readPath (.web defaultPort) (joinedSegments segments) = segments := by
  have hchars : ∀ char ∈ joinedSegments segments, char = '/' ∨ isSegmentChar char = true := by
    intro char hchar
    rcases mem_intercalate hchar with hslash | ⟨segment, hsegment, hmem⟩
    · exact .inl hslash
    · exact .inr ((hsegments segment hsegment).chars char hmem)
  have hslashes : (joinedSegments segments).map
      (fun char => if (SchemeKind.web defaultPort).isSlash char then '/' else char) =
        joinedSegments segments := by
    have hkept : ∀ char ∈ joinedSegments segments,
        (if (SchemeKind.web defaultPort).isSlash char then '/' else char) = id char := by
      intro char hchar
      rcases hchars char hchar with rfl | hsegment
      · simp
      · simp [isSegmentChar] at hsegment
        simp [isSlash_web, hsegment]
    rw [List.map_congr_left hkept, List.map_id]
  have hplain : percentEncode .path (joinedSegments segments) = joinedSegments segments := by
    apply percentEncode_of_not_contains
    intro char hchar
    rcases hchars char hchar with rfl | hsegment
    · decide
    · simp [isSegmentChar] at hsegment
      simpa using hsegment.1.1
  have hsplit : (joinedSegments segments).splitOn '/' = segments :=
    List.splitOn_intercalate '/' (fun segment hsegment =>
      (hsegments segment hsegment).not_mem_slash) hne
  simp only [readPath, isFile_web, Bool.false_eq_true, if_false, hslashes, hplain, hsplit]
  exact appendSegments_of_isSegment hsegments

/-- What is read as a path is in normal form. -/
theorem isNormal_readPathStart (text : List Char) :
    (UrlPath.segments (readPathStart (.web defaultPort) text)).IsNormal := by
  simp only [readPathStart, isOther_web, Bool.false_eq_true, false_and, if_false]
  exact ⟨_, rfl, readPath_ne_nil _, isSegment_of_mem_readPath⟩

/-- A path in normal form is read from its text. -/
theorem readPathStart_text {segments : List (List Char)} (hne : segments ≠ [])
    (hsegments : ∀ segment ∈ segments, IsSegment segment) :
    readPathStart (.web defaultPort) (UrlPath.segments segments).text = segments := by
  simp only [readPathStart, text_segments hne, isOther_web, Bool.false_eq_true, false_and, if_false,
    List.head?_cons, Option.any_some, isSlash_web, true_or, decide_true, if_true,
    List.drop_succ_cons, List.drop_zero]
  exact readPath_joinedSegments hne hsegments

end

theorem UrlPath.IsNormal.forall_mem_text {path : UrlPath} (hnormal : path.IsNormal) :
    ∀ char ∈ path.text, 0x20 < char.toNat ∧ char ≠ '?' ∧ char ≠ '#' := by
  obtain ⟨parts, rfl, -, hparts⟩ := hnormal
  intro char hchar
  obtain ⟨part, hpart, hchar⟩ := List.mem_flatMap.1 hchar
  rcases List.mem_cons.1 hchar with rfl | hchar
  · decide
  · have hsegment := (hparts part hpart).chars char hchar
    simp only [isSegmentChar, Bool.and_eq_true, Bool.not_eq_true'] at hsegment
    exact ⟨EncodeSet.lt_of_not_contains (by decide) hsegment.1.1,
      EncodeSet.ne_of_not_contains (by decide) hsegment.1.1,
      EncodeSet.ne_of_not_contains (by decide) hsegment.1.1⟩

/-! ## Authorities -/

/-- An authority as it is read. -/
structure Authority.IsNormal (defaultPort : Nat) (authority : Authority) : Prop where
  username : ∀ char ∈ authority.username, EncodeSet.userinfo.contains char = false
  password : ∀ char ∈ authority.password, EncodeSet.userinfo.contains char = false
  host : authority.host.IsNormal
  portNumber : ∀ number ∈ authority.portNumber?, number ≤ 65535 ∧ number ≠ defaultPort

section

variable {defaultPort : Nat}

theorem readAuthority_web {isLast : Bool} {text user place hostText portText : List Char}
    (hsplit : (splitUser? text).getD ([], text) = (user, place))
    (hplace : splitPort false place = (hostText, portText)) :
    readAuthority (.web defaultPort) isLast text =
      if (text = ['@'] ∧ (!isLast) = true) ∨ hostText = [] then .error .emptyHost
      else do
        let host ← Host.parse hostText
        let port ← readPort (.web defaultPort) (portText.drop 1)
        return (⟨(readUser user).1, (readUser user).2, host, port.1⟩, port.2) := by
  by_cases hlone : text = ['@'] ∧ (!isLast) = true
  · rw [if_pos (.inl hlone)]
    simp only [readAuthority, if_pos hlone]
    rfl
  by_cases hempty : hostText = []
  · rw [if_pos (.inr hempty)]
    simp only [readAuthority, hsplit, hplace, isOther_web, if_neg hlone, hempty, Bool.not_false,
      and_self, if_true]
    rfl
  · rw [if_neg (not_or.2 ⟨hlone, hempty⟩)]
    simp only [readAuthority, hsplit, hplace, isOther_web, if_neg hlone, hempty, false_and,
      if_false, Bool.false_eq_true]

theorem readPort_eq_ok {text rest : List Char} {number? : Option Nat} (hslash : '\\' ∉ text)
    (hread : readPort (.web defaultPort) text = .ok (number?, rest)) :
    rest = [] ∧ ∀ number ∈ number?, number ≤ 65535 ∧ number ≠ defaultPort := by
  unfold readPort at hread
  rw [List.span_eq_takeWhile_dropWhile] at hread
  dsimp only at hread
  split at hread
  case isTrue => cases hread
  case isFalse hsmall =>
      split at hread
      case h_1 hrest =>
          cases hread
          refine ⟨hrest, fun number hnumber => ?_⟩
          split at hnumber
          case isTrue => cases hnumber
          case isFalse hdefault =>
              cases hnumber
              exact ⟨Nat.not_lt.1 hsmall, fun hsame => hdefault (.inr (congrArg some hsame.symm))⟩
      case h_2 hrest =>
          have hmem : '\\' ∈ text.dropWhile Char.isDigit := hrest ▸ List.mem_cons_self
          exact absurd (List.dropWhile_subset _ hmem) hslash
      case h_3 => cases hread

theorem splitPort_append (inside : Bool) (text : List Char) :
    (splitPort inside text).1 ++ (splitPort inside text).2 = text := by
  induction text generalizing inside with
  | nil => rfl
  | cons char text ih =>
      rw [splitPort]
      split
      · rfl
      · exact congrArg (char :: ·) (ih _)

theorem mem_of_mem_splitUser {text user place : List Char} {char : Char}
    (hsplit : (splitUser? text).getD ([], text) = (user, place)) (hchar : char ∈ place) :
    char ∈ text := by
  unfold splitUser? at hsplit
  split at hsplit
  case isTrue =>
      cases hsplit
      rw [List.span_eq_takeWhile_dropWhile, List.mem_reverse] at hchar
      exact List.mem_reverse.1 ((List.takeWhile_prefix _).subset hchar)
  case isFalse =>
      cases hsplit
      exact hchar

theorem isNormal_of_readAuthority {isLast : Bool} {text rest : List Char} {authority : Authority}
    (hslash : '\\' ∉ text)
    (hread : readAuthority (.web defaultPort) isLast text = .ok (authority, rest)) :
    authority.IsNormal defaultPort ∧ rest = [] := by
  rcases hsplit : (splitUser? text).getD ([], text) with ⟨user, place⟩
  rcases hplace : splitPort false place with ⟨hostText, portText⟩
  rw [readAuthority_web hsplit hplace] at hread
  split at hread
  case isTrue => cases hread
  case isFalse =>
      obtain ⟨host, hhost, hread⟩ := except_bind_eq_ok.1 hread
      obtain ⟨⟨number?, left⟩, hport, hread⟩ := except_bind_eq_ok.1 hread
      cases hread
      have hportText : '\\' ∉ portText.drop 1 := by
        intro hmem
        have happend := splitPort_append false place
        rw [hplace] at happend
        have hmem : '\\' ∈ place := happend ▸ List.mem_append_right _ (List.mem_of_mem_drop hmem)
        exact hslash (mem_of_mem_splitUser hsplit hmem)
      obtain ⟨hrest, hnumber⟩ := readPort_eq_ok hportText hport
      refine ⟨?_, hrest⟩
      constructor
      case username => exact not_contains_of_mem_percentEncode (by decide)
      case password => exact not_contains_of_mem_percentEncode (by decide)
      case host => exact Host.isNormal_of_parse hhost
      case portNumber => exact hnumber

end

namespace Authority

/-- What stands before the at sign, if there is one. -/
def userText (authority : Authority) : List Char :=
  authority.username ++ if authority.password.isEmpty then [] else ':' :: authority.password

def portText (authority : Authority) : List Char :=
  authority.portNumber?.elim [] fun number => ':' :: Nat.toDigits 10 number

theorem text_eq (authority : Authority) :
    authority.text =
      (if authority.hasUser then authority.userText ++ ['@'] else []) ++
        (authority.host.text ++ authority.portText) := by
  simp [text, userText, portText]

theorem userText_eq_nil {authority : Authority} (huser : ¬ authority.hasUser = true) :
    authority.userText = [] := by
  simp [hasUser] at huser
  simp [userText, huser.1, huser.2]

theorem head?_portText (authority : Authority) :
    ∀ char ∈ authority.portText.head?, char = ':' := by
  unfold portText
  cases authority.portNumber? <;> simp

theorem isPlaceChar_portText (authority : Authority) :
    ∀ char ∈ authority.portText, IsPlaceChar char := by
  unfold portText
  cases authority.portNumber? with
  | none => simp
  | some number =>
      refine List.forall_mem_cons.2 ⟨⟨by decide, by decide⟩, fun char hchar => ?_⟩
      exact (isPlain_of_isDigit (isDigit_of_mem_toDigits char hchar)).isPlaceChar

namespace IsNormal

variable {defaultPort : Nat} {authority : Authority} (hnormal : authority.IsNormal defaultPort)

include hnormal

theorem isPlaceChar : ∀ char ∈ authority.host.text ++ authority.portText, IsPlaceChar char :=
  List.forall_mem_append.2 ⟨hnormal.host.isPlaceChar, authority.isPlaceChar_portText⟩

theorem splitUser :
    (splitUser? authority.text).getD ([], authority.text) =
      (authority.userText, authority.host.text ++ authority.portText) := by
  have hplace : ∀ char ∈ (authority.host.text ++ authority.portText).reverse,
      decide (char ≠ '@') = true := by
    intro char hchar
    have hplace := (hnormal.isPlaceChar char (List.mem_reverse.1 hchar)).2
    simp only [List.mem_cons, not_or] at hplace
    simpa using hplace.2.2.1
  rw [text_eq]
  by_cases huser : authority.hasUser = true
  · have hreversed : (authority.userText ++ ['@'] ++
        (authority.host.text ++ authority.portText)).reverse =
          (authority.host.text ++ authority.portText).reverse ++
            '@' :: authority.userText.reverse := by simp
    have hmem : (authority.userText ++ ['@'] ++
        (authority.host.text ++ authority.portText)).contains '@' = true := by simp
    rw [if_pos huser, splitUser?, if_pos hmem, hreversed, span_front hplace (by simp)]
    simp
  · have hmem : ¬ (authority.host.text ++ authority.portText).contains '@' = true := by
      rw [List.contains_iff_mem]
      intro hat
      exact absurd (hplace '@' (List.mem_reverse.2 hat)) (by decide)
    rw [if_neg huser, List.nil_append, splitUser?, if_neg hmem, userText_eq_nil huser]
    rfl

theorem readUser_userText :
    readUser authority.userText = (authority.username, authority.password) := by
  have husername : ∀ char ∈ authority.username, decide (char ≠ ':') = true := fun char hchar =>
    decide_eq_true (EncodeSet.ne_of_not_contains (by decide) (hnormal.username char hchar))
  have hspan : authority.userText.span (· ≠ ':') =
      (authority.username,
        if authority.password.isEmpty then [] else ':' :: authority.password) := by
    apply span_front husername
    split <;> simp
  have hpassword : (if authority.password.isEmpty then [] else ':' :: authority.password).drop 1 =
      authority.password := by
    split
    · simp_all
    · rfl
  rw [readUser, hspan]
  simp only [hpassword, percentEncode_of_not_contains hnormal.username,
    percentEncode_of_not_contains hnormal.password]

theorem readPort_portText :
    readPort (.web defaultPort) (authority.portText.drop 1) = .ok (authority.portNumber?, []) := by
  unfold portText
  cases hnumber : authority.portNumber? with
  | none => rfl
  | some number =>
      obtain ⟨hsmall, hdefault⟩ := hnormal.portNumber number hnumber
      have hspan : (Nat.toDigits 10 number ++ []).span Char.isDigit =
          (Nat.toDigits 10 number, []) := span_front isDigit_of_mem_toDigits (by simp)
      rw [List.append_nil] at hspan
      have hvalue : numeral 10 (Nat.toDigits 10 number) = number :=
        numeral_toDigits (by omega) (by omega) number
      have hkept : ¬ (Nat.toDigits 10 number = [] ∨
          (SchemeKind.web defaultPort).defaultPort? = some number) := by
        rintro (hnil | hsame)
        · exact Nat.toDigits_ne_nil hnil
        · exact hdefault (Option.some.inj hsame).symm
      simp only [Option.elim_some, List.drop_succ_cons, List.drop_zero, readPort, hspan, hvalue,
        if_neg (Nat.not_lt.2 hsmall), if_neg hkept]

theorem isPlaceChar_userText : ∀ char ∈ authority.userText, IsPlaceChar char := by
  have hplain : ∀ char, EncodeSet.userinfo.contains char = false → IsPlaceChar char := by
    intro char hchar
    refine ⟨EncodeSet.lt_of_not_contains (by decide) hchar, fun hmem => ?_⟩
    revert hmem hchar
    simp only [List.mem_cons, List.not_mem_nil, or_false]
    rintro hchar (rfl | rfl | rfl | rfl | rfl) <;> exact absurd hchar (by decide)
  intro char hchar
  rcases List.mem_append.1 hchar with hchar | hchar
  · exact hplain char (hnormal.username char hchar)
  · split at hchar
    case isTrue => cases hchar
    case isFalse =>
        rcases List.mem_cons.1 hchar with rfl | hchar
        · exact ⟨by decide, by decide⟩
        · exact hplain char (hnormal.password char hchar)

theorem isPlaceChar_text : ∀ char ∈ authority.text, IsPlaceChar char ∨ char = '@' := by
  intro char hchar
  rw [text_eq] at hchar
  rcases List.mem_append.1 hchar with huser | hplace
  · split at huser
    case isTrue =>
        rcases List.mem_append.1 huser with huser | hat
        · exact .inl (hnormal.isPlaceChar_userText char huser)
        · exact .inr (List.mem_singleton.1 hat)
    case isFalse => cases huser
  · exact .inl (hnormal.isPlaceChar char hplace)

theorem text_ne_nil : authority.text ≠ [] := by
  rw [text_eq]
  exact List.append_ne_nil_of_right_ne_nil _
    (List.append_ne_nil_of_left_ne_nil hnormal.host.text_ne_nil _)

/-- An authority in normal form is read from its text, and nothing is left. -/
theorem readAuthority_text (isLast : Bool) :
    readAuthority (.web defaultPort) isLast authority.text = .ok (authority, []) := by
  have hlone : ¬ ((authority.text = ['@'] ∧ (!isLast) = true) ∨ authority.host.text = []) := by
    rintro (⟨hat, -⟩ | hnil)
    · have hsplit := hnormal.splitUser
      rw [hat] at hsplit
      have hplace : [] = authority.host.text ++ authority.portText :=
        congrArg Prod.snd (show ([], []) = _ from hsplit)
      exact hnormal.host.text_ne_nil (List.append_eq_nil_iff.1 hplace.symm).1
    · exact hnormal.host.text_ne_nil hnil
  rw [readAuthority_web hnormal.splitUser (hnormal.host.splitPort authority.head?_portText),
    if_neg hlone, hnormal.host.parse_text, hnormal.readPort_portText, hnormal.readUser_userText]
  rfl

end IsNormal

end Authority

/-! ## Addresses -/

namespace Url

/-- A URL of the web as it is read. -/
structure IsNormal (defaultPort : Nat) (url : Url) : Prop where
  kind : SchemeKind.ofScheme url.scheme = .web defaultPort
  authority : ∃ authority, url.authority? = some authority ∧ authority.IsNormal defaultPort
  path : url.path.IsNormal
  query : ∀ query ∈ url.query?, ∀ char ∈ query, EncodeSet.specialQuery.contains char = false
  fragment : ∀ fragment ∈ url.fragment?, ∀ char ∈ fragment,
    EncodeSet.fragment.contains char = false

section

variable {defaultPort : Nat} {isLast : Bool}

theorem isNormal_of_readPlace {text : List Char} {authority? : Option Authority} {path : UrlPath}
    (hread : readPlace (.web defaultPort) isLast text = .ok (authority?, path)) :
    (∃ authority, authority? = some authority ∧ authority.IsNormal defaultPort) ∧
      path.IsNormal := by
  simp only [readPlace, List.span_eq_takeWhile_dropWhile] at hread
  obtain ⟨⟨authority, rest⟩, hauthority, hread⟩ := except_bind_eq_ok.1 hread
  have hslash : '\\' ∉ text.takeWhile (!(SchemeKind.web defaultPort).isSlash ·) := by
    intro hmem
    simpa [isSlash_web] using List.mem_takeWhile_imp hmem
  cases hread
  exact ⟨⟨authority, rfl, (isNormal_of_readAuthority hslash hauthority).1⟩,
    isNormal_readPathStart _⟩

/-- What is read with a scheme of the web is in normal form. -/
theorem isNormal_of_parse {text : List Char} {url : Url} (hparse : parse text = .ok url)
    (hkind : SchemeKind.ofScheme url.scheme = .web defaultPort) : url.IsNormal defaultPort := by
  unfold parse at hparse
  split at hparse
  case h_1 => cases hparse
  case h_2 scheme rest hscheme =>
      obtain ⟨⟨authority?, path⟩, hbody, hparse⟩ := except_bind_eq_ok.1 hparse
      cases hparse
      dsimp only at hkind
      rw [hkind] at hbody
      obtain ⟨hauthority, hpath⟩ := isNormal_of_readPlace hbody
      constructor
      case kind => exact hkind
      case authority => exact hauthority
      case path => exact hpath
      case query =>
          intro query hquery char hchar
          simp only [hkind, isOther_web] at hquery
          obtain ⟨source, -, rfl⟩ := Option.mem_map.1 hquery
          exact not_contains_of_mem_percentEncode (by decide) char hchar
      case fragment =>
          intro fragment hfragment char hchar
          obtain ⟨source, -, rfl⟩ := Option.mem_map.1 hfragment
          exact not_contains_of_mem_percentEncode (by decide) char hchar

theorem withoutBreaks_of_forall {text : List Char} (htext : ∀ char ∈ text, 0x20 < char.toNat) :
    withoutBreaks text = text := by
  rw [withoutBreaks, List.filter_eq_self]
  intro char hchar
  have hcode := htext char hchar
  have hne : ∀ blank : Char, blank.toNat ≤ 0x20 → char ≠ blank := by
    rintro blank hblank rfl
    omega
  simp [hne '\t' (by decide), hne '\n' (by decide), hne '\r' (by decide)]

theorem clean_of_forall {text : List Char} (htext : ∀ char ∈ text, 0x20 < char.toNat) :
    clean text = text := by
  have hkept : ∀ text : List Char, (∀ char ∈ text, 0x20 < char.toNat) →
      text.dropWhile isTrimmed = text := by
    intro text htext
    cases text with
    | nil => rfl
    | cons char text =>
        have hchar := htext char List.mem_cons_self
        exact List.dropWhile_cons_of_neg (by simp [isTrimmed, hchar])
  rw [clean, hkept text htext, hkept _ (by simpa using htext), List.reverse_reverse,
    withoutBreaks_of_forall htext]

theorem splitMark_append {mark : Char} {front : List Char} (hfront : mark ∉ front)
    (rest? : Option (List Char)) :
    splitMark mark (front ++ rest?.elim [] (mark :: ·)) = (front, rest?) := by
  have hkept : ∀ char ∈ front, decide (char ≠ mark) = true := fun char hchar =>
    decide_eq_true fun hmark => hfront (hmark ▸ hchar)
  have hspan : (front ++ rest?.elim [] (mark :: ·)).span (· ≠ mark) =
      (front, rest?.elim [] (mark :: ·)) := by
    apply span_front hkept
    cases rest? <;> simp
  rw [splitMark, hspan]
  cases rest? <;> rfl

theorem scheme_cases {scheme : List Char} (hkind : SchemeKind.ofScheme scheme = .web defaultPort) :
    scheme = "http".toList ∨ scheme = "ws".toList ∨ scheme = "https".toList ∨
      scheme = "wss".toList ∨ scheme = "ftp".toList := by
  unfold SchemeKind.ofScheme at hkind
  have htext : ∀ text, String.ofList scheme = text → scheme = text.toList := by
    rintro _ rfl
    exact String.toList_ofList.symm
  split at hkind <;> simp_all

/-- A scheme of the web is read in front of a colon. -/
theorem scheme?_append {scheme : List Char}
    (hkind : SchemeKind.ofScheme scheme = .web defaultPort) (rest : List Char) :
    scheme? (scheme ++ ':' :: rest) = some (scheme, rest) := by
  have hspan : ∀ scheme : List Char, (∀ char ∈ scheme, isSchemeChar char = true) →
      (scheme ++ ':' :: rest).span isSchemeChar = (scheme, ':' :: rest) := fun scheme hscheme =>
    span_front hscheme (by simp; decide)
  rcases scheme_cases hkind with rfl | rfl | rfl | rfl | rfl <;>
    · rw [scheme?, hspan _ (by simp; decide)]
      simp

theorem front_eq {url : Url} {authority : Authority}
    (hauthority : url.authority? = some authority) :
    url.front = '/' :: '/' :: authority.text := by
  simp [front, hauthority]

end

namespace IsNormal

variable {defaultPort : Nat} {url : Url} (hnormal : url.IsNormal defaultPort)

include hnormal

/-- Two slashes, an authority and a path, as they are read. -/
theorem readBody_text (isLast : Bool) :
    readBody (.web defaultPort) isLast (url.front ++ url.path.text) =
      .ok (url.authority?, url.path) := by
  obtain ⟨authority, hauthority, hnormalAuthority⟩ := hnormal.authority
  obtain ⟨parts, hpath, hne, hparts⟩ := hnormal.path
  have hplain : ∀ char ∈ authority.text, (SchemeKind.web defaultPort).isSlash char = false := by
    intro char hchar
    rcases hnormalAuthority.isPlaceChar_text char hchar with hplace | rfl
    · have hplace := hplace.2
      simp only [List.mem_cons, not_or] at hplace
      simp [isSlash_web, hplace]
    · simp [isSlash_web]
  have hhead : ∀ char ∈ (authority.text ++ '/' :: joinedSegments parts).head?,
      (SchemeKind.web defaultPort).isSlash char = false := by
    rw [List.head?_append_of_ne_nil _ hnormalAuthority.text_ne_nil]
    exact fun char hchar => hplain char (List.mem_of_mem_head? hchar)
  have hslashes : (['/', '/'] ++ (authority.text ++ '/' :: joinedSegments parts)).dropWhile
      (SchemeKind.web defaultPort).isSlash = authority.text ++ '/' :: joinedSegments parts :=
    dropWhile_front (by simp [isSlash_web]) hhead
  have hspan : (authority.text ++ '/' :: joinedSegments parts).span
      (!(SchemeKind.web defaultPort).isSlash ·) = (authority.text, '/' :: joinedSegments parts) :=
    span_front (by simpa using hplain) (by simp [isSlash_web])
  have htext : url.front ++ url.path.text =
      ['/', '/'] ++ (authority.text ++ '/' :: joinedSegments parts) := by
    simp [front_eq hauthority, hpath, text_segments hne]
  simp only [htext, readBody, hslashes, readPlace, hspan]
  refine except_bind_eq_ok.2 ⟨(authority, []), hnormalAuthority.readAuthority_text _, ?_⟩
  simp only [List.nil_append, ← text_segments hne, readPathStart_text hne hparts, hauthority, hpath]
  rfl

theorem forall_mem_body :
    ∀ char ∈ url.front ++ url.path.text, 0x20 < char.toNat ∧ char ≠ '?' ∧ char ≠ '#' := by
  obtain ⟨authority, hauthority, hnormalAuthority⟩ := hnormal.authority
  have hslash : 0x20 < '/'.toNat ∧ '/' ≠ '?' ∧ '/' ≠ '#' := by decide
  refine List.forall_mem_append.2 ⟨?_, ?_⟩
  · rw [front_eq hauthority]
    refine List.forall_mem_cons.2 ⟨hslash, List.forall_mem_cons.2 ⟨hslash, fun char hchar => ?_⟩⟩
    rcases hnormalAuthority.isPlaceChar_text char hchar with ⟨hcode, hplace⟩ | rfl
    · simp only [List.mem_cons, not_or] at hplace
      exact ⟨hcode, hplace.2.2.2.1, hplace.2.2.2.2.1⟩
    · decide
  · exact hnormal.path.forall_mem_text

theorem forall_mem_query :
    ∀ char ∈ url.query?.elim [] ('?' :: ·), 0x20 < char.toNat ∧ char ≠ '#' := by
  cases hquery : url.query? with
  | none => simp
  | some query =>
      refine List.forall_mem_cons.2 ⟨by decide, fun char hchar => ?_⟩
      have hplain := hnormal.query query hquery char hchar
      exact ⟨EncodeSet.lt_of_not_contains (by decide) hplain,
        EncodeSet.ne_of_not_contains (by decide) hplain⟩

theorem forall_mem_fragment : ∀ char ∈ url.fragment?.elim [] ('#' :: ·), 0x20 < char.toNat := by
  cases hfragment : url.fragment? with
  | none => simp
  | some fragment =>
      refine List.forall_mem_cons.2 ⟨by decide, fun char hchar => ?_⟩
      exact EncodeSet.lt_of_not_contains (by decide)
        (hnormal.fragment fragment hfragment char hchar)

theorem forall_mem_scheme : ∀ char ∈ url.scheme, 0x20 < char.toNat := by
  rcases scheme_cases hnormal.kind with hscheme | hscheme | hscheme | hscheme | hscheme <;>
    simp [hscheme]

theorem clean_text : clean url.text = url.text := by
  apply clean_of_forall
  simp only [text, List.forall_mem_append, List.forall_mem_cons]
  have hbody := List.forall_mem_append.1 hnormal.forall_mem_body
  exact ⟨⟨⟨⟨hnormal.forall_mem_scheme, by decide, fun char hchar => (hbody.1 char hchar).1⟩,
    fun char hchar => (hbody.2 char hchar).1⟩,
    fun char hchar => (hnormal.forall_mem_query char hchar).1⟩, hnormal.forall_mem_fragment⟩

/-- A URL of the web in normal form is read from its text. -/
theorem parse_text : parse url.text = .ok url := by
  have htext : url.text = url.scheme ++ ':' :: (url.front ++ url.path.text ++
      url.query?.elim [] ('?' :: ·) ++ url.fragment?.elim [] ('#' :: ·)) := by
    simp [text]
  have hfragment : '#' ∉ url.front ++ url.path.text ++ url.query?.elim [] ('?' :: ·) := by
    intro hmem
    rcases List.mem_append.1 hmem with hbody | hquery
    · exact (hnormal.forall_mem_body _ hbody).2.2 rfl
    · exact (hnormal.forall_mem_query _ hquery).2 rfl
  have hquery : '?' ∉ url.front ++ url.path.text := fun hmem =>
    (hnormal.forall_mem_body _ hmem).2.1 rfl
  have hscheme := scheme?_append hnormal.kind (url.front ++ url.path.text ++
    url.query?.elim [] ('?' :: ·) ++ url.fragment?.elim [] ('#' :: ·))
  rw [← htext, ← hnormal.clean_text] at hscheme
  simp only [parse, hscheme, splitMark_append hfragment, splitMark_append hquery]
  refine except_bind_eq_ok.2 ⟨(url.authority?, url.path), ?_, ?_⟩
  · rw [hnormal.kind]
    exact hnormal.readBody_text _
  · simp only [hnormal.kind, isOther_web, Bool.false_eq_true, if_false,
      map_percentEncode_of_not_contains hnormal.query,
      map_percentEncode_of_not_contains hnormal.fragment]
    rfl

end IsNormal

end Url

end ClassMetrics.Endpoint
