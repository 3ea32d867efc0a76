import Mathlib
import ClassMetrics.Proofs.AddressReading
import ClassMetrics.Proofs.LabelDecoding
import ClassMetrics.Endpoint.Reading

/-!
Hosts read back. What a host is read as is in normal form: a name of lower-case ASCII labels, or an
address. The text of a host in normal form is read as that host.
-/

namespace ClassMetrics.Endpoint

/-! ## Characters -/

theorem toNat_ofNat {code : Nat} (hcode : code < 0xd800) : (Char.ofNat code).toNat = code := by
  rw [Char.toNat_ofNat, if_pos (Or.inl hcode)]

/-- What no table maps. -/
def isFixedCode (code : Nat) : Bool :=
  !(ignoredRanges.any fun range => range.1 ≤ code && code ≤ range.2) &&
    (ligatures.lookup code).isNone && (mappedRuns.find? (·.contains code)).isNone

theorem mapped_of_isFixedCode {char : Char} (hfixed : isFixedCode char.toNat = true) :
    mapped char = [char] := by
  simp only [isFixedCode, Bool.and_eq_true, Bool.not_eq_true', Option.isNone_iff_eq_none] at hfixed
  simp only [mapped, hfixed.1.1, hfixed.1.2, hfixed.2, Bool.false_eq_true, if_false]

/-- A run leads to no code point from one to another. -/
def CharRun.avoids (run : CharRun) (first last : Nat) : Bool :=
  last < run.target || run.target + (run.last - run.first) < first

/-- A run leads into no table. Of two runs of every other character one may be in the gaps of the
other. -/
def CharRun.settles (run : CharRun) : Bool :=
  run.target + (run.last - run.first) < 0xd800 &&
    ignoredRanges.all (fun range => run.avoids range.1 range.2) &&
    ligatures.all (fun ligature => run.avoids ligature.1 ligature.1) &&
    mappedRuns.all fun other => run.avoids other.first other.last ||
      (run.stride == 2 && other.stride == 2 && (run.target + other.first) % 2 == 1)

theorem runs_settle : ∀ run ∈ mappedRuns, run.settles = true := by
  decide +kernel

theorem ligatures_settle :
    (ligatures.all fun ligature => ligature.2.all fun char => isFixedCode char.toNat) = true := by
  decide +kernel

theorem isFixedCode_image {run : CharRun} {code : Nat} (hrun : run ∈ mappedRuns)
    (hcode : run.contains code = true) :
    run.image code < 0xd800 ∧ isFixedCode (run.image code) = true := by
  have hsettles := runs_settle run hrun
  simp only [CharRun.settles, CharRun.avoids, Bool.and_eq_true, List.all_eq_true, Bool.or_eq_true,
    decide_eq_true_eq, beq_iff_eq] at hsettles
  obtain ⟨⟨⟨hsmall, hseen⟩, hletters⟩, hapart⟩ := hsettles
  simp only [CharRun.contains, Bool.and_eq_true, decide_eq_true_eq, beq_iff_eq] at hcode
  obtain ⟨target, htarget⟩ : ∃ target, target = run.target + (code - run.first) := ⟨_, rfl⟩
  rw [CharRun.image, ← htarget]
  refine ⟨by omega, ?_⟩
  simp only [isFixedCode, Bool.and_eq_true, Bool.not_eq_true', Option.isNone_iff_eq_none,
    List.any_eq_false, List.lookup_eq_none_iff, List.find?_eq_none, CharRun.contains,
    decide_eq_true_eq, beq_iff_eq, bne_iff_ne]
  refine ⟨⟨fun range hrange => ?_, fun ligature hligature => ?_⟩, fun other hother => ?_⟩
  · have havoids := hseen range hrange
    omega
  · have havoids := hletters ligature hligature
    omega
  · rintro ⟨⟨hfirst, hlast⟩, hstep⟩
    rcases hapart other hother with havoids | ⟨⟨hstride, hother⟩, hodd⟩
    · omega
    · rw [hstride] at hcode
      rw [hother] at hstep
      omega

/-- Mapping what a character is mapped to changes nothing. -/
theorem mapped_of_mem_mapped {char result : Char} (hresult : result ∈ mapped char) :
    mapped result = [result] := by
  apply mapped_of_isFixedCode
  simp only [mapped] at hresult
  split at hresult
  case isTrue => cases hresult
  case isFalse hseen =>
      split at hresult
      case h_1 letters hligature =>
          obtain ⟨front, rest, hsplit, -⟩ := List.lookup_eq_some_iff.1 hligature
          have hmem : (char.toNat, letters) ∈ ligatures := by simp [hsplit]
          exact List.all_eq_true.1 (List.all_eq_true.1 ligatures_settle _ hmem) result hresult
      case h_2 run hligature hrun =>
          have hcontains : run.contains char.toNat = true := by simpa using List.find?_some hrun
          obtain ⟨hsmall, hfixed⟩ :=
            isFixedCode_image (List.mem_of_find?_eq_some hrun) hcontains
          rw [List.mem_singleton.1 hresult, toNat_ofNat hsmall]
          exact hfixed
      case h_3 hligature hrun =>
          rw [List.mem_singleton.1 hresult]
          simp [isFixedCode, hligature, hrun, hseen]

theorem isFixedCode_of_ascii :
    ∀ code < 0x80, ¬ (0x41 ≤ code ∧ code ≤ 0x5a) → isFixedCode code = true := by
  decide +kernel

/-- The characters of domain names in normal form. -/
structure IsPlain (char : Char) : Prop where
  ascii : char.toNat < 0x80
  domain : isDomainChar char = true
  fixed : mapped char = [char]

/-- Small letters, digits, the hyphen and the full stop. -/
theorem isPlain_of_code {char : Char}
    (hcode : (0x61 ≤ char.toNat ∧ char.toNat ≤ 0x7a) ∨ (0x30 ≤ char.toNat ∧ char.toNat ≤ 0x39) ∨
      char.toNat = 0x2d ∨ char.toNat = 0x2e) : IsPlain char := by
  have hascii : char.toNat < 0x80 := by omega
  have hallowed : char ∉ forbiddenInDomain := by
    intro hmem
    have hcodes : char.toNat ∈ forbiddenInDomain.map Char.toNat := List.mem_map_of_mem hmem
    simp [forbiddenInDomain] at hcodes
    omega
  constructor
  case ascii => exact hascii
  case domain =>
      have hcontrol : 0x20 < char.toNat := by omega
      have hdelete : char.toNat ≠ 0x7f := by omega
      simp [isDomainChar, hascii, hallowed, hcontrol, hdelete]
  case fixed => exact mapped_of_isFixedCode (isFixedCode_of_ascii _ hascii (by omega))

theorem isPlain_of_isDigit {char : Char} (hdigit : char.isDigit = true) : IsPlain char := by
  apply isPlain_of_code
  simp only [Char.isDigit, Bool.and_eq_true, decide_eq_true_eq] at hdigit
  have hleast : 0x30 ≤ char.toNat := hdigit.1
  have hmost : char.toNat ≤ 0x39 := hdigit.2
  omega

theorem isPlain_of_punycode {char : Char} (hdigit : Punycode.IsDigit char) :
    IsPlain char ∧ char ≠ '.' := by
  obtain ⟨value, hvalue, rfl⟩ := hdigit
  have hcode : (Punycode.digit value).toNat =
      if value < 26 then 97 + value else 48 + (value - 26) := by
    rw [Punycode.digit]
    split
    · exact toNat_ofNat (by simp; omega)
    · exact toNat_ofNat (by simp; omega)
  refine ⟨isPlain_of_code ?_, fun hstop => ?_⟩
  · rw [hcode]
    split <;> omega
  · have := hcode.symm.trans (congrArg Char.toNat hstop)
    simp at this
    split at this <;> omega

theorem IsPlain.ne_percent {char : Char} (hplain : IsPlain char) : char ≠ '%' := by
  rintro rfl
  exact absurd hplain.domain (by decide)

/-! ## Domain names -/

theorem encode_singleton {char : Char} (hascii : char.toNat < 0x80) :
    Utf8.encode (String.singleton char) = [UInt8.ofNat char.toNat] := by
  have hencode : String.utf8EncodeChar char = [UInt8.ofNat char.toNat] :=
    if_pos (Nat.le_of_lt_succ hascii)
  rw [Utf8.encode, String.toUTF8, String.toByteArray_singleton, List.utf8Encode_singleton, hencode]
  simp only [ByteArray.toList, List.toByteArray, List.toByteArray.loop]
  rw [ByteArray.toList.loop, ByteArray.toList.loop]
  rfl

theorem percentDecode_cons {char : Char} (hchar : char ≠ '%') (text : List Char) :
    percentDecode (char :: text) = Utf8.encode (String.singleton char) ++ percentDecode text := by
  rw [percentDecode]
  rintro high low rest rfl
  exact absurd rfl hchar

theorem parts_percentDecode {text : List Char} (hplain : ∀ char ∈ text, IsPlain char) :
    Utf8.parts (percentDecode text) = text.map some := by
  induction text with
  | nil => simp [percentDecode, Utf8.parts]
  | cons char text ih =>
      obtain ⟨hchar, hrest⟩ := List.forall_mem_cons.1 hplain
      have hascii := hchar.ascii
      have hbyte : (UInt8.ofNat char.toNat).toNat = char.toNat := by
        rw [UInt8.toNat_ofNat', Nat.mod_eq_of_lt (by omega)]
      have hless : UInt8.ofNat char.toNat < 0x80 := by
        rw [UInt8.lt_iff_toNat_lt, hbyte]
        exact hascii
      rw [percentDecode_cons hchar.ne_percent, encode_singleton hascii, List.singleton_append,
        Utf8.parts, Utf8.part, if_pos hless, hbyte, Char.ofNat_toNat, ih hrest, List.map_cons]

theorem decode?_percentDecode {text : List Char} (hplain : ∀ char ∈ text, IsPlain char) :
    Utf8.decode? (percentDecode text) = some (String.ofList text) := by
  have hall : (text.map some).mapM id = some text := by
    rw [mapM_eq_some_iff, List.forall₂_map_left_iff]
    exact List.forall₂_same.2 fun _ _ => rfl
  rw [Utf8.decode?, parts_percentDecode hplain, hall, Option.map_some]

/-- A domain name whose labels stay as they are. -/
structure IsDomain (domain : List Char) : Prop where
  plain : ∀ char ∈ domain, IsPlain char
  labels : ∀ label ∈ domain.splitOn '.', labelText? label = some label

theorem IsDomain.domainText? {domain : List Char} (hdomain : IsDomain domain) :
    domainText? (percentDecode domain) = some domain := by
  have hmapped : domain.flatMap mapped = domain := by
    rw [List.flatMap_congr fun char hchar => (hdomain.plain char hchar).fixed]
    simp
  have hall : domain.all isDomainChar = true :=
    List.all_eq_true.2 fun char hchar => (hdomain.plain char hchar).domain
  have hlabels : (domain.splitOn '.').mapM labelText? = some (domain.splitOn '.') :=
    mapM_eq_some_iff.2 (List.forall₂_same.2 hdomain.labels)
  rw [Endpoint.domainText?, decode?_percentDecode hdomain.plain]
  simp only [Option.bind_eq_bind, Option.bind_some, String.toList_ofList, hmapped, hall, if_true,
    hlabels, List.intercalate_splitOn, Option.pure_def]

theorem not_any_foreign {text : List Char} (hascii : ∀ char ∈ text, char.toNat < 0x80) :
    ¬ text.any (0x80 ≤ ·.toNat) = true := by
  rw [Bool.not_eq_true, List.any_eq_false]
  intro char hchar
  simpa using hascii char hchar

/-- A label of ASCII characters is its own ASCII form, if it has one. -/
theorem eq_of_labelText? {label result : List Char}
    (hascii : ¬ label.any (0x80 ≤ ·.toNat) = true) (hresult : labelText? label = some result) :
    result = label := by
  unfold labelText? at hresult
  rw [if_neg hascii] at hresult
  split at hresult
  · split at hresult
    · split at hresult
      · exact (Option.some.inj hresult).symm
      · cases hresult
    · cases hresult
  · exact (Option.some.inj hresult).symm

section

variable {label : List Char}
  (hlabel : ∀ char ∈ label, isDomainChar char = true ∧ mapped char = [char] ∧ char ≠ '.')

include hlabel

/-- The characters of an encoded label: its mark, its ASCII characters and the digits. -/
theorem isPlain_of_mem_encoded {char : Char}
    (hchar : char ∈ ['x', 'n', '-', '-'] ++ Punycode.encode label) : IsPlain char ∧ char ≠ '.' := by
  rcases List.mem_append.1 hchar with hmark | hnumbers
  · simp only [List.mem_cons, List.not_mem_nil, or_false] at hmark
    rcases hmark with rfl | rfl | rfl | rfl <;> exact ⟨isPlain_of_code (by decide), by decide⟩
  · rcases Punycode.mem_encode hnumbers with ⟨hmem, hascii⟩ | rfl | hdigit
    · obtain ⟨hdomain, hfixed, hstop⟩ := hlabel char hmem
      exact ⟨⟨hascii, hdomain, hfixed⟩, hstop⟩
    · exact ⟨isPlain_of_code (by decide), by decide⟩
    · exact isPlain_of_punycode hdigit

/-- An encoded label stands for characters that are not all ASCII, and is kept. -/
theorem labelText?_encoded (hforeign : label.any (0x80 ≤ ·.toNat) = true) :
    labelText? (['x', 'n', '-', '-'] ++ Punycode.encode label) =
      some (['x', 'n', '-', '-'] ++ Punycode.encode label) := by
  have hascii := not_any_foreign fun _ hchar => (isPlain_of_mem_encoded hlabel hchar).1.ascii
  have hall : label.all (fun char => mapped char = [char]) = true :=
    List.all_eq_true.2 fun char hchar => decide_eq_true (hlabel char hchar).2.1
  unfold labelText?
  rw [if_neg hascii]
  simp only [List.cons_append, List.nil_append, Punycode.decode?_encode, hforeign, hall,
    Bool.and_self, if_true]

/-- The ASCII form of a label is made of plain characters and is its own ASCII form. -/
theorem labelText?_idem {result : List Char} (hresult : labelText? label = some result) :
    (∀ char ∈ result, IsPlain char ∧ char ≠ '.') ∧ labelText? result = some result := by
  by_cases hforeign : label.any (0x80 ≤ ·.toNat) = true
  · have hencoded : labelText? label = some (['x', 'n', '-', '-'] ++ Punycode.encode label) :=
      if_pos hforeign
    obtain rfl := Option.some.inj (hencoded.symm.trans hresult)
    exact ⟨fun _ => isPlain_of_mem_encoded hlabel, labelText?_encoded hlabel hforeign⟩
  · obtain rfl := eq_of_labelText? hforeign hresult
    refine ⟨fun char hchar => ?_, hresult⟩
    obtain ⟨hdomain, hfixed, hstop⟩ := hlabel char hchar
    have hascii : char.toNat < 0x80 := by
      by_contra hmore
      exact hforeign (List.any_eq_true.2 ⟨char, hchar, by simpa using hmore⟩)
    exact ⟨⟨hascii, hdomain, hfixed⟩, hstop⟩

end

theorem isDomain_of_domainText? {bytes : Bytes} {domain : List Char}
    (hdomain : domainText? bytes = some domain) : IsDomain domain := by
  obtain ⟨decoded, -, hchecked⟩ := Option.bind_eq_some_iff.1 hdomain
  let text := decoded.toList.flatMap mapped
  by_cases hall : text.all isDomainChar = true
  · rw [if_pos hall] at hchecked
    obtain ⟨labels, hlabels, hjoined⟩ := Option.bind_eq_some_iff.1 hchecked
    obtain rfl := Option.some.inj hjoined
    have hpaired := mapM_eq_some_iff.1 hlabels
    have hchars : ∀ char ∈ text, isDomainChar char = true ∧ mapped char = [char] := by
      intro char hchar
      obtain ⟨source, -, hmapped⟩ := List.mem_flatMap.1 hchar
      exact ⟨List.all_eq_true.1 hall char hchar, mapped_of_mem_mapped hmapped⟩
    have hidem : ∀ label ∈ labels, (∀ char ∈ label, IsPlain char ∧ char ≠ '.') ∧
        labelText? label = some label := by
      intro label hlabel
      obtain ⟨source, hsource, hresult⟩ := exists_mem_of_forall₂ hpaired label hlabel
      refine labelText?_idem (fun char hchar => ?_) hresult
      obtain ⟨hmem, hstop⟩ := mem_of_mem_splitOn hsource hchar
      exact ⟨(hchars char hmem).1, (hchars char hmem).2, hstop⟩
    have hne : labels ≠ [] := by
      rintro rfl
      exact List.splitOn_ne_nil _ _ (List.forall₂_nil_right_iff.1 hpaired)
    have hsplit := List.splitOn_intercalate '.' (fun label hlabel hmem =>
      ((hidem label hlabel).1 _ hmem).2 rfl) hne
    constructor
    case labels =>
        rw [hsplit]
        exact fun label hlabel => (hidem label hlabel).2
    case plain =>
        intro char hchar
        rcases mem_intercalate hchar with rfl | ⟨label, hlabel, hmem⟩
        · exact isPlain_of_code (by decide)
        · exact ((hidem label hlabel).1 char hmem).1
  · rw [if_neg hall] at hchecked
    cases hchecked

theorem isDomain_dottedText {numbers : List Nat} (hne : numbers ≠ []) :
    IsDomain (dottedText numbers) := by
  constructor
  case plain =>
      intro char hchar
      rcases mem_intercalate hchar with rfl | ⟨part, hpart, hmem⟩
      · exact isPlain_of_code (by decide)
      · obtain ⟨number, -, rfl⟩ := List.mem_map.1 hpart
        exact isPlain_of_isDigit (isDigit_of_mem_toDigits char hmem)
  case labels =>
      intro label hlabel
      rw [splitOn_dottedText hne] at hlabel
      obtain ⟨number, -, rfl⟩ := List.mem_map.1 hlabel
      have hascii : ¬ (Nat.toDigits 10 number).any (0x80 ≤ ·.toNat) = true :=
        not_any_foreign fun char hchar =>
          (isPlain_of_isDigit (isDigit_of_mem_toDigits char hchar)).ascii
      unfold labelText?
      rw [if_neg hascii]
      split
      case h_1 hmark =>
          have hdigit := isDigit_of_mem_toDigits 'x' (hmark ▸ List.mem_cons_self)
          cases hdigit
      case h_2 => rfl

theorem endsInNumber_dottedText (a b c d : Nat) :
    endsInNumber (dottedText [a, b, c, d]) = true := by
  have hreversed : ((dottedText [a, b, c, d]).splitOn '.').reverse =
      [Nat.toDigits 10 d, Nat.toDigits 10 c, Nat.toDigits 10 b, Nat.toDigits 10 a] := by
    rw [splitOn_dottedText (List.cons_ne_nil _ _)]
    rfl
  have hdigits : (Nat.toDigits 10 d).all Char.isDigit = true :=
    List.all_eq_true.2 isDigit_of_mem_toDigits
  simp [endsInNumber, hreversed, hdigits, Nat.toDigits_ne_nil]

/-! ## Hosts -/

namespace Host

/-- What a host is read as. -/
inductive IsNormal : Host → Prop
  | name {domain : List Char} (hne : domain ≠ []) (hdomain : IsDomain domain)
      (hnumber : endsInNumber domain = false) : IsNormal (.name domain)
  | ipv4 {address : Nat} (haddress : address < 0x100000000) : IsNormal (.ipv4 address)
  | ipv6 {pieces : List Nat} (hlength : pieces.length = 8)
      (hpieces : ∀ number ∈ pieces, number < 0x10000) : IsNormal (.ipv6 pieces)

theorem isNormal_of_parse {text : List Char} {host : Host} (hparse : parse text = .ok host) :
    host.IsNormal := by
  unfold parse at hparse
  split at hparse
  case h_1 result hbrackets =>
      unfold bracketed? at hbrackets
      split at hbrackets
      · split at hbrackets
        · obtain rfl := Option.some.inj hbrackets
          obtain ⟨pieces, rfl, hlength, hpieces⟩ := exists_pieces_of_parseIpv6 hparse
          exact .ipv6 hlength hpieces
        · obtain rfl := Option.some.inj hbrackets
          cases hparse
      · cases hbrackets
  case h_2 hbrackets =>
      split at hparse
      · cases hparse
      · cases hparse
      case h_3 domain hne hdomain =>
          split at hparse
          case isTrue =>
              obtain ⟨address, haddress, rfl⟩ := exists_address_of_parseIpv4 hparse
              exact .ipv4 haddress
          case isFalse hnumber =>
              cases hparse
              exact .name hne (isDomain_of_domainText? hdomain) (by simpa using hnumber)

theorem parse_of_isDomain {domain : List Char} (hne : domain ≠ []) (hdomain : IsDomain domain) :
    parse domain = if endsInNumber domain then parseIpv4 domain else .ok (.name domain) := by
  have hbrackets : bracketed? domain = none := by
    unfold bracketed?
    split
    case h_1 rest =>
        have hbracket := (hdomain.plain '[' List.mem_cons_self).domain
        exact absurd hbracket (by decide)
    case h_2 => rfl
  obtain ⟨first, rest, rfl⟩ := List.exists_cons_of_ne_nil hne
  simp only [parse, hbrackets, hdomain.domainText?]

theorem text_ipv4 (address : Nat) :
    text (.ipv4 address) = dottedText
      [address / 0x1000000, address / 0x10000 % 256, address / 256 % 256, address % 256] := rfl

theorem dottedText_ne_nil (number : Nat) (numbers : List Nat) :
    dottedText (number :: numbers) ≠ [] := by
  intro hnil
  have hsplit := splitOn_dottedText (List.cons_ne_nil number numbers)
  rw [hnil] at hsplit
  exact Nat.toDigits_ne_nil (List.cons.inj hsplit).1.symm

theorem IsNormal.parse_text {host : Host} (hnormal : host.IsNormal) :
    parse host.text = .ok host := by
  cases hnormal with
  | name hne hdomain hnumber =>
      rw [text, parse_of_isDomain hne hdomain, hnumber]
      rfl
  | @ipv4 address haddress =>
      have hsum : address / 0x1000000 * 0x1000000 + address / 0x10000 % 256 * 0x10000 +
          address / 256 % 256 * 256 + address % 256 = address := by omega
      rw [text_ipv4, parse_of_isDomain (dottedText_ne_nil _ _)
        (isDomain_dottedText (List.cons_ne_nil _ _)), endsInNumber_dottedText, if_pos rfl,
        parseIpv4_dottedText (by omega) (by omega) (by omega) (by omega), hsum]
  | @ipv6 pieces hlength hpieces =>
      have hbrackets : bracketed? (text (.ipv6 pieces)) = some (parseIpv6 (ipv6Text pieces)) := by
        simp [text, bracketed?]
      rw [parse, hbrackets]
      exact parseIpv6_ipv6Text hlength hpieces

end Host

/-! ## What surrounds a host -/

/-- What may stand behind the user info and before the path of a URL. -/
def IsPlaceChar (char : Char) : Prop :=
  0x20 < char.toNat ∧ char ∉ ['/', '\\', '@', '?', '#']

theorem IsPlain.isPlaceChar {char : Char} (hplain : IsPlain char) : IsPlaceChar char := by
  have hdomain := hplain.domain
  simp only [isDomainChar, hplain.ascii, if_true, Bool.and_eq_true, decide_eq_true_eq] at hdomain
  refine ⟨hdomain.1.1, fun hmem => ?_⟩
  simp only [List.mem_cons, List.not_mem_nil, or_false] at hmem
  rcases hmem with rfl | rfl | rfl | rfl | rfl <;> exact absurd hplain.domain (by decide)

theorem IsPlain.ne_colon {char : Char} (hplain : IsPlain char) : char ≠ ':' ∧ char ≠ '[' := by
  constructor <;> rintro rfl <;> exact absurd hplain.domain (by decide)

theorem isPlain_digitChar {digit : Nat} (hdigit : digit < 16) : IsPlain (Nat.digitChar digit) := by
  apply isPlain_of_code
  interval_cases digit <;> decide

theorem mem_piecesText {pieces : List Nat} {char : Char} (hchar : char ∈ piecesText pieces) :
    char = ':' ∨ IsPlain char := by
  rcases mem_intercalate hchar with hcolon | ⟨part, hpart, hmem⟩
  · exact .inl hcolon
  · obtain ⟨number, -, rfl⟩ := List.mem_map.1 hpart
    obtain ⟨digit, hdigit, rfl⟩ := exists_digit_of_mem_toDigits (by omega) (by omega) hmem
    exact .inr (isPlain_digitChar hdigit)

theorem mem_ipv6Text {pieces : List Nat} {char : Char} (hchar : char ∈ ipv6Text pieces) :
    char = ':' ∨ IsPlain char := by
  simp only [ipv6Text] at hchar
  split at hchar
  · exact mem_piecesText hchar
  · rcases List.mem_append.1 hchar with hfront | hback
    · rcases List.mem_append.1 hfront with hpieces | hcolons
      · exact mem_piecesText hpieces
      · exact .inl (by simpa using hcolons)
    · exact mem_piecesText hback

section

variable {rest : List Char} (hrest : ∀ char ∈ rest.head?, char = ':')

include hrest

theorem splitPort_rest : splitPort false rest = ([], rest) := by
  cases rest with
  | nil => rfl
  | cons char rest => simp [splitPort, hrest char rfl]

theorem splitPort_outside {front : List Char} (hfront : ∀ char ∈ front, char ≠ ':' ∧ char ≠ '[') :
    splitPort false (front ++ rest) = (front, rest) := by
  induction front with
  | nil => exact splitPort_rest hrest
  | cons char front ih =>
      obtain ⟨⟨hcolon, hbracket⟩, hothers⟩ := List.forall_mem_cons.1 hfront
      simp [splitPort, hcolon, hbracket, ih hothers]

theorem splitPort_inside {body : List Char} (hbody : ']' ∉ body) :
    splitPort true (body ++ ']' :: rest) = (body ++ [']'], rest) := by
  induction body with
  | nil => simp [splitPort, splitPort_rest hrest]
  | cons char body ih =>
      rw [List.mem_cons, not_or] at hbody
      simp [splitPort, Ne.symm hbody.1, ih hbody.2]

end

namespace Host

variable {host : Host}

theorem IsNormal.text_ne_nil (hnormal : host.IsNormal) : host.text ≠ [] := by
  cases hnormal with
  | name hne => exact hne
  | ipv4 => exact dottedText_ne_nil _ _
  | ipv6 => exact List.cons_ne_nil _ _

theorem IsNormal.isPlaceChar (hnormal : host.IsNormal) :
    ∀ char ∈ host.text, IsPlaceChar char := by
  intro char hchar
  cases hnormal with
  | name _ hdomain => exact (hdomain.plain char hchar).isPlaceChar
  | ipv4 => exact ((isDomain_dottedText (List.cons_ne_nil _ _)).plain char hchar).isPlaceChar
  | ipv6 =>
      rcases List.mem_append.1 hchar with hfront | hclose
      · rcases List.mem_cons.1 hfront with rfl | hbody
        · exact ⟨by decide, by decide⟩
        · rcases mem_ipv6Text hbody with rfl | hplain
          · exact ⟨by decide, by decide⟩
          · exact hplain.isPlaceChar
      · obtain rfl := List.mem_singleton.1 hclose
        exact ⟨by decide, by decide⟩

/-- A host ends where its port number begins. -/
theorem IsNormal.splitPort (hnormal : host.IsNormal) {rest : List Char}
    (hrest : ∀ char ∈ rest.head?, char = ':') :
    Endpoint.splitPort false (host.text ++ rest) = (host.text, rest) := by
  cases hnormal with
  | name _ hdomain =>
      exact splitPort_outside hrest fun char hchar => (hdomain.plain char hchar).ne_colon
  | ipv4 =>
      exact splitPort_outside hrest fun char hchar =>
        ((isDomain_dottedText (List.cons_ne_nil _ _)).plain char hchar).ne_colon
  | @ipv6 pieces =>
      have hbody : ']' ∉ ipv6Text pieces := by
        intro hclose
        rcases mem_ipv6Text hclose with hcolon | hplain
        · cases hcolon
        · exact absurd hplain.domain (by decide)
      have hopen (text : List Char) : Endpoint.splitPort false ('[' :: text) =
          ('[' :: (Endpoint.splitPort true text).1, (Endpoint.splitPort true text).2) := rfl
      have htext : text (.ipv6 pieces) ++ rest = '[' :: (ipv6Text pieces ++ ']' :: rest) := by
        simp [text]
      rw [htext, hopen, splitPort_inside hrest hbody]
      rfl

end Host

end ClassMetrics.Endpoint
