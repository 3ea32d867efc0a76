import Mathlib
import ClassMetrics.ClassFile.Decode
import ClassMetrics.Proofs.GrammarLayout

/-!
The two readers of class files on files that the grammar accepts. They look up the same names and
find the same code attributes, but the grammar reader goes by the first code attribute of a method
and the framed reader decodes them all and goes by the last. Main statement: they agree where that
makes no difference, and if the file can be decoded, only there.
-/

namespace ClassMetrics.ClassFile

section Names

/-- The same constants are found for names. -/
def SameNames (first second : List NameConstant) : Prop :=
  ∀ (index : Nat) (constant : NameConstant), constant ≠ .other →
    (first[index]? = some constant ↔ second[index]? = some constant)

variable {first second : List NameConstant}

theorem textAt_eq_error {slots : List NameConstant} {index : Nat}
    (h : ¬∃ value, slots[index]? = some (.text value)) :
    textAt slots index = .error (.constant index .text) := by
  unfold textAt
  split
  · next value hvalue => exact absurd ⟨value, hvalue⟩ h
  · rfl

theorem classNameAt_eq_error {slots : List NameConstant} {index : Nat}
    (h : ¬∃ name, slots[index]? = some (.classRef name)) :
    classNameAt slots index = .error (.constant index .className) := by
  unfold classNameAt
  split
  · next name hname => exact absurd ⟨name, hname⟩ h
  · rfl

theorem SameNames.textAt_eq (h : SameNames first second) (index : Nat) :
    textAt first index = textAt second index := by
  by_cases hfound : ∃ value, first[index]? = some (.text value)
  · obtain ⟨value, hvalue⟩ := hfound
    rw [textAt_eq_ok.2 hvalue, textAt_eq_ok.2 ((h index _ (by simp)).1 hvalue)]
  · have hmissing : ¬∃ value, second[index]? = some (.text value) := by
      rintro ⟨value, hvalue⟩
      exact hfound ⟨value, (h index _ (by simp)).2 hvalue⟩
    rw [textAt_eq_error hfound, textAt_eq_error hmissing]

theorem SameNames.classNameAt_eq (h : SameNames first second) (index : Nat) :
    classNameAt first index = classNameAt second index := by
  by_cases hfound : ∃ name, first[index]? = some (.classRef name)
  · obtain ⟨name, hname⟩ := hfound
    have hsecond := (h index _ (by simp)).1 hname
    simp only [classNameAt, hname, hsecond, h.textAt_eq name]
  · have hmissing : ¬∃ name, second[index]? = some (.classRef name) := by
      rintro ⟨name, hname⟩
      exact hfound ⟨name, (h index _ (by simp)).2 hname⟩
    rw [classNameAt_eq_error hfound, classNameAt_eq_error hmissing]

theorem SameNames.superNameAt_eq (h : SameNames first second) (index : Nat) :
    superNameAt first index = superNameAt second index := by
  rw [superNameAt, superNameAt, h.classNameAt_eq]

/-- The constants that the grammar reader makes of a pool name what the pool names, if its texts are
read by the same rule. -/
theorem sameNames_constantSlots {pool : List PoolEntry} {count : Nat} {decodeText : Bytes → String}
    (hcount : IsPoolCount pool count)
    (htexts : ∀ text, .utf8 text ∈ constantSlots pool count →
      decodeText text = Utf8.decodeLossy text) :
    SameNames ((constantSlots pool count).map (·.naming decodeText)) (poolSlots pool) := by
  intro index constant hconstant
  have hnaming : ∀ entry, Numbered pool index entry →
      entry.constant.naming decodeText = entry.naming := by
    intro entry hentry
    cases entry with
    | utf8 text fits =>
        have hfound : (constantSlots pool count)[index]? = some (.utf8 text) :=
          (getElem?_constantSlots hcount (by simp)).2 ⟨_, hentry, rfl⟩
        exact congrArg NameConstant.text (htexts text (List.mem_of_getElem? hfound))
    | classRef name => rfl
    | other tag content known => exact opaqueConstant_naming decodeText tag content
  rw [List.getElem?_map, Option.map_eq_some_iff, getElem?_poolSlots hconstant]
  constructor
  · rintro ⟨found, hfound, rfl⟩
    have hnotEmpty : found ≠ .empty := by
      rintro rfl
      exact hconstant rfl
    obtain ⟨entry, hentry, rfl⟩ := (getElem?_constantSlots hcount hnotEmpty).1 hfound
    exact ⟨entry, hentry, (hnaming entry hentry).symm⟩
  · rintro ⟨entry, hentry, rfl⟩
    rw [← hnaming entry hentry] at hconstant ⊢
    have hnotEmpty : entry.constant ≠ .empty := by
      intro hempty
      rw [hempty] at hconstant
      exact hconstant rfl
    exact ⟨entry.constant, (getElem?_constantSlots hcount hnotEmpty).2 ⟨entry, hentry, rfl⟩, rfl⟩

end Names

namespace Grammar

section Codes

/-- What the body of a code attribute stands for: its instructions and the number of its
handlers. -/
def CodeBody.meaning (body : CodeBody) : Except DecodeFault (List Instruction × Nat) := do
  return (← instructionsOf body.code, body.handlers)

/-- The code attributes of a member, in their order. -/
def Member.codes (member : Member) : List CodeBody :=
  member.attributes.filterMap (·.code?)

/-- It makes no difference which code attribute counts: if the first one can be decoded, then all of
them can, and the last one stands for the same. -/
def Settled (codes : List CodeBody) : Prop :=
  ∀ first ∈ codes.head?, ∀ meaning, first.meaning = .ok meaning →
    (∀ body ∈ codes, ∃ found, body.meaning = .ok found) ∧
      ∀ last ∈ codes.getLast?, last.meaning = .ok meaning

/-- What the first code attribute stands for. -/
def firstMeaning (codes : List CodeBody) : Except DecodeFault (List Instruction × Nat) :=
  (codes.head?.map CodeBody.meaning).getD (.ok ([], 0))

/-- What the last code attribute stands for, all of them being decoded. -/
def lastMeaning (codes : List CodeBody) : Except DecodeFault (List Instruction × Nat) := do
  return (← codes.mapM CodeBody.meaning).getLast?.getD ([], 0)

theorem lastMeaning_cons_eq_ok {first : CodeBody} {others : List CodeBody}
    {meaning : List Instruction × Nat} :
    lastMeaning (first :: others) = .ok meaning ↔
      (∀ body ∈ first :: others, ∃ found, body.meaning = .ok found) ∧
        ∀ last ∈ (first :: others).getLast?, last.meaning = .ok meaning := by
  unfold lastMeaning
  rw [except_bind_eq_ok]
  constructor
  · rintro ⟨found, hfound, h⟩
    have hall := mapM_eq_ok.1 hfound
    refine ⟨exists_forall₂_iff.1 ⟨found, hall⟩, ?_⟩
    intro last hlast
    obtain ⟨value, hvalue, hmeaning⟩ := getLast?_of_forall₂ hall hlast
    rw [Option.mem_def.1 hvalue] at h
    rw [hmeaning]
    exact h
  · rintro ⟨hall, hmeaning⟩
    obtain ⟨found, hfound⟩ := exists_forall₂_iff.2 hall
    have hlast := List.getLast?_eq_some_getLast (List.cons_ne_nil first others)
    obtain ⟨value, hvalue, hother⟩ := getLast?_of_forall₂ hfound hlast
    refine ⟨found, mapM_eq_ok.2 hfound, ?_⟩
    rw [Option.mem_def.1 hvalue, ← hmeaning _ hlast, hother]
    rfl

theorem lastMeaning_cons_eq_error {first : CodeBody} {others : List CodeBody} {fault : DecodeFault}
    (h : first.meaning = .error fault) : lastMeaning (first :: others) = .error fault := by
  rw [lastMeaning, List.mapM_cons, h]
  rfl

theorem Settled.lastMeaning_eq {codes : List CodeBody} (h : Settled codes) :
    lastMeaning codes = firstMeaning codes := by
  cases codes with
  | nil => rfl
  | cons first others =>
      change lastMeaning (first :: others) = first.meaning
      cases hmeaning : first.meaning with
      | error fault => exact lastMeaning_cons_eq_error hmeaning
      | ok meaning => exact lastMeaning_cons_eq_ok.2 (h first rfl meaning hmeaning)

theorem settled_of_meanings {codes : List CodeBody} {meaning : List Instruction × Nat}
    (hfirst : firstMeaning codes = .ok meaning) (hlast : lastMeaning codes = .ok meaning) :
    Settled codes := by
  cases codes with
  | nil => rintro first ⟨⟩
  | cons first others =>
      intro body hbody found hfound
      obtain rfl := Option.some.inj hbody
      obtain rfl := Except.ok.inj (hfirst.symm.trans hfound)
      exact lastMeaning_cons_eq_ok.1 hlast

end Codes

section Resolving

/-- A method from what its code stands for. -/
def methodWith (slots : List NameConstant) (member : Member)
    (code : Except DecodeFault (List Instruction × Nat)) : Except DecodeFault MethodBody := do
  let name ← textAt slots member.name
  let descriptor ← textAt slots member.descriptor
  let (instructions, handlers) ← code
  return ⟨name, descriptor, handlers, instructions⟩

/-- A class from what the codes of its methods stand for. -/
def classWith (slots : List NameConstant)
    (code : List CodeBody → Except DecodeFault (List Instruction × Nat)) (parsed : ParsedClass) :
    Except DecodeFault CompiledClass := do
  let name ← classNameAt slots parsed.thisClass
  let super? ← superNameAt slots parsed.superClass
  let interfaces ← parsed.interfaces.mapM (classNameAt slots)
  let methods ← parsed.methods.mapM fun member => methodWith slots member (code member.codes)
  assemble name super? interfaces parsed.fields.length methods

theorem methodOf_eq (slots : List NameConstant) (member : Member) :
    methodOf slots member = methodWith slots member (firstMeaning member.codes) := by
  unfold methodOf methodWith firstMeaning Member.codes
  rw [List.head?_filterMap]
  congr 1
  funext name
  congr 1
  funext descriptor
  cases member.attributes.findSome? (·.code?) with
  | none => rfl
  | some body =>
      change (instructionsOf body.code >>= _) = (CodeBody.meaning body >>= _)
      unfold CodeBody.meaning
      cases instructionsOf body.code with
      | error fault => rfl
      | ok instructions => rfl

theorem resolve_eq (decodeText : Bytes → String) (parsed : ParsedClass) :
    resolve decodeText parsed =
      classWith (parsed.pool.map (·.naming decodeText)) firstMeaning parsed := by
  have hmethods := funext (methodOf_eq (parsed.pool.map (·.naming decodeText)))
  unfold classWith
  rw [← hmethods]
  rfl

variable {decodeText : Bytes → String} {pool : List PoolEntry} {count : Nat}

/-- What an attribute of a method stands for, if it is code. -/
def Attribute.meaning (made : Attribute) : Except DecodeFault (Option (List Instruction × Nat)) :=
  match made.code? with
  | none => .ok none
  | some body => body.meaning.map some

theorem mapM_meaning (items : List Attribute) :
    (items.mapM Attribute.meaning).map (·.filterMap id) =
      (items.filterMap (·.code?)).mapM CodeBody.meaning := by
  induction items with
  | nil => rfl
  | cons first others ih =>
      rw [List.mapM_cons]
      cases hcode : first.code? with
      | none =>
          have hfirst : first.meaning = .ok none := by rw [Attribute.meaning, hcode]
          rw [List.filterMap_cons_none hcode, ← ih, hfirst]
          cases others.mapM Attribute.meaning with
          | error fault => rfl
          | ok found => rfl
      | some body =>
          have hfirst : first.meaning = body.meaning.map some := by rw [Attribute.meaning, hcode]
          rw [List.filterMap_cons_some hcode, List.mapM_cons, ← ih, hfirst]
          cases body.meaning with
          | error fault => rfl
          | ok meaning =>
              cases others.mapM Attribute.meaning with
              | error fault => rfl
              | ok found => rfl

/-- The framed reader makes of an attribute what the grammar reader has found in it. -/
theorem attributeValue_eq (hcount : IsPoolCount pool count)
    (htexts : ∀ text, .utf8 text ∈ constantSlots pool count →
      decodeText text = Utf8.decodeLossy text)
    {made : Attribute} {layout : AttributeLayout}
    (h : AttributeOf decodeText (constantSlots pool count) made layout) :
    Framed.attributeValue (poolSlots pool) layout = made.meaning := by
  have hname : ∀ text, (constantSlots pool count)[layout.name.toNat]? = some (.utf8 text) →
      textAt (poolSlots pool) layout.name.toNat = .ok (decodeText text) := by
    intro text hnamed
    rw [← (sameNames_constantSlots hcount htexts).textAt_eq, textAt_eq_ok, List.getElem?_map,
      hnamed]
    rfl
  cases h with
  | @code text body named isCode isBody holds =>
      have hread := (Framed.reads_codeBody body).run body.remaining
      simp only [List.append_assoc] at hread
      have hmeaning : made.meaning =
          (CodeBody.meaning ⟨body.code, body.handlers.items.length⟩).map some := by
        rw [Attribute.meaning, holds]
      rw [hmeaning, CodeBody.meaning, Framed.attributeValue, hname _ named]
      change (if decodeText text = "Code" then _ else _) = _
      rw [if_pos isCode, isBody, CodeLayout.bytes, hread]
      cases instructionsOf body.code with
      | error fault => rfl
      | ok instructions => rfl
  | other named isOther holds =>
      rw [Framed.attributeValue, hname _ named, Attribute.meaning, holds]
      exact if_neg isOther

/-- The framed reader makes of a method what its last code attribute stands for. -/
theorem methodValue_eq (hcount : IsPoolCount pool count)
    (htexts : ∀ text, .utf8 text ∈ constantSlots pool count →
      decodeText text = Utf8.decodeLossy text)
    {made : Member} {layout : MemberLayout}
    (h : MemberOf decodeText (constantSlots pool count) made layout) :
    Framed.methodValue (poolSlots pool) layout =
      methodWith (poolSlots pool) made (lastMeaning made.codes) := by
  have hattributes : layout.attributes.items.mapM (Framed.attributeValue (poolSlots pool)) =
      made.attributes.mapM Attribute.meaning := by
    apply mapM_congr_forall₂
    exact h.attributes.flip.imp fun _ _ hitem => attributeValue_eq hcount htexts hitem
  unfold Framed.methodValue methodWith lastMeaning Member.codes
  rw [h.name, h.descriptor, hattributes, ← mapM_meaning]
  cases made.attributes.mapM Attribute.meaning with
  | error fault => rfl
  | ok found => rfl

theorem methodWith_congr {first second : List NameConstant} (h : SameNames first second)
    (member : Member) (code : Except DecodeFault (List Instruction × Nat)) :
    methodWith first member code = methodWith second member code := by
  rw [methodWith, methodWith, h.textAt_eq, h.textAt_eq]

/-- The framed reader makes of a class what the last code attributes stand for. -/
theorem classValue_eq {layout : ClassLayout} {parsed : ParsedClass}
    (hcount : IsPoolCount layout.pool count) (h : ClassOf decodeText parsed layout count)
    (htexts : ∀ text, .utf8 text ∈ parsed.pool → decodeText text = Utf8.decodeLossy text) :
    Framed.classValue layout =
      classWith (parsed.pool.map (·.naming decodeText)) lastMeaning parsed := by
  have hmethodsOf := h.methods
  rw [h.pool] at htexts hmethodsOf ⊢
  have hnames := sameNames_constantSlots hcount htexts
  have hinterfaces : layout.interfaces.items.mapM
        (fun index => classNameAt (poolSlots layout.pool) index.toNat) =
      parsed.interfaces.mapM
        (classNameAt ((constantSlots layout.pool count).map (·.naming decodeText))) := by
    apply mapM_congr_forall₂
    refine h.interfaces.flip.imp fun word index hindex => ?_
    rw [hindex, hnames.classNameAt_eq]
  have hmethods : layout.methods.items.mapM (Framed.methodValue (poolSlots layout.pool)) =
      parsed.methods.mapM fun member =>
        methodWith ((constantSlots layout.pool count).map (·.naming decodeText)) member
          (lastMeaning member.codes) := by
    apply mapM_congr_forall₂
    refine hmethodsOf.flip.imp fun item member hmember => ?_
    rw [methodValue_eq hcount htexts hmember, methodWith_congr hnames]
  unfold Framed.classValue classWith
  dsimp only
  rw [hinterfaces, hmethods, h.thisClass, h.superClass, h.fields.length_eq, hnames.classNameAt_eq,
    hnames.superNameAt_eq]

theorem classWith_of_settled (slots : List NameConstant) {parsed : ParsedClass}
    (h : ∀ member ∈ parsed.methods, Settled member.codes) :
    classWith slots lastMeaning parsed = classWith slots firstMeaning parsed := by
  have hmethods : parsed.methods.mapM
        (fun member => methodWith slots member (lastMeaning member.codes)) =
      parsed.methods.mapM fun member => methodWith slots member (firstMeaning member.codes) := by
    apply mapM_congr_forall₂
    refine List.forall₂_same.2 fun member hmember => ?_
    rw [(h member hmember).lastMeaning_eq]
  rw [classWith, classWith, hmethods]

theorem methods_of_classWith {slots : List NameConstant}
    {code : List CodeBody → Except DecodeFault (List Instruction × Nat)} {parsed : ParsedClass}
    {compiled : CompiledClass} (h : classWith slots code parsed = .ok compiled) :
    List.Forall₂ (fun member body => methodWith slots member (code member.codes) = .ok body)
      parsed.methods compiled.methods := by
  obtain ⟨name, -, h⟩ := except_bind_eq_ok.1 h
  obtain ⟨super?, -, h⟩ := except_bind_eq_ok.1 h
  obtain ⟨interfaces, -, h⟩ := except_bind_eq_ok.1 h
  obtain ⟨methods, hmethods, h⟩ := except_bind_eq_ok.1 h
  obtain ⟨signatures, -, rfl⟩ := assemble_eq_ok.1 h
  exact mapM_eq_ok.1 hmethods

theorem code_of_methodWith {slots : List NameConstant} {member : Member}
    {code : Except DecodeFault (List Instruction × Nat)} {body : MethodBody}
    (h : methodWith slots member code = .ok body) :
    code = .ok (body.instructions, body.handlers) := by
  obtain ⟨name, -, h⟩ := except_bind_eq_ok.1 h
  obtain ⟨descriptor, -, h⟩ := except_bind_eq_ok.1 h
  obtain ⟨meaning, hcode, h⟩ := except_bind_eq_ok.1 h
  obtain rfl := Except.ok.inj h
  exact hcode

/-- If going by the first code attributes gives a class, then going by the last ones gives the same
class exactly when it makes no difference for any method. -/
theorem classWith_eq_ok_iff {slots : List NameConstant} {parsed : ParsedClass}
    {compiled : CompiledClass} (h : classWith slots firstMeaning parsed = .ok compiled) :
    classWith slots lastMeaning parsed = .ok compiled ↔
      ∀ member ∈ parsed.methods, Settled member.codes := by
  constructor
  · intro hlast member hmember
    have hboth := (methods_of_classWith h).mp (fun _ _ => And.intro) (methods_of_classWith hlast)
    obtain ⟨body, hfirstBody, hlastBody⟩ := exists_forall₂_iff.1 ⟨_, hboth⟩ member hmember
    exact settled_of_meanings (code_of_methodWith hfirstBody) (code_of_methodWith hlastBody)
  · intro hsettled
    rw [classWith_of_settled slots hsettled, h]

end Resolving

section Files

variable {decodeText : Bytes → String} {data : Bytes} {parsed : ParsedClass}

theorem parse_eq_ok : parse decodeText data = .ok parsed ↔
    ∃ next, classFile decodeText (Cursor.ofBytes data) = .ok (parsed, next) := by
  unfold parse
  change Except.map _ (classFile decodeText (Cursor.ofBytes data)) = _ ↔ _
  cases classFile decodeText (Cursor.ofBytes data) with
  | error fault => simp [Except.map]
  | ok read =>
      obtain ⟨made, next⟩ := read
      simp [Except.map]

/-- A file that can be parsed starts with a number of four bytes. -/
theorem exists_magic_of_parse (h : parse decodeText data = .ok parsed) :
    ∃ front back, data = front ++ back ∧ front.length = 4 := by
  obtain ⟨next, h⟩ := parse_eq_ok.1 h
  obtain ⟨magic, after, hmagic, -⟩ := Reader.bind_eq_ok.1 (classFile_eq_ok.1 h).1
  obtain ⟨digits, hpasses, hlength, -⟩ := number_ok hmagic
  exact ⟨digits, after.rest, hpasses.rest, hlength⟩

end Files

end Grammar

section Decoding

open Grammar

variable {decodeText : Bytes → String}

theorem decodeWith_append {front : Bytes} (hlength : front.length = 4) (back : Bytes) :
    decodeWith decodeText (front ++ back) =
      if front.bigEndian = magicNumber then decodeBody decodeText (front ++ back)
      else ⟨.error (.magic front.bigEndian), none⟩ := by
  rw [decodeWith, ← hlength, Bytes.split?_append]

theorem framed_decode_of_wrong_magic {front : Bytes} (hlength : front.length = 4) (back : Bytes)
    (hmagic : front.bigEndian ≠ magicNumber) :
    Framed.decode (front ++ back) = .error (.magic front.bigEndian) := by
  have hread : Framed.number 4 (Cursor.ofBytes (front ++ back)) =
      .ok (front.bigEndian, ⟨0 + front.length, back⟩) := by
    rw [← hlength]
    exact (Framed.reads_bytes front).bind_pure Bytes.bigEndian 0 back
  unfold Framed.decode Framed.classFile
  change Except.map _ (Framed.number 4 _ >>= _) = _
  rw [hread]
  change Except.map _
    ((if front.bigEndian ≠ magicNumber then _ else _ : Framed.FrameReader _) _) = _
  rw [if_pos hmagic]
  rfl

/-- What the two readers make of a file that can be parsed. -/
theorem exists_classWith_of_parse {data : Bytes} {parsed : ParsedClass}
    (hparse : parse decodeText data = .ok parsed) (hexact : parsed.Exact)
    (htexts : ∀ text, .utf8 text ∈ parsed.pool → decodeText text = Utf8.decodeLossy text) :
    (∃ fault, (decodeWith decodeText data).result = .error fault ∧
        Framed.decode data = .error fault) ∨
      ∃ slots, (decodeWith decodeText data).result = classWith slots firstMeaning parsed ∧
        Framed.decode data = classWith slots lastMeaning parsed := by
  obtain ⟨front, back, rfl, hlength⟩ := exists_magic_of_parse hparse
  rw [decodeWith_append hlength]
  by_cases hmagic : front.bigEndian = magicNumber
  · right
    have hdigits : number 4 (Cursor.ofBytes (front ++ back)) =
        .ok (magicNumber, ⟨0 + front.length, back⟩) := by
      rw [← hlength, ← hmagic]
      exact reads_digits front 0 back
    obtain ⟨next, hread⟩ := parse_eq_ok.1 hparse
    obtain ⟨htables, hend⟩ := classFile_eq_ok.1 hread
    obtain ⟨layout, count, hcount, hclass, hdata⟩ := tables_ok htables hexact ⟨_, hdigits⟩
    refine ⟨parsed.pool.map (·.naming decodeText), ?_, ?_⟩
    · rw [if_pos hmagic, decodeBody, hparse]
      exact resolve_eq decodeText parsed
    · change front ++ back = _ at hdata
      rw [hdata, framed_decode_bytes hcount, classValue_eq hcount hclass htexts]
  · left
    rw [if_neg hmagic]
    exact ⟨_, rfl, framed_decode_of_wrong_magic hlength back hmagic⟩

/-- The two readers agree on a file that can be parsed and whose attributes take as many bytes as
they declare, if it makes no difference for any method which of its code attributes counts: they
give the same class or the same fault. If the file can be decoded, they agree only then. -/
theorem decode_eq_framed_iff_settled (data : Bytes) (parsed : ParsedClass)
    (hparse : parse decodeText data = .ok parsed) (hexact : parsed.Exact)
    (htexts : ∀ text, .utf8 text ∈ parsed.pool → decodeText text = Utf8.decodeLossy text) :
    ((∀ method ∈ parsed.methods, Settled method.codes) →
        (decodeWith decodeText data).result = Framed.decode data) ∧
      ∀ compiled, (decodeWith decodeText data).result = .ok compiled →
        (Framed.decode data = .ok compiled ↔
          ∀ method ∈ parsed.methods, Settled method.codes) := by
  obtain ⟨fault, hfirst, hlast⟩ | ⟨slots, hfirst, hlast⟩ :=
    exists_classWith_of_parse hparse hexact htexts
  · rw [hfirst, hlast]
    exact ⟨fun _ => rfl, fun compiled h => nomatch h⟩
  · rw [hfirst, hlast]
    refine ⟨fun hsettled => (classWith_of_settled slots hsettled).symm, ?_⟩
    intro compiled hcompiled
    exact classWith_eq_ok_iff hcompiled

/-- A class file with a method that has two code attributes, of the given code arrays. -/
def twoCodesFile (first second : Bytes) : Bytes :=
  [0xca, 0xfe, 0xba, 0xbe, 0, 0, 0, 52, 0, 6,
    -- the constants: `A`, the class of that name, `f`, `()V`, `Code`
    1, 0, 1, 65, 7, 0, 1, 1, 0, 1, 102, 1, 0, 3, 40, 41, 86, 1, 0, 4, 67, 111, 100, 101,
    0, 0, 0, 2, 0, 0, 0, 0, 0, 0, 0, 1, 0, 0, 0, 3, 0, 4, 0, 2] ++
    codeAttribute first ++ codeAttribute second ++ [0, 0]
where
  codeAttribute (code : Bytes) : Bytes :=
    [0, 5] ++ Bytes.bigEndianBytes 4 (12 + code.length) ++ [0, 0, 0, 0] ++
      Bytes.bigEndianBytes 4 code.length ++ code ++ [0, 0, 0, 0]

def twoCodesClass (first second : Bytes) : ParsedClass where
  pool := [.empty, .utf8 [65], .classRef 1, .utf8 [102], .utf8 [40, 41, 86],
    .utf8 [67, 111, 100, 101]]
  thisClass := 2
  superClass := 0
  interfaces := []
  fields := []
  methods := [⟨3, 4, [attributeOf first, attributeOf second]⟩]
  attributes := []
where
  attributeOf (code : Bytes) : Attribute :=
    ⟨12 + code.length, 12 + code.length, some ⟨code, 0⟩⟩

theorem twoCodesClass_exact (first second : Bytes) : (twoCodesClass first second).Exact := by
  constructor <;> simp [twoCodesClass, twoCodesClass.attributeOf]

theorem twoCodesClass_texts (first second : Bytes) :
    ∀ text, .utf8 text ∈ (twoCodesClass first second).pool →
      ModifiedUtf8.decode text = Utf8.decodeLossy text := by
  intro text htext
  simp only [twoCodesClass, List.mem_cons, reduceCtorEq, Constant.utf8.injEq, List.not_mem_nil,
    false_or, or_false] at htext
  rcases htext with rfl | rfl | rfl | rfl <;> cbv

/-- Two code attributes of one code array make no difference. -/
theorem decode_eq_framed_of_same_codes :
    (∀ method ∈ (twoCodesClass [0xb1] [0xb1]).methods, Settled method.codes) ∧
      decode (twoCodesFile [0xb1] [0xb1]) = Framed.decode (twoCodesFile [0xb1] [0xb1]) := by
  have hsettled : ∀ method ∈ (twoCodesClass [0xb1] [0xb1]).methods, Settled method.codes := by
    intro method hmethod
    obtain rfl := List.mem_singleton.1 hmethod
    have hfirst : firstMeaning [⟨[0xb1], 0⟩, ⟨[0xb1], 0⟩] = .ok ([⟨0, 0xb1, .other⟩], 0) := by cbv
    have hlast : lastMeaning [⟨[0xb1], 0⟩, ⟨[0xb1], 0⟩] = .ok ([⟨0, 0xb1, .other⟩], 0) := by cbv
    exact settled_of_meanings hfirst hlast
  have hagrees := decode_eq_framed_iff_settled (twoCodesFile [0xb1] [0xb1])
    (twoCodesClass [0xb1] [0xb1]) (by cbv) (twoCodesClass_exact _ _) (twoCodesClass_texts _ _)
  exact ⟨hsettled, hagrees.1 hsettled⟩

/-- The readers do not agree on every file that can be parsed: here the second code attribute has
one instruction more than the first. -/
theorem decode_ne_framed_of_other_codes :
    parse ModifiedUtf8.decode (twoCodesFile [0xb1] [0x00, 0xb1]) =
        .ok (twoCodesClass [0xb1] [0x00, 0xb1]) ∧
      (twoCodesClass [0xb1] [0x00, 0xb1]).Exact ∧
      (∀ text, .utf8 text ∈ (twoCodesClass [0xb1] [0x00, 0xb1]).pool →
        ModifiedUtf8.decode text = Utf8.decodeLossy text) ∧
      decode (twoCodesFile [0xb1] [0x00, 0xb1]) ≠
        Framed.decode (twoCodesFile [0xb1] [0x00, 0xb1]) := by
  refine ⟨by cbv, twoCodesClass_exact _ _, twoCodesClass_texts _ _, ?_⟩
  have hfirst : (decode (twoCodesFile [0xb1] [0x00, 0xb1])).toOption.map
      (·.methods.map (·.instructions.length)) = some [1] := by cbv
  have hlast : (Framed.decode (twoCodesFile [0xb1] [0x00, 0xb1])).toOption.map
      (·.methods.map (·.instructions.length)) = some [2] := by cbv
  intro hsame
  rw [hsame, hlast] at hfirst
  exact absurd hfirst (by decide)

end Decoding

end ClassMetrics.ClassFile
