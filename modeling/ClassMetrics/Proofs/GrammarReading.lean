import Mathlib.Tactic
import ClassMetrics.ClassFile.Grammar
import ClassMetrics.Proofs.Reading
import ClassMetrics.Proofs.Words

/-!
The grammar reader takes bytes off the front, and what it has read it reads again wherever the same
bytes stand, if there are enough bytes behind them and the pool still has the same texts. Items are
dealt with one step at a time, and their runs by induction.
-/

namespace ClassMetrics.ClassFile.Grammar

open Reader

/-- Every text constant of the first pool is one of the second, under the same index. -/
def KeepsTexts (pool later : List Constant) : Prop :=
  ∀ (index : Nat) (text : Bytes), pool[index]? = some (.utf8 text) →
    later[index]? = some (.utf8 text)

theorem number_ok {width value : Nat} {cursor next : Cursor}
    (h : number width cursor = .ok (value, next)) :
    ∃ digits, cursor.Passes digits next ∧ digits.length = width ∧
      Bytes.bigEndian digits = value := by
  unfold number at h
  split at h
  · next digits after htake =>
      obtain ⟨rfl, rfl⟩ := Prod.mk.inj (Except.ok.inj h)
      obtain ⟨hpasses, hlength⟩ := Cursor.take?_eq_some htake
      exact ⟨digits, hpasses, hlength, rfl⟩
  · cases h

theorem block_ok {size : Nat} {content : Bytes} {cursor next : Cursor}
    (h : block size cursor = .ok (content, next)) :
    cursor.Passes content next ∧ content.length = size := by
  unfold block at h
  split at h
  · next taken htake =>
      obtain rfl := Except.ok.inj h
      exact Cursor.take?_eq_some htake
  · cases h

theorem reads_digits (digits : Bytes) :
    Reads (number digits.length) digits (.ok (Bytes.bigEndian digits)) := by
  intro position rest
  simp only [number, Cursor.take?_append]
  rfl

theorem reads_block (content : Bytes) : Reads (block content.length) content (.ok content) := by
  intro position rest
  simp only [block, Cursor.take?_append]
  rfl

theorem number_replays (width : Nat) : Replays (number width) (number width) := by
  intro cursor next value h
  obtain ⟨digits, hpasses, rfl, rfl⟩ := number_ok h
  exact ⟨digits, hpasses, fun position rest _ => reads_digits digits position rest⟩

theorem block_replays (size : Nat) : Replays (block size) (block size) := by
  intro cursor next content h
  obtain ⟨hpasses, rfl⟩ := block_ok h
  exact ⟨content, hpasses, fun position rest _ => reads_block content position rest⟩

section Items

variable {decodeText : Bytes → String} {pool later : List Constant}

theorem attributeName_ok {name : String} {cursor next : Cursor}
    (h : attributeName decodeText pool cursor = .ok (name, next)) :
    ∃ index text, number 2 cursor = .ok (index, next) ∧ pool[index]? = some (.utf8 text) ∧
      decodeText text = name := by
  obtain ⟨index, after, hindex, h⟩ := bind_eq_ok.1 h
  cases hconstant : pool[index]? with
  | none => simp only [hconstant] at h; cases h
  | some constant =>
      cases constant with
      | utf8 text =>
          simp only [hconstant] at h
          obtain ⟨rfl, rfl⟩ := pure_eq_ok.1 h
          exact ⟨index, text, hindex, hconstant, rfl⟩
      | _ => simp only [hconstant] at h; cases h

theorem attributeName_replays (hpool : KeepsTexts pool later) :
    Replays (attributeName decodeText pool) (attributeName decodeText later) := by
  intro cursor next name h
  obtain ⟨index, text, hindex, htext, rfl⟩ := attributeName_ok h
  obtain ⟨front, hpasses, hagain⟩ := number_replays 2 hindex
  refine ⟨front, hpasses, ?_⟩
  intro position rest hrest
  rw [attributeName, bind_eq_ok]
  refine ⟨index, _, hagain position rest hrest, ?_⟩
  rw [hpool index text htext]
  rfl

theorem tagged_replays (body? : Nat → Option (List Item)) (fault : Nat → GrammarFault) :
    Replays (tagged body? fault) (tagged body? fault) := by
  refine (number_replays 1).bind fun tag => ?_
  cases body? tag with
  | none => intro cursor next items h; cases h
  | some body => exact replays_pure body

theorem attributeStart_replays (hpool : KeepsTexts pool later) :
    Replays (attributeStart decodeText pool) (attributeStart decodeText later) := by
  refine (attributeName_replays hpool).bind fun name => ?_
  refine (number_replays 4).bind fun length => ?_
  cases attributeBody? name length with
  | none => intro cursor next items h; cases h
  | some body => exact replays_pure body

/-- A look-ahead moves nothing, and finds enough bytes again. -/
theorem ahead_replays (size : Nat) :
    Replays (step decodeText pool (.ahead size)) (step decodeText later (.ahead size)) := by
  intro cursor next items h
  simp only [step] at h
  cases hblock : block size cursor with
  | error fault => simp [hblock, Except.map] at h
  | ok taken =>
      simp only [hblock, Except.map, Except.ok.injEq, Prod.mk.injEq] at h
      obtain ⟨rfl, rfl⟩ := h
      obtain ⟨content, after⟩ := taken
      obtain ⟨hpasses, rfl⟩ := block_ok hblock
      refine ⟨[], .refl cursor, ?_⟩
      intro position rest hrest
      rw [hpasses.rest, List.length_append] at hrest
      have hsize : content.length ≤ rest.length := by omega
      obtain ⟨front, back, rfl, hfront⟩ := Bytes.exists_front hsize
      have hagain := reads_block front position back
      rw [hfront] at hagain
      rw [List.nil_append, step]
      change (block content.length _).map _ = _
      rw [hagain]
      rfl

/-- Every step can be done again. -/
theorem step_replays (hpool : KeepsTexts pool later) (item : Item) :
    Replays (step decodeText pool item) (step decodeText later item) := by
  cases item with
  | number width => exact (number_replays width).bind fun _ => replays_pure []
  | block size => exact (block_replays size).bind fun _ => replays_pure []
  | ahead size => exact ahead_replays size
  | sizedBlock => exact (number_replays 4).bind fun size => replays_pure [Item.block size]
  | repeated count body =>
      cases count with
      | zero => exact replays_pure []
      | succ count => exact replays_pure (body ++ [.repeated count body])
  | counted8 body =>
      exact (number_replays 1).bind fun count => replays_pure [Item.repeated count body]
  | counted16 body =>
      exact (number_replays 2).bind fun count => replays_pure [Item.repeated count body]
  | «attribute» => exact attributeStart_replays hpool
  | element => exact tagged_replays elementBody? .elementTag
  | typeUse => exact tagged_replays typeUseBody? .targetType
  | frame => exact tagged_replays frameBody? .frameType
  | verificationType => exact tagged_replays verificationTypeBody? .verificationTag

theorem consume_cons {item : Item} {items : List Item} {cursor next : Cursor} {made : Unit} :
    consume decodeText pool (item :: items) cursor = .ok (made, next) ↔
      ∃ earlier middle, step decodeText pool item cursor = .ok (earlier, middle) ∧
        consume decodeText pool (earlier ++ items) middle = .ok (made, next) := by
  rw [consume]
  split
  · next fault hstep => simp [hstep]
  · next earlier middle hstep => simp [hstep]

/-- Items of which all have been read can be read again. -/
theorem consume_replays (hpool : KeepsTexts pool later) (items : List Item) :
    Replays (consume decodeText pool items) (consume decodeText later items) := by
  intro cursor next made h
  fun_induction consume decodeText pool items cursor with
  | case1 cursor =>
      obtain ⟨-, rfl⟩ := Prod.mk.inj (Except.ok.inj h)
      exact ⟨[], .refl cursor, fun position rest _ => by rw [consume]; rfl⟩
  | case2 cursor item items fault hstep => cases h
  | case3 cursor item items earlier middle hstep ih =>
      obtain ⟨front, hfront, hagain⟩ := step_replays hpool item hstep
      obtain ⟨back, hback, hlater⟩ := ih h
      refine ⟨front ++ back, hfront.trans hback, ?_⟩
      intro position rest hrest
      have hmiddle : middle.rest.length ≤ (back ++ rest).length := by
        rw [hback.rest, List.length_append, List.length_append]
        omega
      rw [List.append_assoc, consume_cons]
      refine ⟨earlier, _, hagain position (back ++ rest) hmiddle, ?_⟩
      rw [hlater _ _ hrest, List.length_append, Nat.add_assoc]

theorem consume_append {items others : List Item} {cursor next : Cursor} {made : Unit} :
    consume decodeText pool (items ++ others) cursor = .ok (made, next) ↔
      ∃ middle, consume decodeText pool items cursor = .ok ((), middle) ∧
        consume decodeText pool others middle = .ok (made, next) := by
  fun_induction consume decodeText pool items cursor with
  | case1 cursor => simp
  | case2 cursor item items fault hstep => simp [consume_cons, hstep]
  | case3 cursor item items earlier middle hstep ih =>
      rw [List.cons_append, consume_cons]
      simp only [hstep, Except.ok.injEq, Prod.mk.injEq]
      constructor
      · rintro ⟨_, _, ⟨rfl, rfl⟩, h⟩
        rw [← List.append_assoc] at h
        exact ih.1 h
      · intro h
        refine ⟨_, _, ⟨rfl, rfl⟩, ?_⟩
        rw [← List.append_assoc]
        exact ih.2 h

/-- The code of a method can be read again. -/
theorem codeBody_replays (hpool : KeepsTexts pool later) :
    Replays (codeBody decodeText pool) (codeBody decodeText later) := by
  refine (number_replays 2).bind fun _ => ?_
  refine (number_replays 2).bind fun _ => ?_
  refine (number_replays 4).bind fun length => ?_
  refine (block_replays length).bind fun code => ?_
  refine (number_replays 2).bind fun handlers => ?_
  refine Replays.bind (consume_replays hpool _) fun _ => ?_
  exact replays_pure (CodeBody.mk code handlers)

/-- The body of an attribute can be read again. -/
theorem content_replays (hpool : KeepsTexts pool later) (name : String) (declared : Nat) :
    Replays (content decodeText pool name declared) (content decodeText later name declared) := by
  unfold content
  by_cases hcode : name = "Code"
  · rw [if_pos hcode, if_pos hcode]
    exact (codeBody_replays hpool).bind fun body => replays_pure (some body)
  · rw [if_neg hcode, if_neg hcode]
    cases attributeBody? name declared with
    | none => intro cursor next code? h; cases h
    | some body => exact Replays.bind (consume_replays hpool body) fun _ => replays_pure none

/-- The body of an attribute is code, or what the grammar says of its name. -/
theorem content_ok {name : String} {declared : Nat} {code? : Option CodeBody}
    {cursor next : Cursor} (h : content decodeText pool name declared cursor = .ok (code?, next)) :
    (name = "Code" ∧ ∃ body, codeBody decodeText pool cursor = .ok (body, next) ∧
        code? = some body) ∨
      name ≠ "Code" ∧ code? = none := by
  unfold content at h
  by_cases hcode : name = "Code"
  · rw [if_pos hcode] at h
    obtain ⟨body, after, hbody, h⟩ := bind_eq_ok.1 h
    obtain ⟨rfl, rfl⟩ := pure_eq_ok.1 h
    exact Or.inl ⟨hcode, body, hbody, rfl⟩
  · rw [if_neg hcode] at h
    cases hitems : attributeBody? name declared with
    | none => simp only [hitems] at h; cases h
    | some items =>
        simp only [hitems] at h
        obtain ⟨_, after, -, h⟩ := bind_eq_ok.1 h
        exact Or.inr ⟨hcode, (pure_eq_ok.1 h).1.symm⟩

/-- What an attribute has been read from: its name, its length and its body. -/
theorem attribute_parts {made : Attribute} {cursor next : Cursor}
    (h : «attribute» decodeText pool cursor = .ok (made, next)) :
    ∃ name middle start, attributeName decodeText pool cursor = .ok (name, middle) ∧
      number 4 middle = .ok (made.declared, start) ∧
      content decodeText pool name made.declared start = .ok (made.code?, next) ∧
      next.position - start.position = made.size := by
  obtain ⟨name, middle, hname, h⟩ := bind_eq_ok.1 h
  obtain ⟨declared, start, hdeclared, h⟩ := bind_eq_ok.1 h
  obtain ⟨_, _, hget, h⟩ := bind_eq_ok.1 h
  obtain ⟨rfl, rfl⟩ := Prod.mk.inj (Except.ok.inj hget)
  obtain ⟨code?, stop, hcontent, h⟩ := bind_eq_ok.1 h
  obtain ⟨_, _, hget, h⟩ := bind_eq_ok.1 h
  obtain ⟨rfl, rfl⟩ := Prod.mk.inj (Except.ok.inj hget)
  obtain ⟨rfl, rfl⟩ := pure_eq_ok.1 h
  exact ⟨name, middle, _, hname, hdeclared, hcontent, rfl⟩

end Items

end ClassMetrics.ClassFile.Grammar
