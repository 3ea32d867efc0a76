import Mathlib.Tactic
import ClassMetrics.Proofs.GrammarReading
import ClassMetrics.Proofs.LayoutMeaning

/-!
The grammar reader and the layouts of class files. A constant pool is read as the constants of its
entries, cut off at its count. A file that can be parsed, and whose attributes take as many bytes as
they declare, is a written layout, and the parsed class is the one of that layout.
-/

namespace ClassMetrics.ClassFile

/-- A constant of two numbers, the first of which has the given size. -/
def twoParts (make : Nat → Nat → Constant) (size : Nat) (content : Bytes) : Constant :=
  make (Bytes.bigEndian (content.take size)) (Bytes.bigEndian (content.drop size))

/-- The constant of an entry that names are not found through, by its tag. -/
def opaqueConstant (tag : UInt8) (content : Bytes) : Constant :=
  match tag.toNat with
  | 3 => .integer (Bytes.signed32 content.bigEndian)
  | 4 => .float content.bigEndian
  | 5 => .long (Bytes.signed64 content.bigEndian)
  | 6 => .double content.bigEndian
  | 8 => .string content.bigEndian
  | 9 => twoParts .fieldRef 2 content
  | 10 => twoParts .methodRef 2 content
  | 11 => twoParts .interfaceMethodRef 2 content
  | 12 => twoParts .nameAndType 2 content
  | 15 => twoParts .methodHandle 1 content
  | 16 => .methodType content.bigEndian
  | 17 => twoParts .dynamic 2 content
  | 18 => twoParts .invokeDynamic 2 content
  | 19 => .module content.bigEndian
  | 20 => .package content.bigEndian
  | _ => .empty

def PoolEntry.constant : PoolEntry → Constant
  | .utf8 text _ => .utf8 text
  | .classRef name => .classRef name.toNat
  | .other tag content _ => opaqueConstant tag content

/-- The constants of a pool, by their numbers, up to its count. -/
def constantSlots (pool : List PoolEntry) (count : Nat) : List Constant :=
  (numberedSlots PoolEntry.constant .empty pool).take count

theorem opaqueConstant_naming (decodeText : Bytes → String) (tag : UInt8) (content : Bytes) :
    (opaqueConstant tag content).naming decodeText = .other := by
  unfold opaqueConstant
  split <;> rfl

theorem opaqueConstant_ne_utf8 (tag : UInt8) (content text : Bytes) :
    opaqueConstant tag content ≠ .utf8 text := by
  intro h
  have hnaming := opaqueConstant_naming (fun _ => "") tag content
  rw [h] at hnaming
  cases hnaming

theorem opaqueConstant_isWide (tag : UInt8) (content : Bytes) :
    Grammar.isWide (opaqueConstant tag content) = decide (tag ∈ [5, 6]) := by
  unfold opaqueConstant
  split <;> simp_all [Grammar.isWide, ← UInt8.toNat_inj, twoParts]

theorem PoolEntry.constant_isWide (entry : PoolEntry) :
    Grammar.isWide entry.constant = entry.isWide := by
  cases entry with
  | utf8 text fits => rfl
  | classRef name => rfl
  | other tag content known => exact opaqueConstant_isWide tag content

theorem Fills.eq_nil {pool : List PoolEntry} (h : Fills pool 0) : pool = [] := by
  cases pool with
  | nil => rfl
  | cons entry others => exact absurd h.1 (Nat.lt_irrefl 0)

/-- What is cut off at the count of a pool is empty. -/
theorem getElem?_take_slots {pool : List PoolEntry} {slots index : Nat} {found : Constant}
    (hfills : Fills pool slots) (hfound : found ≠ .empty) :
    ((pool.flatMap (PoolEntry.slots PoolEntry.constant .empty)).take slots)[index]? = some found ↔
      (pool.flatMap (PoolEntry.slots PoolEntry.constant .empty))[index]? = some found := by
  induction pool generalizing slots index with
  | nil => simp
  | cons entry others ih =>
      obtain ⟨hpos, hothers⟩ := hfills
      obtain ⟨slots, rfl⟩ := Nat.exists_eq_add_one_of_ne_zero hpos.ne'
      rw [List.flatMap_cons]
      by_cases hwide : entry.isWide
      · simp only [PoolEntry.numbers, hwide, if_true] at hothers
        simp only [PoolEntry.slots, hwide, if_true, List.cons_append, List.nil_append,
          List.take_succ_cons]
        cases slots with
        | zero =>
            obtain rfl := Fills.eq_nil hothers
            rcases index with _ | _ | index
            · simp
            · simp [hfound.symm]
            · simp
        | succ slots =>
            rw [List.take_succ_cons]
            rcases index with _ | _ | index
            · simp
            · simp
            · simpa using ih hothers
      · simp only [PoolEntry.numbers, hwide] at hothers
        simp only [PoolEntry.slots, hwide]
        cases index with
        | zero => simp
        | succ index => simpa using ih hothers

/-- A constant that is found in a pool is the one of the entry whose number it has. -/
theorem getElem?_constantSlots {pool : List PoolEntry} {count number : Nat} {found : Constant}
    (hcount : IsPoolCount pool count) (hfound : found ≠ .empty) :
    (constantSlots pool count)[number]? = some found ↔
      ∃ entry, Numbered pool number entry ∧ entry.constant = found := by
  rw [← getElem?_numberedSlots hfound]
  obtain ⟨-, hfills⟩ := (isPoolCount_iff pool count).1 hcount
  unfold constantSlots numberedSlots
  cases count with
  | zero =>
      obtain rfl := hfills.eq_nil
      cases number with
      | zero => simp [hfound.symm]
      | succ number => simp
  | succ slots =>
      rw [List.take_succ_cons]
      cases number with
      | zero => simp
      | succ number => simpa using getElem?_take_slots hfills hfound

namespace Grammar

open Reader

section Pool

theorem reads_number {width value : Nat} (h : value < 256 ^ width) :
    Reads (number width) (Bytes.bigEndianBytes width value) (.ok value) := by
  have hdigits := reads_digits (Bytes.bigEndianBytes width value)
  rwa [Bytes.bigEndianBytes_length, Bytes.bigEndian_bigEndianBytes h] at hdigits

theorem reads_word (word : UInt16) : Reads (number 2) (wordBytes word) (.ok word.toNat) :=
  reads_number word.toNat_lt

theorem reads_byte (byte : UInt8) : Reads (number 1) [byte] (.ok byte.toNat) := by
  have hbound : byte.toNat < 256 ^ 1 := by simpa using byte.toNat_lt
  simpa [Bytes.bigEndianBytes] using reads_number hbound

theorem reads_one {content : Bytes} {size : Nat} (make : Nat → Constant)
    (h : content.length = size) :
    Reads (number size >>= fun value => pure (make value)) content
      (.ok (make content.bigEndian)) := by
  subst h
  exact (reads_digits content).bind_pure make

theorem reads_two {content : Bytes} (first second : Nat) (make : Nat → Nat → Constant)
    (h : content.length = first + second) :
    Reads (number first >>= fun value => number second >>= fun other => pure (make value other))
      content (.ok (twoParts make first content)) := by
  obtain ⟨front, back, rfl, rfl⟩ := Bytes.exists_front (show first ≤ content.length by omega)
  obtain rfl : back.length = second := by
    rw [List.length_append] at h
    omega
  rw [twoParts, List.take_left, List.drop_left]
  exact (reads_digits front).bind_ok ((reads_digits back).bind_pure (make front.bigEndian))

theorem reads_bits {content : Bytes} {size : Nat} (make : Nat → Constant)
    (h : content.length = size) :
    Reads (block size >>= fun bits => pure (make bits.bigEndian)) content
      (.ok (make content.bigEndian)) := by
  subst h
  exact (reads_block content).bind_pure fun bits => make bits.bigEndian

theorem reads_constant (entry : PoolEntry) :
    Reads constant entry.bytes (.ok entry.constant) := by
  cases entry with
  | utf8 text fits =>
      refine (reads_byte 1).bind_ok ?_
      refine (reads_number fits).bind_ok ?_
      exact (reads_block text).bind_pure Constant.utf8
  | classRef name =>
      refine (reads_byte 7).bind_ok ?_
      exact (reads_word name).bind_pure Constant.classRef
  | other tag content known =>
      refine (reads_byte tag).bind_ok ?_
      rcases opaqueSize?_cases known with
        ⟨htag, hsize⟩ | ⟨htag, hsize⟩ | ⟨htag, hsize⟩ | ⟨rfl, hsize⟩
      · fin_cases htag
        · exact reads_one _ hsize
        · exact reads_bits _ hsize
        all_goals exact reads_two 2 2 _ hsize
      · fin_cases htag
        · exact reads_one _ hsize
        · exact reads_bits _ hsize
      · fin_cases htag
        all_goals exact reads_one _ hsize
      · exact reads_two 1 2 _ hsize

theorem reads_constants {pool : List PoolEntry} {slots : Nat} (h : Fills pool slots) :
    Reads (constants slots) (pool.flatMap PoolEntry.bytes)
      (.ok ((pool.flatMap (PoolEntry.slots PoolEntry.constant .empty)).take slots)) := by
  induction pool generalizing slots with
  | nil =>
      obtain rfl : slots = 0 := h
      exact reads_pure []
  | cons entry others ih =>
      obtain ⟨hpos, hothers⟩ := h
      obtain ⟨slots, rfl⟩ := Nat.exists_eq_add_one_of_ne_zero hpos.ne'
      rw [List.flatMap_cons, List.flatMap_cons]
      cases slots with
      | zero =>
          -- the last slot, which may hold a wide entry
          have hpositive := entry.numbers_pos
          rw [show 0 + 1 - entry.numbers = 0 by omega] at hothers
          obtain rfl := hothers.eq_nil
          rw [show (entry.slots PoolEntry.constant .empty ++ _).take (0 + 1) = [entry.constant] by
            unfold PoolEntry.slots; split <;> rfl]
          rw [List.flatMap_nil, List.append_nil]
          exact (reads_constant entry).bind_pure fun constant => [constant]
      | succ slots =>
          refine (reads_constant entry).bind_ok ?_
          by_cases hwide : entry.isWide
          · simp only [PoolEntry.numbers, hwide, if_true] at hothers
            simp only [entry.constant_isWide, hwide, if_true, PoolEntry.slots]
            exact (ih hothers).bind_pure (entry.constant :: Constant.empty :: ·)
          · simp only [PoolEntry.numbers, hwide] at hothers
            simp only [entry.constant_isWide, hwide, PoolEntry.slots]
            exact (ih hothers).bind_pure (entry.constant :: ·)

theorem reads_pool {layout : List PoolEntry} {count : Nat} (h : IsPoolCount layout count) :
    Reads pool (Bytes.bigEndianBytes 2 count ++ layout.flatMap PoolEntry.bytes)
      (.ok (constantSlots layout count)) := by
  obtain ⟨hcount, hfills⟩ := (isPoolCount_iff layout count).1 h
  refine (reads_number hcount).bind_ok ?_
  cases count with
  | zero =>
      obtain rfl := hfills.eq_nil
      exact reads_pure []
  | succ slots => exact (reads_constants hfills).bind_pure (Constant.empty :: ·)

end Pool

section Converse

variable {cursor next : Cursor}

theorem number_bytes {width value : Nat} (h : number width cursor = .ok (value, next)) :
    value < 256 ^ width ∧ cursor.Passes (Bytes.bigEndianBytes width value) next := by
  obtain ⟨digits, hpasses, rfl, rfl⟩ := number_ok h
  exact ⟨Bytes.bigEndian_lt digits, by rwa [Bytes.bigEndianBytes_bigEndian]⟩

theorem word_ok {value : Nat} (h : number 2 cursor = .ok (value, next)) :
    ∃ word : UInt16, word.toNat = value ∧ cursor.Passes (wordBytes word) next := by
  obtain ⟨hbound, hpasses⟩ := number_bytes h
  have hvalue : (UInt16.ofNat value).toNat = value := UInt16.toNat_ofNat_of_lt' hbound
  exact ⟨UInt16.ofNat value, hvalue, by rwa [wordBytes, hvalue]⟩

theorem one_ok {size : Nat} {make : Nat → Constant} {made : Constant}
    (h : (number size >>= fun value => (pure (make value) : GrammarReader Constant)) cursor =
      .ok (made, next)) :
    ∃ content, cursor.rest = content ++ next.rest ∧ content.length = size := by
  obtain ⟨value, after, hvalue, h⟩ := bind_eq_ok.1 h
  obtain ⟨-, rfl⟩ := pure_eq_ok.1 h
  obtain ⟨digits, hpasses, hlength, -⟩ := number_ok hvalue
  exact ⟨digits, hpasses.rest, hlength⟩

theorem bits_ok {size : Nat} {make : Bytes → Constant} {made : Constant}
    (h : (block size >>= fun bits => (pure (make bits) : GrammarReader Constant)) cursor =
      .ok (made, next)) :
    ∃ content, cursor.rest = content ++ next.rest ∧ content.length = size := by
  obtain ⟨bits, after, hbits, h⟩ := bind_eq_ok.1 h
  obtain ⟨-, rfl⟩ := pure_eq_ok.1 h
  obtain ⟨hpasses, hlength⟩ := block_ok hbits
  exact ⟨bits, hpasses.rest, hlength⟩

theorem two_ok {first second : Nat} {make : Nat → Nat → Constant} {made : Constant}
    (h : (number first >>= fun value => number second >>= fun other =>
      (pure (make value other) : GrammarReader Constant)) cursor = .ok (made, next)) :
    ∃ content, cursor.rest = content ++ next.rest ∧ content.length = first + second := by
  obtain ⟨value, middle, hvalue, h⟩ := bind_eq_ok.1 h
  obtain ⟨other, after, hother, h⟩ := bind_eq_ok.1 h
  obtain ⟨-, rfl⟩ := pure_eq_ok.1 h
  obtain ⟨front, hfront, rfl, -⟩ := number_ok hvalue
  obtain ⟨back, hback, rfl, -⟩ := number_ok hother
  exact ⟨front ++ back, (hfront.trans hback).rest, List.length_append⟩

theorem other_ok {tag : UInt8} {size : Nat} {after : Cursor} (hsize : opaqueSize? tag = some size)
    (hrest : cursor.rest = tag :: after.rest)
    (h : ∃ content, after.rest = content ++ next.rest ∧ content.length = size) :
    ∃ entry : PoolEntry, cursor.rest = entry.bytes ++ next.rest := by
  obtain ⟨content, hcontent, rfl⟩ := h
  exact ⟨.other tag content hsize, by rw [hrest, hcontent]; rfl⟩

/-- An entry of the pool stands where a constant has been read. -/
theorem constant_ok {made : Constant} (h : constant cursor = .ok (made, next)) :
    ∃ entry : PoolEntry, cursor.rest = entry.bytes ++ next.rest := by
  obtain ⟨tag, after, htag, h⟩ := bind_eq_ok.1 h
  obtain ⟨-, hpasses⟩ := number_bytes htag
  have hrest := hpasses.rest
  split at h
  case h_1 =>
    obtain ⟨size, middle, hsize, h⟩ := bind_eq_ok.1 h
    obtain ⟨text, behind, htext, h⟩ := bind_eq_ok.1 h
    obtain ⟨rfl, rfl⟩ := pure_eq_ok.1 h
    obtain ⟨hfits, hmiddle⟩ := number_bytes hsize
    obtain ⟨hbehind, rfl⟩ := block_ok htext
    exact ⟨.utf8 text hfits, by rw [hrest, (hmiddle.trans hbehind).rest]; rfl⟩
  case h_6 =>
    obtain ⟨name, middle, hname, h⟩ := bind_eq_ok.1 h
    obtain ⟨rfl, rfl⟩ := pure_eq_ok.1 h
    obtain ⟨word, rfl, hword⟩ := word_ok hname
    exact ⟨.classRef word, by rw [hrest, hword.rest]; rfl⟩
  case h_18 => cases h
  case h_3 | h_5 => exact other_ok (by decide) hrest (bits_ok h)
  case h_8 | h_9 | h_10 | h_11 | h_12 | h_14 | h_15 => exact other_ok (by decide) hrest (two_ok h)
  all_goals exact other_ok (by decide) hrest (one_ok h)

theorem constants_ok {slots : Nat} {made : List Constant}
    (h : constants slots cursor = .ok (made, next)) :
    ∃ pool, Fills pool slots ∧ cursor.rest = pool.flatMap PoolEntry.bytes ++ next.rest := by
  fun_induction constants slots generalizing cursor made with
  | case1 =>
      obtain ⟨-, rfl⟩ := pure_eq_ok.1 h
      exact ⟨[], rfl, rfl⟩
  | case2 =>
      obtain ⟨first, after, hfirst, h⟩ := bind_eq_ok.1 h
      obtain ⟨-, rfl⟩ := pure_eq_ok.1 h
      obtain ⟨entry, hentry⟩ := constant_ok hfirst
      have hpos := entry.numbers_pos
      exact ⟨[entry], ⟨Nat.one_pos, show 1 - entry.numbers = 0 by omega⟩, by simpa using hentry⟩
  | case3 slots ihWide ih =>
      obtain ⟨first, after, hfirst, h⟩ := bind_eq_ok.1 h
      obtain ⟨entry, hentry⟩ := constant_ok hfirst
      obtain rfl := (reads_constant entry).value_eq hentry hfirst
      rw [entry.constant_isWide] at h
      by_cases hwide : entry.isWide
      · rw [if_pos hwide] at h
        obtain ⟨others, behind, hothers, h⟩ := bind_eq_ok.1 h
        obtain ⟨-, rfl⟩ := pure_eq_ok.1 h
        obtain ⟨pool, hfills, hpool⟩ := ihWide hothers
        refine ⟨entry :: pool, ⟨by omega, ?_⟩, ?_⟩
        · rw [show slots + 2 - entry.numbers = slots by simp [PoolEntry.numbers, hwide]]
          exact hfills
        · rw [hentry, hpool, List.flatMap_cons, List.append_assoc]
      · rw [if_neg hwide] at h
        obtain ⟨others, behind, hothers, h⟩ := bind_eq_ok.1 h
        obtain ⟨-, rfl⟩ := pure_eq_ok.1 h
        obtain ⟨pool, hfills, hpool⟩ := ih hothers
        refine ⟨entry :: pool, ⟨by omega, ?_⟩, ?_⟩
        · rw [show slots + 2 - entry.numbers = slots + 1 by simp [PoolEntry.numbers, hwide]]
          exact hfills
        · rw [hentry, hpool, List.flatMap_cons, List.append_assoc]

theorem pool_ok {made : List Constant} (h : pool cursor = .ok (made, next)) :
    ∃ layout count, IsPoolCount layout count ∧ constantSlots layout count = made ∧
      cursor.rest = (Bytes.bigEndianBytes 2 count ++ layout.flatMap PoolEntry.bytes) ++
        next.rest := by
  obtain ⟨count, after, hcount, hslots⟩ := bind_eq_ok.1 h
  obtain ⟨hbound, hpasses⟩ := number_bytes hcount
  have hlayout : ∃ layout, Fills layout (count - 1) ∧
      after.rest = layout.flatMap PoolEntry.bytes ++ next.rest := by
    cases count with
    | zero =>
        obtain ⟨-, rfl⟩ := pure_eq_ok.1 hslots
        exact ⟨[], rfl, rfl⟩
    | succ slots =>
        obtain ⟨others, behind, hothers, hslots⟩ := bind_eq_ok.1 hslots
        obtain ⟨-, rfl⟩ := pure_eq_ok.1 hslots
        exact constants_ok hothers
  obtain ⟨layout, hfills, hrest⟩ := hlayout
  have hisCount := (isPoolCount_iff layout count).2 ⟨hbound, hfills⟩
  have hbytes : cursor.rest =
      (Bytes.bigEndianBytes 2 count ++ layout.flatMap PoolEntry.bytes) ++ next.rest := by
    rw [hpasses.rest, hrest, List.append_assoc]
  exact ⟨layout, count, hisCount, (reads_pool hisCount).value_eq hbytes h, hbytes⟩

end Converse

section Attributes

variable {decodeText : Bytes → String} {pool : List Constant} {cursor next : Cursor}

theorem consume_nil_ok {made : Unit} (h : consume decodeText pool [] cursor = .ok (made, next)) :
    cursor = next := by
  rw [consume] at h
  exact (Prod.mk.inj (Except.ok.inj h)).2

theorem consume_words_ok {count : Nat} {made : Unit}
    (h : consume decodeText pool (Item.words count) cursor = .ok (made, next)) :
    ∃ front, cursor.Passes front next ∧ front.length = 2 * count := by
  induction count generalizing cursor with
  | zero =>
      obtain rfl := consume_nil_ok h
      exact ⟨[], .refl cursor, rfl⟩
  | succ count ih =>
      obtain ⟨earlier, middle, hstep, h⟩ := consume_cons.1 h
      obtain ⟨value, after, hvalue, hstep⟩ := bind_eq_ok.1 hstep
      obtain ⟨rfl, rfl⟩ := pure_eq_ok.1 hstep
      obtain ⟨digits, hdigits, hlength, -⟩ := number_ok hvalue
      obtain ⟨back, hback, hsize⟩ := ih h
      exact ⟨digits ++ back, hdigits.trans hback, by rw [List.length_append]; omega⟩

theorem consume_handlers_ok {count : Nat} {made : Unit}
    (h : consume decodeText pool [.repeated count Item.handler] cursor = .ok (made, next)) :
    ∃ front, cursor.Passes front next ∧ front.length = 8 * count := by
  induction count generalizing cursor with
  | zero =>
      obtain ⟨earlier, middle, hstep, h⟩ := consume_cons.1 h
      obtain ⟨rfl, rfl⟩ := pure_eq_ok.1 hstep
      obtain rfl := consume_nil_ok h
      exact ⟨[], .refl cursor, rfl⟩
  | succ count ih =>
      obtain ⟨earlier, middle, hstep, h⟩ := consume_cons.1 h
      obtain ⟨rfl, rfl⟩ := pure_eq_ok.1 hstep
      rw [List.append_nil] at h
      obtain ⟨after, hfirst, hothers⟩ := consume_append.1 h
      obtain ⟨front, hfront, hlength⟩ := consume_words_ok hfirst
      obtain ⟨back, hback, hsize⟩ := ih hothers
      exact ⟨front ++ back, hfront.trans hback, by rw [List.length_append]; omega⟩

/-- The layout of a code attribute's body stands where its code has been read. -/
theorem codeBody_ok {made : CodeBody} (h : codeBody decodeText pool cursor = .ok (made, next)) :
    ∃ layout : CodeLayout, cursor.Passes layout.bytes next ∧ layout.code = made.code ∧
      layout.handlers.items.length = made.handlers := by
  obtain ⟨stack, afterStack, hstack, h⟩ := bind_eq_ok.1 h
  obtain ⟨locals, afterLocals, hlocals, h⟩ := bind_eq_ok.1 h
  obtain ⟨size, afterSize, hsize, h⟩ := bind_eq_ok.1 h
  obtain ⟨code, afterCode, hcode, h⟩ := bind_eq_ok.1 h
  obtain ⟨count, afterCount, hcount, h⟩ := bind_eq_ok.1 h
  obtain ⟨_, afterItems, hitems, h⟩ := bind_eq_ok.1 h
  obtain ⟨rfl, rfl⟩ := pure_eq_ok.1 h
  have hboth : consume decodeText pool ([.repeated count Item.handler] ++ [Item.attributes])
      afterCount = .ok ((), afterItems) := hitems
  obtain ⟨afterTable, htable, hnested⟩ := consume_append.1 hboth
  obtain ⟨maxStack, -, hmaxStack⟩ := word_ok hstack
  obtain ⟨maxLocals, -, hmaxLocals⟩ := word_ok hlocals
  obtain ⟨hfits, hsizeBytes⟩ := number_bytes hsize
  obtain ⟨hcodeBytes, rfl⟩ := block_ok hcode
  obtain ⟨hbound, hcountBytes⟩ := number_bytes hcount
  obtain ⟨table, htableBytes, hlength⟩ := consume_handlers_ok htable
  obtain ⟨remaining, hremaining, -⟩ := consume_replays (fun _ _ h => h) _ hnested
  obtain ⟨handlers, rfl, rfl⟩ :=
    Bytes.exists_flatMap (fun _ hblock => Framed.exists_handlerBytes hblock) hlength
  refine ⟨⟨maxStack, maxLocals, code, hfits, ⟨handlers, hbound⟩, remaining⟩, ?_, rfl, rfl⟩
  exact hmaxStack.trans (hmaxLocals.trans (hsizeBytes.trans (hcodeBytes.trans
    ((hcountBytes.trans htableBytes).trans hremaining))))

/-- The attribute that has been read is the one of the layout. -/
inductive AttributeOf (decodeText : Bytes → String) (pool : List Constant) :
    Attribute → AttributeLayout → Prop where
  | code {made : Attribute} {layout : AttributeLayout} {text : Bytes} {body : CodeLayout}
      (named : pool[layout.name.toNat]? = some (.utf8 text)) (isCode : decodeText text = "Code")
      (isBody : layout.body = body.bytes)
      (holds : made.code? = some ⟨body.code, body.handlers.items.length⟩) :
      AttributeOf decodeText pool made layout
  | other {made : Attribute} {layout : AttributeLayout} {text : Bytes}
      (named : pool[layout.name.toNat]? = some (.utf8 text)) (isOther : decodeText text ≠ "Code")
      (holds : made.code? = none) : AttributeOf decodeText pool made layout

/-- An attribute that takes as many bytes as it declares is read by its layout. -/
theorem attribute_ok {made : Attribute}
    (h : «attribute» decodeText pool cursor = .ok (made, next))
    (hexact : made.declared = made.size) :
    ∃ layout : AttributeLayout, AttributeOf decodeText pool made layout ∧
      cursor.rest = layout.bytes ++ next.rest := by
  obtain ⟨name, middle, start, hname, hdeclared, hcontent, hsize⟩ := attribute_parts h
  obtain ⟨index, text, hindex, htext, rfl⟩ := attributeName_ok hname
  obtain ⟨word, rfl, hword⟩ := word_ok hindex
  obtain ⟨hbound, hdeclaredBytes⟩ := number_bytes hdeclared
  obtain ⟨body, hbody, -⟩ := content_replays (fun _ _ h => h) _ _ hcontent
  have hlength : body.length = made.declared := by
    rw [hbody.position] at hsize
    omega
  rw [← hlength] at hbound hdeclaredBytes
  refine ⟨⟨word, body, hbound⟩, ?_, (hword.trans (hdeclaredBytes.trans hbody)).rest⟩
  obtain ⟨hcode, code, hcodeBody, hmade⟩ | ⟨hother, hmade⟩ := content_ok hcontent
  · obtain ⟨layout, hlayout, hcodeBytes, hhandlers⟩ := codeBody_ok hcodeBody
    have hsame : body = layout.bytes :=
      List.append_cancel_right (hbody.rest.symm.trans hlayout.rest)
    refine .code htext hcode hsame ?_
    rw [hcodeBytes, hhandlers, hmade]
  · exact .other htext hother hmade

/-- The member that has been read is the one of the layout. -/
structure MemberOf (decodeText : Bytes → String) (pool : List Constant) (made : Member)
    (layout : MemberLayout) : Prop where
  name : made.name = layout.name.toNat
  descriptor : made.descriptor = layout.descriptor.toNat
  attributes : List.Forall₂ (AttributeOf decodeText pool) made.attributes layout.attributes.items

/-- A counted table stands where one has been read. -/
theorem table_ok {α γ : Type} {reader : GrammarReader α} {write : γ → Bytes}
    {Stands : α → γ → Prop} {count : Nat} {values : List α} {middle : Cursor}
    (h : ∀ value ∈ values, ∀ {cursor next : Cursor}, reader cursor = .ok (value, next) →
      ∃ item, Stands value item ∧ cursor.rest = write item ++ next.rest)
    (hcount : number 2 cursor = .ok (count, middle))
    (hread : times reader count middle = .ok (values, next)) :
    ∃ table : Table γ, List.Forall₂ Stands values table.items ∧
      cursor.rest = table.bytes write ++ next.rest := by
  obtain ⟨hbound, hpasses⟩ := number_bytes hcount
  obtain ⟨items, rfl, hall, hitems⟩ := exists_items_of_times h hread
  exact ⟨⟨items, hbound⟩, hall, by rw [hpasses.rest, hitems, Table.bytes, List.append_assoc]⟩

theorem attributes_ok {made : List Attribute} (hexact : ∀ item ∈ made, item.declared = item.size)
    (h : attributes decodeText pool cursor = .ok (made, next)) :
    ∃ layout : Table AttributeLayout,
      List.Forall₂ (AttributeOf decodeText pool) made layout.items ∧
        cursor.rest = layout.bytes AttributeLayout.bytes ++ next.rest := by
  obtain ⟨count, after, hcount, h⟩ := bind_eq_ok.1 h
  exact table_ok (fun item hitem _ _ hread => attribute_ok hread (hexact item hitem)) hcount h

theorem member_ok {made : Member} (hexact : ∀ item ∈ made.attributes, item.declared = item.size)
    (h : member decodeText pool cursor = .ok (made, next)) :
    ∃ layout : MemberLayout, MemberOf decodeText pool made layout ∧
      cursor.rest = layout.bytes ++ next.rest := by
  obtain ⟨flags, afterAccess, haccess, h⟩ := bind_eq_ok.1 h
  obtain ⟨nameIndex, afterName, hname, h⟩ := bind_eq_ok.1 h
  obtain ⟨descriptorIndex, afterDescriptor, hdescriptor, h⟩ := bind_eq_ok.1 h
  obtain ⟨items, afterItems, hitems, h⟩ := bind_eq_ok.1 h
  obtain ⟨rfl, rfl⟩ := pure_eq_ok.1 h
  obtain ⟨access, -, haccessBytes⟩ := word_ok haccess
  obtain ⟨name, rfl, hnameBytes⟩ := word_ok hname
  obtain ⟨descriptor, rfl, hdescriptorBytes⟩ := word_ok hdescriptor
  obtain ⟨attributes, hattributes, hrest⟩ := attributes_ok hexact hitems
  refine ⟨⟨access, name, descriptor, attributes⟩, ⟨rfl, rfl, hattributes⟩, ?_⟩
  rw [haccessBytes.rest, hnameBytes.rest, hdescriptorBytes.rest, hrest]
  simp only [MemberLayout.bytes, List.append_assoc]

end Attributes

/-- Every attribute of a field, of a method or of the class takes as many bytes as it declares. -/
structure ParsedClass.Exact (made : ParsedClass) : Prop where
  fields : ∀ member ∈ made.fields, ∀ item ∈ member.attributes, item.declared = item.size
  methods : ∀ member ∈ made.methods, ∀ item ∈ member.attributes, item.declared = item.size
  attributes : ∀ item ∈ made.attributes, item.declared = item.size

/-- The class that has been parsed is the one of the layout. -/
structure ClassOf (decodeText : Bytes → String) (made : ParsedClass) (layout : ClassLayout)
    (count : Nat) : Prop where
  pool : made.pool = constantSlots layout.pool count
  thisClass : made.thisClass = layout.thisClass.toNat
  superClass : made.superClass = layout.superClass.toNat
  interfaces : List.Forall₂ (fun index word => index = UInt16.toNat word) made.interfaces
    layout.interfaces.items
  fields : List.Forall₂ (MemberOf decodeText made.pool) made.fields layout.fields.items
  methods : List.Forall₂ (MemberOf decodeText made.pool) made.methods layout.methods.items

/-- A class file stands where its tables have been read. -/
theorem tables_ok {decodeText : Bytes → String} {made : ParsedClass} {cursor next : Cursor}
    (h : tables decodeText cursor = .ok (made, next)) (hexact : made.Exact)
    (hmagic : ∃ after, number 4 cursor = .ok (magicNumber, after)) :
    ∃ (layout : ClassLayout) (count : Nat), IsPoolCount layout.pool count ∧
      ClassOf decodeText made layout count ∧ cursor.rest = layout.bytes count ++ next.rest := by
  obtain ⟨magic, afterMagic, hfirst, h⟩ := bind_eq_ok.1 h
  obtain ⟨after, hmagic⟩ := hmagic
  obtain ⟨rfl, rfl⟩ := Prod.mk.inj (Except.ok.inj (hmagic.symm.trans hfirst))
  obtain ⟨minorNumber, afterMinor, hminor, h⟩ := bind_eq_ok.1 h
  obtain ⟨majorNumber, afterMajor, hmajor, h⟩ := bind_eq_ok.1 h
  obtain ⟨slots, afterPool, hpool, h⟩ := bind_eq_ok.1 h
  obtain ⟨flags, afterAccess, haccess, h⟩ := bind_eq_ok.1 h
  obtain ⟨thisIndex, afterThis, hthis, h⟩ := bind_eq_ok.1 h
  obtain ⟨superIndex, afterSuper, hsuper, h⟩ := bind_eq_ok.1 h
  obtain ⟨interfaceCount, afterInterfaceCount, hinterfaceCount, h⟩ := bind_eq_ok.1 h
  obtain ⟨interfaceIndexes, afterInterfaces, hinterfaces, h⟩ := bind_eq_ok.1 h
  obtain ⟨fieldCount, afterFieldCount, hfieldCount, h⟩ := bind_eq_ok.1 h
  obtain ⟨fieldItems, afterFields, hfields, h⟩ := bind_eq_ok.1 h
  obtain ⟨methodCount, afterMethodCount, hmethodCount, h⟩ := bind_eq_ok.1 h
  obtain ⟨methodItems, afterMethods, hmethods, h⟩ := bind_eq_ok.1 h
  obtain ⟨attributeItems, afterAttributes, hattributes, h⟩ := bind_eq_ok.1 h
  obtain ⟨rfl, rfl⟩ := pure_eq_ok.1 h
  obtain ⟨-, hmagicBytes⟩ := number_bytes hfirst
  obtain ⟨minor, -, hminorBytes⟩ := word_ok hminor
  obtain ⟨major, -, hmajorBytes⟩ := word_ok hmajor
  obtain ⟨pool, count, hcount, hslots, hpoolBytes⟩ := pool_ok hpool
  obtain ⟨access, -, haccessBytes⟩ := word_ok haccess
  obtain ⟨thisClass, rfl, hthisBytes⟩ := word_ok hthis
  obtain ⟨superClass, rfl, hsuperBytes⟩ := word_ok hsuper
  have hinterface : ∀ index ∈ interfaceIndexes, ∀ {cursor next : Cursor},
      number 2 cursor = .ok (index, next) →
        ∃ word, index = UInt16.toNat word ∧ cursor.rest = wordBytes word ++ next.rest := by
    intro index _ cursor next hread
    obtain ⟨word, rfl, hword⟩ := word_ok hread
    exact ⟨word, rfl, hword.rest⟩
  obtain ⟨interfaces, hinterfacesOf, hinterfaceBytes⟩ :=
    table_ok hinterface hinterfaceCount hinterfaces
  obtain ⟨fields, hfieldsOf, hfieldBytes⟩ := table_ok
    (fun item hitem _ _ hread => member_ok (hexact.fields item hitem) hread) hfieldCount hfields
  obtain ⟨methods, hmethodsOf, hmethodBytes⟩ := table_ok
    (fun item hitem _ _ hread => member_ok (hexact.methods item hitem) hread) hmethodCount hmethods
  obtain ⟨attributes, -, hattributeBytes⟩ := attributes_ok hexact.attributes hattributes
  refine ⟨⟨minor, major, pool, access, thisClass, superClass, interfaces, fields, methods,
    attributes⟩, count, hcount, ⟨hslots.symm, rfl, rfl, hinterfacesOf, hfieldsOf, hmethodsOf⟩, ?_⟩
  rw [hmagicBytes.rest, hminorBytes.rest, hmajorBytes.rest, hpoolBytes, haccessBytes.rest,
    hthisBytes.rest, hsuperBytes.rest, hinterfaceBytes, hfieldBytes, hmethodBytes, hattributeBytes]
  simp only [ClassLayout.bytes, ClassLayout.bodyBytes, List.append_assoc, magicNumber]

/-- What is read as a whole class file is one that ends with the file. -/
theorem classFile_eq_ok {decodeText : Bytes → String} {made : ParsedClass} {cursor next : Cursor} :
    classFile decodeText cursor = .ok (made, next) ↔
      tables decodeText cursor = .ok (made, next) ∧ next.rest = [] := by
  constructor
  · intro h
    obtain ⟨found, after, htables, h⟩ := bind_eq_ok.1 h
    obtain ⟨_, _, hget, h⟩ := bind_eq_ok.1 h
    obtain ⟨rfl, rfl⟩ := Prod.mk.inj (Except.ok.inj hget)
    by_cases hend : after.rest ≠ []
    · rw [if_pos hend] at h
      cases h
    rw [if_neg hend] at h
    obtain ⟨rfl, rfl⟩ := pure_eq_ok.1 h
    exact ⟨htables, not_ne_iff.1 hend⟩
  · rintro ⟨htables, hend⟩
    refine bind_eq_ok.2 ⟨made, next, htables, ?_⟩
    refine bind_eq_ok.2 ⟨next, next, rfl, ?_⟩
    rw [if_neg (not_ne_iff.2 hend)]
    rfl

end Grammar

end ClassMetrics.ClassFile
