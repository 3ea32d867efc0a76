import Mathlib
import ClassMetrics.Proofs.DecimalReading

/-!
The report read back. Escaping leaves no quote and no line end in a text, so that the lines of the
report are its layout and every member is read as it was written.

Main statement: the text of a summary has thirteen lines and reads as an object of its eleven
members, in order, where texts and counters are the summary's own and a ratio is null exactly if
it is not finite. So two summaries with one text have the same name and counters.
-/

namespace ClassMetrics

open Decimal Json

namespace Report

/-! ## Texts -/

theorem step_plain (tokens : List Token) (read : List Char) {char : Char} (hquote : char ≠ '"')
    (hescape : char ≠ '\\') (hcontrol : ¬ char.toNat < 0x20) :
    Scanner.step ⟨tokens, .quoted read .plain⟩ char =
      some ⟨tokens, .quoted (read ++ [char]) .plain⟩ := by
  simp [Scanner.step, Inside.step, hquote, hescape, hcontrol]

/-- The last two digits of a unit whose first two are zeros. -/
theorem run_control (tokens : List Token) (read : List Char) {char : Char}
    (hcontrol : char.toNat < 0x20) :
    Scanner.run ⟨tokens, .quoted read (.unit none 2 0)⟩
        [Nat.digitChar (char.toNat / 16), Nat.digitChar (char.toNat % 16)] =
      some ⟨tokens, .quoted (read ++ [char]) .plain⟩ := by
  have hhigh : hexValue? (Nat.digitChar (char.toNat / 16)) = some (char.toNat / 16) :=
    hexValue?_digitChar (by omega)
  have hlow : hexValue? (Nat.digitChar (char.toNat % 16)) = some (char.toNat % 16) :=
    hexValue?_digitChar (by omega)
  have hunit : takeUnit read none (16 * (char.toNat / 16) + char.toNat % 16) =
      some (read ++ [char], .plain) := by
    rw [Nat.div_add_mod, takeUnit, if_neg (by omega), if_neg (by omega), Char.ofNat_toNat]
  simp [Scanner.run_cons, Scanner.step, Inside.step, hhigh, hlow, hunit]

/-- An escaped character is read as the character itself. -/
theorem run_escaped (tokens : List Token) (read : List Char) (char : Char) :
    Scanner.run ⟨tokens, .quoted read .plain⟩ (escaped char) =
      some ⟨tokens, .quoted (read ++ [char]) .plain⟩ := by
  unfold escaped
  split
  case h_8 hquote hescape _ _ _ _ _ =>
      split
      case isTrue hcontrol => exact run_control tokens read hcontrol
      case isFalse hcontrol =>
          rw [Scanner.run_cons, step_plain tokens read hquote hescape hcontrol]
          rfl
  all_goals rfl

theorem run_flatMap_escaped (tokens : List Token) (read text : List Char) :
    Scanner.run ⟨tokens, .quoted read .plain⟩ (text.flatMap escaped) =
      some ⟨tokens, .quoted (read ++ text) .plain⟩ := by
  induction text generalizing read with
  | nil => simp
  | cons char text ih =>
      rw [List.flatMap_cons, Scanner.run_append, run_escaped, Option.bind_some, ih,
        List.append_assoc, List.singleton_append]

theorem run_quotedText (tokens : List Token) (text : String) :
    Scanner.run ⟨tokens, .between⟩ (quotedText text) =
      some ⟨tokens ++ [.text text], .between⟩ := by
  have hopen : Scanner.step ⟨tokens, .between⟩ '"' = some ⟨tokens, .quoted [] .plain⟩ := rfl
  rw [quotedText, List.cons_append, Scanner.run_cons, hopen, Option.bind_some, Scanner.run_append,
    run_flatMap_escaped, Option.bind_some, List.nil_append]
  simp [Scanner.run_cons, Scanner.step]

theorem digitChar_ne_newline {digit : Nat} (hdigit : digit < 16) : Nat.digitChar digit ≠ '\n' := by
  intro hnewline
  have hvalue := hexValue?_digitChar hdigit
  rw [hnewline] at hvalue
  cases hvalue

theorem newline_not_mem_escaped (char : Char) : '\n' ∉ escaped char := by
  unfold escaped
  split
  case h_8 =>
      split
      case isTrue hcontrol =>
          have hhigh := digitChar_ne_newline (show char.toNat / 16 < 16 by omega)
          have hlow := digitChar_ne_newline (show char.toNat % 16 < 16 by omega)
          simp [hhigh.symm, hlow.symm]
      case isFalse hcontrol =>
          rw [List.mem_singleton]
          rintro rfl
          exact hcontrol (by decide)
  all_goals decide

theorem newline_not_mem_quotedText (text : String) : '\n' ∉ quotedText text := by
  simp [quotedText, newline_not_mem_escaped]

/-! ## Members -/

/-- The value that a ratio is read as. -/
def ratioJson (ratio : Float) : Json :=
  (double.value ratio.toBits.toNat).decimal?.elim .null .number

/-- The value that a member is read as. -/
def Value.json : Value → Json
  | .text value => .text value
  | .integer value => .number value
  | .float value => ratioJson value

theorem spells_float (ratio : Float) : Spells (floatText ratio) (ratioJson ratio) := by
  unfold ratioJson
  cases hdecimal : (double.value ratio.toBits.toNat).decimal? with
  | some decimal => exact spells_of_number? (number?_floatText hdecimal)
  | none =>
      rw [floatText_eq_null hdecimal]
      exact spells_null

theorem scalarToken_ratioJson (ratio : Float) :
    scalarToken (ratioJson ratio) = .literal (ratioJson ratio) := by
  unfold ratioJson
  cases (double.value ratio.toBits.toNat).decimal? <;> rfl

/-- Every value is read as one token. -/
theorem run_value (tokens : List Token) (value : Value) :
    ∃ scanner, Scanner.run ⟨tokens, .between⟩ value.render = some scanner ∧
      scanner.Holds (tokens ++ [scalarToken value.json]) := by
  cases value with
  | text value => exact ⟨_, run_quotedText tokens value, Scanner.holds_between _⟩
  | integer value => exact (spells_of_number? (number?_integerText value)).run tokens
  | float value =>
      rw [Value.json, scalarToken_ratioJson]
      exact (spells_float value).run tokens

theorem newline_not_mem_value (value : Value) : '\n' ∉ value.render := by
  have hends : endsWord '\n' = true := rfl
  have hword {word : List Char} {json : Json} (spells : Spells word json) : '\n' ∉ word :=
    fun hmem => by rw [spells.unbroken _ hmem] at hends; cases hends
  cases value with
  | text value => exact newline_not_mem_quotedText value
  | integer value => exact hword (spells_of_number? (number?_integerText value))
  | float value => exact hword (spells_float value)

def memberJson (member : String × Value) : String × Json :=
  (member.1, member.2.json)

theorem run_memberText (tokens : List Token) (member : String × Value) :
    ∃ scanner, Scanner.run ⟨tokens, .between⟩ (memberText member.1 member.2) = some scanner ∧
      scanner.Holds (tokens ++ memberTokens (memberJson member)) := by
  obtain ⟨scanner, hrun, holds⟩ := run_value (tokens ++ [.text member.1, .colon]) member.2
  have hindent : Scanner.run ⟨tokens, .between⟩ indent = some ⟨tokens, .between⟩ := rfl
  have hcolon : Scanner.run ⟨tokens ++ [.text member.1], .between⟩ ": ".toList =
      some ⟨tokens ++ [.text member.1] ++ [.colon], .between⟩ := rfl
  refine ⟨scanner, ?_, ?_⟩
  · rw [memberText, Scanner.run_append, Scanner.run_append, Scanner.run_append, hindent,
      Option.bind_some, run_quotedText, Option.bind_some, hcolon, Option.bind_some,
      List.append_assoc]
    exact hrun
  · rw [List.append_assoc] at holds
    exact holds

theorem newline_not_mem_memberText (name : String) (value : Value) :
    '\n' ∉ memberText name value := by
  have hindent : '\n' ∉ indent := by decide
  simp [memberText, hindent, newline_not_mem_quotedText, newline_not_mem_value]

/-! ## Objects -/

variable (first : String × Value) (others : List (String × Value))

/-- The members behind the first, each behind a comma and a line end. -/
def othersText : List Char :=
  others.flatMap fun member => ",\n".toList ++ memberText member.1 member.2

theorem flatten_intersperse_members :
    (((first :: others).map fun (name, value) => memberText name value).intersperse
      ",\n".toList).flatten = memberText first.1 first.2 ++ othersText others := by
  induction others generalizing first with
  | nil => simp [othersText]
  | cons second others ih =>
      have hrest := ih second
      simp only [List.map_cons] at hrest
      simp only [List.map_cons, List.intersperse_cons_cons, List.flatten_cons, hrest, othersText,
        List.flatMap_cons, List.append_assoc]

theorem objectText_cons : objectText (first :: others) =
    '\x7b' :: '\n' :: (memberText first.1 first.2 ++ (othersText others ++ ['\n', '\x7d'])) := by
  rw [objectText, flatten_intersperse_members]
  simp

theorem run_othersText {scanner : Scanner} {tokens : List Token} (holds : scanner.Holds tokens) :
    ∃ next, Scanner.run scanner (othersText others) = some next ∧
      next.Holds (tokens ++ (others.map memberJson).flatMap (.comma :: memberTokens ·)) := by
  induction others generalizing scanner tokens with
  | nil => exact ⟨scanner, rfl, by simpa using holds⟩
  | cons member others ih =>
      obtain ⟨middle, hmember, hmiddle⟩ := run_memberText (tokens ++ [.comma]) member
      obtain ⟨next, hothers, hnext⟩ := ih hmiddle
      have hcomma (text : List Char) : Scanner.run scanner (",\n".toList ++ text) =
          Scanner.run ⟨tokens ++ [.comma], .between⟩ text := holds.run_cons rfl _
      refine ⟨next, ?_, ?_⟩
      · rw [othersText, List.flatMap_cons, List.append_assoc, hcomma, Scanner.run_append, hmember]
        exact hothers
      · simpa using hnext

theorem tokens?_objectText : tokens? (objectText (first :: others)) =
    some (objectTokens (memberJson first) (others.map memberJson)) := by
  obtain ⟨middle, hmember, hmiddle⟩ := run_memberText [.beginObject] first
  obtain ⟨last, hothers, hlast⟩ := run_othersText others hmiddle
  have hopen (text : List Char) : Scanner.run ⟨[], .between⟩ ('\x7b' :: '\n' :: text) =
      Scanner.run ⟨[.beginObject], .between⟩ text := rfl
  rw [tokens?, objectText_cons, hopen, Scanner.run_append, hmember, Option.bind_some,
    Scanner.run_append, hothers, Option.bind_some, hlast.run_cons rfl]
  simp [Scanner.run_cons, Scanner.start, Scanner.step, mark?, isBlank, Scanner.finish?,
    objectTokens]

theorem read?_objectText : Json.read? (String.ofList (objectText (first :: others))) =
    some (.object ((first :: others).map memberJson)) := by
  rw [Json.read?, String.toList_ofList, tokens?_objectText, Option.bind_some,
    ofTokens?_objectTokens, List.map_cons]

theorem length_splitOn_members :
    ((memberText first.1 first.2 ++ (othersText others ++ ['\n', '\x7d'])).splitOn '\n').length =
      others.length + 2 := by
  induction others generalizing first with
  | nil =>
      have hline := newline_not_mem_memberText first.1 first.2
      rw [othersText, List.flatMap_nil, List.nil_append,
        List.splitOn_append_cons_self_of_not_mem hline]
      rfl
  | cons second others ih =>
      have hline : '\n' ∉ memberText first.1 first.2 ++ [','] := by
        simp [newline_not_mem_memberText]
      have htext : memberText first.1 first.2 ++ (othersText (second :: others) ++ ['\n', '\x7d']) =
          (memberText first.1 first.2 ++ [',']) ++ '\n' ::
            (memberText second.1 second.2 ++ (othersText others ++ ['\n', '\x7d'])) := by
        simp [othersText]
      rw [htext, List.splitOn_append_cons_self_of_not_mem hline, List.length_cons, ih,
        List.length_cons]

theorem length_splitOn_objectText :
    ((objectText (first :: others)).splitOn '\n').length = others.length + 3 := by
  have hopen : '\n' ∉ ['\x7b'] := by decide
  rw [objectText_cons]
  change ((['\x7b'] ++ '\n' :: _).splitOn '\n').length = _
  rw [List.splitOn_append_cons_self_of_not_mem hopen, List.length_cons, length_splitOn_members]

theorem ratioJson_eq_null_iff (ratio : Float) :
    ratioJson ratio = .null ↔ ratio.isFinite = false := by
  have hfinite := isSome_decimal? ratio
  cases hdecimal : (double.value ratio.toBits.toNat).decimal? <;>
    simp [ratioJson, hdecimal, ← hfinite]

end Report

/-- The name and the counters that two summaries have in common. -/
structure Summary.SameCounters (first second : Summary) : Prop where
  archiveName : first.archiveName = second.archiveName
  assignments : first.assignments = second.assignments
  branches : first.branches = second.branches
  conditions : first.conditions = second.conditions
  maxDepth : first.maxDepth = second.maxDepth
  methods : first.methods = second.methods
  overrides : first.overrides = second.overrides

open Report

/-- The object that the report of a summary stands for. -/
def Summary.json (summary : Summary) : Json :=
  .object
    [("archiveName", .text summary.archiveName),
      ("fieldsAverage", ratioJson summary.fieldsAverage),
      ("A", .number summary.assignments.toNat), ("B", .number summary.branches.toNat),
      ("C", .number summary.conditions.toNat), ("ABC", ratioJson summary.abcMagnitude),
      ("maxInheritanceDepth", .number summary.maxDepth),
      ("averageInheritanceDepth", ratioJson summary.averageDepth),
      ("averageOverriddenMethods", ratioJson summary.averageOverrides),
      ("methods", .number summary.methods.toNat),
      ("overridenMethods", .number summary.overrides.toNat)]

theorem read?_render (summary : Summary) : Json.read? (render summary) = some summary.json := by
  rw [render, members, read?_objectText]
  simp [Summary.json, memberJson, Value.json]

theorem sameCounters_of_render_eq {first second : Summary}
    (hrender : render first = render second) : first.SameCounters second := by
  have hread := read?_render first
  rw [hrender, read?_render second] at hread
  simp only [Summary.json, Option.some.injEq, Json.object.injEq, List.cons.injEq, Prod.mk.injEq,
    true_and, Json.text.injEq, Json.number.injEq, Nat.cast_inj, Int.cast_inj, UInt64.toNat_inj,
    and_true] at hread
  obtain ⟨archiveName, -, assignments, branches, conditions, -, maxDepth, -, -, methods,
    overrides⟩ := hread
  exact ⟨archiveName.symm, assignments.symm, branches.symm, conditions.symm, maxDepth.symm,
    methods.symm, overrides.symm⟩

/-- The text of a summary has thirteen lines and is an object of eleven members in order: the name
and the counters are the summary's, and a ratio is null exactly if it is not finite.
The text determines the name and the counters. -/
theorem render_reads_back (summary : Summary) :
    ((render summary).toList.splitOn '\n').length = 13 ∧
      Json.read? (render summary) = some summary.json ∧
      (∀ ratio, ratioJson ratio = .null ↔ ratio.isFinite = false) ∧
      ∀ other, render other = render summary → other.SameCounters summary := by
  refine ⟨?_, read?_render summary, ratioJson_eq_null_iff, fun _ => sameCounters_of_render_eq⟩
  rw [render, String.toList_ofList, members, length_splitOn_objectText]
  rfl

end ClassMetrics
