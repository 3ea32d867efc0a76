import Mathlib
import ClassMetrics.Descriptor
import ClassMetrics.Proofs.TextParts

/-!
The parameter part of a descriptor against the parameters that are read from it. Reading takes the
texts of the types one by one and finds the parenthesis behind the last of them; the part is cut at
the first one in the text, which may stand in the name of a class. Main statement: the part is the
text of the parameters if and only if no name has such a parenthesis, and then it tells them from
all others.
-/

namespace ClassMetrics

namespace TypeDescriptor

/-- The name of the class that a type is built from. -/
def className? : TypeDescriptor → Option (List Char)
  | .base _ => none
  | .object name => some name
  | .array element => element.className?

/-- A parenthesis stands in the text of a type only as part of a name. -/
theorem parenthesis_mem_text (type : TypeDescriptor) :
    ')' ∈ type.text ↔ ∃ name, type.className? = some name ∧ ')' ∈ name := by
  induction type with
  | base type => cases type <;> simp [text, BaseType.letter, className?]
  | object name => simp [text, className?]
  | array element ih => simp [text, className?, ih]

theorem text_arrayOf (dimensions : Nat) (element : TypeDescriptor) :
    (arrayOf dimensions element).text = List.replicate dimensions '[' ++ element.text := by
  induction dimensions with
  | zero => rfl
  | succ dimensions ih => rw [arrayOf, text, ih, List.replicate_succ, List.cons_append]

theorem ofLetter?_eq_some {letter : Char} {type : BaseType}
    (h : BaseType.ofLetter? letter = some type) : letter = type.letter := by
  unfold BaseType.ofLetter? at h
  split at h
  all_goals
    cases h
    try rfl

theorem readElement?_object {name : List Char} (hname : ∀ char ∈ name, char ≠ ';')
    (rest : List Char) :
    readElement? ((object name).text ++ rest) = some (object name, rest) := by
  have hkept : ∀ char ∈ name, decide (char ≠ ';') = true := by simpa using hname
  have hstop : ∀ char ∈ (';' :: rest).head?, decide (char ≠ ';') = false := by simp
  have htake := takeWhile_front hkept hstop
  have hdrop := dropWhile_front hkept hstop
  simp only [text, List.cons_append, List.append_assoc, readElement?, hdrop, htake,
    List.nil_append]

/-- A type that is no array stands at the front of what it was read from, starts with a letter, and
is read again in front of anything else. -/
theorem readElement?_eq_some {text rest : List Char} {type : TypeDescriptor}
    (h : readElement? text = some (type, rest)) :
    text = type.text ++ rest ∧
      (∃ letter after, type.text = letter :: after ∧ letter ≠ '[' ∧ letter ≠ ')') ∧
      ∀ other, readElement? (type.text ++ other) = some (type, other) := by
  unfold readElement? at h
  split at h
  · cases h
  · next tail =>
      split at h
      · cases h
      · next last after hafter =>
          obtain ⟨rfl, rfl⟩ := Prod.mk.inj (Option.some.inj h)
          have hlast := List.head?_dropWhile_not (· ≠ ';') tail
          rw [hafter] at hlast
          obtain rfl : last = ';' := by simpa using hlast
          have hsplit := List.takeWhile_append_dropWhile (p := (· ≠ ';')) (l := tail)
          rw [hafter] at hsplit
          refine ⟨?_, ⟨'L', _, rfl, by decide, by decide⟩, readElement?_object ?_⟩
          · simp only [text, List.cons_append, List.append_assoc, List.nil_append, hsplit]
          · intro char hchar
            simpa using List.mem_takeWhile_imp hchar
  · next letter tail hletter =>
      obtain ⟨base, hbase, hpair⟩ := Option.map_eq_some_iff.1 h
      obtain ⟨rfl, rfl⟩ := Prod.mk.inj hpair
      obtain rfl := ofLetter?_eq_some hbase
      refine ⟨rfl, ⟨base.letter, [], rfl, ?_, ?_⟩, ?_⟩
      · cases base <;> decide
      · cases base <;> decide
      · intro other
        cases base <;> rfl

theorem read?_brackets {dimensions : Nat} {text rest : List Char} {element : TypeDescriptor}
    (hfew : dimensions ≤ maxDimensions) (h : readElement? text = some (element, rest)) :
    read? (List.replicate dimensions '[' ++ text) =
      some (arrayOf dimensions element, rest) := by
  obtain ⟨htext, ⟨letter, after, hletter, hother, -⟩, -⟩ := readElement?_eq_some h
  rw [hletter, List.cons_append] at htext
  have hbrackets : ∀ char ∈ List.replicate dimensions '[', decide (char = '[') = true := by
    intro char hchar
    simpa using List.eq_of_mem_replicate hchar
  have hstop : ∀ char ∈ (letter :: (after ++ rest)).head?, decide (char = '[') = false := by
    simpa using hother
  have htake := takeWhile_front hbrackets hstop
  have hdrop := dropWhile_front hbrackets hstop
  rw [← htext] at htake hdrop
  simp only [read?, htake, hdrop, List.length_replicate, Nat.not_lt.2 hfew, h, if_false]
  rfl

theorem exists_element_of_read? {text rest : List Char} {type : TypeDescriptor}
    (h : read? text = some (type, rest)) :
    ∃ dimensions after element, dimensions ≤ maxDimensions ∧
      text = List.replicate dimensions '[' ++ after ∧
      readElement? after = some (element, rest) ∧ type = arrayOf dimensions element := by
  have hbrackets : text.takeWhile (· = '[') =
      List.replicate (text.takeWhile (· = '[')).length '[' := by
    apply List.eq_replicate_of_mem
    intro char hchar
    simpa using List.mem_takeWhile_imp hchar
  have hsplit := List.takeWhile_append_dropWhile (p := (· = '[')) (l := text)
  rw [hbrackets] at hsplit
  simp only [read?, bind, Option.bind] at h
  split at h
  · cases h
  · next hfew =>
      split at h
      · cases h
      · next parsed hparsed =>
          obtain ⟨rfl, rfl⟩ := Prod.mk.inj (Option.some.inj h)
          exact ⟨_, _, parsed.1, Nat.not_lt.1 hfew, hsplit.symm, hparsed, rfl⟩

/-- Reading takes exactly the text of the type, which does not start with a parenthesis. -/
theorem read?_eq_some {text rest : List Char} {type : TypeDescriptor}
    (h : read? text = some (type, rest)) :
    text = type.text ++ rest ∧ (∀ other, (type.text ++ other).head? ≠ some ')') ∧
      ∀ other, read? (type.text ++ other) = some (type, other) := by
  obtain ⟨dimensions, after, element, hfew, rfl, helement, rfl⟩ := exists_element_of_read? h
  obtain ⟨rfl, ⟨letter, tail, hletter, -, hother⟩, hagain⟩ := readElement?_eq_some helement
  refine ⟨?_, ?_, ?_⟩
  · rw [text_arrayOf, List.append_assoc]
  · intro other
    rw [text_arrayOf, hletter]
    cases dimensions with
    | zero => simpa using hother
    | succ dimensions => simp [List.replicate_succ]
  · intro other
    rw [text_arrayOf, List.append_assoc]
    exact read?_brackets hfew (hagain other)

end TypeDescriptor

namespace MethodDescriptor

open TypeDescriptor

/-- Parameters stand in front of the first parenthesis that is not part of a type, and are read
again in front of any other text. -/
theorem readParameters?_eq_some {text after : List Char} {types : List TypeDescriptor}
    (h : readParameters? text = some (types, after)) :
    text = types.flatMap TypeDescriptor.text ++ ')' :: after ∧
      ∀ other, readParameters? (types.flatMap TypeDescriptor.text ++ ')' :: other) =
        some (types, other) := by
  fun_induction readParameters? text generalizing types after with
  | case1 text hclosed =>
      obtain ⟨rfl, rfl⟩ := Prod.mk.inj (Option.some.inj h)
      obtain ⟨tail, rfl⟩ := List.head?_eq_some_iff.1 hclosed
      refine ⟨rfl, fun other => ?_⟩
      rw [List.flatMap_nil, List.nil_append, readParameters?]
      rfl
  | case2 text hopen hmissing => cases h
  | case3 text hopen type rest hread ih =>
      obtain ⟨⟨others, behind⟩, hothers, hpair⟩ := Option.map_eq_some_iff.1 h
      obtain ⟨rfl, rfl⟩ := Prod.mk.inj hpair
      obtain ⟨rfl, hagainRest⟩ := ih hothers
      obtain ⟨rfl, hstart, hagain⟩ := read?_eq_some hread
      refine ⟨by rw [List.flatMap_cons, List.append_assoc], fun other => ?_⟩
      rw [List.flatMap_cons, List.append_assoc, readParameters?, if_neg (hstart _)]
      split
      · next hmissing => simp [hagain] at hmissing
      · next found remaining hfound =>
          rw [hagain] at hfound
          obtain ⟨rfl, rfl⟩ := Prod.mk.inj (Option.some.inj hfound)
          rw [hagainRest]
          rfl

/-- A valid descriptor starts with its parameters in parentheses. -/
theorem exists_after_of_parse? {text : List Char} {parsed : MethodDescriptor}
    (h : parse? text = some parsed) :
    ∃ after, text = '(' :: (parsed.parameters.flatMap TypeDescriptor.text ++ ')' :: after) ∧
      ∀ other, readParameters? (parsed.parameters.flatMap TypeDescriptor.text ++ ')' :: other) =
        some (parsed.parameters, other) := by
  unfold parse? at h
  split at h
  · next rest =>
      obtain ⟨⟨types, after⟩, htypes, h⟩ := Option.bind_eq_some_iff.1 h
      obtain ⟨⟨result, trailing⟩, -, h⟩ := Option.bind_eq_some_iff.1 h
      obtain rfl := Option.some.inj h
      obtain ⟨rfl, hagain⟩ := readParameters?_eq_some htypes
      exact ⟨after, rfl, hagain⟩
  · cases h

/-- The text of parameters in parentheses. -/
def parametersText (types : List TypeDescriptor) : List Char :=
  '(' :: (types.flatMap TypeDescriptor.text ++ [')'])

/-- No class that is named among the types has a closing parenthesis in its name. -/
def NamesUnclosed (types : List TypeDescriptor) : Prop :=
  ∀ type ∈ types, ∀ name, type.className? = some name → ')' ∉ name

theorem namesUnclosed_iff {types : List TypeDescriptor} :
    NamesUnclosed types ↔ ')' ∉ types.flatMap TypeDescriptor.text := by
  simp only [NamesUnclosed, List.mem_flatMap, parenthesis_mem_text, not_exists, not_and]

/-- The first parenthesis is found no later than at the end of the parameters. -/
theorem takeWhile_append_closing (front after : List Char) :
    (front ++ ')' :: after).takeWhile (· ≠ ')') = front.takeWhile (· ≠ ')') := by
  rw [List.takeWhile_append, List.takeWhile_cons_of_neg (by simp), List.append_nil]
  split
  · next hwhole => exact ((List.takeWhile_prefix _).eq_of_length hwhole).symm
  · rfl

theorem takeWhile_closing_iff {front : List Char} :
    front.takeWhile (· ≠ ')') ++ [')'] = front ++ [')'] ↔ ')' ∉ front := by
  rw [List.append_left_inj, List.takeWhile_eq_self_iff]
  simp only [ne_eq, decide_not, Bool.not_eq_eq_eq_not, Bool.not_true, decide_eq_false_iff_not]
  exact ⟨fun h hmem => h _ hmem rfl, fun h char hchar heq => h (heq ▸ hchar)⟩

/-- A text up to its first parenthesis. -/
theorem takeWhile_closing_eq_take {text : List Char} (h : ')' ∈ text) :
    text.takeWhile (· ≠ ')') ++ [')'] = text.take (text.idxOf ')' + 1) := by
  obtain ⟨front, back, rfl, hfront⟩ := List.eq_append_cons_of_mem h
  rw [takeWhile_append_closing, takeWhile_closing_iff.2 hfront,
    List.idxOf_append_of_notMem hfront, List.idxOf_cons_self, Nat.add_zero,
    List.take_length_add_append]
  rfl

theorem parameterPart?_of_parse? {descriptor : String} {parsed : MethodDescriptor}
    (h : parse? descriptor.toList = some parsed) :
    parameterPart? descriptor =
      some (String.ofList (descriptor.toList.takeWhile (· ≠ ')') ++ [')'])) := by
  rw [parameterPart?, h]
  rfl

/-- The cut is made within the parameters, whatever follows them. -/
theorem parameterPart?_of_parameters {descriptor : String} {parsed : MethodDescriptor}
    (h : parse? descriptor.toList = some parsed) :
    parameterPart? descriptor = some (String.ofList
      (('(' :: parsed.parameters.flatMap TypeDescriptor.text).takeWhile (· ≠ ')') ++ [')'])) := by
  obtain ⟨after, htext, -⟩ := exists_after_of_parse? h
  rw [parameterPart?_of_parse? h, htext, ← List.cons_append, takeWhile_append_closing]

theorem part_eq_parametersText_iff {descriptor : String} {parsed : MethodDescriptor}
    (h : parse? descriptor.toList = some parsed) :
    parameterPart? descriptor = some (String.ofList (parametersText parsed.parameters)) ↔
      NamesUnclosed parsed.parameters := by
  rw [parameterPart?_of_parameters h, namesUnclosed_iff, Option.some_inj, String.ofList_inj,
    parametersText, ← List.cons_append, takeWhile_closing_iff, List.mem_cons]
  simp

/-- The text behind a part that was cut out where the parameters end is read as they are. -/
theorem parameters_eq_of_part_eq {descriptor other : String} {parsed parsedOther : MethodDescriptor}
    (h : parse? descriptor.toList = some parsed) (hother : parse? other.toList = some parsedOther)
    (hunclosed : NamesUnclosed parsed.parameters)
    (hpart : parameterPart? descriptor = parameterPart? other) :
    parsed.parameters = parsedOther.parameters := by
  obtain ⟨-, -, hagain⟩ := exists_after_of_parse? h
  obtain ⟨after, htext, hagainOther⟩ := exists_after_of_parse? hother
  have hclosing : ')' ∈ other.toList := by simp [htext]
  rw [(part_eq_parametersText_iff h).2 hunclosed, parameterPart?_of_parse? hother,
    takeWhile_closing_eq_take hclosing, Option.some_inj, String.ofList_inj] at hpart
  have hsplit := List.take_append_drop (other.toList.idxOf ')' + 1) other.toList
  rw [← hpart, parametersText, List.cons_append, List.append_assoc, List.singleton_append] at hsplit
  have hbodies := List.tail_eq_of_cons_eq (hsplit.trans htext)
  have hread := hagain (other.toList.drop (other.toList.idxOf ')' + 1))
  rw [hbodies, hagainOther] at hread
  exact (Prod.mk.inj (Option.some.inj hread)).1.symm

/-- What the part cut out of a descriptor tells of the parameters that are read from it. -/
structure PartOf (descriptor : String) (parsed : MethodDescriptor) : Prop where
  ordered : descriptor.toList.idxOf '(' < descriptor.toList.idxOf ')'
  inside : descriptor.toList.idxOf ')' < descriptor.toList.length
  slice : parameterPart? descriptor = some (String.ofList
    ((descriptor.toList.take (descriptor.toList.idxOf ')' + 1)).drop (descriptor.toList.idxOf '(')))
  whole : parameterPart? descriptor = some (String.ofList (parametersText parsed.parameters)) ↔
    NamesUnclosed parsed.parameters
  determined : ∀ other parsedOther, parse? other.toList = some parsedOther →
    parsed.parameters = parsedOther.parameters → parameterPart? descriptor = parameterPart? other
  determines : NamesUnclosed parsed.parameters →
    ∀ other parsedOther, parse? other.toList = some parsedOther →
      parameterPart? descriptor = parameterPart? other → parsed.parameters = parsedOther.parameters

/-- Nothing is cut out of a text that is no descriptor, and the part of one that is tells its
parameters as far as their names allow. -/
theorem partOf_of_parse (descriptor : String) :
    (parse? descriptor.toList = none → parameterPart? descriptor = none) ∧
      ∀ parsed, parse? descriptor.toList = some parsed → PartOf descriptor parsed := by
  constructor
  · intro hinvalid
    rw [parameterPart?, hinvalid]
    rfl
  · intro parsed hparsed
    obtain ⟨after, htext, -⟩ := exists_after_of_parse? hparsed
    have hclosing : ')' ∈ descriptor.toList := by simp [htext]
    have hopening : descriptor.toList.idxOf '(' = 0 := by rw [htext, List.idxOf_cons_self]
    constructor
    case ordered =>
      rw [hopening, htext, List.idxOf_cons_ne _ (by decide)]
      exact Nat.succ_pos _
    case inside => exact List.idxOf_lt_length_iff.2 hclosing
    case slice =>
      rw [parameterPart?_of_parse? hparsed, takeWhile_closing_eq_take hclosing, hopening,
        List.drop_zero]
    case whole => exact part_eq_parametersText_iff hparsed
    case determined =>
      intro other parsedOther hother hsame
      rw [parameterPart?_of_parameters hparsed, parameterPart?_of_parameters hother, hsame]
    case determines =>
      intro hunclosed other parsedOther hother hpart
      exact parameters_eq_of_part_eq hparsed hother hunclosed hpart

/-- Parentheses in the name of the result are of no consequence. -/
theorem partOf_parenthesis_in_result :
    parse? "(I[[Lp/Q;)Lr)s;".toList =
        some ⟨[.base .int, .array (.array (.object "p/Q".toList))], .object "r)s".toList⟩ ∧
      PartOf "(I[[Lp/Q;)Lr)s;"
        ⟨[.base .int, .array (.array (.object "p/Q".toList))], .object "r)s".toList⟩ := by
  have hparsed : parse? "(I[[Lp/Q;)Lr)s;".toList =
      some ⟨[.base .int, .array (.array (.object "p/Q".toList))], .object "r)s".toList⟩ := by cbv
  exact ⟨hparsed, (partOf_of_parse "(I[[Lp/Q;)Lr)s;").2 _ hparsed⟩

/-- A parenthesis in the name of a parameter's class ends the part too early, and parameters that
differ behind it are not told apart. -/
theorem part_of_parenthesis_in_parameter :
    parse? "(La)b;)V".toList = some ⟨[.object "a)b".toList], .base .void⟩ ∧
      String.ofList (parametersText [.object "a)b".toList]) = "(La)b;)" ∧
      parameterPart? "(La)b;)V" = some "(La)" ∧
      parse? "(La)c;)V".toList = some ⟨[.object "a)c".toList], .base .void⟩ ∧
      parameterPart? "(La)c;)V" = parameterPart? "(La)b;)V" := by
  refine ⟨?_, ?_, ?_, ?_, ?_⟩
  all_goals cbv

end MethodDescriptor

end ClassMetrics
