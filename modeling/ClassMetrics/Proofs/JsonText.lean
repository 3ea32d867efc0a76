import Mathlib
import ClassMetrics.Text.Digits

/-!
A reader of JSON texts. Two machines run over the text one after the other: a scanner takes it
character by character and puts out tokens, and a builder takes these and keeps the arrays and
objects that are open on a stack. An object keeps its members in the order of the text, also two of
one key, and a number is the rational number that its digits stand for.

Main statements: what the scanner puts out for a text in quotes, for a word and for a mark, and what
the builder makes of the members of an object.
-/

namespace ClassMetrics

inductive Json where
  | null
  | boolean (value : Bool)
  | number (value : ℚ)
  | text (value : String)
  | array (items : List Json)
  | object (members : List (String × Json))

namespace Json

/-! ## Numbers -/

def sign (negative : Bool) : ℚ :=
  if negative then -1 else 1

/-- Digits behind a decimal point, if there is one. -/
def fraction? : List Char → Option (List Char × List Char)
  | '.' :: rest =>
      let digits := rest.takeWhile Char.isDigit
      if digits = [] then none else some (digits, rest.dropWhile Char.isDigit)
  | rest => some ([], rest)

/-- The digits of an exponent, up to the end of the word. -/
def exponentDigits? (digits : List Char) : Option Int :=
  if digits ≠ [] ∧ digits.all Char.isDigit then some (Nat.ofDigitChars 10 digits 0) else none

/-- The exponent at the end of a word, zero if there is none. -/
def exponent? : List Char → Option Int
  | [] => some 0
  | mark :: rest =>
      if mark = 'e' ∨ mark = 'E' then
        match rest with
        | '-' :: digits => (exponentDigits? digits).map (-·)
        | '+' :: digits => exponentDigits? digits
        | digits => exponentDigits? digits
      else none

/-- A number without its sign. Its whole part starts with a zero only if it is one. -/
def magnitude? (word : List Char) : Option ℚ :=
  let whole := word.takeWhile Char.isDigit
  if whole = [] ∨ (whole.head? = some '0' ∧ whole ≠ ['0']) then none
  else do
    let (fraction, rest) ← fraction? (word.dropWhile Char.isDigit)
    let exponent ← exponent? rest
    return (Nat.ofDigitChars 10 (whole ++ fraction) 0 : ℚ) * 10 ^ (exponent - fraction.length)

def number? : List Char → Option ℚ
  | '-' :: rest => (magnitude? rest).map (sign true * ·)
  | word => magnitude? word

/-! ## Tokens -/

inductive Token where
  | beginObject
  | endObject
  | beginArray
  | endArray
  | comma
  | colon
  | text (value : String)
  | literal (value : Json)

/-- The token of a character that is one by itself. -/
def mark? : Char → Option Token
  | '\x7b' => some .beginObject
  | '\x7d' => some .endObject
  | '[' => some .beginArray
  | ']' => some .endArray
  | ',' => some .comma
  | ':' => some .colon
  | _ => none

def isBlank (char : Char) : Bool :=
  char = ' ' || char = '\t' || char = '\n' || char = '\r'

/-- Whether a character ends a word that stands before it. -/
def endsWord (char : Char) : Bool :=
  (mark? char).isSome || char = '"' || isBlank char

def literal? (word : List Char) : Option Json :=
  if word = "null".toList then some .null
  else if word = "true".toList then some (.boolean true)
  else if word = "false".toList then some (.boolean false)
  else (number? word).map .number

/-- Where the scanner stands in a text in quotes. -/
inductive Inside where
  | plain
  | escape
  /-- Among the four digits of a UTF-16 unit, behind a leading surrogate if there is one. -/
  | unit (leading? : Option Nat) (count value : Nat)
  /-- Behind a leading surrogate. -/
  | trailing (leading : Nat)
  | trailingEscape (leading : Nat)

/-- The character that an escape of one letter stands for. -/
def escape? : Char → Option Char
  | '"' => some '"'
  | '\\' => some '\\'
  | '/' => some '/'
  | 'b' => some '\x08'
  | 'f' => some '\x0c'
  | 'n' => some '\n'
  | 'r' => some '\r'
  | 't' => some '\t'
  | _ => none

/-- Takes a whole UTF-16 unit. A surrogate stands for a character only in a pair. -/
def takeUnit (read : List Char) (leading? : Option Nat) (value : Nat) :
    Option (List Char × Inside) :=
  match leading? with
  | none =>
      if 0xd800 ≤ value ∧ value < 0xdc00 then some (read, .trailing value)
      else if 0xdc00 ≤ value ∧ value < 0xe000 then none
      else some (read ++ [Char.ofNat value], .plain)
  | some leading =>
      if 0xdc00 ≤ value ∧ value < 0xe000 then
        let char := Char.ofNat (0x10000 + (leading - 0xd800) * 0x400 + (value - 0xdc00))
        some (read ++ [char], .plain)
      else none

/-- Takes a character of a text in quotes, the closing quote apart. -/
def Inside.step (read : List Char) (inside : Inside) (char : Char) :
    Option (List Char × Inside) :=
  match inside with
  | .plain =>
      if char = '\\' then some (read, .escape)
      else if char.toNat < 0x20 then none
      else some (read ++ [char], .plain)
  | .escape =>
      if char = 'u' then some (read, .unit none 0 0)
      else (escape? char).map fun char => (read ++ [char], .plain)
  | .unit leading? count value => do
      let digit ← hexValue? char
      if count < 3 then some (read, .unit leading? (count + 1) (16 * value + digit))
      else takeUnit read leading? (16 * value + digit)
  | .trailing leading => if char = '\\' then some (read, .trailingEscape leading) else none
  | .trailingEscape leading => if char = 'u' then some (read, .unit (some leading) 0 0) else none

inductive Position where
  | between
  | word (chars : List Char)
  | quoted (read : List Char) (inside : Inside)

structure Scanner where
  tokens : List Token
  position : Position

namespace Scanner

/-- Takes a character that no word and no text in quotes goes on with. -/
def start (tokens : List Token) (char : Char) : Scanner :=
  match mark? char with
  | some token => ⟨tokens ++ [token], .between⟩
  | none =>
      if char = '"' then ⟨tokens, .quoted [] .plain⟩
      else if isBlank char then ⟨tokens, .between⟩
      else ⟨tokens, .word [char]⟩

def step (scanner : Scanner) (char : Char) : Option Scanner :=
  match scanner.position with
  | .between => some (start scanner.tokens char)
  | .word chars =>
      if endsWord char then
        (literal? chars).map fun value => start (scanner.tokens ++ [.literal value]) char
      else some ⟨scanner.tokens, .word (chars ++ [char])⟩
  | .quoted read inside =>
      match inside, char with
      | .plain, '"' => some ⟨scanner.tokens ++ [.text (String.ofList read)], .between⟩
      | inside, char =>
          (inside.step read char).map fun (read, inside) => ⟨scanner.tokens, .quoted read inside⟩

/-- The tokens at the end of the text. -/
def finish? (scanner : Scanner) : Option (List Token) :=
  match scanner.position with
  | .between => some scanner.tokens
  | .word chars => (literal? chars).map fun value => scanner.tokens ++ [.literal value]
  | .quoted _ _ => none

def run (scanner : Scanner) (text : List Char) : Option Scanner :=
  text.foldlM step scanner

end Scanner

def tokens? (text : List Char) : Option (List Token) :=
  (Scanner.run ⟨[], .between⟩ text).bind Scanner.finish?

/-! ## Values -/

/-- An array or object that waits for a value. -/
inductive Frame where
  | array (items : List Json)
  | member (members : List (String × Json)) (key : String)

/-- What has to come next, inside the arrays and objects that are open. -/
inductive Builder where
  | awaitsValue (stack : List Frame)
  | awaitsFirstItem (stack : List Frame)
  | awaitsFirstKey (stack : List Frame)
  | awaitsKey (members : List (String × Json)) (stack : List Frame)
  | awaitsColon (members : List (String × Json)) (key : String) (stack : List Frame)
  | afterItem (items : List Json) (stack : List Frame)
  | afterMember (members : List (String × Json)) (stack : List Frame)
  | done (value : Json)

namespace Builder

/-- Puts a whole value where one was waited for. -/
def put (value : Json) : List Frame → Builder
  | [] => .done value
  | .array items :: stack => .afterItem (items ++ [value]) stack
  | .member members key :: stack => .afterMember (members ++ [(key, value)]) stack

/-- Takes the first token of a value. -/
def open? (stack : List Frame) : Token → Option Builder
  | .beginObject => some (.awaitsFirstKey stack)
  | .beginArray => some (.awaitsFirstItem stack)
  | .text value => some (put (.text value) stack)
  | .literal value => some (put value stack)
  | _ => none

def step : Builder → Token → Option Builder
  | .awaitsValue stack, token => open? stack token
  | .awaitsFirstItem stack, .endArray => some (put (.array []) stack)
  | .awaitsFirstItem stack, token => open? (.array [] :: stack) token
  | .awaitsFirstKey stack, .endObject => some (put (.object []) stack)
  | .awaitsFirstKey stack, .text key => some (.awaitsColon [] key stack)
  | .awaitsKey members stack, .text key => some (.awaitsColon members key stack)
  | .awaitsColon members key stack, .colon => some (.awaitsValue (.member members key :: stack))
  | .afterItem items stack, .comma => some (.awaitsValue (.array items :: stack))
  | .afterItem items stack, .endArray => some (put (.array items) stack)
  | .afterMember members stack, .comma => some (.awaitsKey members stack)
  | .afterMember members stack, .endObject => some (put (.object members) stack)
  | _, _ => none

def finish? : Builder → Option Json
  | .done value => some value
  | _ => none

def run (builder : Builder) (tokens : List Token) : Option Builder :=
  tokens.foldlM step builder

end Builder

def ofTokens? (tokens : List Token) : Option Json :=
  (Builder.run (.awaitsValue []) tokens).bind Builder.finish?

/-- The value that a text stands for. -/
def read? (text : String) : Option Json :=
  (tokens? text.toList).bind ofTokens?

/-! ## What the scanner puts out -/

namespace Scanner

@[simp]
theorem run_nil (scanner : Scanner) : scanner.run [] = some scanner := rfl

theorem run_cons (scanner : Scanner) (char : Char) (text : List Char) :
    scanner.run (char :: text) = (scanner.step char).bind (run · text) := rfl

theorem run_append (scanner : Scanner) (front back : List Char) :
    scanner.run (front ++ back) = (scanner.run front).bind (run · back) :=
  List.foldlM_append

/-- Once a word that may stand at its end is over, the scanner has put out these tokens. -/
def Holds (scanner : Scanner) (tokens : List Token) : Prop :=
  ∀ char, endsWord char = true → scanner.step char = some (start tokens char)

theorem holds_between (tokens : List Token) : Holds ⟨tokens, .between⟩ tokens :=
  fun _ _ => rfl

theorem holds_word (tokens : List Token) {word : List Char} {value : Json}
    (hvalue : literal? word = some value) :
    Holds ⟨tokens, .word word⟩ (tokens ++ [.literal value]) := by
  intro char hchar
  simp [step, hchar, hvalue]

theorem Holds.run_cons {scanner : Scanner} {tokens : List Token} (holds : scanner.Holds tokens)
    {char : Char} (hchar : endsWord char = true) (text : List Char) :
    scanner.run (char :: text) = (start tokens char).run text := by
  rw [Scanner.run_cons, holds char hchar, Option.bind_some]

theorem start_of_not_endsWord (tokens : List Token) {char : Char} (h : endsWord char = false) :
    start tokens char = ⟨tokens, .word [char]⟩ := by
  simp only [endsWord, Bool.or_eq_false_iff, Option.isSome_eq_false_iff,
    Option.isNone_iff_eq_none, decide_eq_false_iff_not] at h
  obtain ⟨⟨hmark, hquote⟩, hblank⟩ := h
  simp [start, hmark, hquote, hblank]

theorem run_word (tokens : List Token) (read word : List Char)
    (hword : ∀ char ∈ word, endsWord char = false) :
    run ⟨tokens, .word read⟩ word = some ⟨tokens, .word (read ++ word)⟩ := by
  induction word generalizing read with
  | nil => simp
  | cons char word ih =>
      have hchar := hword char List.mem_cons_self
      have hrest : ∀ char ∈ word, endsWord char = false := fun other hother =>
        hword other (List.mem_cons_of_mem _ hother)
      have hstep : step ⟨tokens, .word read⟩ char = some ⟨tokens, .word (read ++ [char])⟩ := by
        simp [step, hchar]
      rw [run_cons, hstep, Option.bind_some, ih _ hrest, List.append_assoc, List.singleton_append]

theorem run_between_word (tokens : List Token) {word : List Char} (hne : word ≠ [])
    (hword : ∀ char ∈ word, endsWord char = false) :
    run ⟨tokens, .between⟩ word = some ⟨tokens, .word word⟩ := by
  obtain ⟨char, rest, rfl⟩ := List.exists_cons_of_ne_nil hne
  have hstep : step ⟨tokens, .between⟩ char = some ⟨tokens, .word [char]⟩ :=
    congrArg some (start_of_not_endsWord tokens (hword char List.mem_cons_self))
  rw [run_cons, hstep, Option.bind_some,
    run_word _ _ _ fun other hother => hword other (List.mem_cons_of_mem _ hother),
    List.singleton_append]

end Scanner

/-! ## What the builder makes of an object -/

/-- The token of a value that is neither array nor object. -/
def scalarToken : Json → Token
  | .text value => .text value
  | value => .literal value

def memberTokens (member : String × Json) : List Token :=
  [.text member.1, .colon, scalarToken member.2]

namespace Builder

theorem open?_scalarToken (stack : List Frame) (value : Json) :
    open? stack (scalarToken value) = some (put value stack) := by
  cases value <;> rfl

theorem run_awaitsKey (members : List (String × Json)) (stack : List Frame)
    (member : String × Json) (tokens : List Token) :
    run (.awaitsKey members stack) (memberTokens member ++ tokens) =
      run (.afterMember (members ++ [member]) stack) tokens := by
  simp [run, memberTokens, step, open?_scalarToken, put]

theorem run_awaitsFirstKey (stack : List Frame) (member : String × Json) (tokens : List Token) :
    run (.awaitsFirstKey stack) (memberTokens member ++ tokens) =
      run (.afterMember [member] stack) tokens := by
  simp [run, memberTokens, step, open?_scalarToken, put]

theorem run_afterMember (members more : List (String × Json)) (stack : List Frame)
    (tokens : List Token) :
    run (.afterMember members stack) (more.flatMap (.comma :: memberTokens ·) ++ tokens) =
      run (.afterMember (members ++ more) stack) tokens := by
  induction more generalizing members with
  | nil => simp
  | cons member more ih =>
      calc run (.afterMember members stack)
            ((member :: more).flatMap (.comma :: memberTokens ·) ++ tokens)
          = run (.awaitsKey members stack)
              (memberTokens member ++ (more.flatMap (.comma :: memberTokens ·) ++ tokens)) := by
            simp [run, step]
        _ = run (.afterMember (members ++ [member]) stack)
              (more.flatMap (.comma :: memberTokens ·) ++ tokens) := run_awaitsKey ..
        _ = run (.afterMember (members ++ member :: more) stack) tokens := by
            rw [ih, List.append_assoc, List.singleton_append]

end Builder

/-- The tokens of an object of scalar members, the first and the others. -/
def objectTokens (first : String × Json) (others : List (String × Json)) : List Token :=
  .beginObject ::
    (memberTokens first ++ (others.flatMap (.comma :: memberTokens ·) ++ [.endObject]))

theorem ofTokens?_objectTokens (first : String × Json) (others : List (String × Json)) :
    ofTokens? (objectTokens first others) = some (.object (first :: others)) := by
  have hrun : Builder.run (.awaitsValue []) (objectTokens first others) =
      Builder.run (.awaitsFirstKey [])
        (memberTokens first ++ (others.flatMap (.comma :: memberTokens ·) ++ [.endObject])) := rfl
  rw [ofTokens?, hrun, Builder.run_awaitsFirstKey, Builder.run_afterMember]
  rfl

end Json

end ClassMetrics
