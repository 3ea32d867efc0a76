import Mathlib
import ClassMetrics.CommandLine.Arguments
import ClassMetrics.Proofs.Pairing

/-!
What is read from arguments. Up to two hyphens on their own every argument that starts with two
hyphens is an option, in one text with its value or in front of it. Main statement: arguments that
ask for an analysis ask for a quiet one if they hold that switch, and send the report to the path
that they give for the output, or to the default one if they give none.
-/

namespace ClassMetrics.CommandLine

namespace Argument

variable {text word value path : String} {value? : Option String}

/-- How a value is written behind its option. -/
def valueText : Option String → String
  | none => ""
  | some value => "=" ++ value

theorem toList_of_longOf {chars : List Char} (h : longOf chars = .long word value?) :
    chars = word.toList ++ (valueText value?).toList := by
  simp only [longOf, List.span_eq_takeWhile_dropWhile, long.injEq] at h
  obtain ⟨rfl, rfl⟩ := h
  have hsplit := List.takeWhile_append_dropWhile (p := fun char => decide (char ≠ '=')) (l := chars)
  split
  · next hrest =>
      rw [hrest, List.append_nil] at hsplit
      rw [String.toList_ofList, hsplit, valueText, String.toList_empty, List.append_nil]
  · next hrest =>
      obtain ⟨stop, rest, hstop⟩ := List.exists_cons_of_ne_nil hrest
      have hequals := List.head?_dropWhile_not (fun char => decide (char ≠ '=')) chars
      rw [hstop] at hequals
      obtain rfl : stop = '=' := by simpa using hequals
      rw [hstop] at hsplit ⊢
      rw [valueText, String.toList_append, String.toList_ofList, String.toList_ofList,
        String.toList_ofList]
      exact hsplit.symm

/-- Options are read from the texts by which they are written. -/
theorem text_of_long (h : ofText text = .long word value?) :
    text = "--" ++ word ++ valueText value? := by
  rw [ofText] at h
  split at h
  · cases h
  · next chars _ hchars =>
      rw [← String.toList_inj, hchars, toList_of_longOf h]
      simp
  · cases h
  · cases h

theorem text_of_positional (h : ofText text = .positional value) : text = value := by
  rw [ofText] at h
  split at h
  · cases h
  · cases h
  · cases h
  · exact positional.inj h

theorem text_of_separator (h : ofText text = .separator) : text = "--" := by
  rw [ofText] at h
  split at h
  · next hchars => exact String.toList_inj.1 hchars
  · cases h
  · cases h
  · cases h

theorem ofText_eq_separator_iff : ofText text = .separator ↔ text = "--" :=
  ⟨text_of_separator, by rintro rfl; rfl⟩

theorem ofText_eq_quiet_iff : ofText text = .long "quiet" none ↔ text = "--quiet" :=
  ⟨fun h => text_of_long h, by rintro rfl; rfl⟩

theorem ofText_eq_output_iff : ofText text = .long "output" none ↔ text = "--output" :=
  ⟨fun h => text_of_long h, by rintro rfl; rfl⟩

theorem ofText_eq_output_some_iff :
    ofText text = .long "output" (some path) ↔ text = "--output=" ++ path := by
  constructor
  · intro h
    rw [text_of_long h, valueText, ← String.append_assoc]
    rfl
  · rintro rfl
    simp [ofText, longOf]

end Argument

/-- The arguments in front of two hyphens on their own. -/
def optionPart (arguments : List String) : List String :=
  arguments.takeWhile (· ≠ "--")

/-- Arguments give a path for the output, in one text with the option or behind it. -/
def GivesOutput (arguments : List String) (path : String) : Prop :=
  "--output=" ++ path ∈ optionPart arguments ∨ ["--output", path] <:+: optionPart arguments

/-- The output of arguments: the path that they give, or the default one. -/
def NamesOutput (arguments : List String) (path : String) : Prop :=
  GivesOutput arguments path ∨ path = defaultOutput ∧ ∀ other, ¬GivesOutput arguments other

section Parts

variable {text path : String} {rest : List String}

theorem optionPart_nil_of_separator (h : Argument.ofText text = .separator) :
    optionPart (text :: rest) = [] := by
  rw [optionPart, List.takeWhile_cons_of_neg]
  simpa using Argument.text_of_separator h

theorem optionPart_cons (h : Argument.ofText text ≠ .separator) :
    optionPart (text :: rest) = text :: optionPart rest := by
  rw [optionPart, List.takeWhile_cons_of_pos, optionPart]
  simpa using mt Argument.ofText_eq_separator_iff.2 h

theorem quiet_mem_cons_iff (h : Argument.ofText text ≠ .separator) :
    "--quiet" ∈ optionPart (text :: rest) ↔
      Argument.ofText text = .long "quiet" none ∨ "--quiet" ∈ optionPart rest := by
  rw [optionPart_cons h, List.mem_cons, Argument.ofText_eq_quiet_iff, eq_comm]

theorem givesOutput_cons_iff (h : Argument.ofText text ≠ .separator) :
    GivesOutput (text :: rest) path ↔
      Argument.ofText text = .long "output" (some path) ∨
        Argument.ofText text = .long "output" none ∧ (optionPart rest).head? = some path ∨
        GivesOutput rest path := by
  have hbehind : ["--output", path] <+: text :: optionPart rest ↔
      text = "--output" ∧ (optionPart rest).head? = some path := by
    rw [List.cons_prefix_cons, eq_comm]
    cases optionPart rest with
    | nil => simp
    | cons value others => simp [eq_comm]
  rw [Argument.ofText_eq_output_some_iff, Argument.ofText_eq_output_iff, GivesOutput,
    optionPart_cons h, List.mem_cons, List.infix_cons_iff, hbehind, GivesOutput]
  tauto

end Parts

/-- The word that stands for an option. -/
def OptionName.word : OptionName → String
  | .switch .quiet => "quiet"
  | .switch .timing => "timing"
  | .setting .output => "output"
  | .setting .otel => "otel"
  | .inquiry .help => "help"
  | .inquiry .version => "version"

theorem OptionName.eq_word_of_ofWord? {word : String} {name : OptionName}
    (h : ofWord? word = some name) : word = name.word := by
  unfold ofWord? at h
  split at h
  all_goals cases h
  all_goals rfl

theorem Draft.eq_of_setArchive {draft next : Draft} {path : String}
    (h : draft.setArchive path = .ok next) : next = { draft with archive? := some path } := by
  rw [setArchive] at h
  split at h
  · cases h
  · split at h
    · cases h
    · exact (Except.ok.inj h).symm

/-- A draft and the arguments behind it ask for the same as another draft and what is left of the
arguments. -/
structure Carries (draft : Draft) (arguments : List String) (next : Draft) (rest : List String) :
    Prop where
  quiet : draft.quiet = true ∨ "--quiet" ∈ optionPart arguments ↔
    next.quiet = true ∨ "--quiet" ∈ optionPart rest
  output : ∀ path, draft.output? = some path ∨ GivesOutput arguments path ↔
    next.output? = some path ∨ GivesOutput rest path

namespace Carries

variable {draft next last : Draft} {arguments rest others : List String} {text value : String}

theorem refl (draft : Draft) (arguments : List String) : Carries draft arguments draft arguments :=
  ⟨Iff.rfl, fun _ => Iff.rfl⟩

theorem trans (h : Carries draft arguments next rest) (hrest : Carries next rest last others) :
    Carries draft arguments last others :=
  ⟨h.quiet.trans hrest.quiet, fun path => (h.output path).trans (hrest.output path)⟩

/-- Only two options matter here. -/
theorem skip (hsame : next.quiet = draft.quiet ∧ next.output? = draft.output?)
    (hseparator : Argument.ofText text ≠ .separator)
    (hquiet : Argument.ofText text ≠ .long "quiet" none)
    (houtput : ∀ value?, Argument.ofText text ≠ .long "output" value?) :
    Carries draft (text :: rest) next rest := by
  constructor
  · rw [quiet_mem_cons_iff hseparator, hsame.1]
    simp [hquiet]
  · intro path
    rw [givesOutput_cons_iff hseparator, hsame.2]
    simp [houtput]

theorem setArchive (h : draft.setArchive value = .ok next)
    (htext : Argument.ofText text = .positional value) :
    Carries draft (text :: rest) next rest := by
  obtain rfl := Draft.eq_of_setArchive h
  exact skip ⟨rfl, rfl⟩ (by simp [htext]) (by simp [htext]) (by simp [htext])

/-- Behind two hyphens there is no option. -/
theorem separator (htext : Argument.ofText text = .separator) :
    Carries draft (text :: rest) draft [] := by
  have hnone : optionPart (text :: rest) = optionPart [] := optionPart_nil_of_separator htext
  constructor
  · rw [hnone]
  · intro path
    rw [GivesOutput, hnone, GivesOutput]

theorem turnOn {switch : Switch} {word : String} (h : draft.turnOn switch = .ok next)
    (hword : OptionName.ofWord? word = some (.switch switch))
    (htext : Argument.ofText text = .long word none) :
    Carries draft (text :: rest) next rest := by
  obtain rfl := OptionName.eq_word_of_ofWord? hword
  cases switch with
  | quiet =>
      rw [Draft.turnOn] at h
      have hseparator : Argument.ofText text ≠ .separator := by simp [htext]
      obtain rfl : { draft with quiet := true } = next := by
        split at h
        · cases h
        · exact Except.ok.inj h
      constructor
      · rw [quiet_mem_cons_iff hseparator, htext]
        simp [OptionName.word]
      · intro path
        rw [givesOutput_cons_iff hseparator, htext]
        simp [OptionName.word]
  | timing =>
      rw [Draft.turnOn] at h
      have hsame : next.quiet = draft.quiet ∧ next.output? = draft.output? := by
        split at h
        · cases h
        · cases h
          exact ⟨rfl, rfl⟩
      exact skip hsame (by simp [htext]) (by simp [htext, OptionName.word])
        (by simp [htext, OptionName.word])

/-- The value of a setting comes from the arguments that are passed over, and so does nothing else
if it is the output. -/
theorem of_set {setting : Setting} (h : draft.set setting value = .ok next)
    (hquiet : "--quiet" ∈ optionPart arguments ↔ "--quiet" ∈ optionPart rest)
    (houtput : ∀ path, GivesOutput arguments path ↔
      setting = .output ∧ path = value ∨ GivesOutput rest path) :
    Carries draft arguments next rest := by
  cases setting with
  | output =>
      rw [Draft.set] at h
      split at h
      · cases h
      · next hfree =>
          split at h
          · cases h
          · cases h
            refine ⟨by simp [hquiet], fun path => ?_⟩
            have hnone : draft.output? = none := by simpa using hfree
            simp [houtput, hnone, eq_comm]
  | otel =>
      rw [Draft.set] at h
      split at h
      · cases h
      · cases h
        exact ⟨by simp [hquiet], fun path => by simp [houtput]⟩

theorem set {setting : Setting} {word : String} (h : draft.set setting value = .ok next)
    (hword : OptionName.ofWord? word = some (.setting setting))
    (htext : Argument.ofText text = .long word (some value)) :
    Carries draft (text :: rest) next rest := by
  obtain rfl := OptionName.eq_word_of_ofWord? hword
  have hseparator : Argument.ofText text ≠ .separator := by simp [htext]
  apply of_set h
  · simp [quiet_mem_cons_iff hseparator, htext]
  · intro path
    rw [givesOutput_cons_iff hseparator, htext]
    cases setting <;> simp [OptionName.word, eq_comm]

theorem set_behind {setting : Setting} {word : String} {behind : String}
    (h : draft.set setting value = .ok next)
    (hword : OptionName.ofWord? word = some (.setting setting))
    (htext : Argument.ofText text = .long word none)
    (hbehind : Argument.ofText behind = .positional value) :
    Carries draft (text :: behind :: rest) next rest := by
  obtain rfl := OptionName.eq_word_of_ofWord? hword
  have hseparator : Argument.ofText text ≠ .separator := by simp [htext]
  have hvalue : Argument.ofText behind ≠ .separator := by simp [hbehind]
  apply of_set h
  · rw [quiet_mem_cons_iff hseparator, quiet_mem_cons_iff hvalue, htext, hbehind]
    cases setting <;> simp [OptionName.word]
  · intro path
    rw [givesOutput_cons_iff hseparator, givesOutput_cons_iff hvalue, optionPart_cons hvalue,
      htext, hbehind, Argument.text_of_positional hbehind]
    cases setting <;> simp [OptionName.word, eq_comm]

end Carries

/-- Options are what arguments behind a draft ask for. -/
def Asks (draft : Draft) (arguments : List String) (options : Options) : Prop :=
  ∃ last : Draft, last.finish = .ok (.analyze options) ∧ Carries draft arguments last []

theorem Carries.asks {draft next : Draft} {arguments rest : List String} {options : Options}
    (h : Carries draft arguments next rest) (hrest : Asks next rest options) :
    Asks draft arguments options := by
  obtain ⟨last, hfinish, hlast⟩ := hrest
  exact ⟨last, hfinish, h.trans hlast⟩

namespace Command

variable {draft : Draft} {arguments : List String} {options : Options}

/-- Arguments that are all positional ask for nothing more. -/
theorem asks_of_readPositional (h : readPositional draft arguments = .ok (.analyze options)) :
    Asks draft [] options := by
  induction arguments generalizing draft with
  | nil => exact ⟨draft, h, .refl draft []⟩
  | cons text rest ih =>
      obtain ⟨next, hnext, h⟩ := except_bind_eq_ok.1 h
      obtain rfl := Draft.eq_of_setArchive hnext
      obtain ⟨last, hfinish, hlast⟩ := ih h
      exact ⟨last, hfinish, hlast.quiet, hlast.output⟩

theorem asks_of_read (h : read draft arguments = .ok (.analyze options)) :
    Asks draft arguments options := by
  fun_induction read draft arguments with
  | case1 draft => exact ⟨draft, h, .refl draft []⟩
  | case2 draft text rest htext =>
      exact (Carries.separator htext).asks (asks_of_readPositional h)
  | case3 draft text rest value htext ih =>
      obtain ⟨next, hnext, h⟩ := except_bind_eq_ok.1 h
      exact (Carries.setArchive hnext htext).asks (ih next h)
  | case4 draft text rest letter htext inquiry => cases inquiry <;> cases h
  | case7 draft text rest word inquiry => cases inquiry <;> cases h
  | case8 draft text rest word switch hword htext ih =>
      obtain ⟨next, hnext, h⟩ := except_bind_eq_ok.1 h
      exact (Carries.turnOn hnext hword htext).asks (ih next h)
  | case9 draft text rest word setting value hword htext ih =>
      obtain ⟨next, hnext, h⟩ := except_bind_eq_ok.1 h
      exact (Carries.set hnext hword htext).asks (ih next h)
  | case11 draft text word setting hword behind rest value hbehind htext ih =>
      obtain ⟨next, hnext, h⟩ := except_bind_eq_ok.1 h
      exact (Carries.set_behind hnext hword htext hbehind).asks (ih next h)
  | case5 => cases h
  | case6 => cases h
  | case10 => cases h
  | case12 => cases h
  | case13 => cases h

theorem of_finish {last : Draft} (h : last.finish = .ok (.analyze options)) :
    options.quiet = last.quiet ∧ options.output = last.output?.getD defaultOutput := by
  rw [Draft.finish] at h
  split at h
  · cases h
  · cases h
    exact ⟨rfl, rfl⟩

/-- An analysis is quiet if the switch is among the arguments. -/
theorem quiet_iff_mem (h : ofArguments arguments = .ok (.analyze options)) :
    options.quiet = true ↔ "--quiet" ∈ optionPart arguments := by
  obtain ⟨last, hfinish, hlast⟩ := asks_of_read h
  rw [(of_finish hfinish).1]
  simpa [Draft.empty, optionPart] using hlast.quiet.symm

/-- The output of an analysis is the one that the arguments name. -/
theorem namesOutput_iff (h : ofArguments arguments = .ok (.analyze options)) {path : String} :
    NamesOutput arguments path ↔ path = options.output := by
  obtain ⟨last, hfinish, hlast⟩ := asks_of_read h
  have hgiven : ∀ path, GivesOutput arguments path ↔ last.output? = some path := by
    intro path
    simpa [Draft.empty, GivesOutput, optionPart] using hlast.output path
  rw [(of_finish hfinish).2, NamesOutput]
  cases houtput : last.output? with
  | none => simp [hgiven, houtput]
  | some given => simp [hgiven, houtput, eq_comm]

end Command

end ClassMetrics.CommandLine
