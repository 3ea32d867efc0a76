/-!
The arguments of the program. They are read in their order, and the first one that is out of place
decides. Asking for the version or for help ends the reading, so that only faults before it count.
-/

namespace ClassMetrics.CommandLine

/-- What to analyse, and where the results go. -/
structure Options where
  archive : String
  output : String
  quiet : Bool
  timing : Bool
  /-- The address to which traces are sent. -/
  collector? : Option String
  deriving DecidableEq, Repr

inductive Command where
  | version
  | help
  | analyze (options : Options)
  deriving DecidableEq, Repr

/-- Why arguments make no command. -/
inductive UsageFault where
  | unexpected (argument : String)
  | repeated (option : String)
  | missingValue (option : String)
  | emptyValue (option : String)
  | needlessValue (option value : String)
  | missingArchive
  deriving DecidableEq, Repr

def defaultOutput : String :=
  "metrics.json"

/-- Options that are given or not. -/
inductive Switch where
  | quiet
  | timing
  deriving DecidableEq, Repr

/-- Options that take a value. -/
inductive Setting where
  | output
  | otel
  deriving DecidableEq, Repr

/-- Options that ask the program about itself. -/
inductive Inquiry where
  | help
  | version
  deriving DecidableEq, Repr

inductive OptionName where
  | switch (name : Switch)
  | setting (name : Setting)
  | inquiry (name : Inquiry)
  deriving DecidableEq, Repr

def Switch.text : Switch → String
  | .quiet => "--quiet"
  | .timing => "--timing"

def Setting.text : Setting → String
  | .output => "--output <PATH>"
  | .otel => "--otel <URL>"

def Inquiry.text : Inquiry → String
  | .help => "--help"
  | .version => "--version"

def Inquiry.command : Inquiry → Command
  | .help => .help
  | .version => .version

namespace OptionName

def ofWord? : String → Option OptionName
  | "output" => some (.setting .output)
  | "quiet" => some (.switch .quiet)
  | "timing" => some (.switch .timing)
  | "otel" => some (.setting .otel)
  | "help" => some (.inquiry .help)
  | "version" => some (.inquiry .version)
  | _ => none

/-- How messages show an option. -/
def text : OptionName → String
  | .switch name => name.text
  | .setting name => name.text
  | .inquiry name => name.text

end OptionName

/-- The inquiry that a single letter stands for. -/
def Inquiry.ofLetter? : Char → Option Inquiry
  | 'h' => some .help
  | 'V' => some .version
  | _ => none

/-- An argument by its form. -/
inductive Argument where
  | positional (text : String)
  /-- Two hyphens, behind which every argument is positional. -/
  | separator
  | long (word : String) (value? : Option String)
  | short (letter : Char)
  deriving DecidableEq, Repr

namespace Argument

/-- A word and the value behind the first equals sign. -/
def longOf (chars : List Char) : Argument :=
  let (word, value) := chars.span (· ≠ '=')
  .long (String.ofList word) (if value = [] then none else some (String.ofList (value.drop 1)))

/-- A lone hyphen is positional. -/
def ofText (text : String) : Argument :=
  match text.toList with
  | ['-', '-'] => .separator
  | '-' :: '-' :: word => longOf word
  | '-' :: letter :: _ => .short letter
  | _ => .positional text

end Argument

/-- What has been read so far. -/
structure Draft where
  archive? : Option String
  output? : Option String
  quiet : Bool
  timing : Bool
  collector? : Option String
  deriving DecidableEq, Repr

namespace Draft

def empty : Draft := ⟨none, none, false, false, none⟩

def setArchive (draft : Draft) (text : String) : Except UsageFault Draft :=
  if draft.archive?.isSome then .error (.unexpected text)
  else if text = "" then .error (.emptyValue "<ARCHIVE>")
  else .ok { draft with archive? := some text }

/-- Turns on a switch that is not on yet. -/
def turnOn (draft : Draft) (switch : Switch) : Except UsageFault Draft :=
  match switch with
  | .quiet =>
      if draft.quiet then .error (.repeated switch.text) else .ok { draft with quiet := true }
  | .timing =>
      if draft.timing then .error (.repeated switch.text) else .ok { draft with timing := true }

/-- Sets an option that has no value yet. The address may be empty, the path may not. -/
def set (draft : Draft) (setting : Setting) (value : String) : Except UsageFault Draft :=
  match setting with
  | .output =>
      if draft.output?.isSome then .error (.repeated setting.text)
      else if value = "" then .error (.emptyValue setting.text)
      else .ok { draft with output? := some value }
  | .otel =>
      if draft.collector?.isSome then .error (.repeated setting.text)
      else .ok { draft with collector? := some value }

def finish (draft : Draft) : Except UsageFault Command :=
  match draft.archive? with
  | none => .error .missingArchive
  | some archive =>
      .ok (.analyze
        { archive
          output := draft.output?.getD defaultOutput
          quiet := draft.quiet
          timing := draft.timing
          collector? := draft.collector? })

end Draft

namespace Command

/-- Reads arguments that are all positional. -/
def readPositional (draft : Draft) : List String → Except UsageFault Command
  | [] => draft.finish
  | text :: rest => do readPositional (← draft.setArchive text) rest

/-- Reads arguments behind those of a draft. -/
def read (draft : Draft) : List String → Except UsageFault Command
  | [] => draft.finish
  | text :: rest =>
      match Argument.ofText text with
      | .separator => readPositional draft rest
      | .positional text => do read (← draft.setArchive text) rest
      | .short letter =>
          match Inquiry.ofLetter? letter with
          | some inquiry => .ok inquiry.command
          | none => .error (.unexpected text)
      | .long word value? =>
          match OptionName.ofWord? word, value? with
          | none, _ => .error (.unexpected text)
          | some (.inquiry inquiry), none => .ok inquiry.command
          | some (.switch switch), none => do read (← draft.turnOn switch) rest
          | some (.setting setting), some value => do read (← draft.set setting value) rest
          | some (.setting setting), none =>
              match rest with
              | [] => .error (.missingValue setting.text)
              | value :: rest =>
                  match Argument.ofText value with
                  | .positional value => do read (← draft.set setting value) rest
                  | _ => .error (.missingValue setting.text)
          | some name, some value => .error (.needlessValue name.text value)

/-- The command that arguments make. -/
def ofArguments (arguments : List String) : Except UsageFault Command :=
  read .empty arguments

end Command

end ClassMetrics.CommandLine
