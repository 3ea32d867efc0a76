import ClassMetrics.ClassFile.Fault
import ClassMetrics.Ordered
import ClassMetrics.Text.Quoted

/-!
What a run reports of its progress. Every event has a level and a target, by which a filter lets it
pass or not, and is written on one line.
-/

namespace ClassMetrics.Log

/-- Levels from the most to the least urgent. -/
inductive Level where
  | error
  | warn
  | info
  | debug
  | trace
  deriving DecidableEq, Repr

def Level.rank : Level → Nat
  | .error => 1
  | .warn => 2
  | .info => 3
  | .debug => 4
  | .trace => 5

def Level.word : Level → String
  | .error => "ERROR"
  | .warn => "WARN"
  | .info => "INFO"
  | .debug => "DEBUG"
  | .trace => "TRACE"

/-- Something worth reporting. -/
inductive Event where
  /-- A class file was read by its frames, for the fault that its grammar showed. -/
  | fellBack (fault : GrammarFault)
  | replaced (className label : String)
  | scanFinished (entries repeated : Nat)
  | decoded (classes : Nat) (methods : UInt64)
  | builtGraph (nodes edges : Nat)
  | unresolved (names : NameSet)
  | measuredDepths (reachable : Nat) (maximum : Int)
  | countedOverrides (superclass interface : UInt64)
  | wroteReport (path : String)
  | writeFailed (message : String)
  | shutdownFailed (cause : String)

namespace Event

def level : Event → Level
  | .replaced _ _ | .writeFailed _ | .shutdownFailed _ => .warn
  | .decoded _ _ | .measuredDepths _ _ | .wroteReport _ => .info
  | .fellBack _ | .scanFinished _ _ | .builtGraph _ _ | .unresolved _ | .countedOverrides _ _ =>
      .debug

/-- The part of the program that an event comes from. -/
def target : Event → String
  | .fellBack _ => "jarmetrics::decoder"
  | .replaced _ _ | .scanFinished _ _ => "jarmetrics::scan"
  | .decoded _ _ | .builtGraph _ _ | .unresolved _ | .measuredDepths _ _ | .countedOverrides _ _ =>
      "jarmetrics::engine"
  | .wroteReport _ | .writeFailed _ | .shutdownFailed _ => "jarmetrics"

/-- A set of names, each in quotes. -/
def nameSetText (names : NameSet) : String :=
  "\x7b" ++ ", ".intercalate (names.toList.map Text.quoted) ++ "\x7d"

def text : Event → String
  | .fellBack fault => "falling back to raw class reader reason=" ++ fault.message
  | .replaced className label =>
      s!"duplicate class replaces earlier descriptor class={className} entry={label}"
  | .scanFinished entries repeated => s!"scan finished entries={entries} replaced={repeated}"
  | .decoded classes methods => s!"decoded class entries classes={classes} methods={methods}"
  | .builtGraph nodes edges => s!"built class graph nodes={nodes} edges={edges}"
  | .unresolved names =>
      s!"parents outside the input count={names.size} names=" ++ nameSetText names
  | .measuredDepths reachable maximum =>
      s!"computed inheritance depths reachable={reachable} max_depth={maximum}"
  | .countedOverrides superclass interface =>
      s!"counted overrides superclass={superclass} interface={interface}"
  | .wroteReport path => "wrote metrics report path=" ++ path
  | .writeFailed message => message
  | .shutdownFailed cause => "failed to shutdown tracer provider: " ++ cause

def line (event : Event) : String :=
  event.level.word ++ " " ++ event.target ++ ": " ++ event.text

end Event

/-- Lets events of targets that start with a text pass, up to a level. -/
structure Directive where
  target : String
  /-- The rank of the least urgent level that passes; 0 lets nothing pass. -/
  limit : Nat
  deriving DecidableEq, Repr

/-- The rank of a level by its name or number. -/
def limitOf? (word : String) : Option Nat :=
  match word.toLower with
  | "off" | "0" => some 0
  | "error" | "1" | "" => some 1
  | "warn" | "2" => some 2
  | "info" | "3" => some 3
  | "debug" | "4" => some 4
  | "trace" | "5" => some 5
  | _ => none

/-- Reads `target=level`, a level alone, which is for all targets, or a target alone, which lets
every level pass. -/
def Directive.parse? (text : String) : Option Directive :=
  match text.splitOn "=" with
  | [word] =>
      match limitOf? word with
      | some limit => some ⟨"", limit⟩
      | none => some ⟨word, Level.trace.rank⟩
  | [target, level] => (limitOf? level).map fun limit => ⟨target, limit⟩
  | _ => none

/-- A list of directives. -/
structure Filter where
  directives : List Directive
  deriving DecidableEq, Repr

namespace Filter

/-- The filter that applies if none is given. -/
def default : Filter :=
  ⟨[⟨"jarmetrics", Level.info.rank⟩, ⟨"", Level.warn.rank⟩]⟩

/-- Reads directives between commas. A setting that cannot be read is as good as none. -/
def ofSetting (setting : String) : Filter :=
  match ((setting.splitOn ",").filter (· ≠ "")).mapM Directive.parse? with
  | some [] => ⟨[⟨"", Level.error.rank⟩]⟩
  | some directives => ⟨directives⟩
  | none => default

/-- The filter for a setting that may be missing. -/
def ofVariable : Option String → Filter
  | none => default
  | some setting => ofSetting setting

/-- The directive for a target: of those that apply the one with the longest target, and of several
the last. -/
def directiveFor? (filter : Filter) (target : String) : Option Directive :=
  filter.directives.foldl (fun best? directive =>
    if target.startsWith directive.target then
      match best? with
      | some best =>
          if best.target.length ≤ directive.target.length then some directive else some best
      | none => some directive
    else best?) none

def allows (filter : Filter) (event : Event) : Bool :=
  match filter.directiveFor? event.target with
  | some directive => event.level.rank ≤ directive.limit
  | none => false

/-- The lines that events leave in the log. -/
def lines (filter : Filter) (events : List Event) : List String :=
  (events.filter filter.allows).map Event.line

end Filter

end ClassMetrics.Log
