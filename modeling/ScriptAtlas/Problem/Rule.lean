/-! # Rules — what is checked, and how loudly it is reported

    Each rule has a stable name and a severity of its own; settings may switch
    it off or give it another severity.  The order of the rules is the order in
    which problems at one place are listed. -/

namespace ScriptAtlas

/-- How serious a problem is. -/
inductive Severity where
  | error
  | warning
  | information
  | hint
deriving DecidableEq, Repr

namespace Severity

/-- Every severity, the most serious first. -/
def all : List Severity := [error, warning, information, hint]

/-- The word in reports. -/
def word : Severity → String
  | error => "error"
  | warning => "warning"
  | information => "info"
  | hint => "hint"

/-- The word in settings. -/
def settingWord : Severity → String
  | error => "error"
  | warning => "warning"
  | information => "information"
  | hint => "hint"

/-- The number that editors use. -/
def number : Severity → Nat
  | error => 1
  | warning => 2
  | information => 3
  | hint => 4

end Severity

/-- The rules. -/
inductive Rule where
  | undefinedThread
  | undefinedLabel
  | unusedThread
  | unusedLabel
  | unusedVariable
  | duplicateThread
  | unknownFunction
  | unreachableCode
  | circularDependency
  | missingInclude
  | unusedInclude
deriving DecidableEq, Repr

namespace Rule

/-- Every rule, in order. -/
def all : List Rule :=
  [undefinedThread, undefinedLabel, unusedThread, unusedLabel, unusedVariable, duplicateThread,
   unknownFunction, unreachableCode, circularDependency, missingInclude, unusedInclude]

/-- The place of a rule in the order. -/
def index (r : Rule) : Nat := all.idxOf r

/-- The name in reports. -/
def name : Rule → String
  | undefinedThread => "undefined-thread"
  | undefinedLabel => "undefined-label"
  | unusedThread => "unused-thread"
  | unusedLabel => "unused-label"
  | unusedVariable => "unused-variable"
  | duplicateThread => "duplicate-thread"
  | unknownFunction => "unknown-function"
  | unreachableCode => "unreachable-code"
  | circularDependency => "circular-dependency"
  | missingInclude => "missing-include"
  | unusedInclude => "unused-include"

/-- The name in settings files. -/
def settingName (r : Rule) : String :=
  String.ofList (r.name.toList.map fun c => if c == '-' then '_' else c)

/-- The severity where settings give none. -/
def defaultSeverity : Rule → Severity
  | undefinedLabel | missingInclude => .error
  | undefinedThread | duplicateThread | unknownFunction | circularDependency => .warning
  | unusedThread | unusedLabel | unusedVariable | unreachableCode | unusedInclude => .hint

/-- Whether the rule finds code that could be left out, which editors may fade. -/
def isUnnecessary : Rule → Bool
  | unusedThread | unusedLabel | unusedVariable | unreachableCode | unusedInclude => true
  | _ => false

end Rule

end ScriptAtlas
