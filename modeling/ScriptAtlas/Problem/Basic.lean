import ScriptAtlas.Document.Basic
import ScriptAtlas.Problem.Rule

/-! # Problems — what the rules find

    A problem says what is wrong in terms of the scripts; its rule and its
    wording follow.  A finding is a problem at a range, and a diagnostic is a
    finding with the severity that settings give its rule. -/

namespace ScriptAtlas

/-- What can be wrong in a script. -/
inductive Problem where
  /-- A thread is started that no script defines. -/
  | undefinedThread (name : Text)
  /-- A cross reference names a script that cannot be found. -/
  | scriptNotFound (raw : Text)
  /-- A cross reference names a thread that its script does not define. -/
  | threadNotIn (name raw : Text)
  | undefinedLabel (label thread : Text)
  | unusedThread (name : Text)
  | unusedLabel (name : Text)
  | unusedVariable (qualified : Text)
  /-- An earlier definition of the thread stands in `script` at `line`, counted from one. -/
  | duplicateThread (name script : Text) (line : Nat)
  | unknownFunction (name : Text)
  | unreachableCode (terminator : Text)
  /-- The scripts of a cycle, by script path. -/
  | circularInclude (members : List Text)
  | missingInclude (kind : IncludeKind) (raw : Text)
  | unusedInclude (raw : Text)
deriving DecidableEq, Repr

namespace Problem

/-- The rule that a problem breaks. -/
def rule : Problem → Rule
  | undefinedThread _ => .undefinedThread
  | scriptNotFound _ => .undefinedThread
  | threadNotIn _ _ => .undefinedThread
  | undefinedLabel _ _ => .undefinedLabel
  | unusedThread _ => .unusedThread
  | unusedLabel _ => .unusedLabel
  | unusedVariable _ => .unusedVariable
  | duplicateThread _ _ _ => .duplicateThread
  | unknownFunction _ => .unknownFunction
  | unreachableCode _ => .unreachableCode
  | circularInclude _ => .circularDependency
  | missingInclude _ _ => .missingInclude
  | unusedInclude _ => .unusedInclude

/-- A text in single quotes. -/
def quoted (t : Text) : String := "'" ++ t.asString ++ "'"

/-- The scripts of a cycle in words, back to the first. -/
def cycleText (members : List Text) : String :=
  " -> ".intercalate ((members ++ members.take 1).map Text.asString)

/-- The problem in words. -/
def message : Problem → String
  | undefinedThread name => "Undefined thread " ++ quoted name
  | scriptNotFound raw => "Script " ++ quoted raw ++ " not found"
  | threadNotIn name raw => "Thread " ++ quoted name ++ " is not defined in " ++ quoted raw
  | undefinedLabel label thread =>
    "Label " ++ quoted label ++ " is not defined in thread " ++ quoted thread
  | unusedThread name => "Thread " ++ quoted name ++ " is never referenced"
  | unusedLabel name => "Label " ++ quoted name ++ " is never referenced"
  | unusedVariable name => "Variable " ++ quoted name ++ " is assigned but never read"
  | duplicateThread name script line =>
    "Thread " ++ quoted name ++ " is already defined in " ++ script.asString ++ " at line "
      ++ toString line
  | unknownFunction name => "Unknown function " ++ quoted name
  | unreachableCode terminator => "Unreachable code after " ++ quoted terminator
  | circularInclude members => "Circular include: " ++ cycleText members
  | missingInclude .directive raw => "Included script " ++ quoted raw ++ " not found"
  | missingInclude .exec raw => "Executed script " ++ quoted raw ++ " not found"
  | unusedInclude raw => "No thread from " ++ quoted raw ++ " is used"

end Problem

/-- A problem at a range. -/
structure Finding where
  problem : Problem
  span : Span
deriving DecidableEq, Repr

/-- A finding with its severity. -/
structure Diagnostic where
  severity : Severity
  problem : Problem
  span : Span
deriving DecidableEq, Repr

namespace Diagnostic

/-- The rule that is broken. -/
def rule (d : Diagnostic) : Rule := d.problem.rule

/-- The diagnostic in words. -/
def message (d : Diagnostic) : String := d.problem.message

/-- The order of diagnostics: by line and column of the start, then by rule. -/
def order : Diagnostic → Diagnostic → Ordering :=
  compareLex (fun a b => a.span.start.order b.span.start) (compareOn (·.rule.index))

end Diagnostic

end ScriptAtlas
