import ScriptAtlas.Problem.Rule
import ScriptAtlas.Text.Basic

/-! # Settings — what a workspace may change

    Whether the disk is looked at for includes, how far closures reach, names
    that the engine knows beyond the fixed tables, and the rules. -/

namespace ScriptAtlas

/-- The farthest that any closure of includes reaches. -/
def depthLimit : Nat := 64

/-- Whether a rule runs, and its severity if it is not the rule's own. -/
structure RuleSetting where
  enabled : Bool
  severity : Option Severity
deriving DecidableEq, Repr

/-- A rule as it is without settings. -/
def RuleSetting.default : RuleSetting := ⟨true, none⟩

/-- The settings of a workspace. -/
structure Settings where
  /-- Whether an editor wants tokens. -/
  semanticTokens : Bool
  /-- Whether includes may name files that are not tracked. -/
  checkDisk : Bool
  /-- How many includes a closure follows. -/
  maxTraversalDepth : Nat
  /-- Functions of the engine beyond the fixed table. -/
  extraBuiltins : List Text
  /-- Threads that the engine runs beyond the fixed table. -/
  extraEntryPoints : List Text
  rules : Rule → RuleSetting

namespace Settings

/-- The settings where nothing is said. -/
def default : Settings :=
  { semanticTokens := false, checkDisk := true, maxTraversalDepth := 32, extraBuiltins := [],
    extraEntryPoints := [], rules := fun _ => .default }

/-- The severity at which a rule runs, if it does. -/
def severityOf (s : Settings) (r : Rule) : Option Severity :=
  let setting := s.rules r
  if setting.enabled then some (setting.severity.getD r.defaultSeverity) else none

/-- Whether the settings name the function as one of the engine. -/
def isExtraBuiltin (s : Settings) (name : Text) : Bool := s.extraBuiltins.any (Text.sameName name)

/-- Whether the settings name the thread as one that the engine runs. -/
def isExtraEntryPoint (s : Settings) (name : Text) : Bool :=
  s.extraEntryPoints.any (Text.sameName name)

/-- How many includes a closure follows within the limit. -/
def maxDepth (s : Settings) : Nat := min s.maxTraversalDepth depthLimit

/-- The settings with another setting for one rule. -/
def setRule (s : Settings) (r : Rule) (setting : RuleSetting) : Settings :=
  { s with rules := fun r' => if r' = r then setting else s.rules r' }

end Settings

end ScriptAtlas
