import ScriptAtlas.Number.Shortest
import ScriptAtlas.Settings.Basic
import ScriptAtlas.Settings.Value

/-! # Reading settings — what values mean

    Values are taken as leniently as their meaning allows: a number or a word
    for a flag, a flag or a text for a number, numbers and flags as texts in a
    list.  Keys that are not known are left alone. -/

namespace ScriptAtlas.Value

open Text

/-- Whether a text is one of some words, in any letter case. -/
def isWordOf (words : List String) (t : Text) : Bool :=
  words.any fun word => lowerKey t == word.toList

/-- The flag that a value means. -/
def toBool? : Value → Option Bool
  | bool b => some b
  | integer n => some (n != 0)
  | double x => some (!x.isZero)
  | text t =>
    if isWordOf ["1", "true", "on", "yes"] t then some true
    else if isWordOf ["0", "false", "off", "no"] t then some false
    else none
  | _ => none

/-- The natural number of 64 binary digits that digits write, with a plus before them perhaps. -/
def wordOfText? (t : Text) : Option Nat :=
  let digits := if t.head? == some '+' then t.drop 1 else t
  if digits.isEmpty || !digits.all Char.isDigit then none
  else
    let n := numeral 10 digits
    if n ≤ Double.greatestWord then some n else none

/-- The natural number that a value means. -/
def toWord? : Value → Option Nat
  | bool b => some b.toNat
  | integer n => if n < 0 then none else some n.toNat
  | double x => some x.toWord
  | text t =>
    if isWordOf ["true", "on", "yes"] t then some 1
    else if isWordOf ["false", "off", "no"] t then some 0
    else wordOfText? t
  | _ => none

/-- The text that a value means. -/
def toText? : Value → Option Text
  | bool b => some (toString b).toList
  | integer n => some (toString n).toList
  | double x => some x.text
  | text t => some t
  | _ => none

/-- The texts that a list means. -/
def toTexts? : Value → Option (List Text)
  | list items => items.mapM toText?
  | _ => none

/-- The severity with that name, in any letter case. -/
def severityNamed? (name : Text) : Option Severity :=
  Severity.all.find? fun s => isWordOf [s.settingWord] name

/-- The severity that a value means: a name, by itself or as the one key of a table; null means
    none. -/
def toSeverity? : Value → Option (Option Severity)
  | null => some none
  | text name => (severityNamed? name).map some
  | table [(name, _)] => (severityNamed? name).map some
  | _ => none

/-- The setting of a rule from its parts, where a missing one is as it is without settings. -/
def ruleSetting? (enabled severity : Option Value) : Option RuleSetting := do
  let enabled ← (enabled.map toBool?).getD (some RuleSetting.default.enabled)
  let severity ← (severity.map toSeverity?).getD (some RuleSetting.default.severity)
  return ⟨enabled, severity⟩

/-- The setting of a rule: a table, or a list of its parts in order. -/
def toRuleSetting? : Value → Option RuleSetting
  | table entries =>
    ruleSetting? ((table entries).get? "enabled".toList) ((table entries).get? "severity".toList)
  | list items => ruleSetting? items[0]? items[1]?
  | _ => none

/-- What a value says on a rule: a table by its name, a list by its place. -/
def ruleValue? (v : Value) (r : Rule) : Option Value :=
  match v with
  | list items => items[r.index]?
  | v => v.get? r.settingName.toList

/-- Settings with the rules as a value says. -/
def setRules? (v : Value) (s : Settings) : Option Settings :=
  match v with
  | table _ | list _ =>
    Rule.all.foldlM (fun s r =>
      match v.ruleValue? r with
      | none => some s
      | some value => value.toRuleSetting?.map fun setting => s.setRule r setting) s
  | _ => none

/-- The settings that a value means. -/
def toSettings? (v : Value) : Option Settings := do
  let settings : Settings :=
    { semanticTokens := ← (← v.get? "semantic_tokens".toList).toBool?
      checkDisk := ← (← v.get? "check_filesystem".toList).toBool?
      maxTraversalDepth := ← (← v.get? "max_traversal_depth".toList).toWord?
      extraBuiltins := ← (← v.get? "extra_builtins".toList).toTexts?
      extraEntryPoints := ← (← v.get? "extra_entry_points".toList).toTexts?
      rules := fun _ => .default }
  match v.get? "rules".toList with
  | none => return settings
  | some rules => rules.setRules? settings

end ScriptAtlas.Value
