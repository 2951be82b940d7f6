import ScriptAtlas.Includes.Closure
import ScriptAtlas.Problem.Analysis
import ScriptAtlas.Workspace.Outline
import ScriptAtlas.Workspace.SymbolSearch
import ScriptAtlas.Workspace.Tokens

/-! # Sessions — changes and questions in any order

    A workspace lives through operations.  Changes say which texts are tracked.
    Questions change nothing that is tracked, but the symbol index and the
    include graph that they have looked at are kept for the next ones. -/

namespace ScriptAtlas

/-- What documents list, with the path of each. -/
structure Selection where
  threads : List (Path × Thread)
  labels : List (Path × Label)
  bindings : List (Path × Binding)
  includes : List (Path × Include)
deriving DecidableEq, Repr

/-- What a workspace can be asked. -/
inductive Query where
  | tracked
  | document (path : Path)
  | select (path : Option Path)
  | line (path : Path) (number : Nat)
  | scriptPath (path : Path)
  | resolve (raw : Text) (file : Option Path)
  | index
  | graph
  | snapshot
  | dependents (path : Path)
  | dependencies (path : Path) (depth : Nat)
  | tokens (path : Path)
  | diagnostics (settings : Settings) (path : Path)
  | allDiagnostics (settings : Settings)
  | definition (path : Path) (cursor : Position)
  | references (path : Path) (cursor : Position) (withDefinitions : Bool)
  | outline (path : Path)
  | symbols (query : Text)

namespace Query

/-- The answers to a question. -/
abbrev Answer : Query → Type
  | tracked => List Path
  | document _ => Option Document
  | select _ => Selection
  | line _ _ => Option Text
  | scriptPath _ => Text
  | resolve _ _ => Option Path
  | index => SymbolIndex
  | graph => IncludeGraph
  | snapshot => Snapshot
  | dependents _ => List Path
  | dependencies _ _ => List Path
  | tokens _ => Option (List Token)
  | diagnostics _ _ => Option (List Diagnostic)
  | allDiagnostics _ => List (Path × List Diagnostic)
  | definition _ _ => Option (List Place)
  | references _ _ _ => Option (List Place)
  | outline _ => Option (List OutlineThread)
  | symbols _ => List FoundSymbol

/-- The answer of a workspace. -/
def answer (disk : Disk) (w : Workspace) : (q : Query) → q.Answer
  | tracked => w.tracked
  | document path => w.document? path
  | select path => ⟨w.select path (·.threads), w.select path (·.labels), w.select path (·.bindings),
      w.select path (·.includes)⟩
  | line path number => w.displayLine? path number
  | scriptPath path => w.scriptPath path
  | resolve raw file => w.resolve disk raw file
  | index => w.symbolIndex
  | graph => w.includeGraph disk
  | snapshot => w.snapshot disk
  | dependents path => (w.includeGraph disk).dependents path
  | dependencies path depth => (w.includeGraph disk).dependencies path depth
  | tokens path => w.tokenize path
  | diagnostics settings path => w.analyze disk settings path
  | allDiagnostics settings => w.analyzeAll disk settings
  | definition path cursor => w.definitionAt disk path cursor
  | references path cursor withDefinitions => w.referencesAt path cursor withDefinitions
  | outline path => w.outline path
  | symbols query => w.search query

/-- The workspace that keeps what a question looks at. -/
def keep (disk : Disk) (w : Workspace) : Query → Workspace
  | tracked | document _ | select _ | line _ _ | outline _ => w
  | scriptPath _ | resolve _ _ | index | tokens _ | definition _ _ | references _ _ _ | symbols _ =>
    w.keepIndex
  | graph | dependents _ | dependencies _ _ => w.keepGraph disk
  | snapshot => w.keepIndex.keepGraph disk
  | diagnostics settings path => w.afterAnalysis disk settings path
  | allDiagnostics settings => w.tracked.foldl (·.afterAnalysis disk settings ·) w

end Query

/-- What can happen to a workspace. -/
inductive Operation where
  | upsert (path : Path) (text : Text)
  | remove (path : Path)
  /-- A file that cannot be read changes nothing. -/
  | load (path : Path)
  | invalidate
  | ask (query : Query)

namespace Workspace

/-- The answer to a question, and the workspace after it. -/
def ask (disk : Disk) (w : Workspace) (q : Query) : q.Answer × Workspace :=
  let w := q.keep disk w
  (q.answer disk w, w)

/-- The workspace after an operation. -/
def perform (disk : Disk) (w : Workspace) : Operation → Workspace
  | .upsert path text => w.upsert path text
  | .remove path => w.remove path
  | .load path => (w.load disk path).toOption.getD w
  | .invalidate => w.invalidate
  | .ask q => (w.ask disk q).2

/-- The workspace after operations, one after the other. -/
def run (disk : Disk) (w : Workspace) (ops : List Operation) : Workspace :=
  ops.foldl (perform disk) w

end Workspace

end ScriptAtlas
