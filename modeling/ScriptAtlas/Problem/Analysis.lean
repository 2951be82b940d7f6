import ScriptAtlas.Problem.Calls
import ScriptAtlas.Problem.Reachability
import ScriptAtlas.Workspace.Basic

/-! # Analysis — the rules over a tracked script

    Every rule looks at one script with the whole workspace in view and lists
    its findings, independently of the other rules.  `analyze` runs the rules
    that settings enable and puts the diagnostics in order. -/

namespace ScriptAtlas

open Text

/-- What a rule looks at: a script, and the workspace around it. -/
structure View where
  workspace : Workspace
  disk : Disk
  settings : Settings
  index : SymbolIndex
  graph : IncludeGraph
  /-- The path of the script, as it was asked for. -/
  path : Path
  text : Text
  document : Document

namespace View

/-- Threads that are started and not defined. -/
def undefinedCalls (v : View) : List Finding :=
  (v.document.calls.filter fun c => !v.index.isThread c.name && !v.document.hasLabel c.name).map
    fun c => ⟨.undefinedThread c.name, c.span⟩

/-- What is wrong with a cross reference: its script is missing, or does not define its thread.
    Files that are not tracked cannot be checked. -/
def crossProblem? (v : View) (r : CrossReference) : Option Finding :=
  match v.workspace.resolve v.disk r.rawPath (some v.path) with
  | none => some ⟨.scriptNotFound r.rawPath, r.pathSpan⟩
  | some target =>
    (v.workspace.document? target).bind fun d =>
      if d.hasThread r.name || d.hasLabel r.name then none
      else some ⟨.threadNotIn r.name r.rawPath, r.span⟩

/-- Threads that are referred to and not defined. -/
def undefinedThreads (v : View) : List Finding :=
  v.undefinedCalls ++ v.document.crossReferences.filterMap v.crossProblem?

/-- What is wrong with a `goto` in a thread: the thread has no such label. -/
def gotoProblem? (v : View) (g : Jump) : Option Finding := do
  let owner ← g.owner
  let thread ← v.document.threads[owner]?
  if (v.document.findLabel owner g.name).isSome then none
  else some ⟨.undefinedLabel g.name thread.name, g.span⟩

/-- Labels that are gone to and not defined. -/
def undefinedLabels (v : View) : List Finding := v.document.gotos.filterMap v.gotoProblem?

/-- Threads that nothing refers to and the engine does not run. -/
def unusedThreads (v : View) : List Finding :=
  (v.document.threads.filter fun t =>
    !t.role.isEngineInvoked && !v.settings.isExtraEntryPoint t.name
      && v.index.referenceCount t.name false == 0).map
    fun t => ⟨.unusedThread t.name, t.span⟩

/-- Labels that nothing refers to. -/
def unusedLabels (v : View) : List Finding :=
  (v.document.labels.filter fun l => v.index.referenceCount l.name false == 0).map
    fun l => ⟨.unusedLabel l.name, l.span⟩

/-- Whether a variable is read: within its thread for a local one, anywhere for others. -/
def isRead (v : View) (b : Binding) : Bool :=
  if b.scope.isThreadScoped then
    v.document.occurrences.any fun o =>
      !o.isDefinition && o.owner == some b.owner && o.symbol == .ofVariable b.scope b.name
  else 0 < v.index.referenceCount b.qualified false

/-- What one variable is known by: its name, and for a local one also its thread. -/
def bindingKey (b : Binding) : Text × Option Nat :=
  (b.qualified, if b.scope.isThreadScoped then some b.owner else none)

/-- Variables of the scripts that are written and never read, at their first write. -/
def unusedVariables (v : View) : List Finding :=
  ((distinctBy bindingKey (v.document.bindings.filter (·.scope.isScriptOwned))).filter
    fun b => !v.isRead b).map fun b => ⟨.unusedVariable b.qualified, b.span⟩

/-- What is wrong with a thread that is defined twice: it is not the first definition. -/
def duplicateProblem? (v : View) (t : Thread) : Option Finding :=
  match (v.index.findAll t.name).filter (·.kind == .thread) with
  | first :: _ :: _ =>
    if first.location.path.same v.path && first.location.span == t.span then none
    else some ⟨.duplicateThread t.name (v.workspace.scriptPath first.location.path)
      (first.location.span.start.line + 1), t.span⟩
  | _ => none

/-- Threads that are already defined. -/
def duplicateThreads (v : View) : List Finding := v.document.threads.filterMap v.duplicateProblem?

/-- Whether a called name is known. -/
def isKnownFunction (v : View) (name : Text) : Bool :=
  Vocabulary.isKeyword name || Vocabulary.isScope name || Vocabulary.isBuiltin name
    || v.settings.isExtraBuiltin name || v.index.isThread name || v.document.hasLabel name

/-- Calls of functions that nobody knows. -/
def unknownFunctions (v : View) : List Finding :=
  ((Calls.ofScript v.document v.text).filter fun (_, name) => !v.isKnownFunction name).map
    fun (l, name) => ⟨.unknownFunction name, l.span⟩

/-- Code that control never comes to. -/
def unreachableCode (v : View) : List Finding := Reachability.findings v.document

/-- The member after a path in a cycle. -/
def nextMember? (cycle : List Path) (p : Path) : Option Path :=
  let position := (cycle.findIdx? (·.same p)).getD 0
  cycle[(position + 1) % cycle.length]?

/-- The finding for a cycle: on the include that leads to its next member. -/
def cycleFinding (v : View) (cycle : List Path) : Finding :=
  let leads := fun (entry : Nat × Edge) =>
    match entry.2.target, nextMember? cycle v.path with
    | some target, some next => target.same next
    | _, _ => false
  let span := (((v.graph.edgesFrom v.path).find? leads).map (·.2.span)).getD .fileStart
  ⟨.circularInclude (cycle.map v.workspace.scriptPath), span⟩

/-- Cycles that the script is a member of. -/
def circularDependencies (v : View) : List Finding :=
  (v.graph.cyclesThrough v.path).map v.cycleFinding

/-- Includes that lead nowhere. -/
def missingIncludes (v : View) : List Finding :=
  ((v.graph.edgesFrom v.path).filter fun (_, e) => e.target.isNone).map
    fun (_, e) => ⟨.missingInclude e.kind e.rawPath, e.span⟩

/-- Includes that are of no use. -/
def unusedIncludes (v : View) : List Finding :=
  ((v.graph.edgesFrom v.path).filter fun (_, e) => e.unused).map
    fun (_, e) => ⟨.unusedInclude e.rawPath, e.span⟩

/-- The findings of a rule. -/
def findings (v : View) : Rule → List Finding
  | .undefinedThread => v.undefinedThreads
  | .undefinedLabel => v.undefinedLabels
  | .unusedThread => v.unusedThreads
  | .unusedLabel => v.unusedLabels
  | .unusedVariable => v.unusedVariables
  | .duplicateThread => v.duplicateThreads
  | .unknownFunction => v.unknownFunctions
  | .unreachableCode => v.unreachableCode
  | .circularDependency => v.circularDependencies
  | .missingInclude => v.missingIncludes
  | .unusedInclude => v.unusedIncludes

/-- The diagnostics of a rule, if settings enable it. -/
def diagnosticsOf (v : View) (r : Rule) : List Diagnostic :=
  match v.settings.severityOf r with
  | some severity => (v.findings r).map fun f => ⟨severity, f.problem, f.span⟩
  | none => []

/-- The diagnostics of all rules, in order. -/
def diagnostics (v : View) : List Diagnostic :=
  sortBy Diagnostic.order (Rule.all.flatMap v.diagnosticsOf)

end View

namespace Workspace

/-- The view of the script tracked at a path. -/
def view? (w : Workspace) (disk : Disk) (settings : Settings) (path : Path) : Option View :=
  let w := w.keepIndex
  (w.document? path).map fun document =>
    { workspace := w, disk, settings, index := w.symbolIndex, graph := w.includeGraph disk, path,
      text := (w.text? path).getD [], document }

/-- The diagnostics of the script tracked at a path. -/
def analyze (w : Workspace) (disk : Disk) (settings : Settings) (path : Path) :
    Option (List Diagnostic) :=
  (w.view? disk settings path).map View.diagnostics

/-- Whether settings enable a rule that asks for the include graph. -/
def needsGraph (settings : Settings) : Bool :=
  [Rule.circularDependency, .missingInclude, .unusedInclude].any fun r =>
    (settings.severityOf r).isSome

/-- The workspace after the script at a path has been analyzed: the symbol index is kept, and the
    include graph if a rule has asked for it. -/
def afterAnalysis (w : Workspace) (disk : Disk) (settings : Settings) (path : Path) : Workspace :=
  if (w.document? path).isSome then
    if needsGraph settings then w.keepIndex.keepGraph disk else w.keepIndex
  else w

/-- The diagnostics of all scripts, with their tracked paths.  One include graph serves them all. -/
def analyzeAll (w : Workspace) (disk : Disk) (settings : Settings) :
    List (Path × List Diagnostic) :=
  let w := w.keepIndex.keepGraph disk
  w.tracked.filterMap fun path => (w.analyze disk settings path).map fun ds => (path, ds)

end Workspace

end ScriptAtlas
