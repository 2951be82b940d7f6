import ScriptAtlas.Lexeme.Scan
import ScriptAtlas.Path.Basic
import ScriptAtlas.Symbols.Symbol

/-! # Documents — what one script declares and mentions

    A document is read off the lexemes of its text.  The lexemes are first put
    into their surroundings (`Site`): the thread that each belongs to, what
    stands before it and what comes after it.  Everything a document lists is
    then a selection of sites.

    A thread owns what stands from its header to the `end` that closes it, or
    to the next header.  Labels and bindings outside of every thread are not
    listed. -/

namespace ScriptAtlas

open Text

/-- A thread, as its header declares it. -/
structure Thread where
  name : Text
  /-- The parameters, each with its scope in front. -/
  parameters : List Text
  /-- The range of the name in the header. -/
  span : Span
  role : ThreadRole
  /-- The line of the `end` that closes the thread, if there is one. -/
  endLine : Option Nat
deriving DecidableEq, Repr

/-- The line of the header. -/
def Thread.line (t : Thread) : Nat := t.span.start.line

/-- Whether the header lists the parameter. -/
def Thread.hasParameter (t : Thread) (qualified : Text) : Bool := t.parameters.contains qualified

/-- A label and the thread that owns it. -/
structure Label where
  name : Text
  owner : Nat
  /-- The name of the owning thread. -/
  thread : Text
  span : Span
deriving DecidableEq, Repr

/-- A write to a variable inside a thread. -/
structure Binding where
  scope : Scope
  name : Text
  owner : Nat
  span : Span
deriving DecidableEq, Repr

/-- The name of the variable with its scope in front. -/
def Binding.qualified (b : Binding) : Text := b.scope.qualify b.name

/-- The two ways to name another script. -/
inductive IncludeKind where
  /-- An `#include` directive. -/
  | directive
  /-- An `exec` or `waitexec` statement. -/
  | exec
deriving DecidableEq, Repr

/-- A directive that names another script, as written. -/
structure Include where
  kind : IncludeKind
  rawPath : Text
  /-- The range from the directive through the path. -/
  span : Span
deriving DecidableEq, Repr

/-- The name that a `thread`, `waitthread` or `goto` statement goes to. -/
structure Jump where
  name : Text
  owner : Option Nat
  span : Span
deriving DecidableEq, Repr

/-- A reference `path::name` to a thread of another script. -/
structure CrossReference where
  rawPath : Text
  name : Text
  owner : Option Nat
  span : Span
  pathSpan : Span
deriving DecidableEq, Repr

/-- A place where a name appears in the code. -/
structure Occurrence where
  symbol : Symbol
  span : Span
  isDefinition : Bool
  owner : Option Nat
deriving DecidableEq, Repr

/-- A script as it is understood by itself. -/
structure Document where
  path : Path
  lexemes : List Lexeme
  lines : List LineInfo
  threads : List Thread
  labels : List Label
  bindings : List Binding
  includes : List Include
  calls : List Jump
  gotos : List Jump
  crossReferences : List CrossReference
  occurrences : List Occurrence
deriving DecidableEq, Repr

/-- A lexeme in its surroundings. -/
structure Site where
  lexeme : Lexeme
  /-- The thread that the lexeme belongs to; a header and a closing `end` belong to their own. -/
  owner : Option Nat
  /-- The lexemes before it, the nearest first. -/
  before : List Lexeme
  /-- The lexemes after it. -/
  after : List Lexeme
deriving Repr

namespace Site

/-- The lexemes in their surroundings, given the number of threads already opened, the open thread
    and the lexemes already passed. -/
def ofLexemes (opened : Nat) (current : Option Nat) (before : List Lexeme) :
    List Lexeme → List Site
  | [] => []
  | l :: ls =>
    match l.kind with
    | .threadName _ =>
      ⟨l, some opened, before, ls⟩ :: ofLexemes (opened + 1) (some opened) (l :: before) ls
    | .threadEnd => ⟨l, current, before, ls⟩ :: ofLexemes opened none (l :: before) ls
    | _ => ⟨l, current, before, ls⟩ :: ofLexemes opened current (l :: before) ls

/-- The next lexeme other than a comment. -/
def next? (s : Site) : Option Lexeme := s.after.find? Lexeme.isSignificant

/-- The parameter that a header lists here for thread `owner`. -/
def parameterOf? (owner : Nat) (s : Site) : Option Text :=
  match s.lexeme.kind with
  | .parameter scope => if s.owner == some owner then some (scope.qualify s.lexeme.text) else none
  | _ => none

/-- The line of the `end` that closes thread `owner` here. -/
def endOf? (owner : Nat) (s : Site) : Option Nat :=
  if s.lexeme.kind == .threadEnd && s.owner == some owner then some s.lexeme.line else none

/-- The thread that a header opens here, within all sites of the script. -/
def thread? (sites : List Site) (s : Site) : Option Thread :=
  match s.lexeme.kind, s.owner with
  | .threadName role, some owner =>
    some {
      name := s.lexeme.text
      parameters := sites.filterMap (parameterOf? owner)
      span := s.lexeme.span
      role
      endLine := sites.findSome? (endOf? owner) }
  | _, _ => none

/-- The label defined here, given the threads. -/
def label? (threads : List Thread) (s : Site) : Option Label :=
  match s.lexeme.kind, s.owner with
  | .labelDef, some owner =>
    threads[owner]?.map fun t => ⟨s.lexeme.text, owner, t.name, s.lexeme.span⟩
  | _, _ => none

/-- The binding made here. -/
def binding? (s : Site) : Option Binding :=
  match s.lexeme.kind, s.owner with
  | .property scope true, some owner => some ⟨scope, s.lexeme.text, owner, s.lexeme.span⟩
  | _, _ => none

/-- The path that a directive names with its next lexeme. -/
def rawPath? (target : Lexeme) : Option Text :=
  let raw :=
    match target.kind with
    | .string => trimQuotes target.text
    | .pathRef => target.text
    | .word => target.text
    | _ => []
  if raw.isEmpty then none else some raw

/-- The kind of directive that names a script here. -/
def includeKind? (s : Site) : Option IncludeKind :=
  match s.lexeme.kind with
  | .directive => some .directive
  | .keyword =>
    if sameName s.lexeme.text "exec".toList || sameName s.lexeme.text "waitexec".toList then
      some .exec
    else none
  | _ => none

/-- The include written here. -/
def include? (s : Site) : Option Include := do
  let kind ← s.includeKind?
  let target ← s.next?
  let raw ← rawPath? target
  return ⟨kind, raw, ⟨⟨s.lexeme.line, s.lexeme.column⟩, ⟨target.line, target.endColumn⟩⟩⟩

/-- The word that follows one of these keywords here. -/
def jump? (keywords : List Text) (s : Site) : Option Jump :=
  if s.lexeme.kind == .keyword && keywords.contains (lower s.lexeme.text) then
    match s.next? with
    | some target =>
      if target.kind == .word then some ⟨target.text, s.owner, target.span⟩ else none
    | none => none
  else none

/-- The thread started here. -/
def call? : Site → Option Jump := jump? ["thread".toList, "waitthread".toList]

/-- The label gone to here. -/
def goto? : Site → Option Jump := jump? ["goto".toList]

/-- The cross reference whose name stands here; its path stands two lexemes before. -/
def crossReference? (s : Site) : Option CrossReference :=
  match s.lexeme.kind, s.before with
  | .crossRefName, _ :: path :: _ =>
    some ⟨path.text, s.lexeme.text, s.owner, s.lexeme.span, path.span⟩
  | _, _ => none

/-- The symbol that appears here, and whether this defines it. -/
def symbol? (s : Site) : Option (Symbol × Bool) :=
  match s.lexeme.kind with
  | .threadName _ => some (.ofName s.lexeme.text, true)
  | .labelDef => some (.ofName s.lexeme.text, true)
  | .parameter scope => some (.ofVariable scope s.lexeme.text, true)
  | .property scope write => some (.ofVariable scope s.lexeme.text, write && s.owner.isSome)
  | .crossRefName => some (.ofName s.lexeme.text, false)
  | .word => some (.ofName s.lexeme.text, false)
  | _ => none

/-- The occurrence here. -/
def occurrence? (s : Site) : Option Occurrence :=
  s.symbol?.map fun (symbol, isDefinition) => ⟨symbol, s.lexeme.span, isDefinition, s.owner⟩

end Site

namespace Document

/-- The document of a text at a path. -/
def read (path : Path) (text : Text) : Document :=
  let scanned := scan text
  let sites := Site.ofLexemes 0 none [] scanned.lexemes
  let threads := sites.filterMap (Site.thread? sites)
  { path
    lexemes := scanned.lexemes
    lines := scanned.lines
    threads
    labels := sites.filterMap (Site.label? threads)
    bindings := sites.filterMap Site.binding?
    includes := sites.filterMap Site.include?
    calls := sites.filterMap Site.call?
    gotos := sites.filterMap Site.goto?
    crossReferences := sites.filterMap Site.crossReference?
    occurrences := sites.filterMap Site.occurrence? }

end Document

end ScriptAtlas
