import ScriptAtlas.Search.Score
import ScriptAtlas.Workspace.Navigation

/-! # Symbol search — threads and labels that answer a query

    Every thread and label of the workspace is scored by its name; the better
    answers come first, and equal ones stay in the order of the index. -/

namespace ScriptAtlas

/-- A thread or label found by a search. -/
structure FoundSymbol where
  name : Text
  isThread : Bool
  place : Place
  /-- The thread that owns a label, or the script path of a thread. -/
  container : Text
deriving DecidableEq, Repr

namespace Workspace

/-- The threads and labels that a search looks through. -/
def searchable (w : Workspace) : List FoundSymbol :=
  (w.symbolIndex.all.filter fun d => d.kind == .thread || d.kind == .label).filterMap fun d =>
    (Place.of? d.location.path d.location.span).map fun place =>
      ⟨d.name, d.kind == .thread, place, d.thread.getD (w.scriptPath d.location.path)⟩

/-- The threads and labels that answer a query, the best first. -/
def search (w : Workspace) (query : Text) : List FoundSymbol :=
  let terms := Term.ofQuery query
  let scored := w.searchable.map fun s => ((Score.ofTerms terms s.name).getD 0, s)
  (sortBy (fun a b => compare b.1 a.1) (scored.filter fun (score, _) => 0 < score)).map (·.2)

end Workspace

end ScriptAtlas
