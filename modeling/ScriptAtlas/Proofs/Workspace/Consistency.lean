import ScriptAtlas.Proofs.PathMap
import ScriptAtlas.Workspace.Session

/-! # Consistency — what holds of a workspace after any operations

    Documents and texts are two maps that every change touches together, and a
    symbol index or include graph that is kept must be that of the documents
    tracked now.  The route:

    * each change keeps the two maps side by side and drops what was kept;
    * a question keeps only what it would build anew (`Consistent.keep`);
    * so every operation keeps a workspace consistent (`Consistent.perform`), and
      any sequence of them does (`Consistent.run`). -/

namespace ScriptAtlas

/-- The document without its path. -/
def Document.unplaced (d : Document) : Document := { d with path := ⟨[]⟩ }

/-- Two documents that differ at most in the spelling of their path. -/
def Document.Alike (d e : Document) : Prop :=
  d.path.same e.path = true ∧ d.unplaced = e.unplaced

/-- A text has the same document at every spelling of a path. -/
theorem Document.read_alike {p q : Path} (h : p.key = q.key) (t : Text) :
    (Document.read p t).Alike (.read q t) :=
  ⟨Path.same_iff.mpr h, rfl⟩

/-- A document like that of a text is that of the text, at its own path. -/
theorem Document.Alike.eq_read {d : Document} {p : Path} {t : Text} (h : d.Alike (.read p t)) :
    d = .read d.path t := by
  have hunplaced : { d.unplaced with path := d.path } = Document.read d.path t := by
    rw [h.2]
    rfl
  exact hunplaced

namespace Workspace

/-- Loading tracks the text of a file that can be read, and else changes nothing. -/
theorem perform_load (disk : Disk) (w : Workspace) (path : Path) :
    w.perform disk (.load path) = match disk.readText path with
      | .ok text => w.upsert path text
      | .error _ => w := by
  show (w.load disk path).toOption.getD w = _
  unfold load
  cases disk.readText path with
  | ok text => rfl
  | error cause => rfl

/-- What holds of a workspace at all times. -/
structure Consistent (disk : Disk) (w : Workspace) : Prop where
  /-- Texts are listed in path order. -/
  ordered : w.texts.Ordered
  /-- Documents and texts are tracked at the same paths, and each document is that of its text. -/
  documents : PathMap.SideBySide (fun path d text => d.Alike (.read path text)) w.documents w.texts
  /-- A symbol index that is kept is that of the documents. -/
  index : ∀ index, w.index = some index → index = w.freshIndex
  /-- An include graph that is kept is that of the documents and texts. -/
  graph : ∀ graph, w.graph = some graph → graph = w.freshGraph disk

namespace Consistent

variable {disk : Disk} {w : Workspace}

/-- The index, kept or not, is that of the documents tracked now. -/
theorem symbolIndex_eq (h : Consistent disk w) : w.symbolIndex = w.freshIndex := by
  unfold symbolIndex
  cases hindex : w.index with
  | none => rfl
  | some index => exact h.index index hindex

/-- So is the include graph. -/
theorem includeGraph_eq (h : Consistent disk w) : w.includeGraph disk = w.freshGraph disk := by
  unfold includeGraph
  cases hgraph : w.graph with
  | none => rfl
  | some graph => exact h.graph graph hgraph

/-! ## Changes -/

/-- A workspace that keeps neither index nor graph is consistent when its maps are. -/
theorem of_maps (hordered : w.texts.Ordered)
    (hdocuments : PathMap.SideBySide (fun path d text => d.Alike (.read path text)) w.documents
      w.texts) : Consistent disk w.invalidate := by
  refine ⟨hordered, hdocuments, ?_, ?_⟩
  · intro index hindex
    exact nomatch hindex
  · intro graph hgraph
    exact nomatch hgraph

theorem empty (disk : Disk) (settings : Settings) (root : Path) :
    Consistent disk (Workspace.empty settings root) := by
  have hmaps : Consistent disk (Workspace.empty settings root).invalidate := of_maps .nil .nil
  exact hmaps

/-- A text and its document are put at the same path, and nothing is kept. -/
theorem upsert (h : Consistent disk w) (path : Path) (text : Text) :
    Consistent disk (w.upsert path text) := by
  refine of_maps h.ordered.put (h.documents.put ?_)
  intro q hq
  exact Document.read_alike hq.symm text

theorem remove (h : Consistent disk w) (path : Path) : Consistent disk (w.remove path) :=
  of_maps (h.ordered.erase path) (h.documents.erase path)

/-! ## Questions -/

theorem keepIndex (h : Consistent disk w) : Consistent disk w.keepIndex := by
  refine ⟨h.ordered, h.documents, ?_, h.graph⟩
  intro index hindex
  exact (Option.some.inj hindex).symm.trans h.symbolIndex_eq

theorem keepGraph (h : Consistent disk w) : Consistent disk (w.keepGraph disk) := by
  refine ⟨h.ordered, h.documents, h.index, ?_⟩
  intro graph hgraph
  exact (Option.some.inj hgraph).symm.trans h.includeGraph_eq

/-- An analysis keeps what it had to build. -/
theorem afterAnalysis (h : Consistent disk w) (settings : Settings) (path : Path) :
    Consistent disk (w.afterAnalysis disk settings path) := by
  unfold Workspace.afterAnalysis
  split
  · split
    · exact h.keepIndex.keepGraph
    · exact h.keepIndex
  · exact h

/-- Questions keep a workspace consistent. -/
theorem keep (h : Consistent disk w) (q : Query) : Consistent disk (q.keep disk w) := by
  cases q with
  | tracked | document _ | select _ | line _ _ | outline _ => exact h
  | scriptPath _ | resolve _ _ | index | tokens _ | definition _ _ | references _ _ _ | symbols _ =>
      exact h.keepIndex
  | graph | dependents _ | dependencies _ _ => exact h.keepGraph
  | snapshot => exact h.keepIndex.keepGraph
  | diagnostics settings path => exact h.afterAnalysis settings path
  | allDiagnostics settings =>
      show Consistent disk (w.tracked.foldl (·.afterAnalysis disk settings ·) w)
      generalize w.tracked = paths
      induction paths generalizing w with
      | nil => exact h
      | cons path paths ih => exact ih (h.afterAnalysis settings path)

/-! ## Operations -/

/-- **STEP**: every operation keeps a workspace consistent. -/
theorem perform (h : Consistent disk w) (op : Operation) : Consistent disk (w.perform disk op) := by
  cases op with
  | upsert path text => exact h.upsert path text
  | remove path => exact h.remove path
  | load path =>
      rw [perform_load]
      cases disk.readText path with
      | ok text => exact h.upsert path text
      | error cause => exact h
  | invalidate => exact of_maps h.ordered h.documents
  | ask q => exact h.keep q

/-- **RUN**: so does every sequence of operations. -/
theorem run (h : Consistent disk w) (ops : List Operation) : Consistent disk (w.run disk ops) := by
  induction ops generalizing w with
  | nil => exact h
  | cons op ops ih => exact ih (h.perform op)

/-! ## Tracked documents -/

/-- A tracked document is that of a text. -/
theorem exists_read (h : Consistent disk w) {entry : Path × Document}
    (hentry : entry ∈ w.documents) : ∃ file t, entry.2 = .read file t := by
  obtain ⟨t, halike⟩ := h.documents.exists_of_mem hentry
  exact ⟨entry.2.path, t, halike.eq_read⟩

theorem exists_read_of_document? (h : Consistent disk w) {path : Path} {d : Document}
    (hd : w.document? path = some d) : ∃ file t, d = .read file t := by
  obtain ⟨q, hmem, -⟩ := PathMap.mem_of_get? hd
  exact h.exists_read hmem

theorem documents_ordered (h : Consistent disk w) : w.documents.Ordered :=
  h.documents.ordered h.ordered

/-- A tracked document is found at its path, however it is spelled. -/
theorem document?_of_mem (h : Consistent disk w) {entry : Path × Document}
    (hentry : entry ∈ w.documents) {path : Path} (hsame : entry.1.same path = true) :
    w.document? path = some entry.2 :=
  h.documents_ordered.get?_of_mem hentry (Path.same_iff.mp hsame)

/-- The document at a path is that of the text there. -/
theorem exists_document?_of_text? (h : Consistent disk w) {path : Path} {t : Text}
    (ht : w.text? path = some t) : ∃ file, w.document? path = some (.read file t) := by
  have hboth : Option.Rel (fun d text => ∃ q, d.Alike (.read q text)) (w.document? path)
      (w.text? path) := h.documents.get? path
  rw [ht] at hboth
  cases hd : w.document? path with
  | none =>
      rw [hd] at hboth
      exact nomatch hboth
  | some d =>
      rw [hd] at hboth
      obtain ⟨q, halike⟩ := Option.rel_some_some.mp hboth
      exact ⟨d.path, congrArg some halike.eq_read⟩

/-- The document at a path has its text there. -/
theorem exists_text?_of_document? (h : Consistent disk w) {path : Path} {d : Document}
    (hd : w.document? path = some d) : ∃ file t, w.text? path = some t ∧ d = .read file t := by
  cases ht : w.text? path with
  | none =>
      have hboth : Option.Rel (fun d text => ∃ q, d.Alike (.read q text)) (w.document? path)
          (w.text? path) := h.documents.get? path
      rw [hd, ht] at hboth
      exact nomatch hboth
  | some t =>
      obtain ⟨file, hread⟩ := h.exists_document?_of_text? ht
      exact ⟨file, t, rfl, Option.some.inj (hd.symm.trans hread)⟩

/-- The include graph is that of the documents as the disk was when it was kept, or as it is now. -/
theorem exists_includeGraph_eq (h : Consistent disk w) (now : Disk) :
    ∃ seen, (seen = disk ∨ seen = now) ∧ w.includeGraph now = w.freshGraph seen := by
  rw [Workspace.includeGraph]
  cases hgraph : w.graph with
  | none => exact ⟨now, Or.inr rfl, rfl⟩
  | some graph => exact ⟨disk, Or.inl rfl, h.graph graph hgraph⟩

end Consistent

/-- A view shows what the workspace tracks. -/
theorem view?_spec {w : Workspace} {disk : Disk} {rules : Settings} {path : Path} {v : View}
    (h : w.view? disk rules path = some v) :
    w.document? path = some v.document ∧ v.settings = rules ∧ v.index = w.symbolIndex := by
  obtain ⟨d, hd, rfl⟩ := Option.map_eq_some_iff.mp h
  exact ⟨hd, rfl, rfl⟩

/-- A view is that from a path, with the graph and the script paths of the workspace. -/
theorem view?_surroundings {w : Workspace} {disk : Disk} {rules : Settings} {path : Path} {v : View}
    (h : w.view? disk rules path = some v) :
    v.path = path ∧ v.graph = w.includeGraph disk ∧ v.workspace.scriptPath = w.scriptPath := by
  obtain ⟨d, -, rfl⟩ := Option.map_eq_some_iff.mp h
  exact ⟨rfl, rfl, rfl⟩

/-- A tracked script has a view. -/
theorem exists_view? {w : Workspace} {path : Path} {d : Document} (h : w.document? path = some d)
    (disk : Disk) (rules : Settings) : ∃ v, w.view? disk rules path = some v :=
  ⟨_, congrArg (Option.map _) h⟩

end Workspace

end ScriptAtlas
