import ScriptAtlas.Proofs.Workspace.Agreement

/-! # History — answers depend on the tracked texts alone

    Two consistent workspaces with the same texts have the same documents but
    for the spelling of their paths: the path of a script is written as it was
    first given, and may have been given otherwise since.  The route:

    * operations change texts and documents together and leave the root and the
      settings alone (`run_frame`, `Consistent.lookup?_run`);
    * consistent workspaces with the same texts track the same documents in the
      same order (`Consistent.documents_forall₂`), so they agree where the
      spellings of their paths do (`Consistent.agree`);
    * spellings are interchangeable when script paths and the disk cannot tell
      them apart (`Interchangeable`), and then any answers are the same but for
      the spelling of the tracked paths in them
      (`answers_independent_of_history`).

    A path outside the root is shown as it is written, so the condition cannot be
    dropped (`history_shows_in_diagnostics`). -/

namespace ScriptAtlas

open ScriptPath (Respelling representative)

/-! ## Maps with the same contents -/

/-- Maps in path order that hold the same at every path are listed alike, but for the spelling of
    their paths. -/
theorem PathMap.Ordered.map_canonical_eq {α β : Type} {m n : PathMap α} (hm : Ordered m)
    (hn : Ordered n) {g : α → β} (h : ∀ p, (m.get? p).map g = (n.get? p).map g) :
    m.map (fun e => (e.1.canonical, g e.2)) = n.map fun e => (e.1.canonical, g e.2) := by
  have hordered : ∀ {m : PathMap α}, Ordered m →
      Ordered (m.map fun e => (e.1.canonical, g e.2)) := by
    intro m hm
    refine List.pairwise_map.mpr (hm.imp ?_)
    intro a b hab
    show compare a.1.canonical.key b.1.canonical.key = .lt
    rw [Path.key_canonical, Path.key_canonical]
    exact hab
  have hsub : ∀ {m n : PathMap α}, Ordered m → (∀ p, (m.get? p).map g = (n.get? p).map g) →
      ∀ x ∈ m.map (fun e => (e.1.canonical, g e.2)), x ∈ n.map fun e => (e.1.canonical, g e.2) := by
    intro m n hm h x hx
    obtain ⟨e, he, rfl⟩ := List.mem_map.mp hx
    have hget := h e.1
    rw [hm.get?_of_mem he rfl] at hget
    obtain ⟨a, ha, hga⟩ := Option.map_eq_some_iff.mp hget.symm
    obtain ⟨q, hq, hkey⟩ := mem_of_get? ha
    refine List.mem_map.mpr ⟨(q, a), hq, Prod.ext ?_ hga⟩
    exact Path.canonical_eq_iff.mpr (Path.same_iff.mpr hkey)
  exact (hordered hm).ext (hordered hn) fun x => ⟨hsub hm h x, hsub hn (fun p => (h p).symm) x⟩

/-- The spelling of its path does not show in a map with one entry. -/
theorem PathMap.get?_singleton_of_key {α : Type} {p q : Path} (hkey : p.key = q.key) (a : α) :
    PathMap.get? [(p, a)] = PathMap.get? [(q, a)] := by
  funext r
  unfold PathMap.get?
  rw [List.find?_singleton, List.find?_singleton, Path.same, hkey, Path.same]
  split
  · rfl
  · rfl

namespace Workspace

/-! ## What operations leave -/

/-- An analysis changes nothing but what is kept. -/
theorem afterAnalysis_frame (disk : Disk) (w : Workspace) (settings : Settings) (path : Path) :
    ∃ index graph, w.afterAnalysis disk settings path = { w with index, graph } := by
  unfold afterAnalysis
  split
  · split
    · exact ⟨_, _, rfl⟩
    · exact ⟨_, _, rfl⟩
  · exact ⟨_, _, rfl⟩

/-- A question changes nothing but what is kept. -/
theorem keep_frame (disk : Disk) (w : Workspace) (q : Query) :
    ∃ index graph, q.keep disk w = { w with index, graph } := by
  cases q with
  | diagnostics settings path => exact afterAnalysis_frame disk w settings path
  | allDiagnostics settings =>
      -- one analysis after the other, over whatever the first ones kept
      show ∃ index graph, w.tracked.foldl (·.afterAnalysis disk settings ·) w = _
      generalize w.tracked = paths
      induction paths generalizing w with
      | nil => exact ⟨_, _, rfl⟩
      | cons path paths ih =>
          obtain ⟨index, graph, heq⟩ := afterAnalysis_frame disk w settings path
          rw [List.foldl_cons, heq]
          exact ih _
  | _ => exact ⟨_, _, rfl⟩

theorem texts_keep (disk : Disk) (w : Workspace) (q : Query) :
    (q.keep disk w).texts = w.texts := by
  obtain ⟨index, graph, heq⟩ := keep_frame disk w q
  rw [heq]

/-- Operations leave the root and the settings of a workspace alone. -/
theorem perform_frame (disk : Disk) (w : Workspace) (op : Operation) :
    (w.perform disk op).root = w.root ∧ (w.perform disk op).checkDisk = w.checkDisk
      ∧ (w.perform disk op).maxDepth = w.maxDepth := by
  cases op with
  | load path =>
      rw [perform_load]
      cases disk.readText path with
      | ok text => exact ⟨rfl, rfl, rfl⟩
      | error cause => exact ⟨rfl, rfl, rfl⟩
  | ask q =>
      obtain ⟨index, graph, heq⟩ := keep_frame disk w q
      show (q.keep disk w).root = _ ∧ (q.keep disk w).checkDisk = _ ∧ (q.keep disk w).maxDepth = _
      rw [heq]
      exact ⟨rfl, rfl, rfl⟩
  | _ => exact ⟨rfl, rfl, rfl⟩

/-- So does any sequence of operations. -/
theorem run_frame (disk : Disk) (w : Workspace) (ops : List Operation) :
    (w.run disk ops).root = w.root ∧ (w.run disk ops).checkDisk = w.checkDisk
      ∧ (w.run disk ops).maxDepth = w.maxDepth := by
  induction ops generalizing w with
  | nil => exact ⟨rfl, rfl, rfl⟩
  | cons op ops ih =>
      obtain ⟨hroot, hdisk, hdepth⟩ := perform_frame disk w op
      obtain ⟨hroot', hdisk', hdepth'⟩ := ih (w.perform disk op)
      exact ⟨hroot'.trans hroot, hdisk'.trans hdisk, hdepth'.trans hdepth⟩

/-- The entry at a path after one more operation: a text that is given there is tracked under the
    spelling that is there already, if there is one. -/
def entryAfter (disk : Disk) (path : Path) (entry : Option (Path × Text)) :
    Operation → Option (Path × Text)
  | .upsert p t => if p.same path then some ((entry.map (·.1)).getD p, t) else entry
  | .remove p => if p.same path then none else entry
  | .load p =>
    match disk.readText p with
    | .ok t => if p.same path then some ((entry.map (·.1)).getD p, t) else entry
    | .error _ => entry
  | .invalidate => entry
  | .ask _ => entry

/-- The entry that operations leave at a path: the text last given there, under the spelling first
    given, both since the path was last removed. -/
def latest? (disk : Disk) (path : Path) (ops : List Operation) : Option (Path × Text) :=
  ops.foldl (entryAfter disk path) none

/-- **STEP**: the entry at a path is known from the one before and the operation. -/
theorem lookup?_perform {disk : Disk} {w : Workspace} (h : w.texts.Ordered) (op : Operation)
    (path : Path) :
    (w.perform disk op).texts.lookup? path = entryAfter disk path (w.texts.lookup? path) op := by
  cases op with
  | upsert p t => exact h.lookup?_put p path t
  | remove p => exact PathMap.lookup?_erase p path w.texts
  | load p =>
      rw [perform_load]
      simp only [entryAfter]
      cases disk.readText p with
      | ok t => exact h.lookup?_put p path t
      | error cause => rfl
  | invalidate => rfl
  | ask q =>
      show (q.keep disk w).texts.lookup? path = w.texts.lookup? path
      rw [texts_keep]

/-- **RUN**: so the entry at a path is known from the operations. -/
theorem Consistent.lookup?_run {disk : Disk} {w : Workspace} (h : Consistent disk w)
    (ops : List Operation) (path : Path) : (w.run disk ops).texts.lookup? path
      = ops.foldl (entryAfter disk path) (w.texts.lookup? path) := by
  induction ops generalizing w with
  | nil => rfl
  | cons op ops ih =>
      rw [List.foldl_cons, ← lookup?_perform h.ordered]
      exact ih (h.perform op)

/-! ## Workspaces with the same texts -/

/-- Two workspaces that were opened alike and hold the same text at every path. -/
structure SameTexts (w w' : Workspace) : Prop where
  root : w.root = w'.root
  checkDisk : w.checkDisk = w'.checkDisk
  maxDepth : w.maxDepth = w'.maxDepth
  text? : w.text? = w'.text?

/-- Histories of one workspace that leave the same texts differ in nothing else that is fixed. -/
theorem sameTexts_run {disk : Disk} {w : Workspace} {ops ops' : List Operation}
    (h : ∀ path, (w.run disk ops).text? path = (w.run disk ops').text? path) :
    SameTexts (w.run disk ops) (w.run disk ops') := by
  obtain ⟨hroot, hdisk, hdepth⟩ := run_frame disk w ops
  obtain ⟨hroot', hdisk', hdepth'⟩ := run_frame disk w ops'
  exact ⟨hroot.trans hroot'.symm, hdisk.trans hdisk'.symm, hdepth.trans hdepth'.symm, funext h⟩

namespace Consistent

variable {disk : Disk} {w w' : Workspace}

/-- What a document says is known from the text at its path. -/
theorem map_unplaced_document? (h : Consistent disk w) (path : Path) :
    (w.document? path).map Document.unplaced
      = (w.text? path).map fun t => (Document.read path t).unplaced := by
  cases ht : w.text? path with
  | some t =>
      obtain ⟨file, hread⟩ := h.exists_document?_of_text? ht
      rw [hread]
      rfl
  | none =>
      cases hd : w.document? path with
      | none => rfl
      | some d =>
          obtain ⟨file, t, ht', -⟩ := h.exists_text?_of_document? hd
          exact nomatch ht.symm.trans ht'

/-- The document at a path carries some spelling of it. -/
theorem key_path_of_mem (h : Consistent disk w) {entry : Path × Document}
    (hentry : entry ∈ w.documents) : entry.2.path.key = entry.1.key := by
  obtain ⟨t, halike⟩ := h.documents.exists_of_mem hentry
  exact Path.same_iff.mp halike.1

/-- The same texts have the same documents in the same order, under spellings of the same paths. -/
theorem documents_forall₂ (h : Consistent disk w) (h' : Consistent disk w')
    (hsame : SameTexts w w') :
    List.Forall₂ (fun x y => (x ∈ w.documents ∧ y ∈ w'.documents) ∧ x.1.key = y.1.key
      ∧ x.2.Alike y.2) w.documents w'.documents := by
  have hget : ∀ path, (w.documents.get? path).map Document.unplaced
      = (w'.documents.get? path).map Document.unplaced := by
    intro path
    calc (w.document? path).map Document.unplaced
        = (w.text? path).map fun t => (Document.read path t).unplaced :=
          h.map_unplaced_document? path
      _ = (w'.text? path).map fun t => (Document.read path t).unplaced := by rw [hsame.text?]
      _ = (w'.document? path).map Document.unplaced := (h'.map_unplaced_document? path).symm
  have hpairs := forall₂_of_map_eq
    (h.documents_ordered.map_canonical_eq h'.documents_ordered hget)
  -- members of both lists are needed below, which the pairs in step do not remember
  obtain ⟨hlength, hpairs⟩ := List.forall₂_iff_zip.mp hpairs
  refine List.forall₂_iff_zip.mpr ⟨hlength, ?_⟩
  intro x y hxy
  obtain ⟨hx, hy⟩ := List.of_mem_zip hxy
  obtain ⟨hcanonical, hunplaced⟩ := Prod.mk.inj (hpairs hxy)
  have hkey := Path.same_iff.mp (Path.canonical_eq_iff.mp hcanonical)
  refine ⟨⟨hx, hy⟩, hkey, Path.same_iff.mpr ?_, hunplaced⟩
  rw [h.key_path_of_mem hx, hkey, h'.key_path_of_mem hy]

variable {f : Path → Path}

/-- Consistent workspaces with the same texts agree, where the spellings of their paths do. -/
theorem agree (h : Consistent disk w) (h' : Consistent disk w') (hsame : SameTexts w w')
    (hf : Respelling w.root f)
    (hspelling : ∀ x ∈ w.documents, ∀ p ∈ w'.tracked, x.1.key = p.key → f x.1 = f p
      ∧ ∀ raw ∈ x.2.rawPaths, BesideAlike f (w.diskInView disk) (some x.1) (some p) raw) :
    Agree f disk w w' := by
  have hdocuments : List.Forall₂ (TrackedAlike f (w.diskInView disk)) w.documents w'.documents := by
    refine (h.documents_forall₂ h' hsame).imp ?_
    rintro x y ⟨⟨hx, hy⟩, hkey, halike⟩
    obtain ⟨hpath, hbeside⟩ := hspelling x hx y.1 (List.mem_map_of_mem hy) hkey
    exact ⟨hpath, halike, hbeside⟩
  have hview : w.diskInView disk = w'.diskInView disk := by
    rw [diskInView, diskInView, hsame.checkDisk]
  have hsources : List.Forall₂ (SourceAlike f (w.diskInView disk))
      (w.documents.map fun e => Source.mk e.1 ((w.text? e.1).getD []) e.2)
      (w'.documents.map fun e => Source.mk e.1 ((w'.text? e.1).getD []) e.2) := by
    rw [List.forall₂_map_left_iff, List.forall₂_map_right_iff]
    refine hdocuments.imp ?_
    intro x y hxy
    refine ⟨hxy, ?_⟩
    show (w.text? x.1).getD [] = (w'.texts.get? y.1).getD []
    rw [hsame.text?, Workspace.text?, PathMap.get?_eq_of_key _ (hf.key_eq hxy.path)]
  have hcatalog : w.symbolIndex.catalog.root = w.root := by
    rw [h.symbolIndex_eq]
    rfl
  refine ⟨h.documents_ordered, hcatalog ▸ hf, hsame.text?, hdocuments, hview, ?_, ?_⟩
  · rw [h.symbolIndex_eq, h'.symbolIndex_eq, freshIndex, freshIndex, ← hsame.root]
    exact SymbolIndex.build_respell_eq hf hdocuments
  · rw [h.includeGraph_eq, h'.includeGraph_eq, freshGraph, freshGraph, ← hsame.root, ← hview,
      ← hsame.maxDepth]
    exact IncludeGraph.build_respell_eq hf hsources w.maxDepth

/-- Then they answer every question alike. -/
theorem ask_alike (h : Consistent disk w) (h' : Consistent disk w') (hsame : SameTexts w w')
    (hf : Respelling w.root f)
    (hspelling : ∀ x ∈ w.documents, ∀ p ∈ w'.tracked, x.1.key = p.key → f x.1 = f p
      ∧ ∀ raw ∈ x.2.rawPaths, BesideAlike f (w.diskInView disk) (some x.1) (some p) raw)
    (q : Query) :
    q.Alike (q.respell f (w.ask disk q).1) (q.respell f (w'.ask disk q).1) := by
  have hkept := h.keep q
  have hkept' := h'.keep q
  show q.Alike (q.respell f (q.answer disk (q.keep disk w)))
    (q.respell f (q.answer disk (q.keep disk w')))
  -- the answer is that of the workspace which asking leaves: it tracks the same
  obtain ⟨index, graph, heq⟩ := keep_frame disk w q
  obtain ⟨index', graph', heq'⟩ := keep_frame disk w' q
  rw [heq] at hkept ⊢
  rw [heq'] at hkept' ⊢
  have hsame : SameTexts { w with index, graph } { w' with index := index', graph := graph' } :=
    ⟨hsame.root, hsame.checkDisk, hsame.maxDepth, hsame.text?⟩
  exact (hkept.agree hkept' hsame hf hspelling).answer q

end Consistent

end Workspace

/-! ## Interchangeable spellings -/

/-- Two spellings of the path of a document that nothing can tell apart: they are shown alike, and
    so is what the document names beside them, which the disk takes for too long in both or in
    neither. -/
structure Interchangeable (checkDisk : Bool) (root : Path) (d : Document) (p q : Path) :
    Prop where
  shown : ScriptPath.shown root p = ScriptPath.shown root q
  beside : ∀ raw ∈ d.rawPaths, ∀ a ∈ Catalog.besides? p raw, ∀ b ∈ Catalog.besides? q raw,
    ScriptPath.shown root a = ScriptPath.shown root b
      ∧ (checkDisk = true → Disk.fits a = Disk.fits b)

instance (checkDisk : Bool) (root : Path) (d : Document) (p q : Path) :
    Decidable (Interchangeable checkDisk root d p q) :=
  decidable_of_iff (ScriptPath.shown root p = ScriptPath.shown root q
      ∧ ∀ raw ∈ d.rawPaths, ∀ a ∈ Catalog.besides? p raw, ∀ b ∈ Catalog.besides? q raw,
        ScriptPath.shown root a = ScriptPath.shown root b
          ∧ (checkDisk = true → Disk.fits a = Disk.fits b))
    ⟨fun h => ⟨h.1, h.2⟩, fun h => ⟨h.1, h.2⟩⟩

/-- What is named beside two spellings of a path is a spelling of one path, and asks for a directory
    or not. -/
theorem Catalog.besides?_rel {p q : Path} (hkey : p.key = q.key) (raw : Text) :
    Option.Rel (fun a b => a.key = b.key ∧ Disk.asksDirectory a = Disk.asksDirectory b)
      (besides? p raw) (besides? q raw) := by
  have hparent := Path.parent?_rel hkey
  unfold besides?
  generalize p.parent? = dir, q.parent? = dir' at hparent
  cases hparent with
  | none => exact .none
  | some hparts =>
      refine .some ⟨?_, Disk.asksDirectory_join hparts _⟩
      rw [Path.key, Path.parts_join_eq hparts, Path.key]

/-- Interchangeable spellings are respelled alike, with all that is named beside them. -/
theorem Interchangeable.respelled {checkDisk : Bool} {root : Path} {d : Document} {p q : Path}
    (h : Interchangeable checkDisk root d p q) (hkey : p.key = q.key) {disk : Option Disk}
    (hdisk : ∀ seen, disk = some seen → checkDisk = true) :
    representative root p = representative root q
      ∧ ∀ raw ∈ d.rawPaths, BesideAlike (representative root) disk (some p) (some q) raw := by
  refine ⟨ScriptPath.representative_eq hkey h.shown, ?_⟩
  intro raw hraw
  have hbeside := h.beside raw hraw
  have hrel := Catalog.besides?_rel hkey raw
  show Option.Rel _ (Catalog.besides? p raw) (Catalog.besides? q raw)
  generalize Catalog.besides? p raw = a, Catalog.besides? q raw = b at hbeside hrel
  cases hrel with
  | none => exact .none
  | @some a b hab =>
      obtain ⟨hshown, hfits⟩ := hbeside a rfl b rfl
      refine .some ⟨ScriptPath.representative_eq hab.1 hshown, ?_⟩
      intro seen hseen
      rw [Disk.isFile, Disk.isFile, seen.find_eq_of_key hab.1 hab.2 (hfits (hdisk seen hseen))]

namespace Workspace

namespace Consistent

variable {disk : Disk} {w w' : Workspace} (h : Consistent disk w) (h' : Consistent disk w')
  (hsame : SameTexts w w')

include h h' hsame

/-- Tracked paths in the same spelling: the same answers. -/
theorem ask_alike_of_eq (hpaths : ∀ p ∈ w.tracked, ∀ p' ∈ w'.tracked, p.same p' = true → p = p')
    (q : Query) : q.Alike (w.ask disk q).1 (w'.ask disk q).1 := by
  have halike : q.Alike (q.respell id (w.ask disk q).1) (q.respell id (w'.ask disk q).1) := by
    refine h.ask_alike h' hsame (.id w.root) ?_ q
    intro x hx p hp hkey
    obtain rfl := hpaths x.1 (List.mem_map_of_mem hx) p hp (Path.same_iff.mpr hkey)
    exact ⟨rfl, fun raw _ => BesideAlike.refl id _ _ raw⟩
  rw [q.respell_id, q.respell_id] at halike
  exact halike

/-- Tracked paths in interchangeable spellings: the same answers but for these spellings. -/
theorem ask_alike_of_interchangeable
    (hpaths : ∀ entry ∈ w.documents, ∀ p' ∈ w'.tracked, entry.1.same p' = true →
      Interchangeable w.checkDisk w.root entry.2 entry.1 p') (q : Query) :
    q.Alike (q.respell Path.canonical (w.ask disk q).1)
      (q.respell Path.canonical (w'.ask disk q).1) := by
  have hrespelling := ScriptPath.respelling_representative w.root
  have halike : q.Alike (q.respell (representative w.root) (w.ask disk q).1)
      (q.respell (representative w.root) (w'.ask disk q).1) := by
    refine h.ask_alike h' hsame hrespelling ?_ q
    intro x hx p hp hkey
    refine (hpaths x hx p hp (Path.same_iff.mpr hkey)).respelled hkey ?_
    intro seen hseen
    rw [diskInView, Option.ite_none_right_eq_some] at hseen
    exact hseen.1
  -- the representative is a spelling of the same path
  have hcanonical : Path.canonical ∘ representative w.root = Path.canonical := by
    funext p
    exact Path.canonical_eq_iff.mpr (Path.same_iff.mpr (hrespelling.key p))
  have hrespelled := halike.respell Path.canonical
  rw [q.respell_respell, q.respell_respell, hcanonical] at hrespelled
  exact hrespelled

end Consistent

end Workspace

end ScriptAtlas
