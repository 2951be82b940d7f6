import ScriptAtlas.Proofs.Disk
import ScriptAtlas.Proofs.Includes.Spelling
import ScriptAtlas.Proofs.Workspace.Consistency

/-! # Spelling of tracked paths — indexes and graphs that are respelled alike

    Two workspaces may track the same texts and yet spell their paths in two
    ways.  Where a change of spelling takes both to the same paths, and takes what
    scripts name beside them to the same paths as well (`TrackedAlike`), a raw
    path names files that are respelled alike (`Resolver.map_resolve_eq`), and so
    the symbol index and the include graph of both are respelled alike
    (`SymbolIndex.build_respell_eq`, `IncludeGraph.build_respell_eq`). -/

namespace ScriptAtlas

open ScriptPath (Respelling)

variable {f : Path → Path}

/-! ## Lists in step -/

section

variable {α β γ : Type} {R : α → β → Prop} {l : List α} {l' : List β}

/-- Lists whose members belong together have the same images. -/
theorem map_eq_of_forall₂ (h : List.Forall₂ R l l') {u : α → γ} {v : β → γ}
    (huv : ∀ a b, R a b → u a = v b) : l.map u = l'.map v := by
  rw [← List.forall₂_eq_eq_eq]
  exact List.rel_map (fun a b hab => huv a b hab) h

/-- Lists with the same images have members that belong together. -/
theorem forall₂_of_map_eq {u : α → γ} {v : β → γ} (h : l.map u = l'.map v) :
    List.Forall₂ (fun a b => u a = v b) l l' := by
  rw [← List.forall₂_eq_eq_eq, List.forall₂_map_left_iff, List.forall₂_map_right_iff] at h
  exact h

/-- Members that give the same lists give the same list. -/
theorem flatMap_eq_of_forall₂ (h : List.Forall₂ R l l') {u : α → List γ} {v : β → List γ}
    (huv : ∀ a b, R a b → u a = v b) : l.flatMap u = l'.flatMap v := by
  rw [List.flatMap_def, List.flatMap_def, map_eq_of_forall₂ h huv]

/-- Members that give the same or nothing give the same list. -/
theorem filterMap_eq_of_forall₂ (h : List.Forall₂ R l l') {u : α → Option γ} {v : β → Option γ}
    (huv : ∀ a b, R a b → u a = v b) : l.filterMap u = l'.filterMap v := by
  calc l.filterMap u = (l.map u).filterMap id := by rw [List.filterMap_map, Function.id_comp]
    _ = (l'.map v).filterMap id := by rw [map_eq_of_forall₂ h huv]
    _ = l'.filterMap v := by rw [List.filterMap_map, Function.id_comp]

theorem forall₂_filter (h : List.Forall₂ R l l') {p : α → Bool} {q : β → Bool}
    (hpq : ∀ a b, R a b → p a = q b) : List.Forall₂ R (l.filter p) (l'.filter q) :=
  List.rel_filter (fun a b hab => Bool.eq_iff_iff.mp (hpq a b hab)) h

/-- Values that belong together lead on to the same. -/
theorem bind_eq_of_rel {a : Option α} {b : Option β} (h : Option.Rel R a b) {u : α → Option γ}
    {v : β → Option γ} (huv : ∀ x y, R x y → u x = v y) : a.bind u = b.bind v := by
  cases h with
  | none => rfl
  | some hxy => exact huv _ _ hxy

/-- What is found in either list belongs together. -/
theorem find?_rel (h : List.Forall₂ R l l') {p : α → Bool} {q : β → Bool}
    (hpq : ∀ a b, R a b → p a = q b) : Option.Rel R (l.find? p) (l'.find? q) := by
  induction h with
  | nil => exact .none
  | cons hab _ ih =>
      rw [List.find?_cons, List.find?_cons, hpq _ _ hab]
      split
      · exact .some hab
      · exact ih

/-- So what is found has the same image. -/
theorem map_find?_eq_of_forall₂ (h : List.Forall₂ R l l') {p : α → Bool} {q : β → Bool}
    (hpq : ∀ a b, R a b → p a = q b) {u : α → γ} {v : β → γ} (huv : ∀ a b, R a b → u a = v b) :
    (l.find? p).map u = (l'.find? q).map v := by
  have hfound := find?_rel h hpq
  generalize l.find? p = a, l'.find? q = b at hfound
  cases hfound with
  | none => rfl
  | some hab => exact congrArg some (huv _ _ hab)

end

/-! ## Documents without their paths -/

namespace Document

/-- Whatever does not look at the path in a document is the same for documents that are alike. -/
theorem Alike.congr {α : Type} {d e : Document} (h : d.Alike e) {u : Document → α}
    (hu : ∀ d, u d.unplaced = u d) : u d = u e :=
  calc u d = u d.unplaced := (hu d).symm
    _ = u e.unplaced := congrArg u h.2
    _ = u e := hu e

theorem Alike.includes {d e : Document} (h : d.Alike e) : d.includes = e.includes :=
  h.congr fun _ => rfl

/-- The paths that a document names, as they are written. -/
def rawPaths (d : Document) : List Text :=
  d.includes.map (·.rawPath) ++ d.crossReferences.map (·.rawPath)

end Document

/-! ## Files beside a file -/

/-- Whether two paths are respelled alike, and are files or not alike on the disk in view. -/
structure RespelledAlike (f : Path → Path) (disk : Option Disk) (a b : Path) : Prop where
  path : f a = f b
  isFile : ∀ d, disk = some d → d.isFile a = d.isFile b

/-- Whether what a raw path names beside one file is respelled like what it names beside another. -/
def BesideAlike (f : Path → Path) (disk : Option Disk) (file file' : Option Path) (raw : Text) :
    Prop :=
  Option.Rel (RespelledAlike f disk) (file.bind fun p => Catalog.besides? p raw)
    (file'.bind fun p => Catalog.besides? p raw)

/-- Beside one file, a raw path names one path. -/
theorem BesideAlike.refl (f : Path → Path) (disk : Option Disk) (file : Option Path) (raw : Text) :
    BesideAlike f disk file file raw := by
  unfold BesideAlike
  cases file.bind fun p => Catalog.besides? p raw with
  | none => exact .none
  | some a => exact .some ⟨rfl, fun _ _ => rfl⟩

variable {c c' : Catalog} {disk : Option Disk} {file file' : Option Path} {raw : Text}

/-- Catalogs that are respelled alike resolve a raw path to files that are respelled alike. -/
theorem Catalog.map_resolve_eq (hf : Respelling c.root f) (hc : c.respell f = c'.respell f)
    (h : BesideAlike f disk file file' raw) :
    (c.resolve raw file).map f = (c'.resolve raw file').map f := by
  -- from the root both are read alike; beside the files, only script paths are compared
  have hbeside : (c.respell f).resolve raw file = (c.respell f).resolve raw file' := by
    unfold resolve
    cases (c.respell f).find? (ScriptPath.normalize raw) with
    | some target => rfl
    | none =>
        show ((file.bind fun p => besides? p raw).bind _)
          = ((file'.bind fun p => besides? p raw).bind _)
        unfold BesideAlike at h
        generalize (file.bind fun p => besides? p raw) = a,
          (file'.bind fun p => besides? p raw) = b at h
        cases h with
        | none => rfl
        | @some a b hab =>
            show (ScriptPath.ofPath? c.root a).bind _ = (ScriptPath.ofPath? c.root b).bind _
            rw [← hf.ofPath?_eq a, hab.path, hf.ofPath?_eq]
  rw [← resolve_respell, hbeside, hc, resolve_respell]

/-- So do resolvers that look at the same disk. -/
theorem Resolver.map_resolve_eq (hf : Respelling c.root f) (hc : c.respell f = c'.respell f)
    (h : BesideAlike f disk file file' raw) :
    (Resolver.resolve ⟨c, disk⟩ raw file).map f
      = (Resolver.resolve ⟨c', disk⟩ raw file').map f := by
  have htracked := Catalog.map_resolve_eq hf hc h
  have hroot : (c.respell f).root = (c'.respell f).root := congrArg Catalog.root hc
  unfold Resolver.resolve
  dsimp only
  have htracked := rel_of_map_eq htracked
  generalize c.resolve raw file = a, c'.resolve raw file' = b at htracked
  cases htracked with
  | some htarget => exact congrArg some htarget
  | none =>
      cases disk with
      | none => rfl
      | some d =>
          show ((Catalog.candidates c.root raw file).find? d.isFile).map f
            = ((Catalog.candidates c'.root raw file').find? d.isFile).map f
          have hroot : c.root = c'.root := hroot
          -- the candidate below the root is the same, the one beside the files is alike
          unfold Catalog.candidates
          rw [hroot, List.find?_cons, List.find?_cons]
          split
          · rfl
          · unfold BesideAlike at h
            generalize (file.bind fun p => Catalog.besides? p raw) = a,
              (file'.bind fun p => Catalog.besides? p raw) = b at h
            cases h with
            | none => rfl
            | @some a b hab =>
                show ([a].find? d.isFile).map f = ([b].find? d.isFile).map f
                rw [List.find?_singleton, List.find?_singleton, hab.isFile d rfl]
                split
                · exact congrArg some hab.path
                · rfl

/-! ## Index and graph -/

/-- Two tracked documents that differ in nothing but the spelling of their paths. -/
structure TrackedAlike (f : Path → Path) (disk : Option Disk) (x y : Path × Document) : Prop where
  path : f x.1 = f y.1
  document : x.2.Alike y.2
  beside : ∀ raw ∈ x.2.rawPaths, BesideAlike f disk (some x.1) (some y.1) raw

/-- The catalog of respelled files. -/
theorem Catalog.ofFiles_respell {root : Path} (hf : Respelling root f) (files : List Path) :
    (ofFiles root files).respell f = ofFiles root (files.map f) := by
  unfold ofFiles respell
  dsimp only
  rw [List.map_filterMap, List.filterMap_map]
  congr 1
  refine List.filterMap_congr fun p _ => ?_
  rw [Option.map_map]
  show _ = (ScriptPath.ofPath? root (f p)).map _
  rw [hf.ofPath?_eq]
  rfl

/-- Files that are respelled alike have catalogs that are. -/
theorem Catalog.ofFiles_respell_eq {root : Path} (hf : Respelling root f) {files files' : List Path}
    (h : files.map f = files'.map f) :
    (ofFiles root files).respell f = (ofFiles root files').respell f := by
  rw [ofFiles_respell hf, h, ofFiles_respell hf]

section

variable {root : Path} {m m' : PathMap Document}

/-- Documents tracked alike have indexes that are respelled alike. -/
theorem SymbolIndex.build_respell_eq (hf : Respelling root f)
    (h : List.Forall₂ (TrackedAlike f disk) m m') :
    (build root m).respell f = (build root m').respell f := by
  have hpaths : (m.map (·.1)).map f = (m'.map (·.1)).map f := by
    rw [List.map_map, List.map_map]
    exact map_eq_of_forall₂ h fun _ _ hxy => hxy.path
  have hcatalog := Catalog.ofFiles_respell_eq hf hpaths
  -- every table is built script by script, from the path and the document
  have hdefinitions : ∀ x y, TrackedAlike f disk x y →
      (definitionsIn x.1 x.2).map (fun e => (e.1, e.2.respell f))
        = (definitionsIn y.1 y.2).map (fun e => (e.1, e.2.respell f)) := by
    intro x y hxy
    rw [definitionsIn_respell, definitionsIn_respell, hxy.path]
    exact hxy.document.congr fun _ => rfl
  have hreferences : ∀ x y, TrackedAlike f disk x y →
      (referencesIn x.1 x.2).map (fun e => (e.1, e.2.respell f))
        = (referencesIn y.1 y.2).map (fun e => (e.1, e.2.respell f)) := by
    intro x y hxy
    rw [referencesIn_respell, referencesIn_respell, hxy.path]
    exact hxy.document.congr fun _ => rfl
  have hincludes : ∀ x y, TrackedAlike f disk x y →
      (includesIn (Catalog.ofFiles root (m.map (·.1))) x.1 x.2).map f
        = (includesIn (Catalog.ofFiles root (m'.map (·.1))) y.1 y.2).map f := by
    intro x y hxy
    rw [includesIn_respell hf.key, includesIn_respell hf.key, ← hxy.document.includes]
    refine congrArg _ (List.filterMap_congr fun i hi => ?_)
    refine Catalog.map_resolve_eq hf hcatalog (hxy.beside i.rawPath ?_)
    exact List.mem_append_left _ (List.mem_map_of_mem hi)
  unfold respell build
  dsimp only
  rw [List.map_flatMap, List.map_flatMap, List.map_flatMap, List.map_flatMap, List.map_map,
    List.map_map, flatMap_eq_of_forall₂ h hdefinitions, flatMap_eq_of_forall₂ h hreferences,
    hcatalog]
  congr 1
  exact map_eq_of_forall₂ h fun x y hxy => Prod.ext hxy.path (hincludes x y hxy)

end

/-- Two scripts that differ in nothing but the spelling of their paths, as the graph sees them. -/
structure SourceAlike (f : Path → Path) (disk : Option Disk) (s s' : Source) : Prop where
  tracked : TrackedAlike f disk (s.path, s.document) (s'.path, s'.document)
  text : s.text = s'.text

namespace IncludeGraph

variable {root : Path} {sources sources' : List Source}

/-- An include is of use or not, however the scripts are spelled. -/
theorem isUnused_eq (hf : ∀ p, (f p).key = p.key)
    (h : List.Forall₂ (SourceAlike f disk) sources sources') {s s' : Source} (hs : s.text = s'.text)
    (kind : IncludeKind) {target target' : Option Path} (ht : target.map f = target'.map f) :
    isUnused sources s kind target = isUnused sources' s' kind target' := by
  have hsource : Option.Rel (SourceAlike f disk)
      (target.bind fun t => sources.find? (·.path.same t))
      (target'.bind fun t => sources'.find? (·.path.same t)) := by
    cases rel_of_map_eq ht with
    | none => exact .none
    | @some t t' htt =>
        have hkey : t.key = t'.key := by rw [← hf t, htt, hf]
        refine find?_rel h fun s s' hs => ?_
        rw [← Path.same_respell hf, hs.tracked.path, Path.same_respell hf, Path.same, hkey,
          Path.same]
  unfold isUnused
  generalize (target.bind fun t => sources.find? (·.path.same t)) = a,
    (target'.bind fun t => sources'.find? (·.path.same t)) = b at hsource
  cases kind with
  | exec => rfl
  | directive =>
      cases hsource with
      | none => rfl
      | @some u u' hu =>
          show (!mentionsThread s.text u.document) = !mentionsThread s'.text u'.document
          rw [hs]
          exact congrArg _ (hu.tracked.document.congr fun _ => rfl)

/-- Scripts that differ in the spelling of their paths have graphs that are respelled alike. -/
theorem build_respell_eq (hf : Respelling root f)
    (h : List.Forall₂ (SourceAlike f disk) sources sources') (maxDepth : Nat) :
    (build root disk maxDepth sources).respell f
      = (build root disk maxDepth sources').respell f := by
  have hpaths : (sources.map (·.path)).map f = (sources'.map (·.path)).map f := by
    rw [List.map_map, List.map_map]
    exact map_eq_of_forall₂ h fun _ _ hs => hs.tracked.path
  have hcatalog := Catalog.ofFiles_respell_eq hf hpaths
  -- edges are built source by source, from includes that name files respelled alike
  have hedgesOf : ∀ s s', SourceAlike f disk s s' →
      (edgesOf ⟨Catalog.ofFiles root (sources.map (·.path)), disk⟩ sources s).map (Edge.respell f)
        = (edgesOf ⟨Catalog.ofFiles root (sources'.map (·.path)), disk⟩ sources' s').map
          (Edge.respell f) := by
    intro s s' hs
    rw [edgesOf, edgesOf, List.map_map, List.map_map, ← hs.tracked.document.includes]
    refine List.map_congr_left fun i hi => ?_
    have htarget := Resolver.map_resolve_eq hf hcatalog (hs.tracked.beside i.rawPath
      (List.mem_append_left _ (List.mem_map_of_mem hi)))
    have hunused := isUnused_eq hf.key h hs.text i.kind htarget
    dsimp only [Function.comp_apply] at htarget hunused ⊢
    generalize Resolver.resolve ⟨Catalog.ofFiles root (sources.map (·.path)), disk⟩ i.rawPath
      (some s.path) = t, Resolver.resolve ⟨Catalog.ofFiles root (sources'.map (·.path)), disk⟩
      i.rawPath (some s'.path) = t' at htarget hunused
    show Edge.mk (f s.path) _ (t.map f) _ _ _ = Edge.mk (f s'.path) _ (t'.map f) _ _ _
    rw [htarget, hunused, hs.tracked.path]
  have hedges : ((sources.flatMap
        (edgesOf ⟨Catalog.ofFiles root (sources.map (·.path)), disk⟩ sources)).map (Edge.respell f))
      = (sources'.flatMap
        (edgesOf ⟨Catalog.ofFiles root (sources'.map (·.path)), disk⟩ sources')).map
          (Edge.respell f) := by
    rw [List.map_flatMap, List.map_flatMap]
    exact flatMap_eq_of_forall₂ h hedgesOf
  have htargets : ∀ es : List Edge, (es.filterMap (·.target)).map f
      = (es.map (Edge.respell f)).filterMap (·.target) := by
    intro es
    rw [List.map_filterMap, List.filterMap_map]
    rfl
  unfold respell build
  dsimp only
  rw [← distinctBy_map f hf.key, ← distinctBy_map f hf.key, List.map_append, List.map_append,
    hpaths, htargets, htargets, hedges]

end IncludeGraph

end ScriptAtlas
