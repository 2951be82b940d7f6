import ScriptAtlas.Proofs.Workspace.Spelling

/-! # Agreement — workspaces that answer alike

    Workspaces agree when a change of spelling takes the tracked paths, the symbol
    index and the include graph of one to those of the other (`Agree`).  Every
    question is answered from these.  The route:

    * what is looked up by name or by path is found in both, respelled alike
      (`Agree.document?`, `Agree.findAll`, `Agree.resolve`);
    * script paths and places do not show the change of spelling
      (`Agree.scriptPath_eq`, `Place.of?_eq_of_key`), so every rule finds the same
      (`Agree.findings`);
    * answers that hold tracked paths are respelled alike, the others are the same
      (`Agree.answer`). -/

namespace ScriptAtlas

open ScriptPath (Respelling)

variable {f : Path → Path}

/-! ## Views -/

/-- Unreachable code is told from the rows alone. -/
theorem Reachability.findings_unplaced (d : Document) : findings d.unplaced = findings d := by
  have hfrom : ∀ dead rs, findingsFrom d.unplaced dead rs = findingsFrom d dead rs := by
    intro dead rs
    induction rs generalizing dead with
    | nil => cases dead <;> rfl
    | cons r rs ih =>
        cases dead with
        | none => exact ih (opens? d r)
        | some b =>
            simp only [findingsFrom, ih]
            rfl
  exact hfrom none (rows d)

/-- No rule looks at the path in a document. -/
theorem View.findings_unplaced (v : View) (r : Rule) :
    View.findings { v with document := v.document.unplaced } r = v.findings r := by
  cases r with
  | unreachableCode => exact Reachability.findings_unplaced v.document
  | _ => rfl

/-- Diagnostics are known from what each rule finds. -/
theorem View.diagnostics_congr {v v' : View} (hsettings : v.settings = v'.settings)
    (hfindings : ∀ r, v.findings r = v'.findings r) : v.diagnostics = v'.diagnostics := by
  have hof : v.diagnosticsOf = v'.diagnosticsOf := by
    funext r
    unfold View.diagnosticsOf
    rw [hsettings, hfindings]
  rw [View.diagnostics, View.diagnostics, hof]

/-! ## Places -/

/-- A place is named by the parts of its path. -/
theorem Place.of?_eq_of_key {p q : Path} (h : p.key = q.key) : Place.of? p = Place.of? q := by
  funext span
  rw [Place.of?, Place.of?, Uri.ofPath?, Uri.ofPath?, Path.parts_eq_of_key h]

namespace Workspace

/-- What two workspaces have in common that differ in nothing but the spelling of paths. -/
structure Agree (f : Path → Path) (disk : Disk) (w w' : Workspace) : Prop where
  ordered : w.documents.Ordered
  /-- Script paths do not show the change of spelling. -/
  spelling : Respelling w.symbolIndex.catalog.root f
  text? : w.text? = w'.text?
  /-- The documents are tracked in the same order. -/
  documents : List.Forall₂ (TrackedAlike f (w.diskInView disk)) w.documents w'.documents
  view : w.diskInView disk = w'.diskInView disk
  index : w.symbolIndex.respell f = w'.symbolIndex.respell f
  graph : (w.includeGraph disk).respell f = (w'.includeGraph disk).respell f

namespace Agree

variable {disk : Disk} {w w' : Workspace} (h : Agree f disk w w')

include h

/-! ## Documents and texts -/

/-- At spellings of one path, both track documents that are alike, or none. -/
theorem document? {p q : Path} (hkey : p.key = q.key) :
    Option.Rel Document.Alike (w.document? p) (w'.document? q) := by
  have hfound : Option.Rel (TrackedAlike f (w.diskInView disk)) (w.documents.find? (·.1.same p))
      (w'.documents.find? (·.1.same q)) := by
    refine find?_rel h.documents fun x y hxy => ?_
    rw [Path.same, h.spelling.key_eq hxy.path, hkey, Path.same]
  unfold Workspace.document? PathMap.get?
  generalize w.documents.find? (·.1.same p) = a, w'.documents.find? (·.1.same q) = b at hfound
  cases hfound with
  | none => exact .none
  | some hxy => exact .some hxy.document

/-- Whatever does not look at the path in a document is the same for both. -/
theorem bind_document? {α : Type} {u : Document → Option α} (hu : ∀ d, u d.unplaced = u d)
    {p q : Path} (hkey : p.key = q.key) : (w.document? p).bind u = (w'.document? q).bind u :=
  bind_eq_of_rel (h.document? hkey) fun _ _ halike => halike.congr hu

/-- So is what comes to the same for every document. -/
theorem bind_document?_congr {α : Type} {u v : Document → Option α} (huv : ∀ d, u d = v d)
    (hv : ∀ d, v d.unplaced = v d) {p q : Path} (hkey : p.key = q.key) :
    (w.document? p).bind u = (w'.document? q).bind v := by
  rw [funext huv]
  exact h.bind_document? hv hkey

/-- So is an image of it. -/
theorem map_document? {α : Type} {u : Document → α} (hu : ∀ d, u d.unplaced = u d) {p q : Path}
    (hkey : p.key = q.key) : (w.document? p).map u = (w'.document? q).map u := by
  have hsome : ∀ d, (some ∘ u) d.unplaced = (some ∘ u) d := fun d => congrArg some (hu d)
  rw [Option.map_eq_bind, Option.map_eq_bind]
  exact h.bind_document? hsome hkey

/-- The tracked paths are respelled alike. -/
theorem tracked : w.tracked.map f = w'.tracked.map f := by
  show (w.documents.map (·.1)).map f = (w'.documents.map (·.1)).map f
  rw [List.map_map, List.map_map]
  exact map_eq_of_forall₂ h.documents fun _ _ hxy => hxy.path

theorem displayLine? : w.displayLine? = w'.displayLine? := by
  funext path number
  rw [Workspace.displayLine?, Workspace.displayLine?, h.text?]

theorem outline (path : Path) : w.outline path = w'.outline path := by
  unfold Workspace.outline
  rw [h.displayLine?]
  exact h.bind_document? (fun _ => rfl) rfl

/-- Lists of what documents declare are the same but for the paths beside them. -/
theorem select {α : Type} {items : Document → List α} (hitems : ∀ d, items d.unplaced = items d)
    (path : Option Path) : (w.select path items).map (fun e => (f e.1, e.2))
      = (w'.select path items).map fun e => (f e.1, e.2) := by
  cases path with
  | some p =>
      show List.map _ ((((w.document? p).map items).getD []).map fun a => (p, a))
        = List.map _ ((((w'.document? p).map items).getD []).map fun a => (p, a))
      rw [h.map_document? hitems rfl]
  | none =>
      show List.map _ (w.documents.flatMap fun e => (items e.2).map fun a => (e.1, a))
        = List.map _ (w'.documents.flatMap fun e => (items e.2).map fun a => (e.1, a))
      rw [List.map_flatMap, List.map_flatMap]
      refine flatMap_eq_of_forall₂ h.documents fun x y hxy => ?_
      rw [List.map_map, List.map_map, hxy.document.congr hitems]
      refine List.map_congr_left fun a _ => ?_
      exact Prod.ext hxy.path rfl

/-! ## Looking names up -/

theorem isThread : w.symbolIndex.isThread = w'.symbolIndex.isThread := by
  rw [← SymbolIndex.isThread_respell h.spelling.key, h.index,
    SymbolIndex.isThread_respell h.spelling.key]

/-- How often a name appears does not depend on where. -/
theorem referenceCount : w.symbolIndex.referenceCount = w'.symbolIndex.referenceCount := by
  funext name withDefinitions
  rw [← SymbolIndex.referenceCount_respell f, h.index, SymbolIndex.referenceCount_respell]

/-- Definitions of a name are found in the same order. -/
theorem findAll (name : Text) :
    List.Forall₂ (fun d e => Definition.respell f d = e.respell f)
      (w.symbolIndex.findAll name) (w'.symbolIndex.findAll name) := by
  refine forall₂_of_map_eq ?_
  rw [← SymbolIndex.findAll_respell h.spelling.key, h.index,
    SymbolIndex.findAll_respell h.spelling.key]

/-- Definitions that are respelled alike stand in the same file. -/
theorem definition_key {d e : Definition} (hde : d.respell f = e.respell f) :
    d.location.path.key = e.location.path.key :=
  h.spelling.key_eq (Definition.of_respell_eq hde).1

/-- A script path does not show a change of spelling. -/
theorem scriptPath_eq {p q : Path} (hpq : f p = f q) : w.scriptPath p = w'.scriptPath q := by
  have hroot : (w.symbolIndex.respell f).catalog.root = (w'.symbolIndex.respell f).catalog.root :=
    congrArg (fun ix : SymbolIndex => ix.catalog.root) h.index
  have hroot : w.symbolIndex.catalog.root = w'.symbolIndex.catalog.root := hroot
  show ScriptPath.shown w.symbolIndex.catalog.root p
    = ScriptPath.shown w'.symbolIndex.catalog.root q
  rw [← hroot, ← h.spelling.shown p, hpq, h.spelling.shown]

/-- A raw path names files that are respelled alike, seen from files beside which it does. -/
theorem resolve {file file' : Option Path} {raw : Text}
    (hbeside : BesideAlike f (w.diskInView disk) file file' raw) :
    (w.resolve disk raw file).map f = (w'.resolve disk raw file').map f := by
  unfold Workspace.resolve
  rw [← h.view]
  exact Resolver.map_resolve_eq h.spelling
    (congrArg (fun ix : SymbolIndex => ix.catalog) h.index) hbeside

/-- A raw path names the same file in either workspace, or none. -/
theorem resolve_rel {file file' : Option Path} {raw : Text}
    (hbeside : BesideAlike f (w.diskInView disk) file file' raw) :
    Option.Rel (fun p q => p.key = q.key) (w.resolve disk raw file)
      (w'.resolve disk raw file') :=
  h.spelling.rel_key_of_map_eq (h.resolve hbeside)

theorem snapshot : w.snapshot disk = w'.snapshot disk := by
  have hcatalog : w.symbolIndex.catalog.respell f = w'.symbolIndex.catalog.respell f :=
    congrArg (fun ix : SymbolIndex => ix.catalog) h.index
  have hspelling : Respelling w'.symbolIndex.catalog.root f := by
    have hroot : (w.symbolIndex.catalog.respell f).root = (w'.symbolIndex.catalog.respell f).root :=
      congrArg Catalog.root hcatalog
    exact hroot ▸ h.spelling
  rw [Workspace.snapshot, ← IncludeGraph.snapshot_respell h.spelling, h.graph, hcatalog,
    IncludeGraph.snapshot_respell hspelling, Workspace.snapshot]

/-- Tokens are coloured by names and by counts, not by paths. -/
theorem tokenize (path : Path) : w.tokenize path = w'.tokenize path := by
  have hmark : markUnused w.symbolIndex = markUnused w'.symbolIndex := by
    funext t l
    unfold markUnused
    rw [h.referenceCount]
  unfold Workspace.tokenize
  dsimp only
  rw [h.isThread, hmark]
  exact h.map_document? (fun _ => rfl) rfl

/-! ## Navigation -/

/-- A thread of another script is found at one place. -/
theorem crossDefinition? : w.crossDefinition? disk = w'.crossDefinition? disk := by
  funext path raw name
  have hresolve := h.resolve_rel (BesideAlike.refl f (w.diskInView disk) (some path) raw)
  refine bind_eq_of_rel hresolve fun p q hkey => ?_
  show (w.document? p).bind _ = (w'.document? q).bind _
  rw [Place.of?_eq_of_key hkey]
  exact h.bind_document? (fun _ => rfl) hkey

/-- Definitions of one owner in one file are at the same places. -/
theorem localDefinition : w.localDefinition = w'.localDefinition := by
  funext path owner name
  unfold Workspace.localDefinition
  dsimp only
  rw [filterMap_eq_of_forall₂ (forall₂_filter (h.findAll name) ?_) ?_]
  · intro d e hde
    obtain ⟨-, -, -, -, -, howner⟩ := Definition.of_respell_eq hde
    rw [Path.same, h.definition_key hde, howner, Path.same]
  · intro d e hde
    rw [(Definition.of_respell_eq hde).2.1]

theorem symbolDefinition? : w.symbolDefinition? disk = w'.symbolDefinition? disk := by
  funext path d line name
  have hfrom : (w.symbolIndex.findFrom? name path).map (Definition.respell f)
      = (w'.symbolIndex.findFrom? name path).map (Definition.respell f) := by
    rw [← SymbolIndex.findFrom?_respell h.spelling.key, h.index,
      SymbolIndex.findFrom?_respell h.spelling.key]
  have hplace : ((w.symbolIndex.findFrom? name path).bind fun e =>
        (Place.of? e.location.path e.location.span).map ([·]))
      = (w'.symbolIndex.findFrom? name path).bind fun e =>
        (Place.of? e.location.path e.location.span).map ([·]) := by
    refine bind_eq_of_rel (rel_of_map_eq hfrom) fun e e' he => ?_
    rw [Place.of?_eq_of_key (h.definition_key he), (Definition.of_respell_eq he).2.1]
  unfold Workspace.symbolDefinition?
  rw [h.crossDefinition?, h.localDefinition, hplace]

/-- So every cursor leads to the same places. -/
theorem definitionAt (path : Path) (cursor : Position) :
    w.definitionAt disk path cursor = w'.definitionAt disk path cursor := by
  have htarget : ∀ raw, ((w.resolve disk raw (some path)).bind fun target =>
        (Place.of? target .fileStart).bind fun place => some [place])
      = (w'.resolve disk raw (some path)).bind fun target =>
        (Place.of? target .fileStart).bind fun place => some [place] := by
    intro raw
    have hresolve := h.resolve_rel (BesideAlike.refl f (w.diskInView disk) (some path) raw)
    refine bind_eq_of_rel hresolve fun p q hkey => ?_
    rw [Place.of?_eq_of_key hkey]
  -- only the jump to an included file asks for a path, and a place is all that is left of it
  unfold Workspace.definitionAt
  rw [h.symbolDefinition?]
  refine h.bind_document?_congr (fun d => ?_) (fun _ => rfl) rfl
  refine congrArg _ (funext fun l => ?_)
  cases includedPath? d l with
  | some raw => exact htarget raw
  | none => rfl

/-- Appearances are at the same places, in the same order. -/
theorem referencesAt (path : Path) (cursor : Position) (withDefinitions : Bool) :
    w.referencesAt path cursor withDefinitions = w'.referencesAt path cursor withDefinitions := by
  have hsites : ∀ name, List.Forall₂ (fun r s => Reference.respell f r = s.respell f)
      (w.symbolIndex.findReferences name withDefinitions)
      (w'.symbolIndex.findReferences name withDefinitions) := by
    intro name
    refine forall₂_of_map_eq ?_
    rw [← SymbolIndex.findReferences_respell, h.index, SymbolIndex.findReferences_respell]
  unfold Workspace.referencesAt
  refine h.bind_document?_congr (fun d => ?_) (fun _ => rfl) rfl
  refine congrArg _ (funext fun name => ?_)
  refine congrArg some (filterMap_eq_of_forall₂ (forall₂_filter (hsites name) ?_) ?_)
  · intro r s hrs
    obtain ⟨hpath, -, howner⟩ := Reference.of_respell_eq hrs
    rw [Path.same, h.spelling.key_eq hpath, howner, Path.same]
  · intro r s hrs
    obtain ⟨hpath, hspan, -⟩ := Reference.of_respell_eq hrs
    rw [Place.of?_eq_of_key (h.spelling.key_eq hpath), hspan]

/-- Symbols are scored by their names and shown with their script paths. -/
theorem search (query : Text) : w.search query = w'.search query := by
  have hall : List.Forall₂ (fun d e => Definition.respell f d = e.respell f) w.symbolIndex.all
      w'.symbolIndex.all := by
    refine forall₂_of_map_eq ?_
    rw [← SymbolIndex.all_respell h.spelling.key, h.index, SymbolIndex.all_respell h.spelling.key]
  have hsearchable : w.searchable = w'.searchable := by
    refine filterMap_eq_of_forall₂ (forall₂_filter hall ?_) ?_
    · intro d e hde
      obtain ⟨-, -, -, hkind, -, -⟩ := Definition.of_respell_eq hde
      rw [hkind]
    · intro d e hde
      obtain ⟨hpath, hspan, hname, hkind, hthread, -⟩ := Definition.of_respell_eq hde
      rw [Place.of?_eq_of_key (h.definition_key hde), hspan, hname, hkind, hthread,
        h.scriptPath_eq hpath]
  rw [Workspace.search, hsearchable, Workspace.search]

/-! ## Analysis -/

omit h in
/-- The member after a path, in a cycle that is respelled. -/
theorem nextMember?_respell (hf : ∀ p, (f p).key = p.key) (cycle : List Path) (p : Path) :
    View.nextMember? (cycle.map f) p = (View.nextMember? cycle p).map f := by
  have hsame : (fun q : Path => q.same p) ∘ f = fun q => q.same p :=
    funext fun q => Path.same_respell hf q p
  unfold View.nextMember?
  dsimp only
  rw [List.findIdx?_map, hsame, List.length_map, List.getElem?_map]

/-- The includes of a file are the same, but for the spelling of what they name. -/
theorem edgesFrom {p q : Path} (hkey : p.key = q.key) :
    List.Forall₂ (fun e e' : Nat × Edge => e.2.respell f = e'.2.respell f)
      ((w.includeGraph disk).edgesFrom p) ((w'.includeGraph disk).edgesFrom q) := by
  have hpq : (w'.includeGraph disk).edgesFrom p = (w'.includeGraph disk).edgesFrom q := by
    unfold IncludeGraph.edgesFrom Path.same
    rw [hkey]
  have hrespelled := IncludeGraph.edgesFrom_respell h.spelling.key (w.includeGraph disk) p
  rw [h.graph, IncludeGraph.edgesFrom_respell h.spelling.key, hpq] at hrespelled
  refine (forall₂_of_map_eq hrespelled.symm).imp ?_
  intro e e' hee
  exact congrArg Prod.snd hee

end Agree

/-- What a rule sees of a script: the workspace from its path, its text and its document. -/
def viewFrom (w : Workspace) (disk : Disk) (settings : Settings) (path : Path) (text : Text)
    (d : Document) : View :=
  ⟨w, disk, settings, w.symbolIndex, w.includeGraph disk, path, text, d⟩

namespace Agree

variable {disk : Disk} {w w' : Workspace} (h : Agree f disk w w') {p q : Path}
  (hkey : p.key = q.key) (settings : Settings) (text : Text) {d : Document}

include h

/-- A reference to another script is fine in both or wrong in the same way. -/
theorem crossProblem? {r : CrossReference}
    (hbeside : BesideAlike f (w.diskInView disk) (some p) (some q) r.rawPath) :
    (w.viewFrom disk settings p text d).crossProblem? r
      = (w'.viewFrom disk settings q text d).crossProblem? r := by
  have hresolve := h.resolve_rel hbeside
  unfold View.crossProblem? viewFrom
  dsimp only
  generalize w.resolve disk r.rawPath (some p) = a,
    w'.resolve disk r.rawPath (some q) = b at hresolve
  cases hresolve with
  | none => rfl
  | some htarget => exact h.bind_document? (fun _ => rfl) htarget

include hkey

/-- A thread has the same first definition, shown alike. -/
theorem duplicateProblem? (t : Thread) :
    (w.viewFrom disk settings p text d).duplicateProblem? t
      = (w'.viewFrom disk settings q text d).duplicateProblem? t := by
  have hthreads : List.Forall₂ (fun d e => Definition.respell f d = e.respell f)
      ((w.symbolIndex.findAll t.name).filter (·.kind == .thread))
      ((w'.symbolIndex.findAll t.name).filter (·.kind == .thread)) := by
    refine forall₂_filter (h.findAll t.name) fun d e hde => ?_
    obtain ⟨-, -, -, hkind, -, -⟩ := Definition.of_respell_eq hde
    rw [hkind]
  unfold View.duplicateProblem? viewFrom
  dsimp only
  generalize (w.symbolIndex.findAll t.name).filter (·.kind == .thread) = l,
    (w'.symbolIndex.findAll t.name).filter (·.kind == .thread) = l' at hthreads
  cases hthreads with
  | nil => rfl
  | @cons first first' rest rest' hfirst hrest =>
      cases hrest with
      | nil => rfl
      | cons _ _ =>
          obtain ⟨hpath, hspan, -⟩ := Definition.of_respell_eq hfirst
          dsimp only
          rw [Path.same, h.definition_key hfirst, hkey, ← Path.same, hspan, h.scriptPath_eq hpath]

/-- A cycle is worded alike and found at the same include. -/
theorem cycleFinding {cycle cycle' : List Path} (hcycle : cycle.map f = cycle'.map f) :
    (w.viewFrom disk settings p text d).cycleFinding cycle
      = (w'.viewFrom disk settings q text d).cycleFinding cycle' := by
  have hscripts : cycle.map w.scriptPath = cycle'.map w'.scriptPath :=
    map_eq_of_forall₂ (forall₂_of_map_eq hcycle) fun _ _ hpq => h.scriptPath_eq hpq
  have hnext : (View.nextMember? cycle p).map f = (View.nextMember? cycle' q).map f := by
    have hpq : View.nextMember? cycle' p = View.nextMember? cycle' q := by
      unfold View.nextMember? Path.same
      rw [hkey]
    rw [← nextMember?_respell h.spelling.key, hcycle, nextMember?_respell h.spelling.key, hpq]
  unfold View.cycleFinding viewFrom
  dsimp only
  rw [hscripts]
  -- the include that is reported is the first that names the next member
  refine congrArg _ (congrArg (Option.getD · _)
    (map_find?_eq_of_forall₂ (h.edgesFrom hkey) ?_ ?_))
  · intro e e' hee
    have htarget := h.spelling.rel_key_of_map_eq (Edge.of_respell_eq hee).1
    have hnext := h.spelling.rel_key_of_map_eq hnext
    generalize e.2.target = a, e'.2.target = a' at htarget
    generalize View.nextMember? cycle p = b, View.nextMember? cycle' q = b' at hnext
    cases htarget with
    | none => rfl
    | some htarget =>
        cases hnext with
        | none => rfl
        | some hnext =>
            dsimp only
            rw [Path.same, htarget, hnext, Path.same]
  · intro e e' hee
    exact (Edge.of_respell_eq hee).2.2.2.1

/-- Every rule finds the same in either workspace, from either spelling of a path. -/
theorem findings (hcross : ∀ r ∈ d.crossReferences,
      BesideAlike f (w.diskInView disk) (some p) (some q) r.rawPath) (r : Rule) :
    (w.viewFrom disk settings p text d).findings r
      = (w'.viewFrom disk settings q text d).findings r := by
  -- each rule asks the index, the graph or the document: what it asks for is the same in both
  cases r with
  | undefinedThread =>
      show List.map _ (d.calls.filter fun c => !w.symbolIndex.isThread c.name && _)
          ++ d.crossReferences.filterMap _
        = List.map _ (d.calls.filter fun c => !w'.symbolIndex.isThread c.name && _)
          ++ d.crossReferences.filterMap _
      rw [h.isThread, List.filterMap_congr fun r hr => h.crossProblem? settings text (hcross r hr)]
      rfl
  | undefinedLabel => rfl
  | unusedThread =>
      show List.map _ (d.threads.filter fun t =>
          _ && _ && w.symbolIndex.referenceCount t.name false == 0)
        = List.map _ (d.threads.filter _)
      rw [h.referenceCount]
      rfl
  | unusedLabel =>
      show List.map _ (d.labels.filter fun l => w.symbolIndex.referenceCount l.name false == 0)
        = List.map _ (d.labels.filter _)
      rw [h.referenceCount]
      rfl
  | unusedVariable =>
      have hread : (w.viewFrom disk settings p text d).isRead
          = (w'.viewFrom disk settings q text d).isRead := by
        funext b
        unfold View.isRead viewFrom
        dsimp only
        rw [h.referenceCount]
      show List.map _ (List.filter (fun b => !View.isRead _ b) _)
        = List.map _ (List.filter (fun b => !View.isRead _ b) _)
      rw [hread]
      rfl
  | duplicateThread =>
      exact List.filterMap_congr fun t _ => h.duplicateProblem? hkey settings text t
  | unknownFunction =>
      have hknown : (w.viewFrom disk settings p text d).isKnownFunction
          = (w'.viewFrom disk settings q text d).isKnownFunction := by
        funext name
        unfold View.isKnownFunction viewFrom
        dsimp only
        rw [h.isThread]
      show List.map _ (List.filter _ _) = List.map _ (List.filter _ _)
      rw [hknown]
      rfl
  | unreachableCode => rfl
  | circularDependency =>
      have hcycles : ((w.includeGraph disk).cyclesThrough p).map (·.map f)
          = ((w'.includeGraph disk).cyclesThrough q).map (·.map f) := by
        have hpq : (w'.includeGraph disk).cyclesThrough p
            = (w'.includeGraph disk).cyclesThrough q := by
          unfold IncludeGraph.cyclesThrough Path.same
          rw [hkey]
        rw [← IncludeGraph.cyclesThrough_respell h.spelling.key, h.graph,
          IncludeGraph.cyclesThrough_respell h.spelling.key, hpq]
      exact map_eq_of_forall₂ (forall₂_of_map_eq hcycles)
        fun _ _ hcycle => h.cycleFinding hkey settings text hcycle
  | missingInclude =>
      refine map_eq_of_forall₂ (forall₂_filter (h.edgesFrom hkey) ?_) ?_
      · intro e e' hee
        have htarget := congrArg Option.isNone (Edge.of_respell_eq hee).1
        rw [Option.isNone_map, Option.isNone_map] at htarget
        exact htarget
      · intro e e' hee
        obtain ⟨-, hraw, hkind, hspan, -⟩ := Edge.of_respell_eq hee
        dsimp only
        rw [hraw, hkind, hspan]
  | unusedInclude =>
      refine map_eq_of_forall₂ (forall₂_filter (h.edgesFrom hkey) ?_) ?_
      · intro e e' hee
        exact (Edge.of_respell_eq hee).2.2.2.2
      · intro e e' hee
        obtain ⟨-, hraw, -, hspan, -⟩ := Edge.of_respell_eq hee
        dsimp only
        rw [hraw, hspan]

omit hkey in
/-- What is kept does not matter: it is what would be built. -/
theorem keepIndex : Agree f disk w.keepIndex w'.keepIndex :=
  ⟨h.ordered, h.spelling, h.text?, h.documents, h.view, h.index, h.graph⟩

omit hkey in
theorem keepGraph : Agree f disk (w.keepGraph disk) (w'.keepGraph disk) :=
  ⟨h.ordered, h.spelling, h.text?, h.documents, h.view, h.index, h.graph⟩

/-- So the diagnostics of a script are the same, from either spelling of its path. -/
theorem analyze (hcross : ∀ d, w.document? p = some d → ∀ r ∈ d.crossReferences,
      BesideAlike f (w.diskInView disk) (some p) (some q) r.rawPath) :
    w.analyze disk settings p = w'.analyze disk settings q := by
  have hkept := h.keepIndex
  have hdocument := hkept.document? hkey
  have htext : w.keepIndex.text? p = w'.keepIndex.text? q := by
    rw [hkept.text?]
    exact PathMap.get?_eq_of_key _ hkey
  have hcross : ∀ d, w.keepIndex.document? p = some d → ∀ r ∈ d.crossReferences,
      BesideAlike f (w.keepIndex.diskInView disk) (some p) (some q) r.rawPath := hcross
  show ((w.keepIndex.document? p).map fun d =>
      w.keepIndex.viewFrom disk settings p ((w.keepIndex.text? p).getD []) d).map View.diagnostics
    = ((w'.keepIndex.document? q).map fun d =>
      w'.keepIndex.viewFrom disk settings q ((w'.keepIndex.text? q).getD []) d).map View.diagnostics
  rw [htext]
  generalize w'.keepIndex.text? q = t
  generalize w.keepIndex.document? p = a, w'.keepIndex.document? q = b at hdocument hcross
  cases hdocument with
  | none => rfl
  | @some d e halike =>
      -- the documents differ in their paths, which no rule looks at
      have hunplaced : ∀ (u : Workspace) (p : Path) (d : Document),
          (u.viewFrom disk settings p (t.getD []) d).diagnostics
            = (u.viewFrom disk settings p (t.getD []) d.unplaced).diagnostics :=
        fun u p d => View.diagnostics_congr rfl fun r =>
          (View.findings_unplaced (u.viewFrom disk settings p (t.getD []) d) r).symm
      show some (View.diagnostics _) = some (View.diagnostics _)
      rw [hunplaced, hunplaced w'.keepIndex, halike.2]
      refine congrArg some (View.diagnostics_congr rfl ?_)
      rw [← halike.2]
      exact hkept.findings hkey settings _ (hcross d rfl)

omit hkey in
/-- So are the diagnostics of all scripts, beside paths that are respelled alike. -/
theorem analyzeAll : (w.analyzeAll disk settings).map (fun e => (f e.1, e.2))
    = (w'.analyzeAll disk settings).map fun e => (f e.1, e.2) := by
  have hkept := h.keepIndex.keepGraph
  have hmembers : List.Forall₂ (fun x y => x ∈ w.documents
      ∧ TrackedAlike f (w.diskInView disk) x y) w.documents w'.documents :=
    (List.forall₂_and_left _ _).mpr ⟨fun _ hx => hx, h.documents⟩
  unfold Workspace.analyzeAll
  dsimp only
  rw [List.map_filterMap, List.map_filterMap]
  show ((w.documents.map (·.1)).filterMap _) = (w'.documents.map (·.1)).filterMap _
  rw [List.filterMap_map, List.filterMap_map]
  refine filterMap_eq_of_forall₂ hmembers ?_
  rintro x y ⟨hx, hxy⟩
  -- the document found at a tracked path is the one tracked there, as the map is in order
  have hanalyze : (w.keepIndex.keepGraph disk).analyze disk settings x.1
      = (w'.keepIndex.keepGraph disk).analyze disk settings y.1 := by
    refine hkept.analyze (h.spelling.key_eq hxy.path) settings fun d hd r hr => ?_
    obtain rfl := Option.some.inj (hd.symm.trans (hkept.ordered.get?_of_mem hx rfl))
    exact hxy.beside r.rawPath (List.mem_append_right _ (List.mem_map_of_mem hr))
  show Option.map _ (Option.map _ _) = Option.map _ (Option.map _ _)
  rw [hanalyze, Option.map_map, Option.map_map]
  congr 1
  funext ds
  exact congrArg (·, ds) hxy.path

end Agree

end Workspace

/-! ## Answers -/

/-- What documents list, with the paths respelled. -/
def Selection.respell (f : Path → Path) (s : Selection) : Selection where
  threads := s.threads.map fun e => (f e.1, e.2)
  labels := s.labels.map fun e => (f e.1, e.2)
  bindings := s.bindings.map fun e => (f e.1, e.2)
  includes := s.includes.map fun e => (f e.1, e.2)

namespace Query

/-- The answer with its tracked paths respelled: these keep their first spelling.  Answers in words,
    numbers and ranges have no paths to respell, and a document is left as it is. -/
def respell (f : Path → Path) : (q : Query) → q.Answer → q.Answer
  | tracked, paths => paths.map f
  | select _, selection => selection.respell f
  | resolve _ _, target => target.map f
  | index, ix => ix.respell f
  | graph, g => g.respell f
  | dependents _, paths => paths.map f
  | dependencies _ _, paths => paths.map f
  | allDiagnostics _, found => found.map fun e => (f e.1, e.2)
  | document _, answer => answer
  | line _ _, answer => answer
  | scriptPath _, answer => answer
  | snapshot, answer => answer
  | tokens _, answer => answer
  | diagnostics _ _, answer => answer
  | definition _ _, answer => answer
  | references _ _ _, answer => answer
  | outline _, answer => answer
  | symbols _, answer => answer

theorem respell_id (q : Query) (answer : q.Answer) : q.respell id answer = answer := by
  cases q with
  | tracked => exact List.map_id answer
  | select path => simp [respell, Selection.respell]
  | resolve raw file => exact congrFun Option.map_id answer
  | index => exact SymbolIndex.respell_id answer
  | graph => exact IncludeGraph.respell_id answer
  | dependents path => exact List.map_id answer
  | dependencies path depth => exact List.map_id answer
  | allDiagnostics settings => exact List.map_id answer
  | _ => rfl

/-- Respelling twice is respelling once. -/
theorem respell_respell (f g : Path → Path) (q : Query) (answer : q.Answer) :
    q.respell g (q.respell f answer) = q.respell (g ∘ f) answer := by
  cases q with
  | tracked => exact List.map_map
  | select path => simp [respell, Selection.respell, Function.comp_def]
  | resolve raw file => exact Option.map_map g f answer
  | index => exact SymbolIndex.respell_respell f g answer
  | graph => exact IncludeGraph.respell_respell f g answer
  | dependents path => exact List.map_map
  | dependencies path depth => exact List.map_map
  | allDiagnostics settings => simp [respell, Function.comp_def]
  | _ => rfl

/-- Two answers that say the same.  A document may carry another spelling of its path. -/
def Alike : (q : Query) → q.Answer → q.Answer → Prop
  | document _ => Option.Rel Document.Alike
  | _ => Eq

theorem Alike.respell {q : Query} {a b : q.Answer} (h : q.Alike a b) (f : Path → Path) :
    q.Alike (q.respell f a) (q.respell f b) := by
  cases q with
  | document path => exact h
  | _ => exact congrArg (Query.respell f _) h

end Query

namespace Workspace

/-- **AGREEMENT**: workspaces that agree give answers that are alike but for the spelling of the
    tracked paths in them. -/
theorem Agree.answer {disk : Disk} {w w' : Workspace} (h : Agree f disk w w') (q : Query) :
    q.Alike (q.respell f (q.answer disk w)) (q.respell f (q.answer disk w')) := by
  have hkey := h.spelling.key
  cases q with
  | tracked => exact h.tracked
  | document path => exact h.document? rfl
  | select path =>
      show Selection.respell f ⟨_, _, _, _⟩ = Selection.respell f ⟨_, _, _, _⟩
      unfold Selection.respell
      dsimp only
      rw [h.select fun _ => rfl, h.select fun _ => rfl, h.select fun _ => rfl,
        h.select fun _ => rfl]
  | line path number => exact congrFun (congrFun h.displayLine? path) number
  | scriptPath path => exact h.scriptPath_eq rfl
  | resolve raw file => exact h.resolve (BesideAlike.refl f _ file raw)
  | index => exact h.index
  | graph => exact h.graph
  | snapshot => exact h.snapshot
  | dependents path =>
      show ((w.includeGraph disk).dependents path).map f
        = ((w'.includeGraph disk).dependents path).map f
      rw [← IncludeGraph.dependents_respell hkey, h.graph, IncludeGraph.dependents_respell hkey]
  | dependencies path depth =>
      show ((w.includeGraph disk).dependencies path depth).map f
        = ((w'.includeGraph disk).dependencies path depth).map f
      rw [← IncludeGraph.dependencies_respell hkey, h.graph, IncludeGraph.dependencies_respell hkey]
  | tokens path => exact h.tokenize path
  | diagnostics settings path =>
      exact h.analyze rfl settings fun _ _ r _ => BesideAlike.refl f _ (some path) r.rawPath
  | allDiagnostics settings => exact h.analyzeAll settings
  | definition path cursor => exact h.definitionAt path cursor
  | references path cursor withDefinitions => exact h.referencesAt path cursor withDefinitions
  | outline path => exact h.outline path
  | symbols query => exact h.search query

end Workspace

end ScriptAtlas
