import ScriptAtlas.Proofs.Path.Spelling
import ScriptAtlas.Proofs.Sorting
import ScriptAtlas.Symbols.Index

/-! # Spelling in the symbol index — respelled paths, respelled answers

    The paths in an index come from the tracked scripts.  Looking a name up
    compares paths by their keys only, so respelling the paths of an index and
    then asking it is asking it and respelling the paths of the answer: every
    question has its equation here. -/

namespace ScriptAtlas

variable {f : Path → Path}

/-! ## Catalogs -/

/-- The catalog with its files respelled. -/
def Catalog.respell (f : Path → Path) (c : Catalog) : Catalog :=
  { c with files := c.files.map fun e => (e.1, f e.2) }

namespace Catalog

theorem respell_respell (f g : Path → Path) (c : Catalog) :
    (c.respell f).respell g = c.respell (g ∘ f) := by
  simp [respell, Function.comp_def]

/-- A script path is found in a respelled catalog where it was found before. -/
theorem find?_respell (f : Path → Path) (c : Catalog) (script : Text) :
    (c.respell f).find? script = (c.find? script).map f := by
  unfold find? respell
  dsimp only
  rw [List.findRev?_eq_find?_reverse, List.findRev?_eq_find?_reverse, ← List.map_reverse,
    List.find?_map, Option.map_map, Option.map_map]
  rfl

/-- Resolving compares script paths only, which the catalog keeps. -/
theorem resolve_respell (f : Path → Path) (c : Catalog) (raw : Text) (file : Option Path) :
    (c.respell f).resolve raw file = (c.resolve raw file).map f := by
  unfold resolve
  rw [find?_respell]
  cases c.find? (ScriptPath.normalize raw) with
  | some target => rfl
  | none =>
      show ((file.bind fun p => besides? p raw).bind fun joined =>
          (ScriptPath.ofPath? c.root joined).bind (c.respell f).find?)
        = ((file.bind fun p => besides? p raw).bind fun joined =>
          (ScriptPath.ofPath? c.root joined).bind c.find?).map f
      simp only [Option.map_bind, Function.comp_def, ← find?_respell]

end Catalog

/-! ## Records -/

/-- The place in the respelled file. -/
def Location.respell (f : Path → Path) (l : Location) : Location := { l with path := f l.path }

/-- The definition in the respelled file. -/
def Definition.respell (f : Path → Path) (d : Definition) : Definition :=
  { d with location := d.location.respell f }

/-- The appearance in the respelled file. -/
def Reference.respell (f : Path → Path) (r : Reference) : Reference :=
  { r with location := r.location.respell f }

/-- Definitions that are respelled alike differ in nothing but the spelling of their file. -/
theorem Definition.of_respell_eq {d e : Definition} (h : d.respell f = e.respell f) :
    f d.location.path = f e.location.path ∧ d.location.span = e.location.span ∧ d.name = e.name
      ∧ d.kind = e.kind ∧ d.thread = e.thread ∧ d.owner = e.owner := by
  simp only [respell, Location.respell, Definition.mk.injEq, Location.mk.injEq] at h
  obtain ⟨hname, hkind, ⟨hpath, hspan⟩, hthread, howner⟩ := h
  exact ⟨hpath, hspan, hname, hkind, hthread, howner⟩

/-- So do appearances. -/
theorem Reference.of_respell_eq {r s : Reference} (h : r.respell f = s.respell f) :
    f r.location.path = f s.location.path ∧ r.location.span = s.location.span
      ∧ r.owner = s.owner := by
  simp only [respell, Location.respell, Reference.mk.injEq, Location.mk.injEq] at h
  obtain ⟨⟨hpath, hspan⟩, -, howner⟩ := h
  exact ⟨hpath, hspan, howner⟩

/-- The index with all its paths respelled. -/
def SymbolIndex.respell (f : Path → Path) (ix : SymbolIndex) : SymbolIndex where
  definitions := ix.definitions.map fun e => (e.1, e.2.respell f)
  references := ix.references.map fun e => (e.1, e.2.respell f)
  catalog := ix.catalog.respell f
  includes := ix.includes.map fun e => (f e.1, e.2.map f)

namespace SymbolIndex

theorem respell_id (ix : SymbolIndex) : ix.respell id = ix := by
  simp [respell, Catalog.respell, Definition.respell, Reference.respell, Location.respell]

/-- Respelling twice is respelling once. -/
theorem respell_respell (f g : Path → Path) (ix : SymbolIndex) :
    (ix.respell f).respell g = ix.respell (g ∘ f) := by
  simp [respell, Catalog.respell_respell, Definition.respell, Reference.respell, Location.respell,
    Function.comp_def]

/-! ## Entries of a script -/

/-- The definitions in a script, listed at its respelled path. -/
theorem definitionsIn_respell (f : Path → Path) (p : Path) (d : Document) :
    (definitionsIn p d).map (fun e => (e.1, e.2.respell f)) = definitionsIn (f p) d := by
  have hoccurrence : ∀ o, (ofOccurrence? p d o).map (fun e => (e.1, e.2.respell f))
      = ofOccurrence? (f p) d o := by
    intro o
    unfold ofOccurrence?
    split
    · rfl
    · rfl
  rw [definitionsIn, List.map_append, List.map_append, List.map_map, List.map_map,
    List.map_filterMap, List.filterMap_congr fun o _ => hoccurrence o]
  rfl

theorem referencesIn_respell (f : Path → Path) (p : Path) (d : Document) :
    (referencesIn p d).map (fun e => (e.1, e.2.respell f)) = referencesIn (f p) d :=
  List.map_map

/-- The files that a script includes, respelled and still each listed once. -/
theorem includesIn_respell (hf : ∀ p, (f p).key = p.key) (c : Catalog) (p : Path) (d : Document) :
    (includesIn c p d).map f = distinctBy Path.key
      (d.includes.filterMap fun i => (c.resolve i.rawPath (some p)).map f) := by
  rw [includesIn, ← distinctBy_map f hf, List.map_filterMap]

/-! ## Questions -/

/-- Appearances are chosen by their names. -/
theorem findReferences_respell (f : Path → Path) (ix : SymbolIndex) (name : Text)
    (withDefinitions : Bool) :
    (ix.respell f).findReferences name withDefinitions
      = (ix.findReferences name withDefinitions).map (·.respell f) := by
  unfold findReferences respell
  dsimp only
  rw [List.filter_map, List.map_map, List.map_map]
  rfl

theorem referenceCount_respell (f : Path → Path) (ix : SymbolIndex) (name : Text)
    (withDefinitions : Bool) :
    (ix.respell f).referenceCount name withDefinitions
      = ix.referenceCount name withDefinitions := by
  rw [referenceCount, findReferences_respell, List.length_map, referenceCount]

variable (hf : ∀ p, (f p).key = p.key)

include hf

/-- The definitions of a symbol are put in order by keys, so respelling keeps their order. -/
theorem definitionsOf_respell (ix : SymbolIndex) (s : Symbol) :
    (ix.respell f).definitionsOf s = (ix.definitionsOf s).map (·.respell f) := by
  have horder : ∀ a b : Definition,
      (a.respell f).location.order (b.respell f).location = a.location.order b.location := by
    intro a b
    simp only [Location.order, compareLex, compareOn, Definition.respell, Location.respell, hf]
  have hentries : ((ix.respell f).definitions.filter fun e => e.1 == s).map (·.2)
      = ((ix.definitions.filter fun e => e.1 == s).map (·.2)).map (Definition.respell f) := by
    show ((ix.definitions.map fun e => (e.1, e.2.respell f)).filter fun e => e.1 == s).map (·.2) = _
    rw [List.filter_map, List.map_map, List.map_map]
    rfl
  rw [definitionsOf, hentries]
  exact sortBy_map (Definition.respell f) horder _

/-- A name is looked up among the definitions, in the file before it if it has one. -/
theorem findAll_respell (ix : SymbolIndex) (name : Text) :
    (ix.respell f).findAll name = (ix.findAll name).map (·.respell f) := by
  unfold findAll
  split
  · rename_i raw thread _
    have hresolve : (ix.respell f).catalog.resolve raw none = (ix.catalog.resolve raw none).map f :=
      Catalog.resolve_respell f ix.catalog raw none
    rw [hresolve]
    cases ix.catalog.resolve raw none with
    | none => rfl
    | some file =>
        -- both the file and the definitions in it are respelled, so the comparison is the same
        show List.filter _ ((ix.respell f).definitionsOf (.ofName thread)) = List.map _ _
        rw [definitionsOf_respell hf, List.filter_map]
        congr 2
        funext d
        show ((f d.location.path).same (f file) && _) = (d.location.path.same file && _)
        rw [Path.same_respell hf, Path.same_respell_right hf]
        rfl
  · exact definitionsOf_respell hf ix _

theorem isThread_respell (ix : SymbolIndex) : (ix.respell f).isThread = ix.isThread := by
  funext name
  rw [isThread, findAll_respell hf, List.any_map, isThread]
  rfl

/-- What a file includes is found by its key. -/
theorem includesOf_respell (ix : SymbolIndex) (file : Path) :
    (ix.respell f).includesOf file = (ix.includesOf file).map f := by
  unfold includesOf respell
  dsimp only
  have hsame : ((fun e : Path × List Path => e.1.same file)
      ∘ fun e : Path × List Path => (f e.1, e.2.map f)) = fun e => e.1.same file :=
    funext fun e => Path.same_respell hf e.1 file
  rw [List.find?_map, Option.map_map, hsame]
  cases ix.includes.find? fun e => e.1.same file with
  | none => rfl
  | some e => rfl

/-- Files are compared by their keys to tell how near a definition is. -/
theorem distance_respell (ix : SymbolIndex) (file : Path) (d : Definition) :
    (ix.respell f).distance file (d.respell f) = ix.distance file d := by
  have hsame : (d.respell f).location.path.same file = d.location.path.same file :=
    Path.same_respell hf d.location.path file
  have hany : ((ix.includesOf file).map f).any (·.same (d.respell f).location.path)
      = (ix.includesOf file).any (·.same d.location.path) := by
    rw [List.any_map]
    congr 1
    funext p
    show (f p).same (f d.location.path) = p.same d.location.path
    rw [Path.same_respell hf, Path.same_respell_right hf]
  rw [distance, includesOf_respell hf, hsame, hany, distance]

/-- So the nearest definition is the same one. -/
theorem findFrom?_respell (ix : SymbolIndex) (name : Text) (file : Path) :
    (ix.respell f).findFrom? name file = (ix.findFrom? name file).map (·.respell f) := by
  rw [findFrom?, findAll_respell hf, findFrom?]
  refine leastBy_map (Definition.respell f) (fun d => ?_) _
  rw [distance_respell hf]
  rfl

/-- All definitions, symbol by symbol. -/
theorem all_respell (ix : SymbolIndex) : (ix.respell f).all = ix.all.map (·.respell f) := by
  have hsymbols : (ix.respell f).definitions.map (·.1) = ix.definitions.map (·.1) := List.map_map
  rw [all, hsymbols, all, List.map_flatMap]
  exact List.flatMap_congr fun s _ => definitionsOf_respell hf ix s

end SymbolIndex

end ScriptAtlas
