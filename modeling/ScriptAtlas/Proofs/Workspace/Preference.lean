import ScriptAtlas.Proofs.Symbols.Definitions
import ScriptAtlas.Proofs.Workspace.History

/-! # Preference — the nearest definition is the one that is picked

    Of the definitions of a name, one is picked by kind and place, and as seen
    from a file first of all by how near its script is.  The symbol index has an
    include table of its own for that; the include graph resolves the same
    includes once more.  The route:

    * what is found under a name goes strictly by place, so the first of the
      least is the least by place as well (`isPreferred_leastBy`);
    * the include table of the index and the edges of the graph name the same
      files when the disk is not looked at (`includesOf_any_iff`,
      `edges_any_iff`), so distances are proximities (`distance_eq_proximity`). -/

namespace ScriptAtlas

/-- How near a script is to a file: it is the file itself, or an edge of the file leads there, or
    neither. -/
def IncludeGraph.proximity (g : IncludeGraph) (file script : Path) : Nat :=
  if script.same file then 0
  else if g.edges.any fun e => e.source.same file && e.target.any (·.same script) then 1
  else 2

namespace Definition

/-- The order of preference: threads, labels, parameters, variables, and each by place. -/
def order : Definition → Definition → Ordering :=
  compareLex (compareOn fun d => d.kind.rank) fun a b => a.location.order b.location

/-- The order of preference as seen from a file: the nearest scripts first. -/
def orderFrom (g : IncludeGraph) (file : Path) : Definition → Definition → Ordering :=
  compareLex (compareOn fun d => g.proximity file d.location.path) order

end Definition

/-- A choice among definitions: there is one if there are any, and it comes before all others. -/
structure IsPreferred (cmp : Definition → Definition → Ordering) (found : List Definition)
    (choice : Option Definition) : Prop where
  none_iff : choice = none ↔ found = []
  mem : ∀ d, choice = some d → d ∈ found
  least : ∀ d, choice = some d → ∀ e ∈ found, e = d ∨ cmp d e = .lt

/-- The first definition with a least key is preferred by key and place. -/
theorem isPreferred_leastBy {κ : Type} [Ord κ] [Std.TransOrd κ] {key : Definition → κ}
    {cmp : Definition → Definition → Ordering} {found : List Definition}
    (hcmp : ∀ a b, cmp a b = (compare (key a) (key b)).then (a.location.order b.location))
    (hfound : found.Pairwise fun a b => a.location.order b.location = .lt) :
    IsPreferred cmp found (leastBy key found) := by
  refine ⟨leastBy_eq_none_iff, fun d => mem_of_leastBy, ?_⟩
  intro d hd e he
  rcases leastBy_before hfound hd e he with heq | hlt | ⟨heq, hplace⟩
  · exact Or.inl heq
  · exact Or.inr (by rw [hcmp, hlt]; rfl)
  · exact Or.inr (by rw [hcmp, heq, hplace]; rfl)

theorem compare_pair (a b c d : Nat) :
    compare [a, b] [c, d] = (compare a c).then (compare b d) := by
  show List.compareLex compare [a, b] [c, d] = _
  rw [List.compareLex_cons_cons, List.compareLex_cons_cons]
  cases compare b d <;> rfl

namespace SymbolIndex

theorem mem_includesIn {catalog : Catalog} {path target : Path} {d : Document}
    (h : target ∈ includesIn catalog path d) :
    ∃ i ∈ d.includes, catalog.resolve i.rawPath (some path) = some target :=
  List.mem_filterMap.mp (List.mem_of_find?_eq_some ((mem_distinctBy_iff _ _ _).mp h))

/-- The include table of a file names the files that its includes resolve to. -/
theorem includesOf_any_iff (root : Path) {documents : PathMap Document}
    (hordered : documents.Ordered) {file script : Path} :
    ((build root documents).includesOf file).any (·.same script) = true
      ↔ ∃ entry ∈ documents, entry.1.same file = true ∧ ∃ i ∈ entry.2.includes, ∃ target,
        (build root documents).catalog.resolve i.rawPath (some entry.1) = some target
          ∧ target.same script = true := by
  have htable : (build root documents).includesOf file
      = (PathMap.get? (build root documents).includes file).getD [] := rfl
  rw [htable, List.any_eq_true]
  constructor
  · rintro ⟨target, htarget, hsame⟩
    cases hget : PathMap.get? (build root documents).includes file with
    | none =>
        rw [hget] at htarget
        exact absurd htarget List.not_mem_nil
    | some targets =>
        rw [hget] at htarget
        obtain ⟨path, hpath, hkey⟩ := PathMap.mem_of_get? hget
        obtain ⟨entry, hentry, heq⟩ := List.mem_map.mp hpath
        obtain ⟨rfl, rfl⟩ := Prod.mk.inj heq
        obtain ⟨i, hi, hresolve⟩ := mem_includesIn htarget
        exact ⟨entry, hentry, Path.same_iff.mpr hkey, i, hi, target, hresolve, hsame⟩
  · rintro ⟨entry, hentry, hfile, i, hi, target, hresolve, hsame⟩
    have hget : PathMap.get? (build root documents).includes file
        = some (includesIn (build root documents).catalog entry.1 entry.2) := by
      have hincludes : PathMap.Ordered (build root documents).includes :=
        List.pairwise_map.mpr hordered
      exact hincludes.get?_of_mem (List.mem_map_of_mem hentry) (Path.same_iff.mp hfile)
    rw [hget]
    have htarget : target ∈ entry.2.includes.filterMap fun i =>
        (build root documents).catalog.resolve i.rawPath (some entry.1) :=
      List.mem_filterMap.mpr ⟨i, hi, hresolve⟩
    -- of several spellings of the target the table keeps one
    rcases exists_mem_distinctBy_go Path.key htarget with hseen | ⟨kept, hkept, hkey⟩
    · exact absurd hseen List.not_mem_nil
    · exact ⟨kept, hkept, Path.same_iff.mpr (hkey.trans (Path.same_iff.mp hsame))⟩

end SymbolIndex

theorem Resolver.resolve_catalog (catalog : Catalog) (raw : Text) (file : Option Path) :
    Resolver.resolve ⟨catalog, none⟩ raw file = catalog.resolve raw file := by
  rw [resolve]
  cases catalog.resolve raw file <;> rfl

namespace Workspace

variable {disk : Disk} {w : Workspace}

/-- Without the disk, the edges of a file lead where its includes resolve to. -/
theorem edges_any_iff (hdisk : w.checkDisk = false) (seen : Disk) {file script : Path} :
    ((w.freshGraph seen).edges.any fun e => e.source.same file && e.target.any (·.same script))
        = true
      ↔ ∃ entry ∈ w.documents, entry.1.same file = true ∧ ∃ i ∈ entry.2.includes, ∃ target,
        w.freshIndex.catalog.resolve i.rawPath (some entry.1) = some target
          ∧ target.same script = true := by
  have hresolver (i : Include) (path : Path) :
      Resolver.resolve ⟨Catalog.ofFiles w.root ((w.documents.map fun entry =>
          Source.mk entry.1 ((w.text? entry.1).getD []) entry.2).map (·.path)), w.diskInView seen⟩
          i.rawPath (some path)
        = w.freshIndex.catalog.resolve i.rawPath (some path) := by
    rw [diskInView, hdisk, List.map_map]
    exact Resolver.resolve_catalog _ _ _
  rw [List.any_eq_true]
  constructor
  · rintro ⟨e, he, hboth⟩
    obtain ⟨hsource, htarget⟩ := Bool.and_eq_true_iff.mp hboth
    obtain ⟨s, hs, he⟩ := List.mem_flatMap.mp he
    obtain ⟨entry, hentry, rfl⟩ := List.mem_map.mp hs
    obtain ⟨i, hi, rfl⟩ := List.mem_map.mp he
    obtain ⟨target, htarget, hsame⟩ := (Option.any_eq_true _ _).mp htarget
    exact ⟨entry, hentry, hsource, i, hi, target, (hresolver i entry.1).symm.trans htarget, hsame⟩
  · rintro ⟨entry, hentry, hfile, i, hi, target, hresolve, hsame⟩
    refine ⟨_, List.mem_flatMap.mpr ⟨_, List.mem_map_of_mem hentry, List.mem_map_of_mem hi⟩, ?_⟩
    refine Bool.and_eq_true_iff.mpr ⟨hfile, (Option.any_eq_true _ _).mpr ⟨target, ?_, hsame⟩⟩
    exact (hresolver i entry.1).trans hresolve

/-- Distances in the index are proximities in the graph. -/
theorem Consistent.distance_eq_proximity (hw : Consistent disk w) (hdisk : w.checkDisk = false)
    (now : Disk) (file : Path) (d : Definition) :
    w.symbolIndex.distance file d = (w.includeGraph now).proximity file d.location.path := by
  obtain ⟨seen, -, hgraph⟩ := hw.exists_includeGraph_eq now
  have hincluded : (w.freshIndex.includesOf file).any (·.same d.location.path)
      = (w.freshGraph seen).edges.any
          fun e => e.source.same file && e.target.any (·.same d.location.path) := by
    rw [Bool.eq_iff_iff, edges_any_iff hdisk seen]
    exact SymbolIndex.includesOf_any_iff w.root hw.documents_ordered
  rw [hw.symbolIndex_eq, hgraph, SymbolIndex.distance, IncludeGraph.proximity, hincluded]

end Workspace

end ScriptAtlas
