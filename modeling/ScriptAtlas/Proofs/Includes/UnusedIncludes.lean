import ScriptAtlas.Proofs.Document.Sites
import ScriptAtlas.Proofs.Workspace.Consistency

/-! # Unused includes — an include that is used is never called unused

    An `#include` is called unused when the text of the script nowhere holds the
    name of a thread of the target.  The text is searched as it is, in lower case,
    comments and strings included; uses are lexemes.  The route:

    * a search finds a name where it is a part of the text (`occursIn_iff`);
    * a lexeme is a part of its row and the row of the text (`text_isInfix`), and
      lowering keeps parts;
    * hence every name that appears bare in a script is found there
      (`isInfix_of_symbol`), so a script that holds no thread of its target has no
      occurrence of one (`unused_includes_unreferenced`). -/

namespace ScriptAtlas

open Text

/-! ## Parts of a text -/

/-- A search finds what is a part of the text. -/
theorem occursIn_iff {needle t : Text} : occursIn needle t = true ↔ needle <:+: t := by
  induction t with
  | nil =>
      show needle.isEmpty = true ↔ _
      rw [List.isEmpty_iff, List.infix_nil]
  | cons c t ih =>
      show (needle.isPrefixOf (c :: t) || occursIn needle t) = true ↔ _
      rw [Bool.or_eq_true, ih, List.isPrefixOf_iff_prefix, List.infix_cons_iff]

/-- The text of a lexeme is a part of the text it is read from. -/
theorem text_isInfix {t : Text} {l : Lexeme} (hl : l ∈ (scan t).lexemes) : l.text <:+: t := by
  obtain ⟨-, row, hrow, -, htext⟩ := scan_lexemes_placed hl
  have hpart : row <:+: t := isInfix_of_mem_splitOn (List.mem_of_getElem? hrow)
  rw [htext]
  exact (List.take_prefix _ _).isInfix.trans ((List.drop_suffix _ _).isInfix.trans hpart)

/-- A bare symbol is the text of its lexeme in lower case. -/
theorem Site.lower_text_of_symbol? {s : Site} {name : Text} {isDefinition : Bool}
    (h : s.symbol? = some (.ofName name, isDefinition)) : lower s.lexeme.text = lower name := by
  rw [symbol?] at h
  cases hkind : s.lexeme.kind with
  | threadName _ | labelDef | crossRefName | word =>
      simp only [hkind, Symbol.ofName, Option.some.injEq, Prod.mk.injEq, Symbol.bare.injEq] at h
      exact h.1
  | _ => simp [hkind, Symbol.ofName, Symbol.ofVariable] at h

/-- Every name that appears bare in a script is a part of its text, up to letter case. -/
theorem isInfix_of_symbol {path : Path} {t name : Text} {o : Occurrence}
    (ho : o ∈ (Document.read path t).occurrences) (hsymbol : o.symbol = .ofName name) :
    lower name <:+: lower t := by
  obtain ⟨i, l, hl, ho⟩ := mem_filterMap_sites.mp ho
  obtain ⟨⟨symbol, isDefinition⟩, hs, rfl⟩ := Option.map_eq_some_iff.mp ho
  obtain rfl : symbol = .ofName name := hsymbol
  have hname : lower l.text = lower name := Site.lower_text_of_symbol? hs
  rw [← hname]
  exact (text_isInfix (List.mem_of_getElem? hl)).map Char.toLower

/-! ## Edges that are of no use -/

/-- An include is of no use when it is a directive, its target is tracked, and no thread of the target
    is named in the text. -/
theorem IncludeGraph.isUnused_iff {sources : List Source} {s : Source} {kind : IncludeKind}
    {target : Option Path} : isUnused sources s kind target = true
      ↔ kind = .directive ∧ ∃ p included, target = some p
        ∧ sources.find? (·.path.same p) = some included
        ∧ ∀ th ∈ included.document.threads, ¬ lower th.name <:+: lower s.text := by
  have hmentions (d : Document) : (!mentionsThread s.text d) = true
      ↔ ∀ th ∈ d.threads, ¬ lower th.name <:+: lower s.text := by
    rw [mentionsThread, Bool.not_eq_true', List.any_eq_false]
    refine forall₂_congr ?_
    intro th _
    rw [occursIn_iff]
  rw [isUnused.eq_def]
  split
  · next included hfound =>
      obtain ⟨p, rfl, hfind⟩ := Option.bind_eq_some_iff.mp hfound
      rw [hmentions]
      constructor
      · intro h
        exact ⟨rfl, p, included, rfl, hfind, h⟩
      · rintro ⟨-, q, included', hq, hfind', h⟩
        obtain rfl := Option.some.inj hq
        obtain rfl := Option.some.inj (hfind.symm.trans hfind')
        exact h
  · next hnone =>
      constructor
      · intro h
        exact absurd h Bool.false_ne_true
      · rintro ⟨rfl, p, included, rfl, hfind, -⟩
        exact absurd hfind (hnone included rfl)

namespace Workspace

variable {disk : Disk} {w : Workspace}

/-- An edge is an `#include` of a tracked script. -/
def IncludesScript (w : Workspace) (e : Edge) (target : Document) : Prop :=
  e.kind = .directive ∧ ∃ p, e.target = some p ∧ w.document? p = some target

/-- The script of the graph at a path is the tracked one. -/
theorem find?_sources (w : Workspace) (p : Path) :
    ((w.documents.map fun (q, d) => (⟨q, (w.text? q).getD [], d⟩ : Source)).find?
      (·.path.same p)).map (·.document) = w.document? p := by
  rw [List.find?_map, Option.map_map]
  rfl

/-- An edge is of no use when it includes a tracked script and the text of its source holds no name
    of a thread of that script. -/
theorem Consistent.edge_unused_iff (hw : Consistent disk w) {seen : Disk} {e : Edge}
    (he : e ∈ (w.freshGraph seen).edges) : ∃ file t, w.document? e.source = some (.read file t)
      ∧ w.text? e.source = some t
      ∧ (e.unused = true ↔ ∃ target, w.IncludesScript e target
          ∧ ∀ th ∈ target.threads, ¬ lower th.name <:+: lower t) := by
  obtain ⟨s, hs, he⟩ := List.mem_flatMap.mp he
  obtain ⟨entry, hentry, rfl⟩ := List.mem_map.mp hs
  obtain ⟨i, -, rfl⟩ := List.mem_map.mp he
  have hd : w.document? entry.1 = some entry.2 :=
    hw.document?_of_mem hentry (Path.same_iff.mpr rfl)
  obtain ⟨file, t, ht, hread⟩ := hw.exists_text?_of_document? hd
  refine ⟨file, t, hread ▸ hd, ht, ?_⟩
  show IncludeGraph.isUnused _ _ i.kind _ = true ↔ _
  rw [IncludeGraph.isUnused_iff]
  show (_ ∧ ∃ p included, _ ∧ _ ∧ ∀ th ∈ _, ¬ _ <:+: lower ((w.text? entry.1).getD [])) ↔ _
  rw [ht, Option.getD_some]
  constructor
  · rintro ⟨hkind, p, included, htarget, hfind, hnone⟩
    have htracked := (w.find?_sources p).symm.trans (congrArg (Option.map _) hfind)
    exact ⟨included.document, ⟨hkind, p, htarget, htracked⟩, hnone⟩
  · rintro ⟨target, ⟨hkind, p, htarget, htracked⟩, hnone⟩
    obtain ⟨included, hfind, rfl⟩ := Option.map_eq_some_iff.mp ((w.find?_sources p).trans htracked)
    exact ⟨hkind, p, included, htarget, hfind, hnone⟩

/-- **UNUSED INCLUDES**: an edge of the include graph is called unused exactly when it is an
    `#include` of a tracked script, and the text of its source holds no name of a thread of that
    script; and then nothing in the source bears the name of such a thread. -/
theorem unused_includes_unreferenced (settings : Settings) (root : Path) (disk : Disk)
    (ops : List Operation) (now : Disk) :
    ∀ e ∈ (((empty settings root).run disk ops).includeGraph now).edges,
      ∃ source t, ((empty settings root).run disk ops).document? e.source = some source
        ∧ ((empty settings root).run disk ops).text? e.source = some t
        ∧ (e.unused = true
          ↔ ∃ target, ((empty settings root).run disk ops).IncludesScript e target
            ∧ ∀ th ∈ target.threads, ¬ lower th.name <:+: lower t)
        ∧ (e.unused = true
          → ∃ target, ((empty settings root).run disk ops).IncludesScript e target
            ∧ ∀ th ∈ target.threads, ∀ o ∈ source.occurrences, o.symbol ≠ .ofName th.name) := by
  have hw := (Consistent.empty disk settings root).run ops
  generalize (empty settings root).run disk ops = w at hw ⊢
  intro e he
  obtain ⟨seen, -, hgraph⟩ := hw.exists_includeGraph_eq now
  rw [hgraph] at he
  obtain ⟨file, t, hsource, ht, hunused⟩ := hw.edge_unused_iff he
  refine ⟨.read file t, t, hsource, ht, hunused, ?_⟩
  intro h
  obtain ⟨target, hincludes, hnone⟩ := hunused.mp h
  refine ⟨target, hincludes, ?_⟩
  intro th hth o ho hsymbol
  exact hnone th hth (isInfix_of_symbol ho hsymbol)

/-- The first include is used in other letters, and nothing names the thread of the second. -/
theorem unused_includes_of_helper_and_spare :
    let a : Path := ⟨"/w/a.scr".toList⟩
    let b : Path := ⟨"/w/b.scr".toList⟩
    let c : Path := ⟨"/w/c.scr".toList⟩
    let t : Text := "#include \"b.scr\"\n#include \"c.scr\"\nmain:\nthread helper\nend".toList
    let spare : Text := "Spare:\nend".toList
    let e : Edge := ⟨a, "c.scr".toList, some c, .directive, ⟨⟨1, 0⟩, ⟨1, 16⟩⟩, true⟩
    let w := (empty .default ⟨"/w".toList⟩).run .empty
      [.upsert a t, .upsert b "Helper:\nend".toList, .upsert c spare]
    (w.includeGraph .empty).edges.map (·.unused) = [false, true]
      ∧ e ∈ (w.includeGraph .empty).edges ∧ w.document? a = some (.read a t)
      ∧ w.IncludesScript e (.read c spare)
      ∧ ∀ o ∈ (Document.read a t).occurrences, o.symbol ≠ .ofName "spare".toList := by
  intro a b c t spare e w
  obtain ⟨hflags, he, ha, hc, hspare⟩ : (w.includeGraph .empty).edges.map (·.unused) = [false, true]
      ∧ e ∈ (w.includeGraph .empty).edges ∧ w.document? a = some (.read a t)
      ∧ w.document? c = some (.read c spare)
      ∧ ⟨"Spare".toList, [], ⟨⟨0, 0⟩, ⟨0, 5⟩⟩, .plain, some 1⟩ ∈ (Document.read c spare).threads := by
    decide +kernel
  obtain ⟨source, _, hsource, -, -, hnone⟩ := unused_includes_unreferenced .default ⟨"/w".toList⟩
    .empty [.upsert a t, .upsert b "Helper:\nend".toList, .upsert c spare] .empty e he
  obtain rfl : source = .read a t := Option.some.inj (hsource.symm.trans ha)
  obtain ⟨target, ⟨hkind, p, hp, htarget⟩, hthreads⟩ := hnone rfl
  obtain rfl : c = p := Option.some.inj hp
  obtain rfl : .read c spare = target := Option.some.inj (hc.symm.trans htarget)
  exact ⟨hflags, he, ha, ⟨hkind, c, hp, hc⟩, hthreads _ hspare⟩

end Workspace

end ScriptAtlas
