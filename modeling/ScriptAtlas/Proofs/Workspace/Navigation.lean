import ScriptAtlas.Proofs.Document.Cursor
import ScriptAtlas.Proofs.Problem.Findings
import ScriptAtlas.Proofs.Symbols.Lookup
import ScriptAtlas.Proofs.Workspace.History

/-! # Navigation — a definition is found where none is reported missing

    The rules look at what a document lists, and going to a definition looks at
    the cursor, its line and the symbol index.  They give the same verdict on
    every name that a `goto`, a call or a cross reference goes to.  The route:

    * such a name has neither dots nor colons, so it is looked up as it stands
      (`definitionAt_word`), and a cross reference by its two parts
      (`definitionAt_crossReference`);
    * a tracked file has a document and a URI (`exists_document?`,
      `exists_place`), and without the disk only tracked files are named
      (`resolve_mem_tracked`);
    * a range belongs to one jump and to one cross reference, so a finding there
      is about that one (`jump_eq_of_span`, `crossProblem?_of_span`). -/

namespace ScriptAtlas

open Text Progress Vocabulary

/-! ## Places -/

/-- Every spelling of an absolute path has a URI. -/
theorem Uri.exists_ofPath? {p q : Path} (hq : q.isAbsolute = true) (hkey : q.key = p.key) :
    ∃ uri, Uri.ofPath? p = some uri := by
  have hroot : p.parts.head? = some .root := by
    rw [← Path.isAbsolute_iff, ← Path.isAbsolute_eq_of_key hkey]
    exact hq
  obtain ⟨rest, hparts⟩ := List.head?_eq_some_iff.mp hroot
  cases rest with
  | nil => exact ⟨_, by rw [ofPath?, hparts]⟩
  | cons part ps => exact ⟨_, by rw [ofPath?, hparts]⟩

/-! ## Findings at a range -/

section Document

variable {t : Text} {file : Path}

/-- A range belongs to one jump. -/
theorem jump_eq_of_span {keywords : List Text} {a b : Jump}
    (ha : a ∈ (Document.sites t).filterMap (Site.jump? keywords))
    (hb : b ∈ (Document.sites t).filterMap (Site.jump? keywords)) (hspan : a.span = b.span) :
    a = b := by
  obtain ⟨i, l, hl, ha⟩ := mem_filterMap_sites.mp ha
  obtain ⟨i', l', hl', hb⟩ := mem_filterMap_sites.mp hb
  obtain ⟨-, j, target, -, htarget, -, -, rfl⟩ := jump?_ofNumber hl ha
  obtain ⟨-, j', target', -, htarget', -, -, rfl⟩ := jump?_ofNumber hl' hb
  obtain ⟨rfl, rfl⟩ := lexeme_eq_of_span htarget htarget' hspan
  rfl

/-- A range belongs to one cross reference, as its path or as its name. -/
theorem crossReference_eq_of_span {a b : CrossReference}
    (ha : a ∈ (Document.read file t).crossReferences)
    (hb : b ∈ (Document.read file t).crossReferences) {span : Span}
    (hspan : span = a.pathSpan ∨ span = a.span) (hspan' : span = b.pathSpan ∨ span = b.span) :
    a = b := by
  obtain ⟨i, name, hname, ha⟩ := mem_filterMap_sites.mp ha
  obtain ⟨i', name', hname', hb⟩ := mem_filterMap_sites.mp hb
  obtain ⟨hkind, n, path, -, rfl, hpath, hpathkind, -, -, rfl⟩ := crossReference?_ofNumber hname ha
  obtain ⟨hkind', n', path', -, rfl, hpath', hpathkind', -, -, rfl⟩ :=
    crossReference?_ofNumber hname' hb
  -- a path and a name are lexemes of different kinds, so a range is not both
  rcases hspan with rfl | rfl
  · rcases hspan' with hspan | hspan
    · obtain ⟨rfl, rfl⟩ := lexeme_eq_of_span hpath hpath' hspan
      obtain rfl : name = name' := Option.some.inj (hname.symm.trans hname')
      rfl
    · obtain ⟨-, rfl⟩ := lexeme_eq_of_span hpath hname' hspan
      exact nomatch hpathkind.symm.trans hkind'
  · rcases hspan' with hspan | hspan
    · obtain ⟨-, rfl⟩ := lexeme_eq_of_span hname hpath' hspan
      exact nomatch hkind.symm.trans hpathkind'
    · obtain ⟨hn, rfl⟩ := lexeme_eq_of_span hname hname' hspan
      obtain rfl : n = n' := Nat.add_right_cancel hn
      obtain rfl : path = path' := Option.some.inj (hpath.symm.trans hpath')
      rfl

/-- Calls stand at words, which are neither paths nor names of cross references. -/
theorem call_span_ne {c : Jump} (hc : c ∈ (Document.read file t).calls) {r : CrossReference}
    (hr : r ∈ (Document.read file t).crossReferences) :
    c.span ≠ r.pathSpan ∧ c.span ≠ r.span := by
  obtain ⟨i, l, hl, hc⟩ := mem_filterMap_sites.mp hc
  obtain ⟨j, name, hname, hr⟩ := mem_filterMap_sites.mp hr
  obtain ⟨-, _, target, -, htarget, hword, -, rfl⟩ := jump?_ofNumber hl hc
  obtain ⟨hkind, n, path, -, -, hpath, hpathkind, -, -, rfl⟩ := crossReference?_ofNumber hname hr
  constructor
  · intro hspan
    obtain ⟨-, rfl⟩ := lexeme_eq_of_span htarget hpath hspan
    exact nomatch hword.symm.trans hpathkind
  · intro hspan
    obtain ⟨-, rfl⟩ := lexeme_eq_of_span htarget hname hspan
    exact nomatch hword.symm.trans hkind

theorem View.span_of_crossProblem? {v : View} {r : CrossReference} {f : Finding}
    (h : v.crossProblem? r = some f) : f.span = r.pathSpan ∨ f.span = r.span := by
  rcases of_crossProblem? h with rfl | rfl
  · exact Or.inl rfl
  · exact Or.inr rfl

/-- What is found at the path or the name of a cross reference is wrong with that reference. -/
theorem View.crossProblem?_of_span {v : View} (hd : v.document = Document.read file t)
    {r : CrossReference} (hr : r ∈ v.document.crossReferences) {f : Finding}
    (hf : f ∈ v.findings .undefinedThread) (hspan : f.span = r.pathSpan ∨ f.span = r.span) :
    v.crossProblem? r = some f := by
  rw [hd] at hr
  rcases List.mem_append.mp hf with hcall | hcross
  · obtain ⟨c, hc, rfl⟩ := List.mem_map.mp hcall
    obtain ⟨hpath, hname⟩ := call_span_ne (hd ▸ (List.mem_filter.mp hc).1) hr
    exact absurd hspan (not_or.mpr ⟨hpath, hname⟩)
  · obtain ⟨r', hr', hproblem⟩ := List.mem_filterMap.mp hcross
    obtain rfl := crossReference_eq_of_span hr (hd ▸ hr') hspan (span_of_crossProblem? hproblem)
    exact hproblem

/-- A call of which nothing is reported goes to a thread, or to a label of its script. -/
theorem View.isThread_or_hasLabel {v : View} {c : Jump} (hc : c ∈ v.document.calls)
    (hunreported : ∀ f ∈ v.findings .undefinedThread, f.span ≠ c.span) :
    v.index.isThread c.name = true ∨ v.document.hasLabel c.name = true := by
  by_contra hnot
  rw [not_or, Bool.not_eq_true, Bool.not_eq_true] at hnot
  refine hunreported ⟨.undefinedThread c.name, c.span⟩ (List.mem_append_left _ ?_) rfl
  refine List.mem_map.mpr ⟨c, List.mem_filter.mpr ⟨hc, ?_⟩, rfl⟩
  rw [hnot.1, hnot.2]
  rfl

/-- The first of the labels that a thread has under a name. -/
theorem Document.findLabel_eq (d : Document) (k : Nat) (name : Text) : d.findLabel k name
    = (d.labels.filter fun label => label.owner == k && sameName label.name name).head? := by
  rw [findLabel, labelsOf, List.head?_filter, List.find?_filter]
  simp only [Bool.decide_and, Bool.decide_eq_true]

theorem View.gotoProblem?_eq_none_iff {v : View} {g : Jump} {k : Nat} (howner : g.owner = some k)
    (hthread : k < v.document.threads.length) :
    v.gotoProblem? g = none ↔ v.document.findLabel k g.name ≠ none := by
  rw [gotoProblem?, howner]
  simp [List.getElem?_eq_getElem hthread]

/-- A `goto` in a thread is reported exactly when the thread has no such label. -/
theorem View.undefinedLabel_reported_iff {v : View} (hd : v.document = Document.read file t)
    {g : Jump} (hg : g ∈ v.document.gotos) {k : Nat} (howner : g.owner = some k) :
    (∃ f ∈ v.findings .undefinedLabel, f.span = g.span) ↔ v.document.findLabel k g.name = none := by
  have hthread : k < v.document.threads.length := by
    rw [hd] at hg ⊢
    obtain ⟨i, l, hl, hjump⟩ := mem_filterMap_sites.mp hg
    obtain ⟨-, j, target, -, htarget, -, -, rfl⟩ := jump?_ofNumber hl hjump
    exact owner_lt_length file htarget howner
  have hproblem := gotoProblem?_eq_none_iff howner hthread
  constructor
  · rintro ⟨f, hf, hspan⟩
    obtain ⟨g', hg', hfound⟩ := List.mem_filterMap.mp hf
    obtain ⟨_, rfl⟩ := of_gotoProblem? hfound
    rw [hd] at hg hg'
    obtain rfl := jump_eq_of_span hg' hg hspan
    by_contra hlabel
    exact nomatch hfound.symm.trans (hproblem.mpr hlabel)
  · intro hnone
    cases hfound : v.gotoProblem? g with
    | none => exact absurd hnone (hproblem.mp hfound)
    | some f =>
        obtain ⟨_, rfl⟩ := of_gotoProblem? hfound
        exact ⟨_, List.mem_filterMap.mpr ⟨g, hg, hfound⟩, rfl⟩

end Document

namespace Workspace

section Tracked

variable {w : Workspace} {disk : Disk} {path : Path}

theorem exists_document? (h : path ∈ w.tracked) : ∃ d, w.document? path = some d := by
  obtain ⟨entry, hentry, rfl⟩ := List.mem_map.mp h
  have hsome : (w.documents.find? (·.1.same entry.1)).isSome = true :=
    List.find?_isSome.mpr ⟨entry, hentry, Path.same_iff.mpr rfl⟩
  obtain ⟨found, hfound⟩ := Option.isSome_iff_exists.mp hsome
  exact ⟨found.2, Option.map_eq_some_iff.mpr ⟨found, hfound, rfl⟩⟩

/-- Every range of a tracked file has a place, however its path is spelled. -/
theorem exists_place (habsolute : ∀ p ∈ w.tracked, p.isAbsolute = true) {d : Document}
    (hd : w.document? path = some d) (span : Span) :
    ∃ uri, Uri.ofPath? path = some uri ∧ Place.of? path span = some ⟨uri, span⟩ := by
  obtain ⟨q, hmem, hkey⟩ := PathMap.mem_of_get? hd
  obtain ⟨uri, huri⟩ := Uri.exists_ofPath? (habsolute q (List.mem_map.mpr ⟨_, hmem, rfl⟩)) hkey
  refine ⟨uri, huri, ?_⟩
  rw [Place.of?, huri]
  rfl

/-- Without the disk, only tracked files are named. -/
theorem resolve_mem_tracked (hw : Consistent disk w) (hdisk : w.checkDisk = false) {raw : Text}
    {file : Option Path} {target : Path} (h : w.resolve disk raw file = some target) :
    target ∈ w.tracked := by
  have hcatalog : w.symbolIndex.catalog.resolve raw file = some target := by
    rw [resolve, diskInView, hdisk, Resolver.resolve] at h
    split at h
    · rename_i found hfound
      rw [hfound, h]
    · exact absurd h.symm (Option.some_ne_none target)
  rw [hw.symbolIndex_eq] at hcatalog
  exact Catalog.mem_of_resolve hcatalog

/-- The definitions of a symbol stand in tracked files. -/
theorem location_mem_tracked (hw : Consistent disk w) {s : Symbol} {definition : Definition}
    (h : definition ∈ w.symbolIndex.definitionsOf s) : definition.location.path ∈ w.tracked := by
  rw [hw.symbolIndex_eq, SymbolIndex.mem_definitionsOf] at h
  obtain ⟨entry, hentry, hdefinition⟩ := List.mem_flatMap.mp h
  rw [SymbolIndex.path_of_mem_definitionsIn hdefinition]
  exact List.mem_map.mpr ⟨entry, hentry, rfl⟩

/-- A label of a tracked script is among the definitions of its name. -/
theorem label_mem_definitionsOf (hw : Consistent disk w) {d : Document}
    (hd : w.document? path = some d) {label : Label} (hlabel : label ∈ d.labels) :
    ∃ definition, definition ∈ w.symbolIndex.definitionsOf (.ofName label.name) := by
  obtain ⟨q, hmem, -⟩ := PathMap.mem_of_get? hd
  refine ⟨(SymbolIndex.ofLabel q label).2, ?_⟩
  rw [hw.symbolIndex_eq, SymbolIndex.mem_definitionsOf]
  refine List.mem_flatMap.mpr ⟨(q, d), hmem, ?_⟩
  exact List.mem_append_left _ (List.mem_append_right _ (List.mem_map_of_mem hlabel))

end Tracked

/-! ## The name under the cursor -/

section Cursor

variable {w : Workspace} {disk : Disk} {path file : Path} {t : Text} {cursor : Position}

/-- A word under the cursor goes to a label of its thread, and else to the preferred definition. -/
theorem definitionAt_word (hd : w.document? path = some (Document.read file t)) {i : Nat}
    {l : Lexeme} (h : IsNameAt t i l cursor) (hword : l.kind = .word) :
    w.definitionAt disk path cursor
      = match ((Document.read file t).threadIndexAt l.line).bind fun index =>
          (Document.read file t).findLabel index l.text with
        | some label => (Place.of? path label.span).map ([·])
        | none => (w.symbolIndex.findFrom? l.text path).bind fun definition =>
            (Place.of? definition.location.path definition.location.span).map ([·]) := by
  have hplain := isPlainName_of_identifier (isIdentifierChar_of_mem_wordText h.lexeme hword)
  have htext : (Document.read file t).symbolText i l = some l.text := by
    rw [Document.symbolText, hword]
  have hlocal : isLocalName l.text = false := by
    rw [isLocalName, breakOn_eq_none hplain.1]
  rw [h.definitionAt_eq hd, htext]
  show w.symbolDefinition? disk path _ _ _ = _
  rw [symbolDefinition?, hplain.breakOnLast_eq, hlocal]
  rfl

/-- A cross reference under the cursor goes to its thread in the script that its path names. -/
theorem definitionAt_crossReference (hd : w.document? path = some (Document.read file t))
    {r : CrossReference} (hr : r ∈ (Document.read file t).crossReferences)
    (hcovers : r.span.covers cursor = true) :
    w.definitionAt disk path cursor = w.crossDefinition? disk path r.rawPath r.name := by
  obtain ⟨n, raw, name, h, hraw, hkind, hrawPath, hname⟩ := isNameAt_crossReference hr hcovers
  have hplain := isPlainName_of_identifier (crossRefName_after_path h.lexeme hkind).1
  have htext : (Document.read file t).symbolText (n + 2) name
      = some (raw.text ++ ':' :: ':' :: name.text) := by
    rw [Document.symbolText, hkind]
    show (if n + 2 < 2 then none else (scan t).lexemes[n]?.map _) = _
    rw [if_neg (by omega), hraw]
    rfl
  rw [h.definitionAt_eq hd, htext]
  show w.symbolDefinition? disk path _ _ _ = _
  rw [symbolDefinition?, breakOnLast_colons hplain.2, hrawPath, hname]

/-- A `goto` under the cursor goes to the label of its thread. -/
theorem definitionAt_goto (habsolute : ∀ p ∈ w.tracked, p.isAbsolute = true)
    (hd : w.document? path = some (Document.read file t)) {g : Jump}
    (hg : g ∈ (Document.read file t).gotos) {k : Nat} (howner : g.owner = some k) {label : Label}
    (hlabel : (Document.read file t).findLabel k g.name = some label)
    (hcovers : g.span.covers cursor = true) :
    ∃ uri, Uri.ofPath? path = some uri
      ∧ w.definitionAt disk path cursor = some [⟨uri, label.span⟩] := by
  obtain ⟨j, target, h, hword, rfl⟩ := isNameAt_jump hg hcovers
  obtain ⟨uri, huri, hplace⟩ := exists_place habsolute hd label.span
  refine ⟨uri, huri, ?_⟩
  have hindex := threadIndexAt_of_owner file h.lexeme howner
  rw [definitionAt_word hd h hword, hindex, Option.bind_some, hlabel]
  show (Place.of? path label.span).map _ = _
  rw [hplace]
  rfl

end Cursor

/-! ## Cross references and calls -/

section Agreement

variable {w : Workspace} {disk : Disk} {rules : Settings} {path : Path} {v : View}
  {cursor : Position}

theorem isSome_spanOf? (d : Document) (name : Text) :
    (spanOf? d name).isSome = (d.hasThread name || d.hasLabel name) := by
  rw [spanOf?, Document.hasThread, Document.hasLabel, ← List.isSome_find?, ← List.isSome_find?]
  cases d.threads.find? fun th => sameName th.name name with
  | some th => rfl
  | none => cases d.labels.find? fun label => sameName label.name name <;> rfl

/-- A cross reference has its definition exactly when nothing is wrong with it. -/
theorem crossDefinition?_iff (hw : Consistent disk w) (hdisk : w.checkDisk = false)
    (habsolute : ∀ p ∈ w.tracked, p.isAbsolute = true) (hv : w.view? disk rules path = some v)
    (r : CrossReference) : (∃ place, w.crossDefinition? disk path r.rawPath r.name = some [place])
      ↔ v.crossProblem? r = none := by
  obtain ⟨document, -, rfl⟩ := Option.map_eq_some_iff.mp hv
  -- a view looks into the workspace with its index kept, which resolves and tracks the same
  have hkept : w.keepIndex.resolve disk r.rawPath (some path)
    = w.resolve disk r.rawPath (some path) := rfl
  have htracked (target : Path) : w.keepIndex.document? target = w.document? target := rfl
  simp only [View.crossProblem?, crossDefinition?, hkept, htracked]
  cases hresolve : w.resolve disk r.rawPath (some path) with
  | none => simp
  | some target =>
      obtain ⟨d, hd⟩ := exists_document? (resolve_mem_tracked hw hdisk hresolve)
      have hdefines := isSome_spanOf? d r.name
      cases hspan : spanOf? d r.name with
      | none =>
          rw [hspan] at hdefines
          simp only [hd, Option.bind_some, ← hdefines]
          simp [hd, hspan]
      | some span =>
          obtain ⟨uri, -, hplace⟩ := exists_place habsolute hd span
          rw [hspan] at hdefines
          simp only [hd, Option.bind_some, ← hdefines]
          simp [hd, hspan, hplace]

/-- A name that goes to a thread, or to a label of the script, is in the symbol index. -/
theorem findAll_ne_nil (hw : Consistent disk w) {d : Document} (hd : w.document? path = some d)
    {name : Text} (hplain : IsPlainName name)
    (h : w.symbolIndex.isThread name = true ∨ d.hasLabel name = true) :
    w.symbolIndex.findAll name ≠ [] := by
  rcases h with hthread | hlabel
  · obtain ⟨definition, hmem, -⟩ := List.any_eq_true.mp hthread
    exact List.ne_nil_of_mem hmem
  · obtain ⟨label, hmem, hname⟩ := List.any_eq_true.mp hlabel
    obtain ⟨definition, hdefinition⟩ := label_mem_definitionsOf hw hd hmem
    have hsymbol : Symbol.ofName label.name = .ofName name :=
      congrArg Symbol.bare (beq_iff_eq.mp hname)
    rw [hplain.findAll_eq, ← hsymbol]
    exact List.ne_nil_of_mem hdefinition

/-- A call of which nothing is reported has its definition. -/
theorem definitionAt_call (hw : Consistent disk w)
    (habsolute : ∀ p ∈ w.tracked, p.isAbsolute = true) (hv : w.view? disk rules path = some v)
    {c : Jump} (hc : c ∈ v.document.calls)
    (hunreported : ∀ f ∈ v.findings .undefinedThread, f.span ≠ c.span)
    (hcovers : c.span.covers cursor = true) :
    ∃ place, w.definitionAt disk path cursor = some [place] := by
  obtain ⟨hd, -, hindex⟩ := view?_spec hv
  have hdefined := View.isThread_or_hasLabel hc hunreported
  obtain ⟨file, t, hread⟩ := hw.exists_read_of_document? hd
  rw [hindex] at hdefined
  rw [hread] at hc hd hdefined
  obtain ⟨j, target, h, hword, rfl⟩ := isNameAt_jump hc hcovers
  rw [definitionAt_word hd h hword]
  -- the thread may have such a label; without one the index is asked, and it has the name
  split
  · rename_i label _
    obtain ⟨uri, -, hplace⟩ := exists_place habsolute hd label.span
    exact ⟨⟨uri, label.span⟩, by rw [hplace]; rfl⟩
  · have hplain := isPlainName_of_identifier (isIdentifierChar_of_mem_wordText h.lexeme hword)
    obtain ⟨definition, hmem, hleast⟩ := exists_mem_leastBy
      (fun d => [w.symbolIndex.distance path d, d.kind.rank]) (findAll_ne_nil hw hd hplain hdefined)
    rw [hplain.findAll_eq] at hmem
    obtain ⟨d, hd'⟩ := exists_document? (location_mem_tracked hw hmem)
    obtain ⟨uri, -, hplace⟩ := exists_place habsolute hd' definition.location.span
    refine ⟨⟨uri, definition.location.span⟩, ?_⟩
    rw [SymbolIndex.findFrom?, hleast, Option.bind_some, hplace]
    rfl

end Agreement

/-- **NAVIGATION AGREES WITH DIAGNOSTICS**: where tracked paths are absolute and the disk is not
    looked at, a `goto` in a thread is reported exactly when the thread has no such label, and else
    the cursor on it goes to the first one; the cursor on the name of a cross reference goes
    somewhere exactly when neither its path nor its name is reported; and the cursor on a call goes
    somewhere unless the call is reported. -/
theorem navigation_agrees_with_findings (settings : Settings) (root : Path) (disk : Disk)
    (ops : List Operation) (hdisk : settings.checkDisk = false)
    (habsolute : ∀ p ∈ ((empty settings root).run disk ops).tracked, p.isAbsolute = true)
    {rules : Settings} {path : Path} {v : View}
    (hv : ((empty settings root).run disk ops).view? disk rules path = some v) :
    (∀ g ∈ v.document.gotos, ∀ k, g.owner = some k →
        ((∃ f ∈ v.findings .undefinedLabel, f.span = g.span)
          ↔ ∀ label ∈ v.document.labels, label.owner = k → sameName label.name g.name = false)
        ∧ ∀ label, (v.document.labels.filter fun l => l.owner == k && sameName l.name g.name).head?
            = some label → ∀ cursor, g.span.covers cursor = true →
          ∃ uri, Uri.ofPath? path = some uri
            ∧ ((empty settings root).run disk ops).definitionAt disk path cursor
              = some [⟨uri, label.span⟩])
      ∧ (∀ r ∈ v.document.crossReferences, ∀ cursor, r.span.covers cursor = true →
          ((∃ place, ((empty settings root).run disk ops).definitionAt disk path cursor
              = some [place])
            ↔ ∀ f ∈ v.findings .undefinedThread, f.span ≠ r.pathSpan ∧ f.span ≠ r.span))
      ∧ ∀ c ∈ v.document.calls, (∀ f ∈ v.findings .undefinedThread, f.span ≠ c.span) →
          ∀ cursor, c.span.covers cursor = true →
          ∃ place, ((empty settings root).run disk ops).definitionAt disk path cursor
            = some [place] := by
  have hw := (Consistent.empty disk settings root).run ops
  have hcheck := (run_frame disk (empty settings root) ops).2.1.trans hdisk
  obtain ⟨hd, -, -⟩ := view?_spec hv
  obtain ⟨file, t, hread⟩ := hw.exists_read_of_document? hd
  refine ⟨?gotos, ?crossReferences, ?calls⟩
  case gotos =>
    intro g hg k howner
    rw [View.undefinedLabel_reported_iff hread hg howner, Document.findLabel_eq]
    constructor
    · simp
    · intro label hfirst cursor hcovers
      rw [← Document.findLabel_eq] at hfirst
      rw [hread] at hg hd hfirst
      exact definitionAt_goto habsolute hd hg howner hfirst hcovers
  case crossReferences =>
    intro r hr cursor hcovers
    -- a definition is found exactly when the rule has no problem with the reference itself
    rw [definitionAt_crossReference (hread ▸ hd) (hread ▸ hr) hcovers,
      crossDefinition?_iff hw hcheck habsolute hv]
    constructor
    · intro hnone f hf
      rw [← not_or]
      intro hspan
      exact nomatch hnone.symm.trans (View.crossProblem?_of_span hread hr hf hspan)
    · intro hunreported
      cases hproblem : v.crossProblem? r with
      | none => rfl
      | some f =>
          have hf : f ∈ v.findings .undefinedThread :=
            List.mem_append_right _ (List.mem_filterMap.mpr ⟨r, hr, hproblem⟩)
          exact absurd (View.span_of_crossProblem? hproblem) (not_or.mpr (hunreported f hf))
  case calls =>
    intro c hc hunreported cursor hcovers
    exact definitionAt_call hw habsolute hv hc hunreported hcovers

/-- The cursor stands right before each name, where it also touches the colons of the references.
    The second reference is reported, all else has its definition. -/
theorem navigation_of_two_scripts :
    let a : Path := ⟨"/w/a.scr".toList⟩
    let b : Path := ⟨"/w/b.scr".toList⟩
    let t : Text :=
      "main:\nx:\ngoto X\nthread b.scr::f\nthread b.scr::g\nthread main\nend".toList
    let w := (empty { Settings.default with checkDisk := false } ⟨"/w".toList⟩).run .empty
      [.upsert a t, .upsert b "f:\nend".toList]
    (∀ p ∈ w.tracked, p.isAbsolute = true) ∧ w.document? a = some (Document.read a t)
      ∧ (∃ uri, Uri.ofPath? a = some uri
          ∧ w.definitionAt .empty a ⟨2, 5⟩ = some [⟨uri, .onLine 1 0 1⟩])
      ∧ (∃ place, w.definitionAt .empty a ⟨3, 14⟩ = some [place])
      ∧ (¬ ∃ place, w.definitionAt .empty a ⟨4, 14⟩ = some [place])
      ∧ ∃ place, w.definitionAt .empty a ⟨5, 7⟩ = some [place] := by
  intro a b t w
  have habsolute : ∀ p ∈ w.tracked, p.isAbsolute = true := by decide +kernel
  have hd : w.document? a = some (Document.read a t) := by decide +kernel
  obtain ⟨v, hv⟩ : ∃ v, w.view? .empty .default a = some v :=
    ⟨_, Option.map_eq_some_iff.mpr ⟨_, hd, rfl⟩⟩
  have hdocument : v.document = Document.read a t :=
    Option.some.inj ((view?_spec hv).1.symm.trans hd)
  have hfindings : v.findings .undefinedThread
      = [⟨.threadNotIn ['g'] "b.scr".toList, .onLine 4 14 15⟩] := by
    have hmap : (w.view? .empty .default a).map (·.findings .undefinedThread)
        = some [⟨.threadNotIn ['g'] "b.scr".toList, .onLine 4 14 15⟩] := by decide +kernel
    rw [hv] at hmap
    exact Option.some.inj hmap
  obtain ⟨hgotos, hreferences, hcalls⟩ :=
    navigation_agrees_with_findings _ ⟨"/w".toList⟩ .empty _ rfl habsolute hv
  rw [hdocument, hfindings] at hreferences hcalls
  rw [hdocument] at hgotos
  refine ⟨habsolute, hd, ?_, ?_, ?_, ?_⟩
  · exact (hgotos ⟨['X'], some 0, .onLine 2 5 6⟩ (by decide +kernel) 0 rfl).2
      ⟨['x'], 0, "main".toList, .onLine 1 0 1⟩ (by decide +kernel) ⟨2, 5⟩ (by decide)
  · exact (hreferences ⟨"b.scr".toList, ['f'], some 0, .onLine 3 14 15, .onLine 3 7 12⟩
      (by decide +kernel) ⟨3, 14⟩ (by decide)).mpr (by decide)
  · intro hplace
    have hunreported := (hreferences
      ⟨"b.scr".toList, ['g'], some 0, .onLine 4 14 15, .onLine 4 7 12⟩ (by decide +kernel) ⟨4, 14⟩
      (by decide)).mp hplace
    exact (hunreported _ List.mem_cons_self).2 rfl
  · exact hcalls ⟨"main".toList, some 0, .onLine 5 7 11⟩ (by decide +kernel) (by decide) ⟨5, 7⟩
      (by decide)

end Workspace

end ScriptAtlas
