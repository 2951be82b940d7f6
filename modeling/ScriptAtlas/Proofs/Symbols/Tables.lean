import ScriptAtlas.Symbols.Index
import ScriptAtlas.Proofs.Sorting
import ScriptAtlas.Proofs.Document.Ownership
import Mathlib.Data.List.Perm.Basic

/-! # Tables — definitions and defining appearances are the same places

    The symbol index keeps two tables.  Definitions are gathered from threads,
    labels and the writes to variables; appearances are gathered from the
    occurrences of a document alone, some marked as definitions.  For a plain
    name the two list the same places, each as often.  The route:

    * `Site.defined?` is the entry of a site in either table;
    * the marked occurrences of a document are the entries of its sites
      (`referencesIn_defining`);
    * its threads, labels and written variables are the entries of headers,
      labels and all other sites, so together they are the same entries in
      another order (`definitionsIn_perm`);
    * the tables select from these by symbol, and sorting keeps the entries. -/

namespace ScriptAtlas

open Text Progress

/-! ## Plain names -/

/-- A text breaks at a mark exactly when the mark stands in it. -/
theorem breakOnLast_eq_none_iff {mark : Text} (hmark : mark ≠ []) (t : Text) :
    breakOnLast mark t = none ↔ ¬ mark <:+: t := by
  induction t with
  | nil =>
      rw [breakOnLast, if_neg (by simpa using hmark), List.infix_nil]
      simp [hmark]
  | cons c cs ih =>
      rw [breakOnLast, List.infix_cons_iff]
      cases hrest : breakOnLast mark cs with
      | some parts =>
          have hin : mark <:+: cs := by
            by_contra hnot
            exact nomatch hrest.symm.trans (ih.mpr hnot)
          simp [hin]
      | none =>
          have hnot := ih.mp hrest
          by_cases hpre : mark <+: c :: cs
          · simp [hpre, List.isPrefixOf_iff_prefix]
          · simp [hpre, hnot, List.isPrefixOf_iff_prefix]

namespace Site

/-- The symbol that a site defines, and where. -/
def defined? (path : Path) (s : Site) : Option (Symbol × Location) :=
  s.symbol?.bind fun (symbol, isDefinition) =>
    if isDefinition then some (symbol, ⟨path, s.lexeme.span⟩) else none

theorem defined?_header {path : Path} {s : Site} {role : ThreadRole}
    (h : s.lexeme.kind = .threadName role) :
    s.defined? path = some (.ofName s.lexeme.text, ⟨path, s.lexeme.span⟩) := by
  rw [defined?, symbol?, h]
  rfl

theorem defined?_label {path : Path} {s : Site} (h : s.lexeme.kind = .labelDef) :
    s.defined? path = some (.ofName s.lexeme.text, ⟨path, s.lexeme.span⟩) := by
  rw [defined?, symbol?, h]
  rfl

end Site

namespace SymbolIndex

variable {t : Text} {path : Path} {i : Nat} {l : Lexeme}

/-! ## The sites behind the tables -/

/-- The symbol of a definition, and where it stands. -/
def place (entry : Symbol × Definition) : Symbol × Location := (entry.1, entry.2.location)

/-- The appearances marked as definitions are the defining sites. -/
theorem referencesIn_defining (path file : Path) (t : Text) :
    ((referencesIn path (Document.read file t)).filter (·.2.isDefinition)).map
        (fun entry => (entry.1, entry.2.location))
      = (Document.sites t).filterMap (Site.defined? path) := by
  show ((((Document.sites t).filterMap Site.occurrence?).map _).filter _).map _ = _
  rw [List.map_filterMap, ← List.filterMap_eq_filter, List.filterMap_filterMap, List.map_filterMap]
  refine List.filterMap_congr ?_
  intro s _
  rw [Site.occurrence?, Site.defined?]
  cases s.symbol? with
  | none => rfl
  | some entry =>
      obtain ⟨symbol, isDefinition⟩ := entry
      cases isDefinition <;> rfl

/-- The threads of a document are the entries of its headers. -/
theorem threads_defining (path file : Path) (t : Text) :
    ((Document.read file t).threads.map (ofThread path)).map place
      = (Document.sites t).filterMap fun s =>
          if s.lexeme.kind.isThreadName then s.defined? path else none := by
  show (((Document.sites t).filterMap (Site.thread? (Document.sites t))).map _).map _ = _
  rw [List.map_filterMap, List.map_filterMap]
  refine List.filterMap_congr ?_
  intro s hs
  cases hname : s.lexeme.kind.isThreadName with
  | true =>
      obtain ⟨role, hrole⟩ := exists_role hname
      obtain ⟨i, l, -, rfl⟩ := mem_sites.mp hs
      rw [thread?_header hrole (owner_header hrole), if_pos rfl, Site.defined?_header hrole]
      rfl
  | false =>
      rw [thread?_other hname]
      rfl

/-- The labels of a document are the entries of the sites that define labels. -/
theorem labels_defining (path file : Path) (t : Text) :
    ((Document.read file t).labels.map (ofLabel path)).map place
      = (Document.sites t).filterMap fun s =>
          if s.lexeme.kind == .labelDef then s.defined? path else none := by
  show (((Document.sites t).filterMap (Site.label? (Document.read file t).threads)).map _).map _ = _
  rw [List.map_filterMap, List.map_filterMap]
  refine List.filterMap_congr ?_
  intro s hs
  by_cases hkind : s.lexeme.kind = .labelDef
  · rw [if_pos (beq_iff_eq.mpr hkind), Site.defined?_label hkind]
    obtain ⟨i, l, hl, rfl⟩ := mem_sites.mp hs
    obtain ⟨k, thread, hlabel⟩ := label?_labelDef file hl hkind
    rw [hlabel]
    rfl
  · rw [label?_other hkind, if_neg (fun h => hkind (beq_iff_eq.mp h))]
    rfl

/-- The definitions of variables are the entries of all other sites. -/
theorem variables_defining (path file : Path) (t : Text) :
    ((Document.read file t).occurrences.filterMap (ofOccurrence? path (Document.read file t))).map
        place
      = (Document.sites t).filterMap fun s =>
          if s.lexeme.kind.isThreadName || s.lexeme.kind == .labelDef then none
          else s.defined? path := by
  show (((Document.sites t).filterMap Site.occurrence?).filterMap _).map _ = _
  rw [List.filterMap_filterMap, List.map_filterMap]
  refine List.filterMap_congr ?_
  intro s _
  rw [Site.occurrence?, Site.defined?, Site.symbol?]
  cases hkind : s.lexeme.kind with
  | property scope write =>
      -- a write outside of every thread defines nothing in either table
      dsimp only
      cases write && s.owner.isSome <;> rfl
  | _ => rfl

/-- A selection in two parts. -/
theorem filterMap_split {α β : Type} (p : α → Bool) (f : α → Option β) (xs : List α) :
    ((xs.filterMap fun a => if p a then f a else none)
      ++ xs.filterMap fun a => if p a then none else f a).Perm (xs.filterMap f) := by
  have h := (List.filter_append_perm p xs).filterMap f
  rw [List.filterMap_append, List.filterMap_filter, List.filterMap_filter] at h
  refine .trans (.of_eq (congrArg (_ ++ ·) (List.filterMap_congr ?_))) h
  intro a _
  cases p a <;> rfl

/-- The definitions of a document are the defining sites, in another order. -/
theorem definitionsIn_perm (path file : Path) (t : Text) :
    ((definitionsIn path (Document.read file t)).map place).Perm
      ((Document.sites t).filterMap (Site.defined? path)) := by
  -- what is no header, split into labels and the rest
  have hrest := filterMap_split (·.lexeme.kind == .labelDef)
    (fun s : Site => if s.lexeme.kind.isThreadName then none else s.defined? path)
    (Document.sites t)
  have hlabels (s : Site) : (if s.lexeme.kind == .labelDef then
      if s.lexeme.kind.isThreadName then none else s.defined? path else none)
        = if s.lexeme.kind == .labelDef then s.defined? path else none := by
    cases s.lexeme.kind <;> rfl
  have hvariables (s : Site) : (if s.lexeme.kind == .labelDef then none else
      if s.lexeme.kind.isThreadName then none else s.defined? path)
        = if s.lexeme.kind.isThreadName || s.lexeme.kind == .labelDef then none
          else s.defined? path := by
    cases s.lexeme.kind <;> rfl
  simp only [hlabels, hvariables] at hrest
  rw [definitionsIn, List.map_append, List.map_append, threads_defining, labels_defining,
    variables_defining, List.append_assoc]
  exact (hrest.append_left _).trans
    (filterMap_split (fun s : Site => s.lexeme.kind.isThreadName) _ _)

/-! ## The tables -/

/-- All definitions against all appearances marked as definitions. -/
theorem definitions_perm_references (root : Path) {documents : List (Path × Document)}
    (hread : ∀ entry ∈ documents, ∃ file t, entry.2 = Document.read file t) :
    ((build root documents).definitions.map place).Perm
      (((build root documents).references.filter (·.2.isDefinition)).map
        fun entry => (entry.1, entry.2.location)) := by
  show ((documents.flatMap fun entry => definitionsIn entry.1 entry.2).map _).Perm
    (((documents.flatMap fun entry => referencesIn entry.1 entry.2).filter _).map _)
  rw [List.filter_flatMap, List.map_flatMap, List.map_flatMap]
  refine List.Perm.flatMap_left _ ?_
  intro entry hentry
  obtain ⟨file, t, hd⟩ := hread entry hentry
  rw [hd, referencesIn_defining]
  exact definitionsIn_perm entry.1 file t

/-- The definitions of a symbol are where its marked appearances are. -/
theorem definitionsOf_perm (root : Path) {documents : List (Path × Document)}
    (hread : ∀ entry ∈ documents, ∃ file t, entry.2 = Document.read file t) (s : Symbol) :
    (((build root documents).definitionsOf s).map (·.location)).Perm
      ((((build root documents).references.filter (·.1 == s)).map (·.2)).filter
        (·.isDefinition) |>.map (·.location)) := by
  have htables := ((definitions_perm_references root hread).filter (·.1 == s)).map (·.2)
  rw [List.filter_map, List.filter_map, List.map_map, List.map_map, List.filter_filter] at htables
  refine ((sortBy_perm _ _).map _).trans ?_
  rw [List.map_map, List.filter_map, List.map_map, List.filter_filter]
  refine htables.trans (.of_eq ?_)
  congr 1
  refine List.filter_congr ?_
  intro entry _
  exact Bool.and_comm _ _

theorem findReferences_true (ix : SymbolIndex) (name : Text) : ix.findReferences name true
    = (ix.references.filter (·.1 == symbolOf name)).map (·.2) := by
  simp [findReferences]

/-- Appearances without definitions are those not marked. -/
theorem findReferences_false (ix : SymbolIndex) (name : Text) : ix.findReferences name false
    = (ix.findReferences name true).filter fun r => !r.isDefinition := by
  rw [findReferences_true, findReferences, List.filter_map, List.filter_filter]
  congr 1
  refine List.filter_congr ?_
  intro entry _
  exact Bool.and_comm _ _

/-- **ONE TABLE**: for a plain name, the definitions and the appearances marked as definitions are
    the same places, each as often; so the appearances with definitions are those without, and as
    many more as there are definitions. -/
theorem findAll_perm_references (root : Path) {documents : List (Path × Document)} {name : Text}
    (hread : ∀ entry ∈ documents, ∃ file t, entry.2 = Document.read file t)
    (hplain : ¬ "::".toList <:+: name) :
    (((build root documents).findAll name).map (·.location)).Perm
        ((((build root documents).findReferences name true).filter (·.isDefinition)).map
          (·.location))
      ∧ (build root documents).referenceCount name true
        = (build root documents).referenceCount name false
          + ((build root documents).findAll name).length := by
  have hbreak : breakOnLast "::".toList name = none :=
    (breakOnLast_eq_none_iff (by decide) name).mpr hplain
  have hall : (build root documents).findAll name
      = (build root documents).definitionsOf (symbolOf name) := by
    rw [findAll, symbolOf, hbreak]
  have hperm : (((build root documents).findAll name).map (·.location)).Perm
      ((((build root documents).findReferences name true).filter (·.isDefinition)).map
        (·.location)) := by
    rw [hall, findReferences_true]
    exact definitionsOf_perm root hread (symbolOf name)
  refine ⟨hperm, ?_⟩
  have hlength := hperm.length_eq
  rw [List.length_map, List.length_map] at hlength
  rw [referenceCount, referenceCount, findReferences_false, hlength, Nat.add_comm]
  exact List.length_eq_length_filter_add _

/-- A parameter and two writes in threads define the variable; the write before all threads, and the
    operand of an `end`, do not. -/
theorem one_table_of_two_scripts :
    let a : Path := ⟨['a']⟩
    let b : Path := ⟨['b']⟩
    let name : Text := "local.x".toList
    let documents : List (Path × Document) :=
      [(a, Document.read a "a local.x:\nlocal.x = local.x\nend local.x".toList),
        (b, Document.read b "local.x = 1\nb:\nlocal.x = 2".toList)]
    let ix := build ⟨[]⟩ documents
    (ix.findAll name).length = 3 ∧ ix.referenceCount name false = 3
      ∧ ((ix.findAll name).map (·.location)).Perm
          (((ix.findReferences name true).filter (·.isDefinition)).map (·.location))
      ∧ ix.referenceCount name true
          = ix.referenceCount name false + (ix.findAll name).length := by
  intro a b name documents ix
  have hplain : ¬ "::".toList <:+: name := by decide +kernel
  have hread (entry : Path × Document) (hentry : entry ∈ documents) :
      ∃ file t, entry.2 = Document.read file t := by
    rcases List.mem_cons.mp hentry with rfl | hentry
    · exact ⟨a, _, rfl⟩
    · obtain rfl := List.mem_singleton.mp hentry
      exact ⟨b, _, rfl⟩
  have htable := findAll_perm_references ⟨[]⟩ hread hplain
  exact ⟨by decide +kernel, by decide +kernel, htable⟩

end SymbolIndex

end ScriptAtlas
