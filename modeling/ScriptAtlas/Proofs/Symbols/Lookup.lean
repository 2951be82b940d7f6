import ScriptAtlas.Proofs.Path.Respelling
import ScriptAtlas.Proofs.PathMap
import ScriptAtlas.Proofs.Symbols.Tables

/-! # Lookup — the threads behind a name

    A name without dots and colons is looked up as it stands, and among what is
    found the threads are those that the scripts list under the name, in any
    letter case.  The route:

    * such a name stands for itself (`IsPlainName.findAll_eq`), and the name of a
      thread is one (`isPlainName_of_mem_threads`);
    * the threads of scripts in path order are listed by path, then by line
      (`threadsOf_pairwise`), which is the order of locations;
    * so leaving out all but the threads of the index leaves the threads of the
      scripts, and sorting does not move them (`findAll_threads`). -/

namespace ScriptAtlas

open Text Vocabulary Progress

/-! ## Names -/

theorem breakOn_eq_none {c : Char} {t : Text} (h : c ∉ t) : breakOn [c] t = none := by
  induction t with
  | nil => rfl
  | cons a t ih =>
      rw [List.mem_cons, not_or] at h
      rw [breakOn, if_neg (by simp [h.1]), ih h.2]
      rfl

/-- After the last colons stands what has no colon. -/
theorem breakOnLast_colons {b : Text} (h : ':' ∉ b) (a : Text) :
    breakOnLast "::".toList (a ++ ':' :: ':' :: b) = some (a, b) := by
  have hcolons : "::".toList = [':', ':'] := rfl
  rw [hcolons]
  induction a with
  | nil =>
      have hnone : breakOnLast [':', ':'] (':' :: b) = none := by
        rw [breakOnLast_eq_none_iff (by decide)]
        intro hstands
        rcases List.infix_cons_iff.mp hstands with hpre | hin
        · exact h ((List.cons_prefix_cons.mp hpre).2.subset List.mem_cons_self)
        · exact h (hin.subset List.mem_cons_self)
      rw [List.nil_append, breakOnLast, hnone]
      rfl
  | cons c a ih => rw [List.cons_append, breakOnLast, ih]

/-- Whether a name is looked up as it stands: it has neither dots nor colons. -/
def IsPlainName (name : Text) : Prop := '.' ∉ name ∧ ':' ∉ name

theorem isPlainName_of_identifier {name : Text} (h : ∀ a ∈ name, isIdentifierChar a = true) :
    IsPlainName name := by
  constructor
  · intro hdot
    exact nomatch h '.' hdot
  · intro hcolon
    exact nomatch h ':' hcolon

theorem IsPlainName.breakOnLast_eq {name : Text} (h : IsPlainName name) :
    breakOnLast "::".toList name = none := by
  rw [breakOnLast_eq_none_iff (by decide)]
  intro hstands
  exact h.2 (hstands.subset (by decide))

theorem IsPlainName.findAll_eq {name : Text} (h : IsPlainName name) (ix : SymbolIndex) :
    ix.findAll name = ix.definitionsOf (.ofName name) := by
  rw [SymbolIndex.findAll, h.breakOnLast_eq, Symbol.ofText, breakOn_eq_none h.1]

theorem IsPlainName.symbolOf_eq {name : Text} (h : IsPlainName name) :
    SymbolIndex.symbolOf name = .ofName name := by
  rw [SymbolIndex.symbolOf, h.breakOnLast_eq, Symbol.ofText, breakOn_eq_none h.1]

/-- Of a path and a name, the name counts. -/
theorem SymbolIndex.symbolOf_cross {name : Text} (h : IsPlainName name) (raw : Text) :
    symbolOf (raw ++ ':' :: ':' :: name) = .ofName name := by
  rw [symbolOf, breakOnLast_colons h.2]

/-- Before the first of a character stands what does not have it. -/
theorem breakOn_append_cons {c : Char} {a : Text} (h : c ∉ a) (b : Text) :
    breakOn [c] (a ++ c :: b) = some (a, b) := by
  induction a with
  | nil => rw [List.nil_append, breakOn, if_pos (by simp)]; rfl
  | cons d a ih =>
      rw [List.mem_cons, not_or] at h
      rw [List.cons_append, breakOn, if_neg (by simp [h.1]), ih h.2]
      rfl

theorem Scope.lower_of_ofWord? {word : Text} {scope : Scope} (h : Scope.ofWord? word = some scope) :
    lower word = scope.word := by
  have hfound := List.find?_some h
  exact (beq_iff_eq.mp hfound).symm

theorem Scope.ofWord?_of_lower {word : Text} {scope : Scope} (h : lower word = scope.word) :
    ofWord? word = some scope := by
  rw [ofWord?, h]
  cases scope <;> decide

theorem Scope.ofWord?_word (scope : Scope) : ofWord? scope.word = some scope := by
  cases scope <;> decide

theorem Scope.qualify_inj {s s' : Scope} {a b : Text} : s.qualify a = s'.qualify b
    ↔ s = s' ∧ a = b := by
  -- the word ends at the first dot, and it tells which scope it is
  have hword (s : Scope) (a : Text) : (s.qualify a).takeWhile (· != '.') = s.word := by
    cases s <;> rfl
  constructor
  · intro h
    have hwords : s.word = s'.word := by rw [← hword s a, h, hword]
    obtain rfl : s = s' :=
      Option.some.inj ((ofWord?_word s).symm.trans (hwords ▸ ofWord?_word s'))
    exact ⟨rfl, List.tail_eq_of_cons_eq (List.append_cancel_left h)⟩
  · rintro ⟨rfl, rfl⟩
    rfl

/-- A scope is written without dots and colons. -/
theorem isPlainName_of_ofWord? {word : Text} {scope : Scope} (h : Scope.ofWord? word = some scope) :
    IsPlainName word := by
  have hwords : ∀ s : Scope, '.' ∉ s.word ∧ ':' ∉ s.word := by
    intro s
    cases s <;> decide
  have hlower := Scope.lower_of_ofWord? h
  obtain ⟨hdot, hcolon⟩ := hwords scope
  constructor
  · intro hmem
    exact hdot (hlower ▸ List.mem_map.mpr ⟨'.', hmem, rfl⟩)
  · intro hmem
    exact hcolon (hlower ▸ List.mem_map.mpr ⟨':', hmem, rfl⟩)

/-- A scope, a dot and a name without double colons have none. -/
theorem breakOnLast_qualified {word name : Text} {scope : Scope}
    (hword : Scope.ofWord? word = some scope) (hname : ¬ "::".toList <:+: name) :
    breakOnLast "::".toList (word ++ '.' :: name) = none := by
  rw [breakOnLast_eq_none_iff (by decide)]
  have hcolon := (isPlainName_of_ofWord? hword).2
  have hcolons : "::".toList = [':', ':'] := rfl
  rw [hcolons] at hname ⊢
  clear hword
  induction word with
  | nil =>
      intro hin
      rcases List.infix_cons_iff.mp hin with hpre | hin
      · exact absurd (List.cons_prefix_cons.mp hpre).1 (by decide)
      · exact hname hin
  | cons c word ih =>
      rw [List.mem_cons, not_or] at hcolon
      intro hin
      rcases List.infix_cons_iff.mp hin with hpre | hin
      · exact hcolon.1 (List.cons_prefix_cons.mp hpre).1
      · exact ih hcolon.2 hin

/-- A scope in any letter case, a dot and a name stand for the variable. -/
theorem Symbol.ofText_qualified {word name : Text} {scope : Scope}
    (hword : Scope.ofWord? word = some scope) (hname : name ≠ []) :
    Symbol.ofText (word ++ '.' :: name) = .ofVariable scope name := by
  rw [Symbol.ofText, breakOn_append_cons (isPlainName_of_ofWord? hword).1]
  dsimp only
  rw [hword]
  dsimp only
  rw [if_neg (by simpa using hname)]

/-- A variable that is written out stands for itself. -/
theorem SymbolIndex.symbolOf_qualify {name : Text} (hplain : IsPlainName name) (hname : name ≠ [])
    (scope : Scope) : symbolOf (scope.qualify name) = .ofVariable scope name := by
  have hcolons : ¬ "::".toList <:+: name := fun h => hplain.2 (h.subset (by decide))
  rw [symbolOf, Scope.qualify, breakOnLast_qualified scope.ofWord?_word hcolons]
  exact Symbol.ofText_qualified scope.ofWord?_word hname

/-- The names in headers are plain. -/
theorem isPlainName_of_mem_threads {file : Path} {t : Text} {thread : Thread}
    (h : thread ∈ (Document.read file t).threads) : IsPlainName thread.name := by
  obtain ⟨k, hk⟩ := List.mem_iff_getElem?.mp h
  obtain ⟨i, l, hheader, hname, -⟩ := threads_spec hk
  obtain ⟨role, hrole⟩ := exists_role hheader.kind
  rw [hname]
  exact isPlainName_of_identifier (isIdentifierChar_of_mem_headerText hheader.lexeme hrole)

/-- Names that are the same have the same symbol. -/
theorem Symbol.ofName_beq (a b : Text) : (Symbol.ofName a == .ofName b) = sameName a b := by
  rw [Bool.eq_iff_iff, beq_iff_eq, sameName, beq_iff_eq]
  exact Symbol.bare.injEq _ _ ▸ Iff.rfl

/-- What a path resolves to is one of the files. -/
theorem Catalog.mem_of_resolve {root : Path} {files : List Path} {raw : Text} {file : Option Path}
    {target : Path} (h : (Catalog.ofFiles root files).resolve raw file = some target) :
    target ∈ files := by
  rw [resolve] at h
  split at h
  · rename_i found hfound
    obtain rfl : found = target := Option.some.inj h
    exact (of_find? hfound).1
  · obtain ⟨joined, -, hjoined⟩ := Option.bind_eq_some_iff.mp h
    obtain ⟨script, -, hscript⟩ := Option.bind_eq_some_iff.mp hjoined
    exact (of_find? hscript).1

/-- The comparison of locations is transitive, so sorting by them is stable. -/
instance : Std.TransCmp Location.order := by
  have hstart := transCmp_on Position.order fun a : Location => a.span.start
  exact inferInstanceAs (Std.TransCmp (compareLex (compareOn fun a : Location => a.path.key)
    fun a b => a.span.start.order b.span.start))

namespace SymbolIndex

theorem mem_definitionsOf {ix : SymbolIndex} {s : Symbol} {definition : Definition} :
    definition ∈ ix.definitionsOf s ↔ (s, definition) ∈ ix.definitions := by
  rw [definitionsOf, mem_sortBy, List.mem_map]
  constructor
  · rintro ⟨⟨s', _⟩, hentry, rfl⟩
    obtain ⟨hmem, hs⟩ := List.mem_filter.mp hentry
    obtain rfl : s' = s := beq_iff_eq.mp hs
    exact hmem
  · intro hmem
    exact ⟨(s, definition), List.mem_filter.mpr ⟨hmem, beq_self_eq_true s⟩, rfl⟩

theorem path_of_mem_definitionsIn {path : Path} {d : Document} {entry : Symbol × Definition}
    (h : entry ∈ definitionsIn path d) : entry.2.location.path = path := by
  rcases List.mem_append.mp h with h | hvariable
  · rcases List.mem_append.mp h with hthread | hlabel
    · obtain ⟨_, -, rfl⟩ := List.mem_map.mp hthread
      rfl
    · obtain ⟨_, -, rfl⟩ := List.mem_map.mp hlabel
      rfl
  · obtain ⟨o, -, ho⟩ := List.mem_filterMap.mp hvariable
    rw [ofOccurrence?] at ho
    split at ho
    · obtain rfl := Option.some.inj ho
      rfl
    · exact nomatch ho

/-! ## Threads -/

/-- The threads of scripts, script by script. -/
def threadsOf (documents : List (Path × Document)) : List (Path × Thread) :=
  documents.flatMap fun entry => entry.2.threads.map fun t => (entry.1, t)

theorem mem_threadsOf {documents : List (Path × Document)} {e : Path × Thread} :
    e ∈ threadsOf documents ↔ ∃ entry ∈ documents, e.1 = entry.1 ∧ e.2 ∈ entry.2.threads := by
  rw [threadsOf, List.mem_flatMap]
  constructor
  · rintro ⟨entry, hentry, he⟩
    obtain ⟨t, ht, rfl⟩ := List.mem_map.mp he
    exact ⟨entry, hentry, rfl, ht⟩
  · rintro ⟨entry, hentry, hpath, ht⟩
    exact ⟨entry, hentry, List.mem_map.mpr ⟨e.2, ht, by rw [← hpath]⟩⟩

/-- Whether a thread comes before another: by path, and in one script by line. -/
def Earlier (a b : Path × Thread) : Prop :=
  a.1.order b.1 = .lt ∨ (a.1 = b.1 ∧ a.2.line < b.2.line)

theorem Earlier.ne {a b : Path × Thread} (h : Earlier a b) : a ≠ b := by
  rintro rfl
  rcases h with hpath | ⟨-, hline⟩
  · rw [Path.order_eq_iff.mpr rfl] at hpath
    exact nomatch hpath
  · exact Nat.lt_irrefl _ hline

/-- An earlier thread stands at a smaller place. -/
theorem Earlier.isLE {a b : Path × Thread} (h : Earlier a b) :
    (Location.order ⟨a.1, a.2.span⟩ ⟨b.1, b.2.span⟩).isLE = true := by
  rcases h with hpath | ⟨hpath, hline⟩
  · have hlt : (compareOn fun a : Location => a.path.key) ⟨a.1, a.2.span⟩ ⟨b.1, b.2.span⟩ = .lt :=
      hpath
    rw [Location.order, compareLex, hlt]
    rfl
  · have hsame : (compareOn fun a : Location => a.path.key) ⟨a.1, a.2.span⟩ ⟨b.1, b.2.span⟩ = .eq :=
      Path.order_eq_iff.mpr (congrArg Path.key hpath)
    rw [Location.order, compareLex, hsame]
    show (a.2.span.start.order b.2.span.start).isLE = true
    rw [Position.order_of_line_lt hline]
    rfl

/-- Threads are listed by path, then by line. -/
theorem threadsOf_pairwise {documents : PathMap Document} (hordered : documents.Ordered)
    (hread : ∀ entry ∈ documents, ∃ file t, entry.2 = Document.read file t) :
    (threadsOf documents).Pairwise Earlier := by
  rw [threadsOf, List.pairwise_flatMap]
  constructor
  · intro entry hentry
    obtain ⟨file, t, hd⟩ := hread entry hentry
    rw [List.pairwise_map, hd]
    exact (header_lines_increase file t).imp fun hline => Or.inr ⟨rfl, hline⟩
  · refine hordered.imp ?_
    intro a b hab x hx y hy
    obtain ⟨s, -, rfl⟩ := List.mem_map.mp hx
    obtain ⟨s', -, rfl⟩ := List.mem_map.mp hy
    exact Or.inl hab

/-- A thread is known by its script, however that is spelled, and its line. -/
theorem eq_of_place {documents : PathMap Document} (hordered : documents.Ordered)
    (hread : ∀ entry ∈ documents, ∃ file t, entry.2 = Document.read file t) {a b : Path × Thread}
    (ha : a ∈ threadsOf documents) (hb : b ∈ threadsOf documents) (hkey : a.1.key = b.1.key)
    (hline : a.2.line = b.2.line) : a = b := by
  have happart : (threadsOf documents).Pairwise
      fun a b => ¬ (a.1.key = b.1.key ∧ a.2.line = b.2.line) := by
    refine (threadsOf_pairwise hordered hread).imp ?_
    rintro a b (hpath | ⟨-, hlt⟩) ⟨hkey, hline⟩
    · rw [Path.order_eq_iff.mpr hkey] at hpath
      exact nomatch hpath
    · exact Nat.ne_of_lt hlt hline
  have hsymm : Std.Symm fun a b : Path × Thread => ¬ (a.1.key = b.1.key ∧ a.2.line = b.2.line) :=
    ⟨fun _ _ h hba => h ⟨hba.1.symm, hba.2.symm⟩⟩
  by_contra hab
  exact happart.forall ha hb hab ⟨hkey, hline⟩

/-- Only the threads of a script are indexed as threads. -/
theorem definitionsIn_threads (path : Path) (d : Document) :
    (definitionsIn path d).filter (·.2.kind == .thread) = d.threads.map (ofThread path) := by
  have hlabels : (d.labels.map (ofLabel path)).filter (·.2.kind == .thread) = [] := by
    rw [List.filter_eq_nil_iff]
    intro entry hentry
    obtain ⟨l, -, rfl⟩ := List.mem_map.mp hentry
    exact Bool.false_ne_true
  have hvariables :
      (d.occurrences.filterMap (ofOccurrence? path d)).filter (·.2.kind == .thread) = [] := by
    rw [List.filter_eq_nil_iff]
    intro entry hentry
    obtain ⟨o, -, ho⟩ := List.mem_filterMap.mp hentry
    rw [ofOccurrence?] at ho
    split at ho
    · obtain rfl := Option.some.inj ho
      dsimp only
      split
      · exact Bool.false_ne_true
      · exact Bool.false_ne_true
    · exact absurd ho.symm (Option.some_ne_none _)
  rw [definitionsIn, List.filter_append, List.filter_append, hlabels, hvariables, List.append_nil,
    List.append_nil, List.filter_eq_self]
  intro entry hentry
  obtain ⟨t, -, rfl⟩ := List.mem_map.mp hentry
  rfl

/-- The threads of the index are the threads of the scripts. -/
theorem definitions_threads (root : Path) (documents : List (Path × Document)) :
    (build root documents).definitions.filter (·.2.kind == .thread)
      = (threadsOf documents).map fun e => ofThread e.1 e.2 := by
  show (documents.flatMap fun entry => definitionsIn entry.1 entry.2).filter _ = _
  rw [List.filter_flatMap, threadsOf, List.map_flatMap]
  congr 1
  funext entry
  rw [definitionsIn_threads, List.map_map]
  rfl

/-- A plain name is that of a thread when a script has such a thread. -/
theorem isThread_iff (root : Path) (documents : List (Path × Document)) {name : Text}
    (hplain : IsPlainName name) : (build root documents).isThread name = true
      ↔ ∃ entry ∈ documents, entry.2.hasThread name = true := by
  rw [isThread, hplain.findAll_eq, List.any_eq_true]
  constructor
  · rintro ⟨definition, hfound, hkind⟩
    have hmem : (Symbol.ofName name, definition)
        ∈ (build root documents).definitions.filter (·.2.kind == .thread) :=
      List.mem_filter.mpr ⟨mem_definitionsOf.mp hfound, hkind⟩
    rw [definitions_threads] at hmem
    obtain ⟨e, he, heq⟩ := List.mem_map.mp hmem
    obtain ⟨entry, hentry, -, ht⟩ := mem_threadsOf.mp he
    refine ⟨entry, hentry, List.any_eq_true.mpr ⟨e.2, ht, ?_⟩⟩
    rw [← Symbol.ofName_beq]
    exact beq_iff_eq.mpr (congrArg Prod.fst heq)
  · rintro ⟨entry, hentry, hthread⟩
    obtain ⟨t, ht, hname⟩ := List.any_eq_true.mp hthread
    have hmem : ofThread entry.1 t
        ∈ (build root documents).definitions.filter (·.2.kind == .thread) := by
      rw [definitions_threads]
      exact List.mem_map.mpr ⟨(entry.1, t), mem_threadsOf.mpr ⟨entry, hentry, rfl, ht⟩, rfl⟩
    obtain ⟨hdefined, hkind⟩ := List.mem_filter.mp hmem
    rw [← Symbol.ofName_beq] at hname
    refine ⟨(ofThread entry.1 t).2, mem_definitionsOf.mpr ?_, hkind⟩
    rw [← beq_iff_eq.mp hname]
    exact hdefined

/-- **THREADS OF A NAME**: what is found as a thread under a plain name are the threads that the
    scripts list under it, by path and line. -/
theorem findAll_threads (root : Path) {documents : PathMap Document} (hordered : documents.Ordered)
    (hread : ∀ entry ∈ documents, ∃ file t, entry.2 = Document.read file t) {name : Text}
    (hplain : IsPlainName name) :
    ((build root documents).findAll name).filter (·.kind == .thread)
      = ((threadsOf documents).filter fun e => sameName e.2.name name).map
          fun e => (ofThread e.1 e.2).2 := by
  have horder := transCmp_on Location.order Definition.location
  have hfound : (((build root documents).definitions.filter (·.1 == .ofName name)).map
      (·.2)).filter (·.kind == .thread)
        = ((threadsOf documents).filter fun e => sameName e.2.name name).map
          fun e => (ofThread e.1 e.2).2 := by
    rw [List.filter_map, List.filter_comm]
    show (((build root documents).definitions.filter (·.2.kind == .thread)).filter _).map _ = _
    rw [definitions_threads, List.filter_map, List.map_map]
    congr 1
    refine List.filter_congr ?_
    intro e _
    exact Symbol.ofName_beq e.2.name name
  rw [hplain.findAll_eq, definitionsOf, filter_sortBy, hfound]
  refine sortBy_of_pairwise (List.pairwise_map.mpr ?_)
  exact ((threadsOf_pairwise hordered hread).filter _).imp Earlier.isLE

end SymbolIndex

end ScriptAtlas
