import ScriptAtlas.Proofs.Document.Parameters
import ScriptAtlas.Proofs.Symbols.Lookup

/-! # Definitions — what is found under a name, and in which order

    The index is filled kind by kind, and looked up by symbols.  Under a name
    stand the threads and labels of that name in any letter case, under a
    variable the parameters and writes of exactly that variable, by path, line
    and column.  The route:

    * no two definitions stand at one place, so sorting by places is strict
      (`definitionsOf_pairwise`);
    * under the symbol of a name a script has the threads and labels of that
      name (`mem_definitionsIn_name`);
    * under the symbol of a variable it has what its sites define, and a site
      that defines a variable is a parameter or a write
      (`mem_definitionsIn_variable`). -/

namespace ScriptAtlas

open Text Vocabulary Progress

/-! ## Places -/

theorem Location.order_eq_iff {a b : Location} :
    a.order b = .eq ↔ a.path.key = b.path.key ∧ a.span.start = b.span.start := by
  have hposition (p q : Position) : p.order q = .eq ↔ p = q := by
    obtain ⟨line, column⟩ := p
    obtain ⟨line', column'⟩ := q
    rw [Position.order, compareLex, Ordering.then_eq_eq, Position.mk.injEq]
    exact and_congr Nat.compare_eq_eq Nat.compare_eq_eq
  rw [order, compareLex, Ordering.then_eq_eq, hposition]
  exact and_congr_left' Std.LawfulEqOrd.compare_eq_iff_eq

/-- No two sites of a text start at one place. -/
theorem sites_apart (t : Text) :
    (Document.sites t).Pairwise fun a b => a.lexeme.span.start ≠ b.lexeme.span.start := by
  refine (sites_ordered t).imp ?_
  intro a b hbefore hstart
  obtain ⟨hline, hcolumn⟩ := Position.mk.inj hstart
  rcases hbefore with hlt | ⟨-, hlt⟩
  · exact Nat.ne_of_lt hlt hline
  · exact Nat.ne_of_lt hlt hcolumn

namespace SymbolIndex

/-- Whether two entries stand at different places. -/
def Apart (a b : Symbol × Location) : Prop :=
  ¬ (a.2.path.key = b.2.path.key ∧ a.2.span.start = b.2.span.start)

/-- No two definitions of a script stand at one place. -/
theorem definitionsIn_apart (path file : Path) (t : Text) :
    ((definitionsIn path (Document.read file t)).map place).Pairwise Apart := by
  have hsymm {a b : Symbol × Location} (h : Apart a b) : Apart b a :=
    fun hba => h ⟨hba.1.symm, hba.2.symm⟩
  have hspan {s : Site} {e : Symbol × Location} (h : s.defined? path = some e) :
      e.2.span = s.lexeme.span := by
    obtain ⟨_, -, hite⟩ := Option.bind_eq_some_iff.mp h
    obtain ⟨-, hsome⟩ := Option.ite_none_right_eq_some.mp hite
    rw [← Option.some.inj hsome]
  rw [(definitionsIn_perm path file t).pairwise_iff hsymm, List.pairwise_filterMap]
  refine (sites_apart t).imp ?_
  intro s s' hstart a ha b hb hsame
  rw [hspan ha, hspan hb] at hsame
  exact hstart hsame.2

/-- No two definitions stand at one place. -/
theorem definitions_apart (root : Path) {documents : List (Path × Document)}
    (hdistinct : documents.Pairwise fun a b => a.1.key ≠ b.1.key)
    (hread : ∀ entry ∈ documents, ∃ file t, entry.2 = Document.read file t) :
    ((build root documents).definitions.map place).Pairwise Apart := by
  show ((documents.flatMap fun entry => definitionsIn entry.1 entry.2).map place).Pairwise Apart
  rw [List.map_flatMap, List.pairwise_flatMap]
  constructor
  · intro entry hentry
    obtain ⟨file, t, hd⟩ := hread entry hentry
    rw [hd]
    exact definitionsIn_apart entry.1 file t
  · refine hdistinct.imp ?_
    intro a b hkey x hx y hy hsame
    obtain ⟨e, he, rfl⟩ := List.mem_map.mp hx
    obtain ⟨e', he', rfl⟩ := List.mem_map.mp hy
    have hpaths : e.2.location.path.key = e'.2.location.path.key := hsame.1
    rw [path_of_mem_definitionsIn he, path_of_mem_definitionsIn he'] at hpaths
    exact hkey hpaths

/-- The definitions of a symbol go strictly by path, line and column. -/
theorem definitionsOf_pairwise (root : Path) {documents : List (Path × Document)}
    (hdistinct : documents.Pairwise fun a b => a.1.key ≠ b.1.key)
    (hread : ∀ entry ∈ documents, ∃ file t, entry.2 = Document.read file t) (s : Symbol) :
    ((build root documents).definitionsOf s).Pairwise
      fun a b => a.location.order b.location = .lt := by
  have horder := transCmp_on Location.order Definition.location
  -- being at different places does not depend on the order of the list
  have hapart : ((build root documents).definitionsOf s).Pairwise
      fun a b => a.location.order b.location ≠ .eq := by
    have hsymm {a b : Definition} (h : a.location.order b.location ≠ .eq) :
        b.location.order a.location ≠ .eq := by
      rw [ne_eq, Location.order_eq_iff] at h ⊢
      exact fun hba => h ⟨hba.1.symm, hba.2.symm⟩
    rw [definitionsOf, (sortBy_perm _ _).pairwise_iff hsymm, List.pairwise_map]
    refine ((List.pairwise_map.mp (definitions_apart root hdistinct hread)).filter _).imp ?_
    intro a b hab
    rw [ne_eq, Location.order_eq_iff]
    exact hab
  have hsorted : ((build root documents).definitionsOf s).Pairwise
      fun a b => (a.location.order b.location).isLE = true := sortBy_pairwise _ _
  refine (hsorted.and hapart).imp ?_
  rintro a b ⟨hle, hne⟩
  exact (Ordering.isLE_iff_eq_lt_or_eq_eq.mp hle).resolve_right hne

/-- What is found under any name goes strictly by path, line and column. -/
theorem findAll_pairwise (root : Path) {documents : List (Path × Document)}
    (hdistinct : documents.Pairwise fun a b => a.1.key ≠ b.1.key)
    (hread : ∀ entry ∈ documents, ∃ file t, entry.2 = Document.read file t) (name : Text) :
    ((build root documents).findAll name).Pairwise
      fun a b => a.location.order b.location = .lt := by
  have hordered := definitionsOf_pairwise root hdistinct hread
  rw [findAll]
  split
  · split
    · exact .nil
    · exact (hordered _).filter _
  · exact hordered _

end SymbolIndex

/-! ## What a script defines -/

namespace Document

/-- The threads and labels of a script that have a name, in any letter case. -/
inductive DefinesName (d : Document) (path : Path) (name : Text) : Definition → Prop
  | thread {th : Thread} (h : th ∈ d.threads) (hname : sameName th.name name = true) :
      DefinesName d path name ⟨th.name, .thread, ⟨path, th.span⟩, none, none⟩
  | label {l : Label} (h : l ∈ d.labels) (hname : sameName l.name name = true) :
      DefinesName d path name ⟨l.name, .label, ⟨path, l.span⟩, some l.thread, some l.owner⟩

/-- What a write counts as: on the line of its header, a write to a parameter is one as well. -/
def writeKind (d : Document) (b : Binding) : DefinitionKind :=
  if d.threads[b.owner]?.any fun th => th.hasParameter b.qualified && th.line == b.span.start.line
  then .parameter else .var

/-- The parameters of a script and the writes in its threads that have a scope and a name. -/
inductive DefinesVariable (d : Document) (path : Path) (scope : Scope) (name : Text) :
    Definition → Prop
  | parameter {l : Lexeme} (h : l ∈ d.lexemes) (hkind : l.kind = .parameter scope)
      (hname : l.text = name) :
      DefinesVariable d path scope name ⟨scope.qualify name, .parameter, ⟨path, l.span⟩,
        (d.threadAt l.line).map (·.name), d.threadIndexAt l.line⟩
  | write {b : Binding} (h : b ∈ d.bindings) (hscope : b.scope = scope) (hname : b.name = name) :
      DefinesVariable d path scope name ⟨scope.qualify name, d.writeKind b, ⟨path, b.span⟩,
        d.threads[b.owner]?.map (·.name), some b.owner⟩

end Document

theorem Symbol.ofVariable_inj {s s' : Scope} {a b : Text} :
    Symbol.ofVariable s a = .ofVariable s' b ↔ s = s' ∧ a = b := by
  rw [ofVariable, ofVariable, Symbol.qualified.injEq, Scope.qualify_inj]

theorem Symbol.ofName_ne_ofVariable (a : Text) (scope : Scope) (b : Text) :
    Symbol.ofName a ≠ .ofVariable scope b :=
  Symbol.noConfusion

/-- A variable is defined by parameters and by writes in threads. -/
theorem Site.symbol?_variable {s : Site} {scope : Scope} {name : Text} :
    s.symbol? = some (.ofVariable scope name, true) ↔ s.lexeme.text = name
      ∧ (s.lexeme.kind = .parameter scope
        ∨ s.lexeme.kind = .property scope true ∧ s.owner.isSome = true) := by
  rw [symbol?]
  cases hkind : s.lexeme.kind with
  | parameter scope' =>
      simp only [Option.some.injEq, Prod.mk.injEq, and_true, Symbol.ofVariable_inj,
        Kind.parameter.injEq, reduceCtorEq, false_and, or_false]
      exact and_comm
  | property scope' write =>
      simp only [Option.some.injEq, Prod.mk.injEq, Symbol.ofVariable_inj, Kind.property.injEq,
        reduceCtorEq, false_or, Bool.and_eq_true]
      tauto
  | _ => simp [Symbol.ofName, Symbol.ofVariable]

namespace SymbolIndex

theorem mem_definitions {root : Path} {documents : List (Path × Document)}
    {entry : Symbol × Definition} : entry ∈ (build root documents).definitions
      ↔ ∃ document ∈ documents, entry ∈ definitionsIn document.1 document.2 :=
  List.mem_flatMap

/-- What an occurrence defines is the variable that occurs. -/
theorem of_ofOccurrence? {path : Path} {d : Document} {o : Occurrence} {entry : Symbol × Definition}
    (h : ofOccurrence? path d o = some entry) :
    o.symbol = entry.1 ∧ o.isDefinition = true ∧ ∃ name, entry.1 = .qualified name := by
  rw [ofOccurrence?] at h
  split at h
  · rename_i name hsymbol hdefinition
    obtain rfl := Option.some.inj h
    exact ⟨rfl, hdefinition, name, hsymbol⟩
  · exact absurd h.symm (Option.some_ne_none _)

/-- Under a name, a script defines its threads and labels of that name. -/
theorem mem_definitionsIn_name {path : Path} {d : Document} {name : Text} {x : Definition} :
    (Symbol.ofName name, x) ∈ definitionsIn path d ↔ d.DefinesName path name x := by
  have hsame {a : Text} (h : Symbol.ofName a = .ofName name) : sameName a name = true := by
    rw [← Symbol.ofName_beq]
    exact beq_iff_eq.mpr h
  have hsymbol {a : Text} (h : sameName a name = true) : Symbol.ofName a = .ofName name := by
    rw [← Symbol.ofName_beq] at h
    exact beq_iff_eq.mp h
  constructor
  · intro h
    rcases List.mem_append.mp h with h | hvariable
    · rcases List.mem_append.mp h with hthread | hlabel
      · obtain ⟨th, hth, heq⟩ := List.mem_map.mp hthread
        obtain ⟨hname, rfl⟩ := Prod.mk.inj heq
        exact .thread hth (hsame hname)
      · obtain ⟨l, hl, heq⟩ := List.mem_map.mp hlabel
        obtain ⟨hname, rfl⟩ := Prod.mk.inj heq
        exact .label hl (hsame hname)
    · -- variables stand under symbols of their own
      obtain ⟨o, -, ho⟩ := List.mem_filterMap.mp hvariable
      obtain ⟨-, -, _, hqualified⟩ := of_ofOccurrence? ho
      exact nomatch hqualified
  · rintro (⟨hth, hname⟩ | ⟨hl, hname⟩)
    · rw [← hsymbol hname]
      exact List.mem_append_left _ (List.mem_append_left _ (List.mem_map_of_mem hth))
    · rw [← hsymbol hname]
      exact List.mem_append_left _ (List.mem_append_right _ (List.mem_map_of_mem hl))

/-- Under a variable, a script has what its sites define. -/
theorem mem_definitionsIn_site {path file : Path} {t : Text} {scope : Scope} {name : Text}
    {x : Definition} :
    (Symbol.ofVariable scope name, x) ∈ definitionsIn path (Document.read file t)
      ↔ ∃ i l, (scan t).lexemes[i]? = some l
        ∧ (Site.ofNumber (scan t).lexemes i l).symbol? = some (.ofVariable scope name, true)
        ∧ ofOccurrence? path (Document.read file t) ⟨.ofVariable scope name, l.span, true,
            (upTo (scan t).lexemes i).owner l⟩ = some (.ofVariable scope name, x) := by
  rw [definitionsIn, List.mem_append, List.mem_append, List.mem_filterMap]
  constructor
  · rintro ((hthread | hlabel) | ⟨o, ho, hx⟩)
    · obtain ⟨th, -, heq⟩ := List.mem_map.mp hthread
      exact absurd (Prod.mk.inj heq).1 (Symbol.ofName_ne_ofVariable _ _ _)
    · obtain ⟨l, -, heq⟩ := List.mem_map.mp hlabel
      exact absurd (Prod.mk.inj heq).1 (Symbol.ofName_ne_ofVariable _ _ _)
    · obtain ⟨i, l, hl, ho⟩ := mem_filterMap_sites.mp ho
      obtain ⟨⟨symbol, isDefinition⟩, hsymbol, rfl⟩ := Option.map_eq_some_iff.mp ho
      obtain ⟨rfl, rfl, -⟩ := of_ofOccurrence? hx
      exact ⟨i, l, hl, hsymbol, hx⟩
  · rintro ⟨i, l, hl, hsymbol, hx⟩
    refine Or.inr ⟨_, mem_filterMap_sites.mpr ⟨i, l, hl, ?_⟩, hx⟩
    rw [Site.occurrence?, hsymbol]
    rfl

/-- A parameter is defined as such, in the thread of its line. -/
theorem ofOccurrence?_parameter (path file : Path) {t : Text} {i : Nat} {l : Lexeme} {scope : Scope}
    (hl : (scan t).lexemes[i]? = some l) (hkind : l.kind = .parameter scope) :
    ofOccurrence? path (Document.read file t) ⟨.ofVariable scope l.text, l.span, true,
        (upTo (scan t).lexemes i).owner l⟩
      = some (.ofVariable scope l.text, ⟨scope.qualify l.text, .parameter, ⟨path, l.span⟩,
          ((Document.read file t).threadAt l.line).map (·.name),
          (Document.read file t).threadIndexAt l.line⟩) := by
  obtain ⟨k, th, howner, hth, hline, hlists⟩ := exists_thread_of_parameter file hl hkind
  have hheader : (th.hasParameter (scope.qualify l.text) && th.line == l.span.start.line) = true :=
    Bool.and_eq_true_iff.mpr ⟨hlists, beq_iff_eq.mpr hline⟩
  rw [Document.threadAt, threadIndexAt_of_owner file hl howner, howner, Option.bind_some, hth]
  show some (_, Definition.mk _ (if _ then _ else _) _ _ _) = _
  rw [Option.bind_some, hth, Option.any_some, if_pos hheader]

/-- Under a variable, a script defines its parameters and the writes in its threads. -/
theorem mem_definitionsIn_variable {path file : Path} {t : Text} {scope : Scope} {name : Text}
    {x : Definition} :
    (Symbol.ofVariable scope name, x) ∈ definitionsIn path (Document.read file t)
      ↔ (Document.read file t).DefinesVariable path scope name x := by
  rw [mem_definitionsIn_site]
  constructor
  · rintro ⟨i, l, hl, hsymbol, hx⟩
    -- a variable is defined by a parameter, or by a write inside of a thread
    obtain ⟨rfl, hkind | ⟨hkind, howner⟩⟩ := Site.symbol?_variable.mp hsymbol
    · rw [show (Site.ofNumber (scan t).lexemes i l).lexeme = l from rfl,
        ofOccurrence?_parameter path file hl hkind] at hx
      obtain ⟨-, rfl⟩ := Prod.mk.inj (Option.some.inj hx)
      exact .parameter (List.mem_of_getElem? hl) hkind rfl
    · obtain ⟨k, hk⟩ := Option.isSome_iff_exists.mp howner
      have hk' : (upTo (scan t).lexemes i).owner l = some k := hk
      have hb : (⟨scope, l.text, k, l.span⟩ : Binding) ∈ (Document.read file t).bindings := by
        refine mem_filterMap_sites.mpr ⟨i, l, hl, ?_⟩
        rw [Site.binding?, hkind, hk]
        rfl
      rw [hk'] at hx
      obtain ⟨-, rfl⟩ := Prod.mk.inj (Option.some.inj hx)
      exact .write hb rfl rfl
  · rintro (⟨hl, hkind, rfl⟩ | ⟨hb, rfl, rfl⟩)
    · obtain ⟨i, hl⟩ := List.mem_iff_getElem?.mp hl
      exact ⟨i, _, hl, Site.symbol?_variable.mpr ⟨rfl, Or.inl hkind⟩,
        ofOccurrence?_parameter path file hl hkind⟩
    · obtain ⟨i, l, hl, hbinding⟩ := mem_filterMap_sites.mp hb
      obtain ⟨hkind, howner, hb⟩ := Site.of_binding? hbinding
      rw [hb]
      have howner' : (upTo (scan t).lexemes i).owner l = _ := howner
      refine ⟨i, l, hl, Site.symbol?_variable.mpr ⟨rfl, Or.inr ⟨hkind, ?_⟩⟩, ?_⟩
      · rw [howner]
        rfl
      · rw [howner']
        rfl

/-! ## Lookup -/

/-- Whether a list holds exactly the definitions with a property, each once and in the order of their
    places. -/
def Lists (found : List Definition) (P : Definition → Prop) : Prop :=
  (∀ x, x ∈ found ↔ P x) ∧ found.Pairwise fun a b => a.location.order b.location = .lt

section Lookup

variable (root : Path) {documents : List (Path × Document)}

theorem mem_definitionsOf_name {name : Text} {x : Definition} :
    x ∈ (build root documents).definitionsOf (.ofName name)
      ↔ ∃ entry ∈ documents, entry.2.DefinesName entry.1 name x := by
  rw [mem_definitionsOf, mem_definitions]
  exact exists_congr fun entry => and_congr_right' mem_definitionsIn_name

theorem mem_definitionsOf_variable
    (hread : ∀ entry ∈ documents, ∃ file t, entry.2 = Document.read file t) {scope : Scope}
    {name : Text} {x : Definition} :
    x ∈ (build root documents).definitionsOf (.ofVariable scope name)
      ↔ ∃ entry ∈ documents, entry.2.DefinesVariable entry.1 scope name x := by
  rw [mem_definitionsOf, mem_definitions]
  refine exists_congr fun entry => and_congr_right fun hentry => ?_
  obtain ⟨file, t, hd⟩ := hread entry hentry
  rw [hd]
  exact mem_definitionsIn_variable

/-- Of the definitions of a name, those of the script that a path resolves to. -/
theorem mem_findAll_cross (hdistinct : documents.Pairwise fun a b => a.1.key ≠ b.1.key)
    {raw name : Text} (hname : ':' ∉ name) {x : Definition} :
    x ∈ (build root documents).findAll (raw ++ ':' :: ':' :: name)
      ↔ ∃ entry ∈ documents, (build root documents).catalog.resolve raw none = some entry.1
        ∧ entry.2.DefinesName entry.1 name x := by
  have hpath {entry : Path × Document} (h : entry.2.DefinesName entry.1 name x) :
      x.location.path = entry.1 := by
    cases h with
    | thread => rfl
    | label => rfl
  rw [findAll, breakOnLast_colons hname]
  dsimp only
  split
  · rename_i hnone
    constructor
    · exact fun h => absurd h List.not_mem_nil
    · rintro ⟨entry, -, hsome, -⟩
      exact absurd (hsome.symm.trans hnone) (Option.some_ne_none _)
  · rename_i file hfile
    rw [List.mem_filter, mem_definitionsOf_name, Bool.and_eq_true, Path.same_iff]
    constructor
    · rintro ⟨⟨entry, hentry, hdefines⟩, hsame, -⟩
      refine ⟨entry, hentry, ?_, hdefines⟩
      -- the file is tracked, and a tracked path has one spelling
      obtain ⟨other, hother, rfl⟩ := List.mem_map.mp (Catalog.mem_of_resolve hfile)
      rw [hpath hdefines] at hsame
      obtain rfl := PathMap.eq_of_pairwise_ne hdistinct hentry hother hsame
      exact hfile
    · rintro ⟨entry, hentry, hresolves, hdefines⟩
      obtain rfl : file = entry.1 := Option.some.inj (hfile.symm.trans hresolves)
      refine ⟨⟨entry, hentry, hdefines⟩, congrArg Path.key (hpath hdefines), ?_⟩
      cases hdefines with
      | thread => rfl
      | label => rfl

end Lookup

/-- **COMPLETE AND IN ORDER**: a name without dots and colons finds the threads and labels that have
    it in any letter case; a scope in any letter case, a dot and a name find the parameters and the
    writes in threads of exactly that variable; and with a path and `::` in front, a name finds the
    threads and labels of the script that the path resolves to.  Each is listed once, strictly by
    path, line and column. -/
theorem findAll_lists_definitions (root : Path) {documents : List (Path × Document)}
    (hdistinct : documents.Pairwise fun a b => a.1.key ≠ b.1.key)
    (hread : ∀ entry ∈ documents, ∃ file t, entry.2 = Document.read file t) :
    (∀ name, IsPlainName name → Lists ((build root documents).findAll name)
      fun x => ∃ entry ∈ documents, entry.2.DefinesName entry.1 name x)
    ∧ (∀ word scope name, lower word = scope.word → name ≠ [] → ¬ "::".toList <:+: name →
      Lists ((build root documents).findAll (word ++ '.' :: name))
        fun x => ∃ entry ∈ documents, entry.2.DefinesVariable entry.1 scope name x)
    ∧ ∀ raw name, ':' ∉ name →
      Lists ((build root documents).findAll (raw ++ ':' :: ':' :: name))
        fun x => ∃ entry ∈ documents,
          (build root documents).catalog.resolve raw none = some entry.1
            ∧ entry.2.DefinesName entry.1 name x := by
  have hordered := findAll_pairwise root hdistinct hread
  refine ⟨?plain, ?qualified, ?cross⟩
  case plain =>
    intro name hplain
    refine ⟨?_, hordered _⟩
    rw [hplain.findAll_eq]
    exact fun x => mem_definitionsOf_name root
  case qualified =>
    intro word scope name hlower hname hcolons
    have hword := Scope.ofWord?_of_lower hlower
    refine ⟨?_, hordered _⟩
    rw [findAll, breakOnLast_qualified hword hcolons]
    dsimp only
    rw [Symbol.ofText_qualified hword hname]
    exact fun x => mem_definitionsOf_variable root hread
  case cross =>
    intro raw name hname
    exact ⟨fun x => mem_findAll_cross root hdistinct hname, hordered _⟩

/-- A thread and a label of one name in two scripts; a parameter, a write on the line of its header
    and one below, looked up with the scope in capitals; and the label alone behind the path of its
    script. -/
theorem findAll_lists_of_two_scripts :
    let a : Path := ⟨"a".toList⟩
    let b : Path := ⟨"b".toList⟩
    let documents : List (Path × Document) :=
      [(b, Document.read b "go:\nlevel.x = 1\n Run:\nlocal.X = 2".toList),
        (a, Document.read a "RUN local.x: /**/ local.x = 1\nlocal.x = 2\nend".toList)]
    let ix := build ⟨[]⟩ documents
    ((ix.findAll "run".toList).length = 2
        ∧ Lists (ix.findAll "run".toList)
          fun x => ∃ entry ∈ documents, entry.2.DefinesName entry.1 "run".toList x)
      ∧ ((ix.findAll "LOCAL.x".toList).length = 3
        ∧ Lists (ix.findAll "LOCAL.x".toList)
          fun x => ∃ entry ∈ documents, entry.2.DefinesVariable entry.1 .threadLocal ['x'] x)
      ∧ ((ix.findAll "B::run".toList).length = 1
        ∧ Lists (ix.findAll "B::run".toList)
          fun x => ∃ entry ∈ documents, ix.catalog.resolve "B".toList none = some entry.1
            ∧ entry.2.DefinesName entry.1 "run".toList x) := by
  intro a b documents ix
  have hdistinct : documents.Pairwise fun a b => a.1.key ≠ b.1.key := by
    have hkeys : b.key ≠ a.key := by decide
    exact List.pairwise_pair.mpr hkeys
  have hread (entry : Path × Document) (hentry : entry ∈ documents) :
      ∃ file t, entry.2 = Document.read file t := by
    rcases List.mem_cons.mp hentry with rfl | hentry
    · exact ⟨b, _, rfl⟩
    · obtain rfl := List.mem_singleton.mp hentry
      exact ⟨a, _, rfl⟩
  obtain ⟨hnames, hvariables, hcross⟩ := findAll_lists_definitions ⟨[]⟩ hdistinct hread
  obtain ⟨hrun, hx, hb⟩ : (ix.findAll "run".toList).length = 2
      ∧ (ix.findAll "LOCAL.x".toList).length = 3 ∧ (ix.findAll "B::run".toList).length = 1 := by
    decide +kernel
  have hscoped := hvariables "LOCAL".toList .threadLocal ['x'] (by decide) (by decide) (by decide)
  have hcrossed := hcross "B".toList "run".toList (by decide)
  rw [show "LOCAL".toList ++ '.' :: ['x'] = "LOCAL.x".toList by decide] at hscoped
  rw [show "B".toList ++ ':' :: ':' :: "run".toList = "B::run".toList by decide] at hcrossed
  exact ⟨⟨hrun, hnames _ ⟨by decide, by decide⟩⟩, ⟨hx, hscoped⟩, ⟨hb, hcrossed⟩⟩

end SymbolIndex

end ScriptAtlas
