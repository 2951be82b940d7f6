import ScriptAtlas.Proofs.Scan.Reading
import ScriptAtlas.Proofs.Symbols.Definitions

/-! # Parameter kinds — which definitions count as parameters

    The index tells a parameter from a write by its name and its line.  A write
    that shares the line of a header with a parameter of its name counts as one
    too, and such a write stands behind a comment.  The route:

    * behind the colon of a header, a comment is read before anything else
      (`Reads.comment_before`);
    * so on the line of a header a comment stands between its parameters and a
      write (`exists_comment_between`);
    * what a thread lists as a parameter stands on the line of its header
      (`exists_parameter_of_hasParameter`), hence when a write counts as a
      parameter (`writeKind_eq_parameter_iff`). -/

namespace ScriptAtlas

open Text Progress

namespace Shape

theorem isTrailer_of_blank {a : Char} {t : Text} (ha : isBlank a = true) :
    isTrailer (a :: t) = isTrailer t := by
  rw [isTrailer, List.dropWhile_cons_of_pos ha]
  rfl

/-- A trailer that starts at once starts with a comment. -/
theorem eq_comment_of_isTrailer {a : Char} {t : Text} (ha : isBlank a = false)
    (h : isTrailer (a :: t) = true) :
    ∃ rest, a :: t = '/' :: '/' :: rest ∨ a :: t = '/' :: '*' :: rest := by
  rw [isTrailer, List.dropWhile_cons_of_neg (by rw [ha]; exact Bool.false_ne_true)] at h
  split at h
  · rename_i heq
    exact absurd heq (List.cons_ne_nil _ _)
  · rename_i second rest heq
    rw [heq]
    rcases Bool.or_eq_true_iff.mp h with hsecond | hsecond
    · exact ⟨rest, Or.inl (by rw [beq_iff_eq.mp hsecond])⟩
    · exact ⟨rest, Or.inr (by rw [beq_iff_eq.mp hsecond])⟩
  · exact absurd h Bool.false_ne_true

end Shape

namespace Piece

theorem mem_of_mem_layOut {line column : Nat} {ps : List Piece} {l : Lexeme}
    (hl : l ∈ layOut line column ps) : lexeme l.kind l.text ∈ ps := by
  obtain ⟨before, k, u, after, rfl, rfl⟩ := mem_layOut.mp hl
  exact List.mem_append_right _ List.mem_cons_self

/-- A lexeme among the earlier pieces stands before what comes after them. -/
theorem layOut_mem_before {line column : Nat} {before after : List Piece} {k k' : Kind}
    {u w : Text} (h : lexeme k' w ∈ before) :
    ∃ m ∈ layOut line column (before ++ lexeme k u :: after), m.kind = k'
      ∧ m.StandsBefore ⟨line, column + width before, k, u⟩ := by
  obtain ⟨earlier, later, rfl⟩ := List.append_of_mem h
  refine ⟨⟨line, column + width earlier, k', w⟩, ?_, rfl, Or.inr ⟨rfl, ?_⟩⟩
  · exact mem_layOut.mpr ⟨earlier, k', w, _, List.append_assoc .., rfl⟩
  · show column + width earlier + w.length ≤ column + width (earlier ++ lexeme k' w :: later)
    rw [width_eq, width_eq, texts_append, texts_cons, List.length_append, List.length_append, text]
    omega

end Piece

namespace Scan

/-! ## Behind the colon of a header -/

theorem openComment_pieces {c : Context} {t : Text} {cut : Cut} (h : openComment c t = some cut) :
    ∃ u ps, cut.pieces = .lexeme .comment u :: ps := by
  unfold openComment at h
  split at h
  · split at h
    · obtain rfl := Option.some.inj h
      exact ⟨_, _, rfl⟩
    · obtain rfl := Option.some.inj h
      exact ⟨_, _, rfl⟩
  · exact absurd h.symm (Option.some_ne_none _)

/-- Where a comment starts, a comment is cut, be it one that is open already. -/
theorem cut_comment (c : Context) {t rest : Text}
    (h : t = '/' :: '/' :: rest ∨ t = '/' :: '*' :: rest) :
    ∃ u ps, (c.cut t).pieces = .lexeme .comment u :: ps := by
  rw [Context.cut, matchers, List.findSome?_cons]
  cases hopen : openComment c t with
  | some cut => exact openComment_pieces hopen
  | none =>
      rcases h with rfl | rfl
      · exact ⟨_, _, rfl⟩
      · have hline : lineComment c ('/' :: '*' :: rest) = none := rfl
        dsimp only
        rw [List.findSome?_cons, hline, List.findSome?_cons, blockComment]
        dsimp only
        cases Shape.throughClose rest with
        | some closed => exact ⟨_, _, rfl⟩
        | none => exact ⟨_, _, rfl⟩

/-- What is read of a trailer is a comment before it is anything else. -/
theorem Reads.comment_before {c : Context} {v : Text} {ps before after : List Piece} {k : Kind}
    {u : Text} (h : Reads c v ps) (hv : Shape.isTrailer v = true)
    (hsplit : ps = before ++ .lexeme k u :: after) (hk : k ≠ .comment) :
    ∃ w, .lexeme .comment w ∈ before := by
  induction h generalizing before with
  | nil c => exact absurd hsplit (by simp)
  | @gap c a t ps ha h ih =>
      cases before with
      | nil => exact absurd (List.cons.inj hsplit).1 Piece.noConfusion
      | cons p before =>
          rw [Shape.isTrailer_of_blank ha] at hv
          obtain ⟨w, hw⟩ := ih hv (List.cons.inj hsplit).2
          exact ⟨w, List.mem_cons_of_mem _ hw⟩
  | @cut c a rest v ps ha _ _ _ =>
      obtain ⟨rest', hcomment⟩ := Shape.eq_comment_of_isTrailer ha hv
      obtain ⟨w, qs, hpieces⟩ := cut_comment c hcomment
      rw [hpieces] at hsplit
      cases before with
      | nil => exact absurd (Piece.lexeme.inj (List.cons.inj hsplit).1).1.symm hk
      | cons p before =>
          rw [← (List.cons.inj hsplit).1]
          exact ⟨w, List.mem_cons_self⟩

/-- Parameters are read at the start of a row only. -/
theorem Reads.parameter_not_mem {c : Context} {v : Text} {ps : List Piece} {scope : Scope}
    {u : Text} (h : Reads c v ps) (hdone : c.done ≠ []) :
    Piece.lexeme (.parameter scope) u ∉ ps := by
  have hadvance (c : Context) (cut : Cut) (hc : c.done ≠ []) : (c.advance cut).done ≠ [] :=
    fun hnil => hc (List.append_eq_nil_iff.mp hnil).2
  induction h with
  | nil c => exact List.not_mem_nil
  | @gap c a t ps ha h ih =>
      intro hmem
      rcases List.mem_cons.mp hmem with heq | hmem
      · exact nomatch heq
      · exact ih (hadvance c _ hdone) hmem
  | @cut c a rest v ps ha hv h ih =>
      intro hmem
      rcases List.mem_append.mp hmem with hmem | hmem
      · exact hdone ((cut_form c _).isHeader_of_parameter hmem).1
      · exact ih (hadvance c _ hdone) hmem

/-- A row with a parameter is a header and a trailer. -/
theorem cutRow_header {s : State} {row : Text} {scope : Scope} {u : Text}
    (hmem : .lexeme (.parameter scope) u ∈ (cutRow s row).pieces) :
    ∃ header role c v ps, Header.ofText? row = some header
      ∧ (cutRow s row).pieces = header.pieces (.threadName role) ++ ps
      ∧ Reads c v ps ∧ c.done ≠ [] ∧ Shape.isTrailer v = true := by
  have hreads := cutRow_reads s row
  generalize (cutRow s row).pieces = pieces at hreads hmem
  cases hreads with
  | nil => exact absurd hmem List.not_mem_nil
  | gap _ hreads =>
      rcases List.mem_cons.mp hmem with heq | hmem
      · exact nomatch heq
      · exact absurd hmem (hreads.parameter_not_mem (List.cons_ne_nil _ _))
  | @cut _ a rest v ps ha hv hreads =>
      -- the first cut has characters, so all else is read behind something
      have hbegins : ((⟨s, []⟩ : Context).cut (a :: rest)).Begins (a :: rest) := cut_begins _ ha
      have hne : ((⟨s, []⟩ : Context).advance ((⟨s, []⟩ : Context).cut (a :: rest))).done ≠ [] := by
        rw [Context.advance, List.append_nil, ne_eq, List.reverse_eq_nil_iff]
        intro hnil
        have hmoves := hbegins.moves
        rw [hnil] at hmoves
        exact hmoves rfl
      rcases List.mem_append.mp hmem with hmem | hmem
      · obtain ⟨-, header, role, hh, hpieces⟩ := (cut_form _ _).isHeader_of_parameter hmem
        rw [hpieces] at hv ⊢
        obtain ⟨-, runs, hsplits, hcolon⟩ := Header.ofText?_splits hh
        rw [header_rest hsplits hv] at hcolon
        exact ⟨header, role, _, v, ps, hh, rfl, hreads, hne, (Bool.and_eq_true_iff.mp hcolon).2⟩
      · exact absurd hmem (hreads.parameter_not_mem hne)

/-- On a line with a parameter, a comment stands between it and what mentions a variable. -/
theorem layOut_comment_between {s : State} {row : Text} {line : Nat} {p l : Lexeme} {scope : Scope}
    (hp : p ∈ Piece.layOut line 0 (cutRow s row).pieces) (hparameter : p.kind = .parameter scope)
    (hl : l ∈ Piece.layOut line 0 (cutRow s row).pieces) (hmention : l.kind.isMention = true) :
    ∃ m ∈ Piece.layOut line 0 (cutRow s row).pieces, m.kind = .comment ∧ p.StandsBefore m
      ∧ m.StandsBefore l := by
  have hmem := Piece.mem_of_mem_layOut hp
  rw [hparameter] at hmem
  obtain ⟨header, role, c, v, ps, hh, hpieces, hreads, hdone, htrailer⟩ := cutRow_header hmem
  have hordered := Piece.layOut_pairwise line 0 (cutRow s row).pieces
  rw [hpieces, Piece.layOut_append] at hp hl hordered ⊢
  obtain ⟨-, -, hacross⟩ := List.pairwise_append.mp hordered
  -- the parameter stands in the header
  have hp : p ∈ Piece.layOut line 0 (header.pieces (.threadName role)) := by
    rcases List.mem_append.mp hp with hp | hp
    · exact hp
    · have hmem := Piece.mem_of_mem_layOut hp
      rw [hparameter] at hmem
      exact absurd hmem (hreads.parameter_not_mem hdone)
  -- and what mentions a variable behind it
  rcases List.mem_append.mp hl with hl | hl
  · rcases List.mem_append.mp (Piece.mem_of_mem_layOut hl) with hl | hl
    · have hfree := isMention_header rfl hh hl
      exact absurd (hfree.symm.trans hmention) Bool.false_ne_true
    · rw [(Piece.lexeme.inj (List.mem_singleton.mp hl)).1] at hmention
      exact absurd hmention Bool.false_ne_true
  obtain ⟨before, k, u, after, hsplit, rfl⟩ := Piece.mem_layOut.mp hl
  obtain ⟨w, hw⟩ := hreads.comment_before htrailer hsplit (by rintro rfl; exact nomatch hmention)
  rw [hsplit] at hacross ⊢
  obtain ⟨m, hm, hcomment, hbefore⟩ := Piece.layOut_mem_before hw
  exact ⟨m, List.mem_append_right _ hm, hcomment, hacross p hp m hm, hbefore⟩

end Scan

section Text

variable {t : Text} {file : Path} {k : Nat} {p l : Lexeme} {scope : Scope}

/-- On the line of a header, a comment stands between a parameter and what mentions a variable. -/
theorem exists_comment_between (hp : p ∈ (scan t).lexemes) (hparameter : p.kind = .parameter scope)
    (hl : l ∈ (scan t).lexemes) (hmention : l.kind.isMention = true) (hpl : p.line = l.line) :
    ∃ m ∈ (scan t).lexemes, m.kind = .comment ∧ p.StandsBefore m ∧ m.StandsBefore l := by
  obtain ⟨-, row, hrow, -⟩ := scan_lexemes_placed hl
  have hon := Scan.filter_line_ofRows .initial hrow
  have hline (x : Lexeme) (hx : x ∈ (scan t).lexemes) (hxline : x.line = l.line) :
      x ∈ Piece.layOut l.line 0
        (Scan.cutRow (Scan.State.initial.afterRows ((rows t).take l.line)) row).pieces := by
    rw [← hon]
    exact List.mem_filter.mpr ⟨hx, beq_iff_eq.mpr hxline⟩
  obtain ⟨m, hm, hbetween⟩ :=
    Scan.layOut_comment_between (hline p hp hpl) hparameter (hline l hl rfl) hmention
  rw [← hon] at hm
  exact ⟨m, (List.mem_filter.mp hm).1, hbetween⟩

/-! ## The parameters of a thread -/

theorem Site.of_parameterOf? {s : Site} {qualified : Text} (h : s.parameterOf? k = some qualified) :
    ∃ scope, s.lexeme.kind = .parameter scope ∧ s.owner = some k
      ∧ scope.qualify s.lexeme.text = qualified := by
  rw [parameterOf?] at h
  split at h
  · rename_i scope hkind
    obtain ⟨howner, hqualified⟩ := Option.ite_none_right_eq_some.mp h
    exact ⟨scope, hkind, beq_iff_eq.mp howner, Option.some.inj hqualified⟩
  · exact absurd h.symm (Option.some_ne_none _)

/-- What a thread lists as a parameter stands as one on the line of its header. -/
theorem exists_parameter_of_hasParameter {th : Thread} {name : Text}
    (hth : (Document.read file t).threads[k]? = some th)
    (h : th.hasParameter (scope.qualify name) = true) :
    ∃ p ∈ (scan t).lexemes, p.kind = .parameter scope ∧ p.text = name ∧ p.line = th.line := by
  obtain ⟨_, _, hheader, -⟩ := threads_spec hth
  obtain ⟨role, hrole⟩ := exists_role hheader.kind
  have hlisted := hth.symm.trans (getElem?_threads_of_header file hheader hrole)
  rw [Thread.hasParameter, List.contains_iff_mem, Option.some.inj hlisted] at h
  obtain ⟨i, p, hp, hparameter⟩ := mem_filterMap_sites.mp h
  obtain ⟨scope', hkind, howner, hqualified⟩ := Site.of_parameterOf? hparameter
  obtain ⟨rfl, htext⟩ := Scope.qualify_inj.mp hqualified
  -- the thread that owns it has its header on the same line
  obtain ⟨k', th', howner', hth', hline, -⟩ := exists_thread_of_parameter file hp hkind
  obtain rfl : k' = k := Option.some.inj (howner'.symm.trans howner)
  obtain rfl : th' = th := Option.some.inj (hth'.symm.trans hth)
  exact ⟨p, List.mem_of_getElem? hp, hkind, htext, hline.symm⟩

/-- A write counts as a parameter exactly when a parameter of its variable stands on its line. -/
theorem writeKind_eq_parameter_iff {b : Binding} (hb : b ∈ (Document.read file t).bindings) :
    (Document.read file t).writeKind b = .parameter ↔ ∃ p ∈ (scan t).lexemes,
      p.kind = .parameter b.scope ∧ p.text = b.name ∧ p.line = b.span.start.line := by
  have hwrite : (Document.read file t).writeKind b = .parameter
      ↔ ∃ th, (Document.read file t).threads[b.owner]? = some th
        ∧ th.hasParameter (b.scope.qualify b.name) = true ∧ th.line = b.span.start.line := by
    rw [Document.writeKind, Ne.ite_eq_left_iff DefinitionKind.noConfusion, Option.any_eq_true]
    simp only [Bool.and_eq_true, beq_iff_eq, Binding.qualified]
  rw [hwrite]
  constructor
  · rintro ⟨th, hth, hlists, hline⟩
    obtain ⟨p, hp, hkind, htext, hpline⟩ := exists_parameter_of_hasParameter hth hlists
    exact ⟨p, hp, hkind, htext, hpline.trans hline⟩
  · rintro ⟨p, hp, hkind, htext, hline⟩
    obtain ⟨i, hp⟩ := List.mem_iff_getElem?.mp hp
    obtain ⟨j, l, hl, hbinding⟩ := mem_filterMap_sites.mp hb
    obtain ⟨-, howner, hbinding⟩ := Site.of_binding? hbinding
    obtain ⟨k, th, hpowner, hth, hthline, hlists⟩ := exists_thread_of_parameter file hp hkind
    -- one line has one thread, so the parameter is of the thread that owns the write
    have hindex := threadIndexAt_of_owner file hp hpowner
    have hlindex := threadIndexAt_of_owner file hl howner
    have hpl : p.line = l.line := by
      rw [hline, hbinding]
      rfl
    rw [hpl, hlindex] at hindex
    rw [Option.some.inj hindex]
    exact ⟨th, hth, htext ▸ hlists, hthline.trans hline⟩

end Text

/-! ## The index -/

namespace Document

/-- Whether a lexeme writes to a parameter of the header on its own line, behind a comment. -/
def WritesParameter (d : Document) (l : Lexeme) : Prop :=
  ∃ scope, l.kind = .property scope true ∧ ∃ p ∈ d.lexemes, ∃ m ∈ d.lexemes,
    p.kind = .parameter scope ∧ p.text = l.text ∧ p.line = l.line ∧ m.kind = .comment
      ∧ p.StandsBefore m ∧ m.StandsBefore l

/-- What a definition at a lexeme counts as: a parameter if the lexeme is one or writes to one of
    the header on its line, and a variable at any other write. -/
structure CountsAs (d : Document) (l : Lexeme) (kind : DefinitionKind) : Prop where
  parameter : kind = .parameter ↔ (∃ scope, l.kind = .parameter scope) ∨ d.WritesParameter l
  var : kind = .var ↔ (∃ scope, l.kind = .property scope true) ∧ ¬ d.WritesParameter l

end Document

/-- Qualified symbols are those of variables. -/
theorem Site.symbol?_qualified {s : Site} {qualified : Text} {isDefinition : Bool}
    (h : s.symbol? = some (.qualified qualified, isDefinition)) :
    ∃ scope name, Symbol.qualified qualified = .ofVariable scope name := by
  rw [symbol?] at h
  split at h
  case h_3 scope _ => exact ⟨scope, _, (Prod.mk.inj (Option.some.inj h)).1.symm⟩
  case h_4 scope _ _ => exact ⟨scope, _, (Prod.mk.inj (Option.some.inj h)).1.symm⟩
  all_goals exact absurd h (by simp [Symbol.ofName])

namespace SymbolIndex

variable {path file : Path} {t : Text}

/-- A lexeme that is neither a parameter nor a property defines neither. -/
theorem countsAs_name {d : Document} {l : Lexeme} {kind : DefinitionKind}
    (hl : ∀ scope, l.kind ≠ .parameter scope ∧ l.kind ≠ .property scope true)
    (hkind : kind ≠ .parameter ∧ kind ≠ .var) : d.CountsAs l kind := by
  constructor
  · refine iff_of_false hkind.1 ?_
    rintro (⟨scope, h⟩ | ⟨scope, h, -⟩)
    · exact (hl scope).1 h
    · exact (hl scope).2 h
  · refine iff_of_false hkind.2 ?_
    rintro ⟨⟨scope, h⟩, -⟩
    exact (hl scope).2 h

/-- A parameter counts as one. -/
theorem countsAs_parameter {d : Document} {l : Lexeme} {scope : Scope}
    (hkind : l.kind = .parameter scope) : d.CountsAs l .parameter := by
  constructor
  · exact iff_of_true rfl (Or.inl ⟨scope, hkind⟩)
  · refine iff_of_false DefinitionKind.noConfusion ?_
    rintro ⟨⟨scope', h⟩, -⟩
    exact Kind.noConfusion (hkind.symm.trans h)

/-- What a write counts as depends on the parameters of its line, which a comment sets apart. -/
theorem countsAs_write {b : Binding} (hb : b ∈ (Document.read file t).bindings) :
    ∃ l ∈ (scan t).lexemes, l.span = b.span
      ∧ (Document.read file t).CountsAs l ((Document.read file t).writeKind b) := by
  obtain ⟨i, l, hl, hbinding⟩ := mem_filterMap_sites.mp hb
  obtain ⟨hkind, -, hbinding⟩ := Site.of_binding? hbinding
  have hkind' : l.kind = .property b.scope true := hkind
  have hl' : l ∈ (scan t).lexemes := List.mem_of_getElem? hl
  have hspan : b.span = l.span := congrArg Binding.span hbinding
  have hname : b.name = l.text := congrArg Binding.name hbinding
  have hwrites : (Document.read file t).writeKind b = .parameter
      ↔ (Document.read file t).WritesParameter l := by
    rw [writeKind_eq_parameter_iff hb, hspan, hname]
    constructor
    · rintro ⟨p, hp, hparameter, htext, hline⟩
      have hmention : l.kind.isMention = true := by
        rw [hkind']
        rfl
      -- a mention on the line of a header can only stand behind a comment that follows its colon
      obtain ⟨m, hm, hbetween⟩ := exists_comment_between hp hparameter hl' hmention hline
      exact ⟨b.scope, hkind', p, hp, m, hm, hparameter, htext, hline, hbetween⟩
    · rintro ⟨scope, hscope, p, hp, m, -, hparameter, htext, hline, -⟩
      obtain ⟨rfl, -⟩ := Kind.property.inj (hkind'.symm.trans hscope)
      exact ⟨p, hp, hparameter, htext, hline⟩
  refine ⟨l, hl', hspan.symm, ⟨?parameter, ?var⟩⟩
  case parameter =>
    rw [hwrites]
    refine (or_iff_right ?_).symm
    rintro ⟨scope, h⟩
    exact Kind.noConfusion (hkind'.symm.trans h)
  case var =>
    rw [← hwrites, and_iff_right ⟨b.scope, hkind'⟩, Document.writeKind]
    split
    · exact iff_of_false DefinitionKind.noConfusion (not_not_intro rfl)
    · exact iff_of_true rfl DefinitionKind.noConfusion

/-- What occurrences define are variables. -/
theorem symbol_of_occurrence {symbol : Symbol} {x : Definition} (h : (symbol, x)
    ∈ (Document.read file t).occurrences.filterMap (ofOccurrence? path (Document.read file t))) :
    ∃ scope name, symbol = .ofVariable scope name := by
  obtain ⟨o, ho, hx⟩ := List.mem_filterMap.mp h
  obtain ⟨hsymbol, -, qualified, hqualified⟩ := of_ofOccurrence? hx
  obtain ⟨i, l, hl, ho⟩ := mem_filterMap_sites.mp ho
  obtain ⟨⟨symbol', isDefinition⟩, hsite, rfl⟩ := Option.map_eq_some_iff.mp ho
  obtain rfl : symbol' = symbol := hsymbol
  obtain rfl : symbol' = .qualified qualified := hqualified
  exact Site.symbol?_qualified hsite

/-- Every definition of a script stands at a lexeme, which says what it counts as. -/
theorem exists_countsAs {entry : Symbol × Definition}
    (h : entry ∈ definitionsIn path (Document.read file t)) :
    ∃ l ∈ (scan t).lexemes, l.span = entry.2.location.span
      ∧ (Document.read file t).CountsAs l entry.2.kind := by
  obtain ⟨symbol, x⟩ := entry
  rcases List.mem_append.mp h with hname | hvariable
  · rcases List.mem_append.mp hname with hthread | hlabel
    · obtain ⟨th, hth, heq⟩ := List.mem_map.mp hthread
      obtain ⟨-, rfl⟩ := Prod.mk.inj heq
      obtain ⟨k, hth⟩ := List.mem_iff_getElem?.mp hth
      obtain ⟨i, l, hheader, -, hspan, -⟩ := threads_spec hth
      obtain ⟨role, hrole⟩ := exists_role hheader.kind
      refine ⟨l, List.mem_of_getElem? hheader.lexeme, hspan.symm, countsAs_name ?_ ?_⟩
      · intro scope
        rw [hrole]
        exact ⟨Kind.noConfusion, Kind.noConfusion⟩
      · exact ⟨DefinitionKind.noConfusion, DefinitionKind.noConfusion⟩
    · obtain ⟨label, hmem, heq⟩ := List.mem_map.mp hlabel
      obtain ⟨-, rfl⟩ := Prod.mk.inj heq
      obtain ⟨i, l, hl, hkind, -, hspan, -⟩ := mem_labels hmem
      refine ⟨l, List.mem_of_getElem? hl, hspan.symm, countsAs_name ?_ ?_⟩
      · intro scope
        rw [hkind]
        exact ⟨Kind.noConfusion, Kind.noConfusion⟩
      · exact ⟨DefinitionKind.noConfusion, DefinitionKind.noConfusion⟩
  · obtain ⟨scope, name, rfl⟩ := symbol_of_occurrence hvariable
    cases mem_definitionsIn_variable.mp h with
    | @parameter l hl hkind hname => exact ⟨l, hl, rfl, countsAs_parameter hkind⟩
    | write hb hscope hname => exact countsAs_write hb

/-- **KINDS**: every definition of the index stands at a lexeme of its script, and it counts as a
    parameter exactly when that lexeme is a parameter of a header or a write to one behind a comment
    on the line of the header; every other write counts as a variable. -/
theorem definitions_countAs (root : Path) {documents : List (Path × Document)}
    (hread : ∀ entry ∈ documents, ∃ file t, entry.2 = Document.read file t)
    {entry : Symbol × Definition} (h : entry ∈ (build root documents).definitions) :
    ∃ document ∈ documents, document.1 = entry.2.location.path
      ∧ (∃ l ∈ document.2.lexemes, l.span = entry.2.location.span)
      ∧ ∀ l ∈ document.2.lexemes, l.span = entry.2.location.span →
        document.2.CountsAs l entry.2.kind := by
  obtain ⟨document, hdocument, hentry⟩ := mem_definitions.mp h
  obtain ⟨file, t, hd⟩ := hread document hdocument
  have hpath := path_of_mem_definitionsIn hentry
  rw [hd] at hentry
  obtain ⟨l, hl, hspan, hcounts⟩ := exists_countsAs hentry
  refine ⟨document, hdocument, hpath.symm, ?_⟩
  rw [hd]
  refine ⟨⟨l, hl, hspan⟩, ?_⟩
  intro l' hl' hspan'
  obtain ⟨i, hl⟩ := List.mem_iff_getElem?.mp hl
  obtain ⟨j, hl'⟩ := List.mem_iff_getElem?.mp hl'
  obtain ⟨-, rfl⟩ := lexeme_eq_of_span hl hl' (hspan.trans hspan'.symm)
  exact hcounts

/-- A write on the line of the header, behind a comment: it counts as a parameter, and the write on
    the next line does not. -/
theorem definitions_countAs_of_commented_header :
    let a : Path := ⟨"a".toList⟩
    let d := Document.read a "run local.x: /**/ local.x = 1\nlocal.x = 2\nend".toList
    let definitions := (build ⟨[]⟩ [(a, d)]).definitions
    let entry : Symbol × Definition := (.ofVariable .threadLocal ['x'],
      ⟨"local.x".toList, .parameter, ⟨a, ⟨⟨0, 24⟩, ⟨0, 25⟩⟩⟩, some "run".toList, some 0⟩)
    (entry ∈ definitions ∧ definitions.map (·.2.kind) = [.thread, .parameter, .parameter, .var])
      ∧ ∃ document ∈ [(a, d)], document.1 = entry.2.location.path
        ∧ (∃ l ∈ document.2.lexemes, l.span = entry.2.location.span)
        ∧ ∀ l ∈ document.2.lexemes, l.span = entry.2.location.span →
          document.2.CountsAs l entry.2.kind := by
  intro a d definitions entry
  have hdefinitions : entry ∈ definitions
      ∧ definitions.map (·.2.kind) = [.thread, .parameter, .parameter, .var] := by decide +kernel
  have hread (document : Path × Document) (h : document ∈ [(a, d)]) :
      ∃ file t, document.2 = Document.read file t := by
    obtain rfl := List.mem_singleton.mp h
    exact ⟨a, _, rfl⟩
  exact ⟨hdefinitions, definitions_countAs ⟨[]⟩ hread hdefinitions.1⟩

/-- Not every definition that counts as a parameter stands at one: here the second does not. -/
theorem write_counts_as_parameter :
    let a : Path := ⟨"/w/a.scr".toList⟩
    let d := Document.read a "main local.x: /**/ local.x = 1\nend".toList
    ¬ ∀ entry ∈ (build ⟨"/w".toList⟩ [(a, d)]).definitions, ∀ l ∈ d.lexemes,
      l.span = entry.2.location.span →
        (entry.2.kind = .parameter ↔ ∃ scope, l.kind = .parameter scope) := by
  intro a d h
  let entry : Symbol × Definition := (.ofVariable .threadLocal ['x'],
    ⟨"local.x".toList, .parameter, ⟨a, ⟨⟨0, 25⟩, ⟨0, 26⟩⟩⟩, some "main".toList, some 0⟩)
  let l : Lexeme := ⟨0, 25, .property .threadLocal true, ['x']⟩
  obtain ⟨hentry, hl⟩ : entry ∈ (build ⟨"/w".toList⟩ [(a, d)]).definitions ∧ l ∈ d.lexemes := by
    decide +kernel
  obtain ⟨scope, hkind⟩ := (h entry hentry l hl rfl).mp rfl
  exact Kind.noConfusion hkind

end SymbolIndex

end ScriptAtlas
