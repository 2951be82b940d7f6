import ScriptAtlas.Proofs.Document.Sites
import Mathlib.Data.List.Induction

/-! # Ownership — the thread of a place is the thread of its line

    A document says in two ways which thread a place belongs to: each thing it
    lists carries an owner, noted while the lexemes go by, and each line has a
    thread, found from headers and `end` lines (`threadIndexAt`).  The two agree
    but for what stands to the right of a closing `end` on its line.  The route:

    * `threadIndexAt_eq_some_iff` says what the thread of a line is;
    * in a text, a header stands first on its line and a closing `end` after
      comments only, so headers and ends are in order by lines as they are by
      numbers (`thread_line_le_iff`, `IsClosing.line_lt_header`);
    * hence the owner of a lexeme against the thread of its line
      (`ownedBy_lexeme`), and with it the owner of everything a document lists. -/

namespace ScriptAtlas

open Progress

/-! ## The thread of a line -/

/-- The last entry with a property, and its number. -/
theorem findRev?_zipIdx_iff {α : Type} {p : α → Bool} {xs : List α} {a : α} {k : Nat} :
    (xs.zipIdx.findRev? fun e => p e.1) = some (a, k) ↔ xs[k]? = some a ∧ p a = true
      ∧ ∀ k' b, k < k' → xs[k']? = some b → p b = false := by
  induction xs using List.reverseRecOn with
  | nil => simp
  | append_singleton xs x ih =>
      rw [List.zipIdx_append, List.findRev?_eq_find?_reverse, List.reverse_append]
      show List.find? _ ((x, 0 + xs.length) :: xs.zipIdx.reverse) = _ ↔ _
      cases hx : p x with
      | true =>
          rw [List.find?_cons_of_pos (p := fun e : α × Nat => p e.1) hx]
          grind
      | false =>
          rw [List.find?_cons_of_neg (by simp [hx]), ← List.findRev?_eq_find?_reverse, ih]
          grind

/-- The thread of a line is the last one to start there or before, unless it has ended. -/
theorem Document.threadIndexAt_eq_some_iff {d : Document} {line k : Nat} :
    d.threadIndexAt line = some k ↔ ∃ th, d.threads[k]? = some th ∧ th.line ≤ line
      ∧ (∀ k' th', k < k' → d.threads[k']? = some th' → line < th'.line)
      ∧ ∀ e, th.endLine = some e → line ≤ e := by
  -- the search from the end finds the last thread that starts by then; its end is looked at after
  have hfound (th : Thread) : (d.threads.zipIdx.findRev? fun e => decide (e.1.line ≤ line))
      = some (th, k) ↔ d.threads[k]? = some th ∧ th.line ≤ line
        ∧ ∀ k' th', k < k' → d.threads[k']? = some th' → line < th'.line := by
    refine (findRev?_zipIdx_iff (p := fun th : Thread => decide (th.line ≤ line))).trans ?_
    simp only [decide_eq_true_eq, decide_eq_false_iff_not, Nat.not_le]
  have hended (th : Thread) : th.endLine.any (· < line) = false
      ↔ ∀ e, th.endLine = some e → line ≤ e := by
    cases th.endLine <;> simp
  rw [threadIndexAt]
  split
  · rename_i th' k' hfind
    constructor
    · intro h
      obtain ⟨hany, hk⟩ := Option.ite_none_left_eq_some.mp h
      obtain rfl := Option.some.inj hk
      obtain ⟨hth, hline, hlast⟩ := (hfound th').mp hfind
      exact ⟨th', hth, hline, hlast, (hended th').mp (Bool.not_eq_true _ ▸ hany)⟩
    · rintro ⟨th, hth, hline, hlast, hend⟩
      have hsome := (hfound th).mpr ⟨hth, hline, hlast⟩
      obtain ⟨rfl, rfl⟩ := Prod.mk.inj (Option.some.inj (hsome.symm.trans hfind))
      exact if_neg (Bool.not_eq_true _ ▸ (hended th).mpr hend)
  · rename_i hnone
    constructor
    · intro h
      exact absurd h.symm (Option.some_ne_none k)
    · rintro ⟨th, hth, hline, hlast, -⟩
      have hsome := (hfound th).mpr ⟨hth, hline, hlast⟩
      exact absurd (hsome.symm.trans hnone) (Option.some_ne_none _)

namespace Document

/-- Whether a place stands to the right of the `end` that closes the thread of its line. -/
def FollowsEnd (d : Document) (place : Position) : Prop :=
  ∃ k th l, d.threadIndexAt place.line = some k ∧ d.threads[k]? = some th
    ∧ th.endLine = some place.line ∧ l ∈ d.lexemes ∧ l.kind = .threadEnd ∧ l.line = place.line
    ∧ l.endColumn ≤ place.column

/-- Whether an owner is right for a place: a thread is the thread of the line, and without one the
    line has none or the place follows the closing `end`. -/
def OwnedBy (d : Document) (place : Position) : Option Nat → Prop
  | some k => d.threadIndexAt place.line = some k
  | none => d.threadIndexAt place.line = none ∨ d.FollowsEnd place

/-- What a document says about threads, the same in all its lists. -/
structure Ownership (d : Document) : Prop where
  /-- Headers go strictly by line. -/
  headers : d.threads.Pairwise fun a b => a.line < b.line
  /-- An `end` stands strictly between the header of its thread and the next one. -/
  ends : ∀ k th e, d.threads[k]? = some th → th.endLine = some e →
    th.line < e ∧ ∀ next, d.threads[k + 1]? = some next → e < next.line
  /-- There is one label for every lexeme that defines one. -/
  labels : d.labels.map (fun l => (l.name, l.span))
    = (d.lexemes.filter (·.kind == .labelDef)).map fun l => (l.text, l.span)
  labelOwner : ∀ l ∈ d.labels, l.owner < d.threads.length
  bindingOwner : ∀ b ∈ d.bindings, b.owner < d.threads.length
  label : ∀ l ∈ d.labels, d.OwnedBy l.span.start (some l.owner)
  binding : ∀ b ∈ d.bindings, d.OwnedBy b.span.start (some b.owner)
  occurrence : ∀ o ∈ d.occurrences, d.OwnedBy o.span.start o.owner
  call : ∀ c ∈ d.calls, d.OwnedBy c.span.start c.owner
  goto : ∀ g ∈ d.gotos, d.OwnedBy g.span.start g.owner
  crossReference : ∀ r ∈ d.crossReferences, d.OwnedBy r.span.start r.owner

end Document

/-! ## Lines of headers and ends -/

section Text

variable {t : Text} {path : Path} {i j k : Nat} {l m : Lexeme} {th : Thread}

theorem standsBefore_of_lt (hi : (scan t).lexemes[i]? = some l) (hj : (scan t).lexemes[j]? = some m)
    (hij : i < j) : l.StandsBefore m := by
  obtain ⟨hi', rfl⟩ := List.getElem?_eq_some_iff.mp hi
  obtain ⟨hj', rfl⟩ := List.getElem?_eq_some_iff.mp hj
  exact List.pairwise_iff_getElem.mp (Scan.lexemes_ofRows_pairwise .initial 0 _) i j hi' hj' hij

theorem line_le_of_le (hi : (scan t).lexemes[i]? = some l) (hj : (scan t).lexemes[j]? = some m)
    (hij : i ≤ j) : l.line ≤ m.line := by
  rcases Nat.eq_or_lt_of_le hij with rfl | hij
  · obtain rfl : l = m := Option.some.inj (hi.symm.trans hj)
    exact Nat.le_refl _
  · rcases standsBefore_of_lt hi hj hij with hline | ⟨hline, -⟩
    · exact Nat.le_of_lt hline
    · exact Nat.le_of_eq hline

/-- Lexemes that cannot stand one before the other are the same lexeme. -/
theorem number_eq_of_apart {P : Lexeme → Lexeme → Prop} (hsymm : ∀ l m, P l m → P m l)
    (hapart : ∀ (i j : Nat) (l m : Lexeme), (scan t).lexemes[i]? = some l →
      (scan t).lexemes[j]? = some m → i < j → ¬ P l m)
    (hi : (scan t).lexemes[i]? = some l) (hj : (scan t).lexemes[j]? = some m) (h : P l m) :
    i = j := by
  rcases Nat.lt_trichotomy i j with hij | hij | hji
  · exact absurd h (hapart i j l m hi hj hij)
  · exact hij
  · exact absurd (hsymm l m h) (hapart j i m l hj hi hji)

/-- No two lexemes have the same range. -/
theorem lexeme_eq_of_span (hi : (scan t).lexemes[i]? = some l) (hj : (scan t).lexemes[j]? = some m)
    (hspan : l.span = m.span) : i = j ∧ l = m := by
  obtain rfl : i = j := by
    refine number_eq_of_apart (P := fun l m => l.span = m.span) (fun _ _ => Eq.symm) ?_ hi hj hspan
    intro i j l m hi hj hij hspan
    have hlength := (scan_lexemes_placed (List.mem_of_getElem? hi)).1
    have hline : l.line = m.line := congrArg (·.start.line) hspan
    have hcolumn : l.column = m.column := congrArg (·.start.column) hspan
    rcases standsBefore_of_lt hi hj hij with hlt | ⟨-, hend⟩
    · omega
    · rw [Lexeme.endColumn] at hend
      omega
  exact ⟨rfl, Option.some.inj (hi.symm.trans hj)⟩

theorem mem_take_of_lt (hi : (scan t).lexemes[i]? = some l) (hij : i < j) :
    l ∈ (scan t).lexemes.take j := by
  refine List.mem_of_getElem? (i := i) ?_
  rw [List.getElem?_take_of_lt hij, hi]

/-- What stands before a header stands on earlier lines. -/
theorem Progress.IsHeader.line_lt (h : IsHeader (scan t).lexemes k j m)
    (hi : (scan t).lexemes[i]? = some l) (hij : i < j) : l.line < m.line := by
  obtain ⟨role, hrole⟩ := exists_role h.kind
  exact header_first_on_line h.lexeme hrole l (mem_take_of_lt hi hij)

/-- A header stands on the line of a lexeme or before exactly when its thread has been opened once
    the lexeme has passed. -/
theorem Progress.IsHeader.line_le_iff (h : IsHeader (scan t).lexemes k j m)
    (hi : (scan t).lexemes[i]? = some l) :
    m.line ≤ l.line ↔ k < (upTo (scan t).lexemes (i + 1)).opened := by
  rw [← h.lt_iff, Nat.lt_succ_iff]
  constructor
  · intro hline
    by_contra hij
    exact absurd (h.line_lt hi (Nat.lt_of_not_le hij)) (Nat.not_lt.mpr hline)
  · intro hji
    exact line_le_of_le h.lexeme hi hji

/-- The lexeme before a closing `end` on its line are comments, so its header stands on an earlier
    line. -/
theorem Progress.IsClosing.header_line_lt (h : IsClosing (scan t).lexemes k j m)
    (hheader : IsHeader (scan t).lexemes k i l) : l.line < m.line := by
  have hij : i < j := by
    rw [hheader.lt_iff, opened_of_current h.current]
    exact Nat.lt_succ_self k
  refine Nat.lt_of_le_of_ne (line_le_of_le hheader.lexeme h.lexeme (Nat.le_of_lt hij)) ?_
  intro hline
  have hbefore := mem_take_of_lt hheader.lexeme hij
  have hcomment := (threadEnd_in_thread h.lexeme h.kind).2 l hbefore hline
  have hkind := hheader.kind
  rw [hcomment] at hkind
  exact nomatch hkind

/-- A later header stands below a closing `end`. -/
theorem Progress.IsClosing.line_lt_header {k' : Nat} (h : IsClosing (scan t).lexemes k j m)
    (hheader : IsHeader (scan t).lexemes k' i l) (hk : k < k') : m.line < l.line := by
  refine hheader.line_lt h.lexeme ?_
  by_contra hij
  have hi : i < j + 1 := Nat.lt_succ_of_le (Nat.le_of_not_lt hij)
  rw [hheader.lt_iff, h.upTo_succ] at hi
  exact absurd hk (Nat.not_lt.mpr (Nat.le_of_lt_succ hi))

/-- Every thread that has been opened is listed, with its header. -/
theorem exists_thread (path : Path) (h : k < (upTo (scan t).lexemes i).opened) :
    ∃ th, (Document.read path t).threads[k]? = some th := by
  have hlength := opened_le_length_threads path t i
  exact ⟨_, List.getElem?_eq_getElem (Nat.lt_of_lt_of_le h hlength)⟩

/-- A thread starts on the line of a lexeme or before exactly when it has been opened once the
    lexeme has passed. -/
theorem thread_line_le_iff (hth : (Document.read path t).threads[k]? = some th)
    (hl : (scan t).lexemes[i]? = some l) :
    th.line ≤ l.line ↔ k < (upTo (scan t).lexemes (i + 1)).opened := by
  obtain ⟨j, m, hheader, -, hspan, -⟩ := threads_spec hth
  have hline : th.line = m.line := by
    rw [Thread.line, hspan]
    rfl
  rw [hline, hheader.line_le_iff hl]

/-! ## The owner of a lexeme -/

/-- Once a lexeme has passed, the thread that owns it is the one opened last. -/
theorem opened_of_owner (hl : (scan t).lexemes[i]? = some l)
    (howner : (upTo (scan t).lexemes i).owner l = some k) :
    (upTo (scan t).lexemes (i + 1)).opened = k + 1 := by
  rw [upTo_succ hl]
  cases hname : l.kind.isThreadName with
  | true =>
      obtain ⟨role, hrole⟩ := exists_role hname
      rw [owner_header hrole] at howner
      rw [step_header hrole, Option.some.inj howner]
  | false =>
      rw [owner_other hname] at howner
      rw [opened_step hname, opened_of_current howner]

/-- A thread owns nothing that comes after its closing `end`. -/
theorem Progress.IsClosing.le_of_owner (h : IsClosing (scan t).lexemes k j m)
    (hl : (scan t).lexemes[i]? = some l) (howner : (upTo (scan t).lexemes i).owner l = some k) :
    i ≤ j := by
  cases hname : l.kind.isThreadName with
  | true =>
      obtain ⟨role, hrole⟩ := exists_role hname
      rw [owner_header hrole] at howner
      have hheader : IsHeader (scan t).lexemes k i l := ⟨hl, hname, Option.some.inj howner⟩
      refine Nat.le_of_lt (hheader.lt_iff.mpr ?_)
      rw [opened_of_current h.current]
      exact Nat.lt_succ_self k
  | false =>
      rw [owner_other hname] at howner
      by_contra hji
      exact h.current_ne (Nat.lt_of_not_le hji) howner

theorem threadIndexAt_of_owner (path : Path) (hl : (scan t).lexemes[i]? = some l)
    (howner : (upTo (scan t).lexemes i).owner l = some k) :
    (Document.read path t).threadIndexAt l.line = some k := by
  have hopened := opened_of_owner hl howner
  obtain ⟨th, hth⟩ := exists_thread path (Nat.lt_of_lt_of_eq (Nat.lt_succ_self k) hopened.symm)
  refine Document.threadIndexAt_eq_some_iff.mpr ⟨th, hth, ?_, ?_, ?_⟩
  · rw [thread_line_le_iff hth hl, hopened]
    exact Nat.lt_succ_self k
  · intro k' th' hk hth'
    rw [← Nat.not_le, thread_line_le_iff hth' hl, hopened]
    omega
  · intro e he
    obtain ⟨-, -, -, -, -, hend⟩ := threads_spec hth
    obtain ⟨j, m, hclosing, rfl⟩ := (hend e).mp he
    exact line_le_of_le hl hclosing.lexeme (hclosing.le_of_owner hl howner)

/-- What no thread owns, on a line that has a thread, follows the closing `end`. -/
theorem followsEnd_of_owner (hl : (scan t).lexemes[i]? = some l)
    (howner : (upTo (scan t).lexemes i).owner l = none)
    (hline : (Document.read path t).threadIndexAt l.line = some k) :
    (Document.read path t).FollowsEnd ⟨l.line, l.column⟩ := by
  have hname : l.kind.isThreadName = false := by
    by_contra hname
    obtain ⟨role, hrole⟩ := exists_role (Bool.not_eq_false _ ▸ hname)
    rw [owner_header hrole] at howner
    exact nomatch howner
  rw [owner_other hname] at howner
  obtain ⟨th, hth, hstart, hlast, hend⟩ := Document.threadIndexAt_eq_some_iff.mp hline
  obtain ⟨-, -, -, -, -, hclosed⟩ := threads_spec hth
  -- a thread opened after this one would start on the line or above, and be the thread of the line
  have hopened : (upTo (scan t).lexemes i).opened = k + 1 := by
    rw [thread_line_le_iff hth hl, upTo_succ hl, opened_step hname] at hstart
    refine Nat.le_antisymm (Nat.le_of_not_lt ?_) hstart
    intro hnext
    obtain ⟨th', hth'⟩ := exists_thread path hnext
    have hbelow := hlast (k + 1) th' (Nat.lt_succ_self k) hth'
    rw [← Nat.not_le, thread_line_le_iff hth' hl, upTo_succ hl, opened_step hname] at hbelow
    exact hbelow hnext
  have hends (j : Nat) (m : Lexeme) (hm : (scan t).lexemes[j]? = some m)
      (hk : m.kind = .threadEnd) : (upTo (scan t).lexemes j).current.isSome = true := by
    rw [isSome_current]
    exact (threadEnd_in_thread hm hk).1
  obtain ⟨j, m, hji, hclosing⟩ := exists_closing hends howner hopened
  have he : th.endLine = some m.line := (hclosed m.line).mpr ⟨j, m, hclosing, rfl⟩
  -- the line is not below the `end`, and the lexeme comes after it
  have hle := hend m.line he
  rcases standsBefore_of_lt hclosing.lexeme hl hji with hlt | ⟨heq, hcolumn⟩
  · exact absurd hlt (Nat.not_lt.mpr hle)
  · exact ⟨k, th, m, hline, hth, heq ▸ he, List.mem_of_getElem? hclosing.lexeme, hclosing.kind, heq,
      hcolumn⟩

/-- A line holds at most one `end` that closes a thread. -/
theorem threadEnd_number_unique (hi : (scan t).lexemes[i]? = some l)
    (hj : (scan t).lexemes[j]? = some m) (hl : l.kind = .threadEnd) (hm : m.kind = .threadEnd)
    (hline : l.line = m.line) : i = j := by
  refine number_eq_of_apart
    (P := fun l m => l.kind = .threadEnd ∧ m.kind = .threadEnd ∧ l.line = m.line)
    (fun _ _ h => ⟨h.2.1, h.1, h.2.2.symm⟩) ?_ hi hj ⟨hl, hm, hline⟩
  rintro i j l m hi hj hij ⟨hl, hm, hline⟩
  have hcomment := (threadEnd_in_thread hj hm).2 l (mem_take_of_lt hi hij) hline
  rw [hl] at hcomment
  exact nomatch hcomment

/-- What a thread owns does not follow its closing `end`. -/
theorem not_followsEnd_of_owner (hl : (scan t).lexemes[i]? = some l)
    (howner : (upTo (scan t).lexemes i).owner l = some k) :
    ¬ (Document.read path t).FollowsEnd l.span.start := by
  rintro ⟨k', th, m, hline, hth, hend, hm, hkind, hmline, hcolumn⟩
  obtain rfl : k = k' := Option.some.inj ((threadIndexAt_of_owner path hl howner).symm.trans hline)
  obtain ⟨-, -, -, -, -, hclosed⟩ := threads_spec hth
  obtain ⟨j, m', hclosing, hm'line⟩ := (hclosed _).mp hend
  obtain ⟨j', hm⟩ := List.mem_iff_getElem?.mp hm
  -- the `end` on the left closes the thread, and a thread owns nothing after that
  obtain rfl : j = j' :=
    threadEnd_number_unique hclosing.lexeme hm hclosing.kind hkind (hm'line.trans hmline.symm)
  have hlength := (scan_lexemes_placed (List.mem_of_getElem? hl)).1
  have hlength' := (scan_lexemes_placed (List.mem_of_getElem? hm)).1
  have hleft : m.column + m.length ≤ l.column := hcolumn
  have hmline' : m.line = l.line := hmline
  rcases Nat.eq_or_lt_of_le (hclosing.le_of_owner hl howner) with rfl | hij
  · obtain rfl : l = m := Option.some.inj (hl.symm.trans hm)
    omega
  · rcases standsBefore_of_lt hl hm hij with hlt | ⟨-, hright⟩
    · omega
    · rw [Lexeme.endColumn] at hright
      omega

/-- The owner of a lexeme is right for the place where it starts. -/
theorem ownedBy_lexeme (path : Path) (hl : (scan t).lexemes[i]? = some l) :
    (Document.read path t).OwnedBy l.span.start ((upTo (scan t).lexemes i).owner l) := by
  cases howner : (upTo (scan t).lexemes i).owner l with
  | some k => exact threadIndexAt_of_owner path hl howner
  | none =>
      cases hline : (Document.read path t).threadIndexAt l.line with
      | none => exact Or.inl hline
      | some k => exact Or.inr (followsEnd_of_owner hl howner hline)

/-! ## Everything a document lists -/

/-- Labels are defined in threads only, so every lexeme that defines one yields it. -/
theorem label?_labelDef (path : Path) (hl : (scan t).lexemes[i]? = some l)
    (hkind : l.kind = .labelDef) :
    ∃ k thread, (Site.ofNumber (scan t).lexemes i l).label? (Document.read path t).threads
      = some ⟨l.text, k, thread, l.span⟩ := by
  have hopen := labelDef_in_thread hl hkind
  rw [← isSome_current] at hopen
  obtain ⟨k, hcurrent⟩ := Option.isSome_iff_exists.mp hopen
  obtain ⟨th, hth⟩ := exists_thread path
    (Nat.lt_of_lt_of_eq (Nat.lt_succ_self k) (opened_of_current hcurrent).symm)
  have howner : (upTo (scan t).lexemes i).owner l = some k := by
    rw [owner_other (by rw [hkind]; rfl), hcurrent]
  exact ⟨k, th.name, Site.label?_eq_some_iff.mpr ⟨hkind, k, th, howner, hth, rfl⟩⟩

theorem label?_other {threads : List Thread} {s : Site} (hkind : s.lexeme.kind ≠ .labelDef) :
    s.label? threads = none := by
  rw [Option.eq_none_iff_forall_ne_some]
  intro label hlabel
  exact hkind (Site.label?_eq_some_iff.mp hlabel).1

theorem labels_eq (path : Path) (t : Text) :
    (Document.read path t).labels.map (fun label => (label.name, label.span))
      = ((scan t).lexemes.filter (·.kind == .labelDef)).map fun l => (l.text, l.span) := by
  rw [← List.filterMap_eq_filter, List.map_filterMap]
  show ((Document.sites t).filterMap (Site.label? (Document.read path t).threads)).map _ = _
  rw [List.map_filterMap]
  refine filterMap_sites ?_
  intro i l hl
  by_cases hkind : l.kind = .labelDef
  · obtain ⟨k, thread, hlabel⟩ := label?_labelDef path hl hkind
    rw [hlabel]
    simp [Option.guard, hkind]
  · rw [label?_other hkind]
    simp [Option.guard, hkind]

/-- What an owner owns shows that the owner is a thread of the document. -/
theorem owner_lt_length (path : Path) (hl : (scan t).lexemes[i]? = some l)
    (howner : (upTo (scan t).lexemes i).owner l = some k) :
    k < (Document.read path t).threads.length := by
  have hlength := opened_le_length_threads path t (i + 1)
  rw [opened_of_owner hl howner] at hlength
  exact hlength

theorem mem_labels {label : Label} (h : label ∈ (Document.read path t).labels) :
    ∃ i l, (scan t).lexemes[i]? = some l ∧ l.kind = .labelDef ∧ label.name = l.text
      ∧ label.span = l.span ∧ (upTo (scan t).lexemes i).owner l = some label.owner := by
  obtain ⟨i, l, hl, hlabel⟩ := mem_filterMap_sites.mp h
  obtain ⟨hkind, k, th, howner, -, rfl⟩ := Site.label?_eq_some_iff.mp hlabel
  exact ⟨i, l, hl, hkind, rfl, rfl, howner⟩

theorem ownedBy_jump {keywords : List Text} {jump : Jump}
    (h : jump ∈ (Document.sites t).filterMap (Site.jump? keywords)) :
    (Document.read path t).OwnedBy jump.span.start jump.owner := by
  obtain ⟨i, l, hl, hjump⟩ := mem_filterMap_sites.mp h
  obtain ⟨-, j, target, -, htarget, -, -, rfl⟩ := jump?_ofNumber hl hjump
  exact ownedBy_lexeme path htarget

/-- Headers go strictly by line. -/
theorem header_lines_increase (path : Path) (t : Text) :
    (Document.read path t).threads.Pairwise fun a b => a.line < b.line := by
  rw [List.pairwise_iff_getElem]
  intro k k' hk hk' hlt
  obtain ⟨i, l, hheader, -, hspan, -⟩ := threads_spec (List.getElem?_eq_getElem hk)
  obtain ⟨i', l', hheader', -, hspan', -⟩ := threads_spec (List.getElem?_eq_getElem hk')
  rw [Thread.line, Thread.line, hspan, hspan']
  refine hheader'.line_lt hheader.lexeme ?_
  rw [hheader.lt_iff, hheader'.opened]
  exact hlt

/-- An `end` stands strictly between its header and the next one. -/
theorem end_between_headers {e : Nat} (hth : (Document.read path t).threads[k]? = some th)
    (he : th.endLine = some e) :
    th.line < e ∧ ∀ next, (Document.read path t).threads[k + 1]? = some next → e < next.line := by
  obtain ⟨i, l, hheader, -, hspan, hend⟩ := threads_spec hth
  obtain ⟨j, m, hclosing, rfl⟩ := (hend e).mp he
  constructor
  · rw [Thread.line, hspan]
    exact hclosing.header_line_lt hheader
  · intro next hnext
    obtain ⟨i', l', hheader', -, hspan', -⟩ := threads_spec hnext
    rw [Thread.line, hspan']
    exact hclosing.line_lt_header hheader' (Nat.lt_succ_self k)

end Text

/-- **OWNERSHIP**: in the document of any text, headers and ends delimit the threads by lines,
    labels and bindings belong to threads, and the owner of everything listed is the thread of its
    line, but for what follows a closing `end`. -/
theorem read_ownership (path : Path) (t : Text) : (Document.read path t).Ownership := by
  refine ⟨header_lines_increase path t, fun _ _ _ => end_between_headers, labels_eq path t,
    ?labelOwner, ?bindingOwner, ?label, ?binding, ?occurrence, fun _ => ownedBy_jump,
    fun _ => ownedBy_jump, ?crossReference⟩
  case labelOwner =>
    intro label h
    obtain ⟨i, l, hl, -, -, -, howner⟩ := mem_labels h
    exact owner_lt_length path hl howner
  case bindingOwner =>
    intro b h
    obtain ⟨i, l, hl, hb⟩ := mem_filterMap_sites.mp h
    exact owner_lt_length path hl (Site.of_binding? hb).2.1
  case label =>
    intro label h
    obtain ⟨i, l, hl, -, -, hspan, howner⟩ := mem_labels h
    rw [hspan, ← howner]
    exact ownedBy_lexeme path hl
  case binding =>
    intro b h
    obtain ⟨i, l, hl, hb⟩ := mem_filterMap_sites.mp h
    obtain ⟨-, howner, hb'⟩ := Site.of_binding? hb
    rw [hb', ← howner]
    exact ownedBy_lexeme path hl
  case occurrence =>
    intro o h
    obtain ⟨i, l, hl, ho⟩ := mem_filterMap_sites.mp h
    obtain ⟨_, -, rfl⟩ := Option.map_eq_some_iff.mp ho
    exact ownedBy_lexeme path hl
  case crossReference =>
    intro r h
    obtain ⟨i, l, hl, hr⟩ := mem_filterMap_sites.mp h
    obtain ⟨-, -, -, -, -, rfl⟩ := Site.of_crossReference? hr
    exact ownedBy_lexeme path hl

end ScriptAtlas
