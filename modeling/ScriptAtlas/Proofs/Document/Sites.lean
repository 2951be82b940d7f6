import ScriptAtlas.Document.Lookup
import ScriptAtlas.Proofs.Scan.Kinds
import ScriptAtlas.Proofs.Sorting
import Mathlib.Data.Nat.Init
import Mathlib.Data.List.Basic

/-! # Sites — what a document lists, lexeme by lexeme

    Everything a document lists is a selection of its sites, and a site is a
    lexeme with its surroundings.  Here sites are tied to the numbers of their
    lexemes.  The route:

    * which thread is open follows from the lexemes before (`Progress`), and so
      does the owner of a site (`getElem?_sites`);
    * the thread with number `k` has its header where `k` threads have been
      opened (`IsHeader`), and its `end` is the one lexeme that closes it
      (`IsClosing`, `IsClosing.unique`);
    * hence the threads of a document in terms of lexemes (`threads_spec`). -/

namespace ScriptAtlas

/-- How many threads have been opened, and which one is open. -/
structure Progress where
  opened : Nat
  current : Option Nat

namespace Progress

/-- The progress after one more lexeme. -/
def step (p : Progress) (l : Lexeme) : Progress :=
  match l.kind with
  | .threadName _ => ⟨p.opened + 1, some p.opened⟩
  | .threadEnd => ⟨p.opened, none⟩
  | _ => p

/-- The thread that the next lexeme belongs to. -/
def owner (p : Progress) (l : Lexeme) : Option Nat :=
  match l.kind with
  | .threadName _ => some p.opened
  | _ => p.current

/-- The progress after the first lexemes. -/
def upTo (ls : List Lexeme) (count : Nat) : Progress := (ls.take count).foldl step ⟨0, none⟩

variable {p : Progress} {l : Lexeme} {ls : List Lexeme} {i j k : Nat}

theorem step_header {role : ThreadRole} (h : l.kind = .threadName role) :
    p.step l = ⟨p.opened + 1, some p.opened⟩ := by
  rw [step, h]

theorem step_threadEnd (h : l.kind = .threadEnd) : p.step l = ⟨p.opened, none⟩ := by
  rw [step, h]

theorem step_other (h : l.kind.boundsThread = false) : p.step l = p := by
  rw [step]
  cases hk : l.kind with
  | threadName role => exact absurd (hk ▸ h) Bool.noConfusion
  | threadEnd => exact absurd (hk ▸ h) Bool.noConfusion
  | _ => rfl

theorem owner_header {role : ThreadRole} (h : l.kind = .threadName role) :
    p.owner l = some p.opened := by
  rw [owner, h]

theorem owner_other (h : l.kind.isThreadName = false) : p.owner l = p.current := by
  rw [owner]
  cases hk : l.kind with
  | threadName role => exact absurd (hk ▸ h) Bool.noConfusion
  | _ => rfl

/-- Every lexeme opens a thread, closes one, or does neither. -/
theorem kind_cases (l : Lexeme) : (∃ role, l.kind = .threadName role) ∨ l.kind = .threadEnd
    ∨ l.kind.boundsThread = false := by
  cases hk : l.kind with
  | threadName role => exact Or.inl ⟨role, rfl⟩
  | threadEnd => exact Or.inr (Or.inl rfl)
  | _ => exact Or.inr (Or.inr rfl)

theorem exists_role (h : l.kind.isThreadName = true) : ∃ role, l.kind = .threadName role := by
  cases hk : l.kind with
  | threadName role => exact ⟨role, rfl⟩
  | _ =>
      rw [hk] at h
      exact nomatch h

/-- Only headers open threads. -/
theorem opened_step (h : l.kind.isThreadName = false) : (p.step l).opened = p.opened := by
  rcases kind_cases l with ⟨role, hk⟩ | hk | hk
  · rw [hk] at h
    exact nomatch h
  · rw [step_threadEnd hk]
  · rw [step_other hk]

theorem upTo_succ (h : ls[i]? = some l) : upTo ls (i + 1) = (upTo ls i).step l := by
  rw [upTo, List.take_add_one, h, List.foldl_append]
  rfl

theorem upTo_succ_of_none (h : ls[i]? = none) : upTo ls (i + 1) = upTo ls i := by
  rw [upTo, List.take_add_one, h]
  exact congrArg (List.foldl step _) (List.append_nil _)

/-- What one more lexeme keeps holds after any number of lexemes. -/
theorem upTo_induction {P : Progress → Prop} (hij : i ≤ j) (hstart : P (upTo ls i))
    (hstep : ∀ m l, i ≤ m → m < j → ls[m]? = some l → P (upTo ls m) → P ((upTo ls m).step l)) :
    P (upTo ls j) := by
  induction j, hij using Nat.le_induction with
  | base => exact hstart
  | succ j hij ih =>
      have hj := ih fun m l him hmj => hstep m l him (Nat.lt_succ_of_lt hmj)
      cases hl : ls[j]? with
      | none =>
          rw [upTo_succ_of_none hl]
          exact hj
      | some l =>
          rw [upTo_succ hl]
          exact hstep j l hij (Nat.lt_succ_self j) hl hj

theorem opened_le_step : p.opened ≤ (p.step l).opened := by
  cases hname : l.kind.isThreadName with
  | true =>
      obtain ⟨role, h⟩ := exists_role hname
      rw [step_header h]
      exact Nat.le_succ p.opened
  | false => exact Nat.le_of_eq (opened_step hname).symm

theorem opened_mono (hij : i ≤ j) : (upTo ls i).opened ≤ (upTo ls j).opened := by
  refine upTo_induction (P := fun p => (upTo ls i).opened ≤ p.opened) hij (Nat.le_refl _) ?_
  intro m l _ _ _ ih
  exact Nat.le_trans ih opened_le_step

/-- A thread that is open after a lexeme was open before it, or the lexeme is its header. -/
theorem current_step (h : (p.step l).current = some k) :
    p.step l = p ∨ p.opened = k ∧ p.step l = ⟨k + 1, some k⟩ := by
  rcases kind_cases l with ⟨role, hk⟩ | hk | hk
  · rw [step_header hk] at h ⊢
    obtain rfl : p.opened = k := Option.some.inj h
    exact Or.inr ⟨rfl, rfl⟩
  · rw [step_threadEnd hk] at h
    exact nomatch h
  · exact Or.inl (step_other hk)

/-- The open thread is the one that was opened last. -/
theorem opened_of_current (h : (upTo ls i).current = some k) : (upTo ls i).opened = k + 1 := by
  refine upTo_induction (P := fun p => ∀ k, p.current = some k → p.opened = k + 1) (Nat.zero_le i)
    (fun _ h => nomatch h) ?_ k h
  intro m l _ _ _ ih k h
  rcases current_step h with hsame | ⟨-, hopens⟩
  · rw [hsame] at h ⊢
    exact ih k h
  · rw [hopens]

/-- A thread that is open later was open before, or was not opened yet. -/
theorem current_of_le (hij : i ≤ j) (h : (upTo ls j).current = some k) :
    (upTo ls i).current = some k ∨ (upTo ls i).opened ≤ k := by
  -- the count comes along: a header opens the thread whose number the count has reached
  refine (upTo_induction (P := fun p => (upTo ls i).opened ≤ p.opened ∧ ∀ k, p.current = some k →
    (upTo ls i).current = some k ∨ (upTo ls i).opened ≤ k) hij ⟨Nat.le_refl _, fun _ => Or.inl⟩
    ?_).2 k h
  rintro m l _ _ _ ⟨hopened, ih⟩
  refine ⟨Nat.le_trans hopened opened_le_step, ?_⟩
  intro k h
  rcases current_step h with hsame | ⟨rfl, -⟩
  · rw [hsame] at h
    exact ih k h
  · exact Or.inr hopened

/-- A thread is open exactly when the last lexeme to bound one is a header. -/
theorem isSome_current (ls : List Lexeme) (i : Nat) :
    (upTo ls i).current.isSome = (ls.take i).foldl stepOpen false := by
  have hfold : ∀ (ls : List Lexeme) (p : Progress),
      (ls.foldl step p).current.isSome = ls.foldl stepOpen p.current.isSome := by
    intro ls
    induction ls with
    | nil => exact fun _ => rfl
    | cons l ls ih =>
        intro p
        rw [List.foldl_cons, List.foldl_cons, ih]
        congr 1
        rw [step, stepOpen]
        cases l.kind <;> rfl
  exact hfold (ls.take i) ⟨0, none⟩

/-- Lexemes that do not bound threads make no progress. -/
theorem upTo_eq_of_forall (hij : i ≤ j)
    (h : ∀ m l, i ≤ m → m < j → ls[m]? = some l → l.kind.boundsThread = false) :
    upTo ls j = upTo ls i := by
  refine upTo_induction (P := fun p => p = upTo ls i) hij rfl ?_
  intro m l him hmj hl ih
  rw [step_other (h m l him hmj hl)]
  exact ih

/-! ## Headers and closing ends -/

/-- The lexeme with number `i` is the header of thread `k`. -/
structure IsHeader (ls : List Lexeme) (k i : Nat) (l : Lexeme) : Prop where
  lexeme : ls[i]? = some l
  kind : l.kind.isThreadName = true
  opened : (upTo ls i).opened = k

/-- The lexeme with number `i` is the `end` that closes thread `k`. -/
structure IsClosing (ls : List Lexeme) (k i : Nat) (l : Lexeme) : Prop where
  lexeme : ls[i]? = some l
  kind : l.kind = .threadEnd
  current : (upTo ls i).current = some k

theorem IsHeader.upTo_succ (h : IsHeader ls k i l) : upTo ls (i + 1) = ⟨k + 1, some k⟩ := by
  obtain ⟨role, hrole⟩ := exists_role h.kind
  rw [Progress.upTo_succ h.lexeme, step_header hrole, h.opened]

theorem IsClosing.upTo_succ (h : IsClosing ls k i l) : upTo ls (i + 1) = ⟨k + 1, none⟩ := by
  rw [Progress.upTo_succ h.lexeme, step_threadEnd h.kind, opened_of_current h.current]

/-- A header stands among the first lexemes exactly when its thread has been opened there. -/
theorem IsHeader.lt_iff (h : IsHeader ls k i l) : i < j ↔ k < (upTo ls j).opened := by
  constructor
  · intro hij
    have hmono : (upTo ls (i + 1)).opened ≤ (upTo ls j).opened := opened_mono hij
    rw [h.upTo_succ] at hmono
    exact hmono
  · intro hk
    by_contra hji
    have hmono : (upTo ls j).opened ≤ (upTo ls i).opened := opened_mono (Nat.le_of_not_lt hji)
    rw [h.opened] at hmono
    omega

/-- A thread that has been closed does not open again. -/
theorem IsClosing.current_ne (h : IsClosing ls k i l) (hij : i < j) :
    (upTo ls j).current ≠ some k := by
  intro hcurrent
  have hclosed := h.upTo_succ
  rcases current_of_le hij hcurrent with hopen | hopened
  · rw [hclosed] at hopen
    exact nomatch hopen
  · rw [hclosed] at hopened
    exact absurd hopened (Nat.not_succ_le_self k)

/-- At most one `end` closes a thread. -/
theorem IsClosing.unique {m : Lexeme} (h : IsClosing ls k i l) (h' : IsClosing ls k j m) :
    i = j := by
  rcases Nat.lt_trichotomy i j with hij | hij | hji
  · exact absurd h'.current (h.current_ne hij)
  · exact hij
  · exact absurd h.current (h'.current_ne hji)

/-- Where no thread is open, the one opened last has been closed. -/
theorem exists_closing (hends : ∀ m l, ls[m]? = some l → l.kind = .threadEnd →
      (upTo ls m).current.isSome = true)
    (hnone : (upTo ls j).current = none) (hopened : (upTo ls j).opened = k + 1) :
    ∃ i l, i < j ∧ IsClosing ls k i l := by
  induction j with
  | zero => exact nomatch hopened
  | succ j ih =>
      have hearlier (hnone : (upTo ls j).current = none) (hopened : (upTo ls j).opened = k + 1) :
          ∃ i l, i < j + 1 ∧ IsClosing ls k i l := by
        obtain ⟨i, l, hij, hclosing⟩ := ih hnone hopened
        exact ⟨i, l, Nat.lt_succ_of_lt hij, hclosing⟩
      cases hl : ls[j]? with
      | none =>
          rw [upTo_succ_of_none hl] at hnone hopened
          exact hearlier hnone hopened
      | some l =>
          rw [upTo_succ hl] at hnone hopened
          rcases kind_cases l with ⟨role, hkind⟩ | hkind | hkind
          · rw [step_header hkind] at hnone
            exact nomatch hnone
          · rw [step_threadEnd hkind] at hopened
            obtain ⟨k', hcurrent⟩ := Option.isSome_iff_exists.mp (hends j l hl hkind)
            have hk : k' + 1 = k + 1 := (opened_of_current hcurrent).symm.trans hopened
            rw [Nat.succ.inj hk] at hcurrent
            exact ⟨j, l, Nat.lt_succ_self j, hl, hkind, hcurrent⟩
          · rw [step_other hkind] at hnone hopened
            exact hearlier hnone hopened

end Progress

/-! ## The sites of a text -/

open Progress

/-- The site of a lexeme, given all lexemes and its number. -/
def Site.ofNumber (ls : List Lexeme) (i : Nat) (l : Lexeme) : Site :=
  ⟨l, (upTo ls i).owner l, (ls.take i).reverse, ls.drop (i + 1)⟩

theorem Site.getElem?_ofLexemes (p : Progress) (before ls : List Lexeme) (i : Nat) :
    (ofLexemes p.opened p.current before ls)[i]? = ls[i]?.map fun l =>
      ⟨l, ((ls.take i).foldl step p).owner l, (ls.take i).reverse ++ before, ls.drop (i + 1)⟩ := by
  induction ls generalizing p before i with
  | nil => rfl
  | cons l ls ih =>
      have hcons : ofLexemes p.opened p.current before (l :: ls)
          = ⟨l, p.owner l, before, ls⟩
            :: ofLexemes (p.step l).opened (p.step l).current (l :: before) ls := by
        rw [ofLexemes, Progress.owner, step]
        cases l.kind <;> rfl
      rw [hcons]
      cases i with
      | zero => rfl
      | succ i =>
          rw [List.getElem?_cons_succ, List.getElem?_cons_succ, ih (p.step l) (l :: before) i]
          simp

/-- The sites of a text. -/
def Document.sites (t : Text) : List Site := Site.ofLexemes 0 none [] (scan t).lexemes

variable {t : Text}

/-- The sites of a text are those of its lexemes. -/
theorem getElem?_sites (i : Nat) : (Document.sites t)[i]?
    = (scan t).lexemes[i]?.map (Site.ofNumber (scan t).lexemes i) := by
  have h := Site.getElem?_ofLexemes ⟨0, none⟩ [] (scan t).lexemes i
  simp only [List.append_nil] at h
  exact h

theorem mem_sites {s : Site} : s ∈ Document.sites t
    ↔ ∃ i l, (scan t).lexemes[i]? = some l ∧ s = Site.ofNumber (scan t).lexemes i l := by
  rw [List.mem_iff_getElem?]
  constructor
  · rintro ⟨i, hs⟩
    rw [getElem?_sites] at hs
    obtain ⟨l, hl, rfl⟩ := Option.map_eq_some_iff.mp hs
    exact ⟨i, l, hl, rfl⟩
  · rintro ⟨i, l, hl, rfl⟩
    refine ⟨i, ?_⟩
    rw [getElem?_sites, hl]
    rfl

theorem lexemes_sites : (Document.sites t).map (·.lexeme) = (scan t).lexemes := by
  ext1 i
  rw [List.getElem?_map, getElem?_sites]
  cases (scan t).lexemes[i]? <;> rfl

/-- Sites go by line and column. -/
theorem sites_ordered (t : Text) :
    (Document.sites t).Pairwise fun a b => a.lexeme.StartsBefore b.lexeme := by
  rw [← List.pairwise_map, lexemes_sites]
  exact scan_lexemes_ordered t

theorem Lexeme.StartsBefore.order_eq {a b : Lexeme} (h : a.StartsBefore b) :
    a.span.start.order b.span.start = .lt := by
  rcases h with hline | ⟨hline, hcolumn⟩
  · exact Position.order_of_line_lt hline
  · exact Position.order_of_column_lt hline hcolumn

/-- What is selected from the sites, each at the range of its lexeme, goes by line and column. -/
theorem filterMap_sites_ordered {β : Type} {f : Site → Option β} (span : β → Span)
    (hspan : ∀ {s b}, f s = some b → span b = s.lexeme.span) (t : Text) :
    ((Document.sites t).filterMap f).Pairwise
      fun a b => (span a).start.order (span b).start = .lt := by
  refine List.pairwise_filterMap.mpr ((sites_ordered t).imp ?_)
  intro r s hbefore a ha b hb
  rw [hspan ha, hspan hb]
  exact hbefore.order_eq

/-- What is selected by the lexeme of a site alone is selected among the lexemes. -/
theorem filterMap_sites {β : Type} {f : Site → Option β} {g : Lexeme → Option β}
    (h : ∀ i l, (scan t).lexemes[i]? = some l → f (Site.ofNumber (scan t).lexemes i l) = g l) :
    (Document.sites t).filterMap f = (scan t).lexemes.filterMap g := by
  rw [← lexemes_sites, List.filterMap_map]
  refine List.filterMap_congr ?_
  intro s hs
  obtain ⟨i, l, hl, rfl⟩ := mem_sites.mp hs
  exact h i l hl

/-- The next lexeme of a site, comments left out. -/
theorem next?_ofNumber {ls : List Lexeme} {i : Nat} {l target : Lexeme}
    (h : (Site.ofNumber ls i l).next? = some target) : ∃ j, i < j ∧ ls[j]? = some target
      ∧ ∀ m l', i < m → m < j → ls[m]? = some l' → l'.kind = .comment := by
  have hfind : (ls.drop (i + 1)).find? Lexeme.isSignificant = some target := h
  obtain ⟨-, n, hn, hget, hbefore⟩ := List.find?_eq_some_iff_getElem.mp hfind
  have hdrop : (ls.drop (i + 1))[n]? = some target := List.getElem?_eq_some_iff.mpr ⟨hn, hget⟩
  rw [List.getElem?_drop] at hdrop
  refine ⟨i + 1 + n, by omega, hdrop, ?_⟩
  intro m l' him hmj hl'
  obtain ⟨o, rfl⟩ : ∃ o, m = i + 1 + o := Nat.exists_eq_add_of_lt him |>.imp fun o ho => by omega
  have hcomment := hbefore o (by omega)
  rw [← List.getElem?_drop] at hl'
  obtain ⟨_, rfl⟩ := List.getElem?_eq_some_iff.mp hl'
  simpa [Lexeme.isSignificant, Kind.isSignificant] using hcomment

/-! ## Threads -/

/-- The entries of a selection, by the numbers of what they were selected from. -/
theorem getElem?_filterMap_iff {α β : Type} {f : α → Option β} {xs : List α} {k : Nat} {b : β} :
    (xs.filterMap f)[k]? = some b
      ↔ ∃ i a, xs[i]? = some a ∧ f a = some b ∧ ((xs.take i).filterMap f).length = k := by
  -- the number of an image counts the images before it, so a head without one shifts places only
  induction xs generalizing k with
  | nil => simp
  | cons x xs ih =>
      cases hx : f x with
      | none =>
          rw [List.filterMap_cons_none hx, ih]
          constructor
          · rintro ⟨i, a, ha, hb, hlength⟩
            refine ⟨i + 1, a, ha, hb, ?_⟩
            rw [List.take_succ_cons, List.filterMap_cons_none hx, hlength]
          · rintro ⟨i, a, ha, hb, hlength⟩
            cases i with
            | zero =>
                obtain rfl : x = a := Option.some.inj ha
                exact nomatch hx.symm.trans hb
            | succ i =>
                rw [List.take_succ_cons, List.filterMap_cons_none hx] at hlength
                exact ⟨i, a, ha, hb, hlength⟩
      | some y =>
          rw [List.filterMap_cons_some hx]
          constructor
          · intro h
            cases k with
            | zero => exact ⟨0, x, rfl, hx.trans h, rfl⟩
            | succ k =>
                obtain ⟨i, a, ha, hb, hlength⟩ := ih.mp h
                refine ⟨i + 1, a, ha, hb, ?_⟩
                rw [List.take_succ_cons, List.filterMap_cons_some hx, List.length_cons, hlength]
          · rintro ⟨i, a, ha, hb, hlength⟩
            cases i with
            | zero =>
                obtain rfl : x = a := Option.some.inj ha
                rw [← hlength]
                exact hx.symm.trans hb
            | succ i =>
                rw [List.take_succ_cons, List.filterMap_cons_some hx, List.length_cons] at hlength
                rw [← hlength]
                exact ih.mpr ⟨i, a, ha, hb, rfl⟩

/-- The thread of a header, given its number, within all sites of the script. -/
def Thread.ofHeader (ss : List Site) (k : Nat) (role : ThreadRole) (l : Lexeme) : Thread where
  name := l.text
  parameters := ss.filterMap (Site.parameterOf? k)
  span := l.span
  role
  endLine := ss.findSome? (Site.endOf? k)

theorem thread?_header {ss : List Site} {s : Site} {k : Nat} {role : ThreadRole}
    (hkind : s.lexeme.kind = .threadName role) (howner : s.owner = some k) :
    s.thread? ss = some (Thread.ofHeader ss k role s.lexeme) := by
  rw [Site.thread?, hkind, howner]
  rfl

theorem thread?_other {ss : List Site} {s : Site} (h : s.lexeme.kind.isThreadName = false) :
    s.thread? ss = none := by
  rw [Site.thread?]
  cases hk : s.lexeme.kind with
  | threadName role => exact absurd (hk ▸ h) Bool.noConfusion
  | _ => rfl

/-- There are as many headers as threads have been opened. -/
theorem length_headers (t : Text) (ss : List Site) (i : Nat) :
    (((Document.sites t).take i).filterMap (Site.thread? ss)).length
      = (upTo (scan t).lexemes i).opened := by
  induction i with
  | zero => rfl
  | succ i ih =>
      rw [List.take_add_one, List.filterMap_append, List.length_append, ih, getElem?_sites]
      cases hl : (scan t).lexemes[i]? with
      | none =>
          rw [upTo_succ_of_none hl]
          rfl
      | some l =>
          rw [upTo_succ hl]
          show _ + (([Site.ofNumber (scan t).lexemes i l].filterMap _).length) = _
          cases hname : l.kind.isThreadName with
          | true =>
              obtain ⟨role, hk⟩ := exists_role hname
              rw [step_header hk, List.filterMap_cons_some (thread?_header hk (owner_header hk))]
              rfl
          | false =>
              rw [opened_step hname, List.filterMap_cons_none (thread?_other hname)]
              rfl

theorem endOf?_ofNumber {ls : List Lexeme} {i : Nat} {l : Lexeme} (hl : ls[i]? = some l)
    {k e : Nat} : (Site.ofNumber ls i l).endOf? k = some e ↔ IsClosing ls k i l ∧ l.line = e := by
  simp only [Site.endOf?, Site.ofNumber, Option.ite_none_right_eq_some, Bool.and_eq_true,
    beq_iff_eq, Option.some.injEq]
  constructor
  · rintro ⟨⟨hkind, howner⟩, hline⟩
    rw [owner_other (by rw [hkind]; rfl)] at howner
    exact ⟨⟨hl, hkind, howner⟩, hline⟩
  · rintro ⟨hclosing, hline⟩
    rw [owner_other (by rw [hclosing.kind]; rfl)]
    exact ⟨⟨hclosing.kind, hclosing.current⟩, hline⟩

/-- The `end` of a thread is the lexeme that closes it. -/
theorem findSome?_endOf_iff {k e : Nat} : (Document.sites t).findSome? (Site.endOf? k) = some e
    ↔ ∃ i l, IsClosing (scan t).lexemes k i l ∧ l.line = e := by
  constructor
  · intro h
    obtain ⟨s, hs, he⟩ := List.exists_of_findSome?_eq_some h
    obtain ⟨i, l, hl, rfl⟩ := mem_sites.mp hs
    exact ⟨i, l, (endOf?_ofNumber hl).mp he⟩
  · rintro ⟨i, l, hclosing, hline⟩
    have hmem := mem_sites.mpr ⟨i, l, hclosing.lexeme, rfl⟩
    cases hfound : (Document.sites t).findSome? (Site.endOf? k) with
    | none =>
        have hnone := List.findSome?_eq_none_iff.mp hfound _ hmem
        exact nomatch hnone.symm.trans ((endOf?_ofNumber hclosing.lexeme).mpr ⟨hclosing, hline⟩)
    | some e' =>
        obtain ⟨s, hs, he'⟩ := List.exists_of_findSome?_eq_some hfound
        obtain ⟨j, m, hm, rfl⟩ := mem_sites.mp hs
        obtain ⟨hclosing', hline'⟩ := (endOf?_ofNumber hm).mp he'
        obtain rfl := hclosing.unique hclosing'
        obtain rfl : l = m := Option.some.inj (hclosing.lexeme.symm.trans hm)
        rw [← hline', hline]

/-- A thread of a document has its header where as many threads have been opened as its number says,
    and its `end` line is that of the lexeme that closes it. -/
theorem threads_spec {path : Path} {k : Nat} {th : Thread}
    (h : (Document.read path t).threads[k]? = some th) :
    ∃ i l, IsHeader (scan t).lexemes k i l ∧ th.name = l.text ∧ th.span = l.span
      ∧ ∀ e, th.endLine = some e ↔ ∃ j m, IsClosing (scan t).lexemes k j m ∧ m.line = e := by
  obtain ⟨i, s, hs, hthread, hlength⟩ := getElem?_filterMap_iff.mp h
  have hs' : (Document.sites t)[i]? = some s := hs
  rw [getElem?_sites] at hs'
  obtain ⟨l, hl, rfl⟩ := Option.map_eq_some_iff.mp hs'
  have hopened : (upTo (scan t).lexemes i).opened = k := (length_headers t _ i).symm.trans hlength
  cases hname : l.kind.isThreadName with
  | false => exact nomatch (thread?_other hname).symm.trans hthread
  | true =>
      obtain ⟨role, hk⟩ := exists_role hname
      have hheader := (thread?_header hk (owner_header hk)).symm.trans hthread
      obtain rfl := Option.some.inj hheader
      refine ⟨i, l, ⟨hl, hname, hopened⟩, rfl, rfl, ?_⟩
      rw [hopened]
      exact fun e => findSome?_endOf_iff

/-- A header lists its thread under the number of threads opened before it. -/
theorem getElem?_threads_of_header (path : Path) {k i : Nat} {l : Lexeme} {role : ThreadRole}
    (h : IsHeader (scan t).lexemes k i l) (hrole : l.kind = .threadName role) :
    (Document.read path t).threads[k]?
      = some (Thread.ofHeader (Document.sites t) k role l) := by
  refine getElem?_filterMap_iff.mpr ⟨i, Site.ofNumber (scan t).lexemes i l, ?_, ?_, ?_⟩
  · exact (getElem?_sites i).trans (congrArg (Option.map _) h.lexeme)
  · exact thread?_header hrole (h.opened ▸ owner_header hrole)
  · exact (length_headers t (Document.sites t) i).trans h.opened

/-- Every thread that has been opened is listed. -/
theorem opened_le_length_threads (path : Path) (t : Text) (i : Nat) :
    (upTo (scan t).lexemes i).opened ≤ (Document.read path t).threads.length := by
  rw [← length_headers t (Document.sites t)]
  exact ((List.take_sublist i (Document.sites t)).filterMap _).length_le

/-! ## Labels, bindings, jumps and references -/

theorem mem_filterMap_sites {β : Type} {f : Site → Option β} {b : β} :
    b ∈ (Document.sites t).filterMap f ↔ ∃ i l, (scan t).lexemes[i]? = some l
      ∧ f (Site.ofNumber (scan t).lexemes i l) = some b := by
  rw [List.mem_filterMap]
  constructor
  · rintro ⟨s, hs, hb⟩
    obtain ⟨i, l, hl, rfl⟩ := mem_sites.mp hs
    exact ⟨i, l, hl, hb⟩
  · rintro ⟨i, l, hl, hb⟩
    exact ⟨_, mem_sites.mpr ⟨i, l, hl, rfl⟩, hb⟩

namespace Site

variable {s : Site}

theorem label?_eq_some_iff {threads : List Thread} {label : Label} :
    s.label? threads = some label ↔ s.lexeme.kind = .labelDef ∧ ∃ k th, s.owner = some k
      ∧ threads[k]? = some th ∧ label = ⟨s.lexeme.text, k, th.name, s.lexeme.span⟩ := by
  rw [label?]
  split
  · rename_i k hkind howner
    simp only [Option.map_eq_some_iff, hkind, howner, Option.some.injEq, true_and]
    constructor
    · rintro ⟨th, hth, rfl⟩
      exact ⟨k, th, rfl, hth, rfl⟩
    · rintro ⟨_, th, rfl, hth, rfl⟩
      exact ⟨th, hth, rfl⟩
  · rename_i hnot
    constructor
    · exact fun h => nomatch h
    · rintro ⟨hkind, k, -, howner, -⟩
      exact absurd howner (hnot k hkind)

theorem of_binding? {b : Binding} (h : s.binding? = some b) :
    s.lexeme.kind = .property b.scope true ∧ s.owner = some b.owner
      ∧ b = ⟨b.scope, s.lexeme.text, b.owner, s.lexeme.span⟩ := by
  rw [binding?] at h
  split at h
  · rename_i scope k hkind howner
    obtain rfl := Option.some.inj h
    exact ⟨hkind, howner, rfl⟩
  · exact nomatch h

theorem of_jump? {keywords : List Text} {jump : Jump} (h : s.jump? keywords = some jump) :
    s.lexeme.kind = .keyword ∧ ∃ target, s.next? = some target ∧ target.kind = .word
      ∧ jump = ⟨target.text, s.owner, target.span⟩ := by
  rw [jump?] at h
  obtain ⟨hkeyword, h⟩ := Option.ite_none_right_eq_some.mp h
  have hkind := (Bool.and_eq_true_iff.mp hkeyword).1
  split at h
  · rename_i target hnext
    obtain ⟨hword, hjump⟩ := Option.ite_none_right_eq_some.mp h
    exact ⟨beq_iff_eq.mp hkind, target, hnext, beq_iff_eq.mp hword, (Option.some.inj hjump).symm⟩
  · exact nomatch h

theorem of_crossReference? {r : CrossReference} (h : s.crossReference? = some r) :
    s.lexeme.kind = .crossRefName ∧ ∃ colons path rest, s.before = colons :: path :: rest
      ∧ r = ⟨path.text, s.lexeme.text, s.owner, s.lexeme.span, path.span⟩ := by
  rw [crossReference?] at h
  split at h
  · rename_i colons path rest hkind hbefore
    exact ⟨hkind, colons, path, rest, hbefore, (Option.some.inj h).symm⟩
  · exact nomatch h

end Site

/-- Bindings go by line and column. -/
theorem bindings_ordered (path : Path) (t : Text) : (Document.read path t).bindings.Pairwise
    fun a b => a.span.start.order b.span.start = .lt :=
  filterMap_sites_ordered Binding.span (fun h => congrArg (·.span) (Site.of_binding? h).2.2) t

/-- A jump carries the owner of the word it goes to, which follows its keyword after comments
    only. -/
theorem jump?_ofNumber {ls : List Lexeme} {i : Nat} {l : Lexeme} {keywords : List Text}
    {jump : Jump} (hl : ls[i]? = some l) (h : (Site.ofNumber ls i l).jump? keywords = some jump) :
    l.kind = .keyword ∧ ∃ j target, i < j ∧ ls[j]? = some target ∧ target.kind = .word
      ∧ (∀ m l', i < m → m < j → ls[m]? = some l' → l'.kind = .comment)
      ∧ jump = ⟨target.text, (upTo ls j).owner target, target.span⟩ := by
  obtain ⟨hkind, target, hnext, hword, rfl⟩ := Site.of_jump? h
  obtain ⟨j, hij, htarget, hcomments⟩ := next?_ofNumber hnext
  refine ⟨hkind, j, target, hij, htarget, hword, hcomments, ?_⟩
  have hprogress : upTo ls j = upTo ls i := by
    refine upTo_eq_of_forall (Nat.le_of_lt hij) ?_
    intro m l' him hmj hl'
    rcases Nat.eq_or_lt_of_le him with rfl | him
    · obtain rfl : l = l' := Option.some.inj (hl.symm.trans hl')
      rw [show l.kind = .keyword from hkind]
      rfl
    · rw [hcomments m l' him hmj hl']
      rfl
  have howner : (upTo ls j).owner target = (upTo ls i).owner l := by
    rw [hprogress, owner_other (by rw [hword]; rfl),
      owner_other (by rw [show l.kind = .keyword from hkind]; rfl)]
  rw [howner]
  rfl

/-- The path of a cross reference stands two lexemes before its name, and the colons one. -/
theorem exists_path_of_crossRefName {i : Nat} {l : Lexeme} (hl : (scan t).lexemes[i]? = some l)
    (hkind : l.kind = .crossRefName) : ∃ n path colons, i = n + 2
      ∧ (scan t).lexemes[n]? = some path ∧ path.kind = .pathRef
      ∧ (scan t).lexemes[n + 1]? = some colons ∧ colons.kind = .operator := by
  obtain ⟨-, earlier, path, colons, htake, hpath, hcolons⟩ := crossRefName_after_path hl hkind
  have hlength : i = earlier.length + 2 := by
    have hlen := congrArg List.length htake
    have hi := (List.getElem?_eq_some_iff.mp hl).1
    rw [List.length_take, List.length_append, Nat.min_eq_left (Nat.le_of_lt hi)] at hlen
    exact hlen
  have hget (n : Nat) (hn : n < i) : (scan t).lexemes[n]? = (earlier ++ [path, colons])[n]? := by
    rw [← htake, List.getElem?_take_of_lt hn]
  refine ⟨earlier.length, path, colons, hlength, ?_, hpath, ?_, hcolons⟩
  · rw [hget _ (by omega)]
    simp
  · rw [hget _ (by omega)]
    simp

/-- A cross reference stands where its name does, after its path and the colons. -/
theorem crossReference?_ofNumber {i : Nat} {l : Lexeme} {r : CrossReference}
    (hl : (scan t).lexemes[i]? = some l)
    (h : (Site.ofNumber (scan t).lexemes i l).crossReference? = some r) :
    l.kind = .crossRefName ∧ ∃ n path colons, i = n + 2 ∧ (scan t).lexemes[n]? = some path
      ∧ path.kind = .pathRef ∧ (scan t).lexemes[n + 1]? = some colons ∧ colons.kind = .operator
      ∧ r = ⟨path.text, l.text, (upTo (scan t).lexemes i).owner l, l.span, path.span⟩ := by
  obtain ⟨hkind, colons, path, rest, hbefore, rfl⟩ := Site.of_crossReference? h
  obtain ⟨n, path', colons', rfl, hpath, hpathRef, hcolons, hoperator⟩ :=
    exists_path_of_crossRefName hl hkind
  have hreverse : (Site.ofNumber (scan t).lexemes (n + 2) l).before
      = colons' :: path' :: ((scan t).lexemes.take n).reverse := by
    show ((scan t).lexemes.take (n + 2)).reverse = _
    rw [List.take_add_one, List.take_add_one, hpath, hcolons]
    simp
  obtain ⟨rfl, hrest⟩ := List.cons.inj (hbefore.symm.trans hreverse)
  obtain ⟨rfl, -⟩ := List.cons.inj hrest
  exact ⟨hkind, n, path, colons, rfl, hpath, hpathRef, hcolons, hoperator, rfl⟩

end ScriptAtlas
