import ScriptAtlas.Problem.Reachability
import ScriptAtlas.Proofs.Document.LineLookup
import ScriptAtlas.Proofs.Scan.Covering
import ScriptAtlas.Proofs.Sorting
import Mathlib.Data.List.Range

/-! # Dead code — what one pass over the lines finds

    The rule goes over the lines once and keeps the terminator in force.  What it
    means is said here without the pass: a line is dead when a living line before
    it, on which its thread stops, silences it, because no line from there on
    resumes (`isDead`).  The route:

    * with a terminator in force, the pass takes lines up to the first that
      resumes and goes on from there with none (`findingsFrom_some`);
    * these lines are the ones that the terminator silences (`deadAfter_eq`);
    * so the pass comes to the living terminators one after the other, by
      induction on the lines left, with no terminator before them in force
      (`findingsFrom_none`).

    A line silenced by a living one is dead, so what a terminator silences ends
    before the next living terminator, and findings keep apart. -/

namespace ScriptAtlas.Reachability

open Text

/-! ## Dead lines -/

/-- Whether the thread around a line stops there. -/
def stops (d : Document) (r : Row) : Bool := (d.threadIndexAt r.line).isSome && isTerminator r

/-- Whether a line is later than another, and no line from there on to it resumes. -/
def silences (d : Document) (t r : Row) : Bool :=
  t.line < r.line
    && (rows d).all fun s => !(t.line < s.line && s.line ≤ r.line) || !resumes s t.info.depth

/-- Whether a living line on which its thread stops silences the line. -/
def isDead (d : Document) (r : Row) : Bool :=
  (rows d).any fun t => if _h : t.line < r.line then !isDead d t && stops d t && silences d t r
    else false
termination_by r.line

/-- Whether the line is living and its thread stops there. -/
def isLivingEnd (d : Document) (r : Row) : Bool := !isDead d r && stops d r

/-- The lines that a line silences. -/
def deadAfter (d : Document) (t : Row) : List Row := (rows d).filter (silences d t)

/-- Where the first lexeme of a line starts. -/
def Row.start (r : Row) : Position := ⟨r.line, r.first.column⟩

/-- Where the last lexeme of a line ends. -/
def Row.stop (r : Row) : Position := ⟨r.line, r.last.endColumn⟩

/-- The finding for dead lines after a terminator.  Lines that go on with its statement do not
    count at the beginning. -/
def findingFor (terminator : Text) (dead : List Row) : Option Finding :=
  match dead.dropWhile (·.info.continued) with
  | [] => none
  | first :: rest =>
    some ⟨.unreachableCode terminator, ⟨first.start, (rest.getLastD first).stop⟩⟩

/-- The finding for the lines that a line silences. -/
def findingAfter (d : Document) (t : Row) : Option Finding :=
  findingFor (lower t.first.text) (deadAfter d t)

section

variable {d : Document} {t r s : Row}

/-- A test of all lines after one line and up to another, said of each of them. -/
theorem all_between_iff {p : Row → Bool} :
    ((rows d).all fun s => !(t.line < s.line && s.line ≤ r.line) || p s) = true
      ↔ ∀ s ∈ rows d, t.line < s.line → s.line ≤ r.line → p s = true := by
  rw [List.all_eq_true]
  refine forall₂_congr fun s _ => ?_
  simp only [Bool.or_eq_true, Bool.not_eq_true', Bool.and_eq_false_iff, decide_eq_false_iff_not]
  constructor
  · rintro ((hearly | hlate) | hp) hafter hupto
    · exact absurd hafter hearly
    · exact absurd hupto hlate
    · exact hp
  · intro h
    by_cases hafter : t.line < s.line
    · by_cases hupto : s.line ≤ r.line
      · exact Or.inr (h hafter hupto)
      · exact Or.inl (Or.inr hupto)
    · exact Or.inl (Or.inl hafter)

/-- A line silences a later one when no line from there on resumes. -/
theorem silences_iff : silences d t r = true ↔ t.line < r.line
    ∧ ∀ s ∈ rows d, t.line < s.line → s.line ≤ r.line → resumes s t.info.depth = false := by
  rw [silences, Bool.and_eq_true, decide_eq_true_iff, all_between_iff]
  simp only [Bool.not_eq_true']

/-- A line is dead when a living line on which its thread stops silences it. -/
theorem isDead_iff : isDead d r = true
    ↔ ∃ t ∈ rows d, isLivingEnd d t = true ∧ silences d t r = true := by
  rw [isDead, List.any_eq_true]
  refine exists_congr fun t => and_congr_right fun _ => ?_
  by_cases hline : t.line < r.line
  · rw [dif_pos hline, Bool.and_eq_true, isLivingEnd]
  · rw [dif_neg hline]
    constructor
    · intro h
      exact absurd h Bool.false_ne_true
    · rintro ⟨-, hsilences⟩
      exact absurd (silences_iff.mp hsilences).1 hline

/-- What silences a line silences the lines between. -/
theorem silences_of_le (h : silences d t r = true) (hafter : t.line < s.line)
    (hle : s.line ≤ r.line) : silences d t s = true := by
  obtain ⟨-, hquiet⟩ := silences_iff.mp h
  refine silences_iff.mpr ⟨hafter, ?_⟩
  intro x hx hafter' hupto
  exact hquiet x hx hafter' (Nat.le_trans hupto hle)

theorem mem_deadAfter : r ∈ deadAfter d t ↔ r ∈ rows d ∧ silences d t r = true :=
  List.mem_filter

end

/-- The lines that count go strictly by number. -/
theorem rows_pairwise (d : Document) : (rows d).Pairwise fun r s => r.line < s.line := by
  have hline {e : LineInfo × Nat} {r : Row} (h : row? d e.2 e.1 = some r) : r.line = e.2 := by
    unfold row? at h
    split at h
    · exact nomatch h
    · exact (congrArg Row.line (Option.some.inj h)).symm
  have hnumbers : d.lines.zipIdx.Pairwise fun a b => a.2 < b.2 := by
    rw [← List.pairwise_map (f := Prod.snd), List.zipIdx_map_snd]
    exact List.pairwise_lt_range'
  refine hnumbers.filterMap _ ?_
  intro a b hab r hr s hs
  rw [hline hr, hline hs]
  exact hab

/-! ## The pass -/

section

variable {d : Document}

theorem depth_extend (b : Dead) (r : Row) : (b.extend r).depth = b.depth := by
  unfold Dead.extend
  split
  · rfl
  · split
    · rfl
    · rfl

/-- With a terminator in force, the pass takes lines up to the first that resumes, and goes on from
    there with none. -/
theorem findingsFrom_some (b : Dead) (rs : List Row) :
    findingsFrom d (some b) rs
      = ((rs.takeWhile (!resumes · b.depth)).foldl Dead.extend b).finding?.toList
        ++ findingsFrom d none (rs.dropWhile (!resumes · b.depth)) := by
  induction rs generalizing b with
  | nil => simp [findingsFrom]
  | cons r rs ih =>
      rw [findingsFrom, List.takeWhile_cons, List.dropWhile_cons]
      by_cases hresumes : resumes r b.depth = true
      · simp only [hresumes, Bool.not_true, if_true, Bool.false_eq_true, if_false, List.foldl_nil,
          findingsFrom]
      · rw [Bool.not_eq_true] at hresumes
        simp only [hresumes, Bool.not_false, if_true, Bool.false_eq_true, if_false,
          List.foldl_cons, ih (b.extend r), depth_extend]

/-- Once there are dead lines, every further one moves the end. -/
theorem foldl_extend_some (depth : Nat) (terminator : Text) (start : Position) (last : Row)
    (rs : List Row) :
    rs.foldl Dead.extend ⟨depth, terminator, some ⟨start, last.stop⟩⟩
      = ⟨depth, terminator, some ⟨start, (rs.getLastD last).stop⟩⟩ := by
  induction rs generalizing last with
  | nil => rfl
  | cons r rs ih => exact (ih r).trans (by rw [List.getLastD_cons])

/-- What the pass finds for the lines taken. -/
theorem finding?_foldl_extend (depth : Nat) (terminator : Text) (rs : List Row) :
    (rs.foldl Dead.extend ⟨depth, terminator, none⟩).finding? = findingFor terminator rs := by
  induction rs with
  | nil => rfl
  | cons r rs ih =>
      rw [List.foldl_cons, findingFor, List.dropWhile_cons]
      by_cases hcontinued : r.info.continued = true
      · have hextend : Dead.extend ⟨depth, terminator, none⟩ r = ⟨depth, terminator, none⟩ :=
          if_pos hcontinued
        rw [hextend, if_pos hcontinued]
        exact ih
      · have hextend : Dead.extend ⟨depth, terminator, none⟩ r
            = ⟨depth, terminator, some ⟨r.start, r.stop⟩⟩ := if_neg hcontinued
        rw [hextend, if_neg hcontinued, foldl_extend_some]
        rfl

/-! ## The lines taken -/

/-- In a list that goes by line, a test that holds up to a line holds for a first part of it. -/
theorem filter_eq_takeWhile {p q : Row → Bool} {l : List Row}
    (hordered : l.Pairwise fun r s => r.line < s.line)
    (hq : ∀ r ∈ l, q r = true ↔ ∀ s ∈ l, s.line ≤ r.line → p s = true) :
    l.filter q = l.takeWhile p := by
  induction l with
  | nil => rfl
  | cons a l ih =>
      obtain ⟨hfirst, hordered⟩ := List.pairwise_cons.mp hordered
      by_cases ha : p a = true
      · have hqa : q a = true := by
          rw [hq a List.mem_cons_self]
          intro s hs hle
          rcases List.mem_cons.mp hs with rfl | hs
          · exact ha
          · exact absurd (hfirst s hs) (Nat.not_lt.mpr hle)
        rw [List.filter_cons_of_pos hqa, List.takeWhile_cons_of_pos ha, ih hordered]
        intro r hr
        rw [hq r (List.mem_cons_of_mem a hr), List.forall_mem_cons]
        exact and_iff_right fun _ => ha
      · rw [List.takeWhile_cons_of_neg ha, List.filter_eq_nil_iff]
        intro r hr hqr
        refine ha ((hq r hr).mp hqr a List.mem_cons_self ?_)
        rcases List.mem_cons.mp hr with rfl | hr
        · exact Nat.le_refl _
        · exact Nat.le_of_lt (hfirst r hr)

variable {t r : Row} {before rest : List Row}

theorem line_le_of_mem_upTo (h : rows d = before ++ t :: rest) (hr : r ∈ before ++ [t]) :
    r.line ≤ t.line := by
  have hordered := rows_pairwise d
  rw [h, List.pairwise_append] at hordered
  rcases List.mem_append.mp hr with hr | hr
  · exact Nat.le_of_lt (hordered.2.2 r hr t List.mem_cons_self)
  · exact Nat.le_of_eq (congrArg Row.line (List.mem_singleton.mp hr))

theorem line_lt_of_mem_rest (h : rows d = before ++ t :: rest) (hr : r ∈ rest) :
    t.line < r.line := by
  have hordered := rows_pairwise d
  rw [h, List.pairwise_append, List.pairwise_cons] at hordered
  exact hordered.2.1.1 r hr

/-- A line silences those after it, up to the first that resumes. -/
theorem deadAfter_eq (h : rows d = before ++ t :: rest) :
    deadAfter d t = rest.takeWhile (!resumes · t.info.depth) := by
  have hordered := rows_pairwise d
  rw [h, List.pairwise_append, List.pairwise_cons] at hordered
  have hearly : ∀ r ∈ before ++ [t], ¬ silences d t r = true := by
    intro r hr hsilences
    exact Nat.not_lt.mpr (line_le_of_mem_upTo h hr) (silences_iff.mp hsilences).1
  have hlate : ∀ r ∈ rest, silences d t r = true
      ↔ ∀ s ∈ rest, s.line ≤ r.line → (!resumes s t.info.depth) = true := by
    intro r hr
    simp only [silences_iff, Bool.not_eq_true', line_lt_of_mem_rest h hr, true_and]
    constructor
    · intro hquiet s hs hle
      refine hquiet s ?_ (line_lt_of_mem_rest h hs) hle
      rw [h]
      exact List.mem_append_right before (List.mem_cons_of_mem t hs)
    · intro hquiet s hs hafter hle
      rw [h, List.append_cons] at hs
      rcases List.mem_append.mp hs with hs | hs
      · exact absurd hafter (Nat.not_lt.mpr (line_le_of_mem_upTo h hs))
      · exact hquiet s hs hle
  rw [deadAfter, h, List.append_cons, List.filter_append, List.filter_eq_nil_iff.mpr hearly,
    List.nil_append, filter_eq_takeWhile hordered.2.1.2 hlate]

/-- Whether no living terminator among the lines before is in force for the lines left. -/
def Clear (d : Document) (before rest : List Row) : Prop :=
  ∀ t ∈ before, isLivingEnd d t = true → ∀ r ∈ rest, silences d t r = false

/-- With no terminator in force, the next line is living. -/
theorem Clear.living (hclear : Clear d before (r :: rest)) (h : rows d = before ++ r :: rest) :
    isDead d r = false := by
  rw [Bool.eq_false_iff]
  intro hdead
  obtain ⟨t, ht, hend, hsilences⟩ := isDead_iff.mp hdead
  have hafter := (silences_iff.mp hsilences).1
  rw [h] at ht
  rcases List.mem_append.mp ht with ht | ht
  · rw [hclear t ht hend r List.mem_cons_self] at hsilences
    exact Bool.false_ne_true hsilences
  · rcases List.mem_cons.mp ht with rfl | ht
    · exact Nat.lt_irrefl _ hafter
    · exact Nat.lt_asymm hafter (line_lt_of_mem_rest h ht)

/-- A line on which the thread does not stop puts nothing in force. -/
theorem Clear.pass (hclear : Clear d before (r :: rest)) (hstops : stops d r = false) :
    Clear d (before ++ [r]) rest := by
  intro t ht hend x hx
  rcases List.mem_append.mp ht with ht | ht
  · exact hclear t ht hend x (List.mem_cons_of_mem r hx)
  · rw [List.mem_singleton.mp ht, isLivingEnd, hstops, Bool.and_false] at hend
    exact absurd hend Bool.false_ne_true

/-- What a living terminator silences is dead, so it holds no living terminator. -/
theorem not_isLivingEnd_of_mem_deadAfter (ht : t ∈ rows d) (hend : isLivingEnd d t = true)
    (hr : r ∈ deadAfter d t) : isLivingEnd d r = false := by
  rw [isLivingEnd, isDead_iff.mpr ⟨t, ht, hend, (mem_deadAfter.mp hr).2⟩]
  rfl

/-- After the lines that a living terminator silences, nothing is in force. -/
theorem Clear.resume (hclear : Clear d before (t :: rest)) (h : rows d = before ++ t :: rest)
    (hend : isLivingEnd d t = true) :
    Clear d (before ++ t :: deadAfter d t) (rest.dropWhile (!resumes · t.info.depth)) := by
  have hordered := rows_pairwise d
  rw [h, List.pairwise_append, List.pairwise_cons,
    ← List.takeWhile_append_dropWhile (p := (!resumes · t.info.depth)) (l := rest), ← deadAfter_eq h,
    List.pairwise_append] at hordered
  have hmem {x : Row} (hx : x ∈ t :: rest) : x ∈ rows d := by
    rw [h]
    exact List.mem_append_right before hx
  intro s hs hend' x hx
  have hx' : x ∈ t :: rest := List.mem_cons_of_mem t ((List.dropWhile_sublist _).subset hx)
  rcases List.mem_append.mp hs with hs | hs
  · exact hclear s hs hend' x hx'
  · rcases List.mem_cons.mp hs with rfl | hs
    · rw [Bool.eq_false_iff]
      intro hsilences
      have hdead := mem_deadAfter.mpr ⟨hmem hx', hsilences⟩
      exact Nat.lt_irrefl _ (hordered.2.1.2.2.2 x hdead x hx)
    · rw [not_isLivingEnd_of_mem_deadAfter (hmem List.mem_cons_self) hend hs] at hend'
      exact absurd hend' Bool.false_ne_true

/-- A line on which the thread does not stop is passed. -/
theorem findingsFrom_pass (hstops : stops d r = false) :
    findingsFrom d none (r :: rest) = findingsFrom d none rest := by
  have hopens : opens? d r = none := if_neg (Bool.eq_false_iff.mp hstops)
  rw [findingsFrom, hopens]

/-- From a line on which the thread stops, the pass goes to the first line that resumes. -/
theorem findingsFrom_stop (h : rows d = before ++ t :: rest) (hstops : stops d t = true) :
    findingsFrom d none (t :: rest) = (findingAfter d t).toList
      ++ findingsFrom d none (rest.dropWhile (!resumes · t.info.depth)) := by
  have hopens : opens? d t = some ⟨t.info.depth, lower t.first.text, none⟩ := if_pos hstops
  rw [findingsFrom, hopens, findingsFrom_some, finding?_foldl_extend, findingAfter, deadAfter_eq h]

/-- Lines silenced apart, the living terminators are those from the line on that resumes. -/
theorem filter_isLivingEnd (h : rows d = before ++ t :: rest) (hend : isLivingEnd d t = true) :
    rest.filter (isLivingEnd d)
      = (rest.dropWhile (!resumes · t.info.depth)).filter (isLivingEnd d) := by
  have ht : t ∈ rows d := by
    rw [h]
    exact List.mem_append_right before List.mem_cons_self
  have hnone : (deadAfter d t).filter (isLivingEnd d) = [] := by
    rw [List.filter_eq_nil_iff]
    intro r hr
    exact Bool.eq_false_iff.mp (not_isLivingEnd_of_mem_deadAfter ht hend hr)
  conv_lhs => rw [← List.takeWhile_append_dropWhile (p := (!resumes · t.info.depth)) (l := rest)]
  rw [← deadAfter_eq h, List.filter_append, hnone, List.nil_append]

/-- The pass comes to the living terminators one after the other. -/
theorem findingsFrom_none (h : rows d = before ++ rest) (hclear : Clear d before rest) :
    findingsFrom d none rest = (rest.filter (isLivingEnd d)).filterMap (findingAfter d) := by
  -- the lines silenced are passed at once, so the induction is on the number of lines left
  induction hlength : rest.length using Nat.strong_induction_on generalizing before rest with
  | _ n ih =>
      cases rest with
      | nil => rfl
      | cons t rest =>
          rw [List.length_cons] at hlength
          have hliving := hclear.living h
          by_cases hstops : stops d t = true
          · have hend : isLivingEnd d t = true := by
              rw [isLivingEnd, hliving, hstops]
              rfl
            have hrows : rows d = (before ++ t :: deadAfter d t)
                ++ rest.dropWhile (!resumes · t.info.depth) := by
              rw [List.append_assoc, List.cons_append, deadAfter_eq h,
                List.takeWhile_append_dropWhile, h]
            have hshorter : (rest.dropWhile (!resumes · t.info.depth)).length < n := by
              have hle := (List.dropWhile_sublist (!resumes · t.info.depth) (l := rest)).length_le
              omega
            rw [findingsFrom_stop h hstops, List.filter_cons_of_pos hend, filter_isLivingEnd h hend,
              ih _ hshorter hrows (hclear.resume h hend) rfl, List.filterMap_cons]
            cases findingAfter d t with
            | none => rfl
            | some f => rfl
          · have hpassed := Bool.eq_false_iff.mpr hstops
            have hend : ¬ isLivingEnd d t = true := by
              rw [isLivingEnd, hpassed, Bool.and_false]
              exact Bool.false_ne_true
            have hrows : rows d = (before ++ [t]) ++ rest := by rw [h, List.append_cons]
            rw [findingsFrom_pass hpassed, List.filter_cons_of_neg hend]
            exact ih rest.length (by omega) hrows (hclear.pass hpassed) rfl

/-- The findings are those for the living lines on which a thread stops. -/
theorem findings_eq (d : Document) :
    findings d = ((rows d).filter (isLivingEnd d)).filterMap (findingAfter d) := by
  have hrows : rows d = [] ++ rows d := rfl
  exact findingsFrom_none hrows fun s hs => absurd hs List.not_mem_nil

/-! ## Ranges -/

/-- A finding goes from a dead line to the same or a later one. -/
theorem findingFor_spec {terminator : Text} {dead : List Row} {f : Finding}
    (hordered : dead.Pairwise fun r s => r.line < s.line)
    (h : findingFor terminator dead = some f) :
    ∃ first ∈ dead, ∃ last ∈ dead, f.span = ⟨first.start, last.stop⟩
      ∧ (last = first ∨ first.line < last.line) := by
  have hsublist := List.dropWhile_sublist (fun r : Row => r.info.continued) (l := dead)
  rw [findingFor] at h
  generalize dead.dropWhile (·.info.continued) = left at h hsublist
  cases left with
  | nil => exact nomatch h
  | cons first rest =>
      have hlast := List.getLastD_mem_cons (l := rest) (a := first)
      refine ⟨first, hsublist.subset List.mem_cons_self, _, hsublist.subset hlast,
        (congrArg Finding.span (Option.some.inj h)).symm, ?_⟩
      exact (List.mem_cons.mp hlast).imp_right
        ((List.pairwise_cons.mp (hordered.sublist hsublist)).1 _)

/-- What a finding for a living terminator covers: lines that the terminator silences. -/
theorem findingAfter_spec {f : Finding} (h : findingAfter d t = some f) :
    ∃ first ∈ deadAfter d t, ∃ last ∈ deadAfter d t, f.span = ⟨first.start, last.stop⟩
      ∧ (last = first ∨ first.line < last.line) :=
  findingFor_spec ((rows_pairwise d).filter _) h

/-- Whether a line starts with the header or the end of a thread, a label, or an arm of a
    `switch`. -/
def startsAnew (r : Row) : Bool :=
  match r.first.kind with
  | .threadName _ => true
  | .labelDef => true
  | .threadEnd => true
  | _ => r.first.isKeyword "case" || r.first.isKeyword "default"

theorem resumes_of_startsAnew (h : startsAnew r = true) (depth : Nat) :
    resumes r depth = true := by
  unfold startsAnew at h
  unfold resumes
  cases hkind : r.first.kind with
  | threadName _ | labelDef | threadEnd => rfl
  | keyword =>
      rw [hkind] at h
      exact h
  | _ => simp [hkind, Lexeme.isKeyword] at h

/-- Within the range of a finding all lines are silenced. -/
theorem silenced_of_covered {f : Finding} (h : findingAfter d t = some f)
    (hfrom : f.span.start.line ≤ r.line) (hupto : r.line ≤ f.span.stop.line) :
    silences d t r = true := by
  obtain ⟨first, hfirst, last, hlast, hspan, -⟩ := findingAfter_spec h
  rw [hspan] at hfrom hupto
  have hafter := (silences_iff.mp (mem_deadAfter.mp hfirst).2).1
  exact silences_of_le (mem_deadAfter.mp hlast).2 (Nat.lt_of_lt_of_le hafter hfrom) hupto

/-- What a living terminator silences ends before the next one. -/
theorem line_lt_of_isLivingEnd {s : Row} (ht : t ∈ rows d) (hend : isLivingEnd d t = true)
    (hs : s ∈ rows d) (hend' : isLivingEnd d s = true) (hts : t.line < s.line)
    (hr : r ∈ deadAfter d t) : r.line < s.line := by
  by_contra hle
  have hdead := mem_deadAfter.mpr
    ⟨hs, silences_of_le (mem_deadAfter.mp hr).2 hts (Nat.not_lt.mp hle)⟩
  rw [not_isLivingEnd_of_mem_deadAfter ht hend hdead] at hend'
  exact Bool.false_ne_true hend'

/-- Findings keep to lines of their own, in order. -/
theorem findingsAfter_pairwise (d : Document) :
    (((rows d).filter (isLivingEnd d)).filterMap (findingAfter d)).Pairwise
      fun f g => f.span.stop.order g.span.start = .lt := by
  refine List.pairwise_filterMap.mpr (((rows_pairwise d).filter _).imp_of_mem ?_)
  intro t s ht hs hts f hf g hg
  obtain ⟨ht, hend⟩ := List.mem_filter.mp ht
  obtain ⟨hs, hend'⟩ := List.mem_filter.mp hs
  obtain ⟨_, _, last, hlast, hspan, -⟩ := findingAfter_spec hf
  obtain ⟨first, hfirst, _, _, hspan', -⟩ := findingAfter_spec hg
  rw [hspan, hspan']
  -- from the last line silenced, over the next terminator, to the first line that it silences
  refine Position.order_of_line_lt (Nat.lt_trans ?_ (silences_iff.mp (mem_deadAfter.mp hfirst).2).1)
  exact line_lt_of_isLivingEnd ht hend hs hend' hts hlast

end

/-- A line that counts has a first lexeme that starts before its last one ends. -/
theorem start_order_stop {path : Path} {t : Text} {r : Row}
    (hr : r ∈ rows (Document.read path t)) : r.start.order r.stop = .lt := by
  obtain ⟨⟨info, line⟩, -, hrow⟩ := List.mem_filterMap.mp hr
  have hsublist : (((Document.read path t).lineLexemes line).filter Lexeme.isSignificant).Sublist
      (scan t).lexemes := by
    rw [Document.lineLexemes_read]
    exact List.filter_sublist.trans List.filter_sublist
  have hline : ∀ l ∈ ((Document.read path t).lineLexemes line).filter Lexeme.isSignificant,
      l.line = line := by
    intro l hl
    rw [Document.lineLexemes_read] at hl
    exact beq_iff_eq.mp (List.mem_filter.mp (List.mem_filter.mp hl).1).2
  have hrow : row? (Document.read path t) line info = some r := hrow
  rw [row?] at hrow
  generalize ((Document.read path t).lineLexemes line).filter Lexeme.isSignificant = ls
    at hrow hsublist hline
  cases ls with
  | nil => exact nomatch hrow
  | cons first rest =>
      obtain rfl := Option.some.inj hrow
      refine Position.order_of_column_lt rfl ?_
      show first.column < (rest.getLastD first).column + (rest.getLastD first).length
      have hlast := List.getLastD_mem_cons (l := rest) (a := first)
      have hlength := (scan_lexemes_placed (hsublist.subset hlast)).1
      -- a lexeme has a length, and the last one on a line starts no earlier than the first
      rcases List.mem_cons.mp hlast with heq | hmem
      · rw [heq] at hlength ⊢
        omega
      · have hordered := List.pairwise_cons.mp ((scan_lexemes_ordered t).sublist hsublist)
        rcases hordered.1 _ hmem with hearlier | ⟨-, hcolumn⟩
        · rw [hline first List.mem_cons_self, hline _ hlast] at hearlier
          exact absurd hearlier (Nat.lt_irrefl line)
        · omega

/-- **DEAD CODE**: the findings are those for the living lines on which a thread stops, in order,
    each for the lines that it silences.  Their ranges keep apart; all lines in them are dead, and
    none starts with the header or the end of a thread, a label, or an arm of a `switch`. -/
theorem findings_of_living_ends (path : Path) (t : Text) :
    let d := Document.read path t
    findings d = ((rows d).filter (isLivingEnd d)).filterMap (findingAfter d)
      ∧ (∀ f ∈ findings d, f.span.start.order f.span.stop = .lt)
      ∧ ((findings d).Pairwise fun f g => f.span.stop.order g.span.start = .lt)
      ∧ ∀ f ∈ findings d, ∀ r ∈ rows d, f.span.start.line ≤ r.line → r.line ≤ f.span.stop.line →
        isDead d r = true ∧ startsAnew r = false := by
  intro d
  rw [findings_eq]
  refine ⟨rfl, ?_, findingsAfter_pairwise d, ?_⟩
  · intro f hf
    obtain ⟨s, -, hfinding⟩ := List.mem_filterMap.mp hf
    obtain ⟨first, hfirst, last, -, hspan, rfl | hlines⟩ := findingAfter_spec hfinding
    · rw [hspan]
      exact start_order_stop (mem_deadAfter.mp hfirst).1
    · rw [hspan]
      exact Position.order_of_line_lt hlines
  · intro f hf r hr hfrom hupto
    obtain ⟨s, hs, hfinding⟩ := List.mem_filterMap.mp hf
    obtain ⟨hs, hend⟩ := List.mem_filter.mp hs
    have hsilences := silenced_of_covered hfinding hfrom hupto
    refine ⟨isDead_iff.mpr ⟨s, hs, hend, hsilences⟩, ?_⟩
    obtain ⟨hafter, hquiet⟩ := silences_iff.mp hsilences
    rw [Bool.eq_false_iff]
    intro hanew
    have hresumes := hquiet r hr hafter (Nat.le_refl _)
    rw [resumes_of_startsAnew hanew] at hresumes
    exact absurd hresumes.symm Bool.false_ne_true

end ScriptAtlas.Reachability
