import ScriptAtlas.Proofs.Path.Respelling

/-! # Climbing — includes that go above the root

    A `..` that finds no segment before it is lost, so from the root a path that
    climbs reads as what stands behind its climb.  This reading is tried first: a
    script at the root is taken where a script beside the including one is meant.
    The route:

    * segments take as many off a stack as they climb (`foldl_push_eq`), and they
      climb where some of them count more `..` than names (`lt_climb_iff`);
    * the parts of a path are worked in as its text is (`workIn_render`), so a path
      beside a file is worked into the directory of the file (`ofPath?_join`);
    * hence its script path, and when the reading from the root is another one
      (`normalize_append_eq_iff`). -/

namespace ScriptAtlas

open Vocabulary Text

namespace ScriptPath

variable {raw : Text} {ss stack : List Text}

/-! ## Steps up -/

/-- The step up. -/
abbrev dots : Text := ['.', '.']

/-- Whether a segment names something. -/
def isNamed (s : Text) : Bool := !Path.isTrivial s && s != dots

/-- Whether a raw path goes above the place that it starts from: up to some segment it has more
    steps up than names. -/
def Climbs (raw : Text) : Prop :=
  ∃ k, ((written raw).take k).countP isNamed < ((written raw).take k).count dots

/-- By how many levels segments go above the place that they start from. -/
def climb : List Text → Nat
  | [] => 0
  | s :: ss =>
    if Path.isTrivial s then climb ss else if s == dots then climb ss + 1 else climb ss - 1

/-- Every segment is trivial, a step up or a name. -/
theorem segment_cases (s : Text) : (Path.isTrivial s = true ∧ isNamed s = false ∧ s ≠ dots)
    ∨ s = dots ∨ (Path.isTrivial s = false ∧ isNamed s = true ∧ s ≠ dots) := by
  by_cases htrivial : Path.isTrivial s = true
  · refine Or.inl ⟨htrivial, by simp [isNamed, htrivial], ?_⟩
    rintro rfl
    exact absurd htrivial (by decide)
  · by_cases hdots : s = dots
    · exact Or.inr (Or.inl hdots)
    · rw [Bool.not_eq_true] at htrivial
      exact Or.inr (Or.inr ⟨htrivial, by simp [isNamed, htrivial, hdots], hdots⟩)

/-- Segments take as many off a stack as they climb, and leave on it what they leave on an empty
    one. -/
theorem foldl_push_eq (ss stack : List Text) :
    ss.foldl push stack = ss.foldl push [] ++ stack.drop (climb ss) := by
  induction ss generalizing stack with
  | nil => rfl
  | cons s ss ih =>
      rw [List.foldl_cons, List.foldl_cons, climb]
      rcases segment_cases s with ⟨htrivial, -, -⟩ | rfl | ⟨htrivial, -, hdots⟩
      · rw [push, push, if_pos htrivial, if_pos htrivial, if_pos htrivial]
        exact ih stack
      · show ss.foldl push stack.tail = ss.foldl push [] ++ stack.drop (climb ss + 1)
        rw [ih, List.drop_tail]
      · have hpush (stack : List Text) : push stack s = s :: stack := by
          simp [push, htrivial, hdots]
        rw [hpush, hpush, ih (s :: stack), ih [s], htrivial, List.append_assoc]
        cases climb ss with
        | zero => simp [hdots]
        | succ n => simp [hdots]

/-- Segments climb above a level exactly when, up to some segment, they have more steps up than
    names and levels. -/
theorem lt_climb_iff {n : Nat} : n < climb ss
    ↔ ∃ k, (ss.take k).countP isNamed + n < (ss.take k).count dots := by
  induction ss generalizing n with
  | nil => simp [climb]
  | cons s ss ih =>
      -- without a segment there is no step up
      have hfirst : (∃ k, ((s :: ss).take k).countP isNamed + n < ((s :: ss).take k).count dots)
          ↔ ∃ k, (s :: ss.take k).countP isNamed + n < (s :: ss.take k).count dots := by
        constructor
        · rintro ⟨k, hk⟩
          cases k with
          | zero => exact absurd hk (Nat.not_lt_zero _)
          | succ k => exact ⟨k, hk⟩
        · rintro ⟨k, hk⟩
          exact ⟨k + 1, hk⟩
      rw [hfirst, climb]
      rcases segment_cases s with ⟨htrivial, hnamed, hdots⟩ | rfl | ⟨htrivial, hnamed, hdots⟩
      · simp [htrivial, hnamed, hdots, ih]
      · cases n with
        | zero =>
            refine iff_of_true (Nat.succ_pos _) ⟨0, ?_⟩
            rw [List.take_zero]
            decide
        | succ n =>
            show n + 1 < climb ss + 1 ↔ _
            rw [Nat.add_lt_add_iff_right, ih]
            simp [isNamed, ← Nat.add_assoc]
      · rw [if_neg (by simp [htrivial]), if_neg (by simpa using hdots), Nat.lt_sub_iff_add_lt, ih]
        refine exists_congr fun k => ?_
        rw [List.countP_cons_of_pos hnamed, List.count_cons_of_ne hdots]
        omega

/-- A raw path climbs when its segments do. -/
theorem climbs_iff : Climbs raw ↔ 0 < climb (written raw) := (lt_climb_iff (n := 0)).symm

/-- Segments that climb above a stack take a step up where it is empty. -/
theorem exists_lost_step (h : stack.length < climb ss) :
    ∃ before after, ss = before ++ dots :: after ∧ before.foldl push stack = [] := by
  induction ss generalizing stack with
  | nil => exact absurd h (Nat.not_lt_zero _)
  | cons s ss ih =>
      have hlater (hrest : (push stack s).length < climb ss) :
          ∃ before after, s :: ss = before ++ dots :: after ∧ before.foldl push stack = [] := by
        obtain ⟨before, after, rfl, hempty⟩ := ih hrest
        exact ⟨s :: before, after, rfl, hempty⟩
      rw [climb] at h
      rcases segment_cases s with ⟨htrivial, -, -⟩ | rfl | ⟨htrivial, -, hdots⟩
      · rw [if_pos htrivial] at h
        refine hlater ?_
        rw [push, if_pos htrivial]
        exact h
      · cases stack with
        | nil => exact ⟨[], ss, rfl, rfl⟩
        | cons top stack => exact hlater (Nat.succ_lt_succ_iff.mp h)
      · simp only [htrivial, Bool.false_eq_true, if_false, beq_iff_eq, hdots] at h
        refine hlater ?_
        simp only [push, htrivial, Bool.false_eq_true, if_false, beq_iff_eq, hdots,
          List.length_cons]
        omega

/-! ## The parts of a path -/

/-- A list of texts with slashes between them is worked in one by one. -/
theorem workIn_intercalate (stack : List Text) (ts : List Text) :
    workIn stack (['/'].intercalate ts) = ts.foldl workIn stack := by
  induction ts generalizing stack with
  | nil => rfl
  | cons t ts ih =>
      cases ts with
      | nil =>
          rw [List.intercalate_singleton]
          rfl
      | cons t' ts =>
          rw [List.intercalate_cons_cons, List.append_assoc]
          show workIn stack (t ++ '/' :: ['/'].intercalate (t' :: ts)) = _
          rw [workIn_append rfl, ih]
          rfl

/-- Trivial segments leave the stack alone. -/
theorem foldl_workIn_filter (stack : List Text) (ts : List Text) :
    (ts.filter (!Path.isTrivial ·)).foldl workIn stack = ts.foldl workIn stack := by
  induction ts generalizing stack with
  | nil => rfl
  | cons t ts ih =>
      cases htrivial : Path.isTrivial t with
      | false =>
          rw [List.filter_cons_of_pos (by simp [htrivial]), List.foldl_cons, ih, List.foldl_cons]
      | true =>
          rw [List.filter_cons_of_neg (by simp [htrivial]), ih, List.foldl_cons]
          rw [Path.isTrivial, Bool.or_eq_true, List.isEmpty_iff, beq_iff_eq] at htrivial
          rcases htrivial with rfl | rfl
          · rw [workIn_nil]
          · rw [workIn_dot]

end ScriptPath

namespace Path

open ScriptPath

/-- The parts that a text stands for below a directory. -/
def below (t : Text) : List Part := ((t.splitOn '/').filter (!isTrivial ·)).map partOf

theorem parts_eq (p : Path) :
    p.parts = (leading p.text).1.toList ++ below (leading p.text).2.2 := rfl

theorem text_partOf (s : Text) : (partOf s).text = s := by
  rw [partOf]
  split
  · next h => exact (beq_iff_eq.mp h).symm
  · rfl

/-- The parts of a text are worked in as the text is. -/
theorem foldl_workIn_below (stack : List Text) (t : Text) :
    ((below t).map Part.text).foldl workIn stack = workIn stack t := by
  have htext : Part.text ∘ partOf = id := funext text_partOf
  rw [below, List.map_map, htext, List.map_id, foldl_workIn_filter, ← workIn_intercalate,
    List.intercalate_splitOn]

theorem workIn_render (stack : List Text) (ps : List Part) :
    workIn stack (render ps) = (ps.map Part.text).foldl workIn stack := by
  cases ps with
  | nil => rfl
  | cons p ps =>
      cases p with
      | root =>
          show workIn stack ('/' :: ['/'].intercalate (ps.map Part.text)) = _
          rw [workIn_cons rfl, workIn_intercalate]
          rfl
      | here => exact workIn_intercalate stack _
      | up => exact workIn_intercalate stack _
      | name n => exact workIn_intercalate stack _

/-- What a text can start with: a root, a `.`, or neither, whatever follows. -/
theorem leading_cases (t : Text) : (∃ rest, t = '/' :: rest) ∨ t = ['.']
    ∨ (∃ rest, t = '.' :: '/' :: rest)
    ∨ ∀ u, t ≠ [] → leading (t ++ u) = (none, [], t ++ u) := by
  cases t with
  | nil => exact Or.inr (Or.inr (Or.inr fun _ h => absurd rfl h))
  | cons c t =>
      by_cases hslash : c = '/'
      · exact Or.inl ⟨t, by rw [hslash]⟩
      by_cases hdot : c = '.'
      · subst hdot
        cases t with
        | nil => exact Or.inr (Or.inl rfl)
        | cons d t =>
            by_cases hd : d = '/'
            · exact Or.inr (Or.inr (Or.inl ⟨t, by rw [hd]⟩))
            · exact Or.inr (Or.inr (Or.inr fun u _ => by simp [leading, hd]))
      · exact Or.inr (Or.inr (Or.inr fun u _ => by simp [leading, hslash, hdot]))

theorem leading_other {t : Text} (ht : t ≠ [])
    (h : ∀ u, t ≠ [] → leading (t ++ u) = (none, [], t ++ u)) : leading t = (none, [], t) := by
  have hnone := h [] ht
  rwa [List.append_nil] at hnone

/-- The parts of a path are worked in as its text is. -/
theorem foldl_workIn_parts (stack : List Text) (p : Path) :
    (p.parts.map Part.text).foldl workIn stack = workIn stack p.text := by
  obtain ⟨t⟩ := p
  rw [parts_eq, List.map_append, List.foldl_append, foldl_workIn_below]
  rcases leading_cases t with ⟨rest, rfl⟩ | rfl | ⟨rest, rfl⟩ | hother
  · exact (workIn_cons rfl stack rest).symm
  · rfl
  · show workIn stack ('/' :: rest) = workIn stack ('.' :: '/' :: rest)
    rw [workIn_cons rfl, workIn_dot_cons rfl]
  · cases t with
    | nil => rfl
    | cons c t =>
        rw [leading_other (List.cons_ne_nil c t) hother]
        rfl

theorem below_append_slash (a b : Text) : below (a ++ '/' :: b) = below a ++ below b := by
  rw [below, List.splitOn_append_cons_self, List.filter_append, List.map_append, below, below]

/-- What stands behind a slash adds its parts. -/
theorem parts_append_slash {a : Text} (ha : a ≠ []) (b : Text) :
    parts ⟨a ++ '/' :: b⟩ = parts ⟨a⟩ ++ below b := by
  rcases leading_cases a with ⟨rest, rfl⟩ | rfl | ⟨rest, rfl⟩ | hother
  · show .root :: below (rest ++ '/' :: b) = .root :: below rest ++ below b
    rw [below_append_slash]
    rfl
  · show .here :: below ([] ++ '/' :: b) = .here :: below [] ++ below b
    rw [below_append_slash]
    rfl
  · show .here :: below (('/' :: rest) ++ '/' :: b) = .here :: below ('/' :: rest) ++ below b
    rw [below_append_slash]
    rfl
  · rw [parts_eq, parts_eq, hother _ ha, leading_other ha hother]
    exact below_append_slash a b

/-! ## Joined paths -/

variable {root dir q : Path} {ps ds : List Part}

theorem join_of_relative (hq : q.isAbsolute = false) : dir.join q
    = if dir.text.isEmpty || dir.text.getLast? == some '/' then ⟨dir.text ++ q.text⟩
      else ⟨dir.text ++ '/' :: q.text⟩ := by
  rw [join, hq]
  rfl

/-- A path below a directory has the parts of the directory and then its own. -/
theorem parts_join (hdir : dir.text ≠ []) (hq : q.isAbsolute = false) :
    (dir.join q).parts = dir.parts ++ below q.text := by
  rw [join_of_relative hq, List.isEmpty_eq_false_iff.mpr hdir, Bool.false_or]
  split
  · rename_i hlast
    obtain ⟨u, hu⟩ := List.getLast?_eq_some_iff.mp (beq_iff_eq.mp hlast)
    have hparts : dir.parts = parts ⟨u ++ '/' :: []⟩ := by rw [← hu]
    rw [hu, List.append_assoc, hparts]
    show parts ⟨u ++ '/' :: q.text⟩ = _
    by_cases hempty : u = []
    · subst hempty
      rfl
    · rw [parts_append_slash hempty, parts_append_slash hempty, List.append_assoc]
      rfl
  · exact parts_append_slash hdir q.text

theorem partsAfter?_append (bs ps : List Part) : partsAfter? bs (bs ++ ps) = some ps := by
  induction bs with
  | nil => rfl
  | cons b bs ih => rw [List.cons_append, partsAfter?, if_pos (beq_self_eq_true b), ih]

theorem partsFrom?_append (bs ps : List Part) : partsFrom? bs (bs ++ ps) = some ps := by
  induction bs with
  | nil => rfl
  | cons b bs ih => rw [List.cons_append, partsFrom?, if_pos (beq_self_eq_true b), ih]

/-- The script path of a file below the root. -/
theorem ofPath?_of_parts {file : Path} (h : file.parts = root.parts ++ ps) :
    ofPath? root file = some (normalize (render ps)) := by
  rw [ofPath?, h, partsAfter?_append, partsFrom?_append]
  split
  · rfl
  · rfl

/-- A path below a directory is worked into what the directory leaves. -/
theorem exists_parts_join (hdir : dir.parts = root.parts ++ ds) (hq : q.isAbsolute = false) :
    ∃ ps, (dir.join q).parts = root.parts ++ ps
      ∧ ∀ stack, workIn stack (render ps) = workIn (workIn stack (render ds)) q.text := by
  by_cases hempty : dir.text = []
  · -- the empty directory has no parts, and the path stands for itself
    have hnil : dir.parts = [] := by
      rw [parts_eq, hempty]
      rfl
    obtain ⟨hroot, hds⟩ := List.append_eq_nil_iff.mp (hdir.symm.trans hnil)
    have hjoin : dir.join q = q := by
      rw [join_of_relative hq, hempty]
      rfl
    refine ⟨q.parts, by rw [hjoin, hroot, List.nil_append], ?_⟩
    intro stack
    rw [workIn_render, foldl_workIn_parts, hds]
    rfl
  · refine ⟨ds ++ below q.text, by rw [parts_join hempty hq, hdir, List.append_assoc], ?_⟩
    intro stack
    rw [workIn_render, List.map_append, List.foldl_append, foldl_workIn_below, ← workIn_render]

/-! ## Bare paths -/

theorem isBare_join (hdir : IsBare dir.text) (hq : IsBare q.text) : IsBare (dir.join q).text := by
  rw [join]
  split
  · exact hq
  · split
    · exact isBare_append.mpr ⟨hdir, hq⟩
    · exact isBare_append_slash hdir hq

theorem isBare_of_mem_below {t : Text} (h : IsBare t) {part : Part} (hpart : part ∈ below t) :
    IsBare part.text := by
  obtain ⟨s, hs, rfl⟩ := List.mem_map.mp hpart
  rw [text_partOf]
  intro c hc
  exact h c ((isInfix_of_mem_splitOn (List.mem_filter.mp hs).1).subset hc)

/-- The parts of a bare path are bare. -/
theorem isBare_of_mem_parts {p : Path} (h : IsBare p.text) {part : Part} (hpart : part ∈ p.parts) :
    IsBare part.text := by
  obtain ⟨t⟩ := p
  have hhere : IsBare Part.here.text := List.forall_mem_singleton.mpr (by decide)
  rcases leading_cases t with ⟨rest, rfl⟩ | rfl | ⟨rest, rfl⟩ | hother
  · rcases List.mem_cons.mp hpart with rfl | hpart
    · exact List.forall_mem_nil _
    · exact isBare_of_mem_below (isBare_cons.mp h).2 hpart
  · obtain rfl := List.mem_singleton.mp hpart
    exact hhere
  · rcases List.mem_cons.mp hpart with rfl | hpart
    · exact hhere
    · exact isBare_of_mem_below (isBare_cons.mp h).2 hpart
  · cases t with
    | nil => exact absurd hpart List.not_mem_nil
    | cons c t =>
        rw [parts_eq, leading_other (List.cons_ne_nil c t) hother] at hpart
        exact isBare_of_mem_below h hpart

theorem isBare_render (h : ∀ part ∈ ps, IsBare part.text) : IsBare (render ps) := by
  have hslash : isBlank '/' = false ∧ '/' ≠ '"' := by decide
  have hjoined {ps : List Part} (h : ∀ part ∈ ps, IsBare part.text) :
      IsBare (['/'].intercalate (ps.map Part.text)) := by
    intro c hc
    rcases of_mem_intercalate hc with rfl | ⟨s, hs, hc⟩
    · exact hslash
    · obtain ⟨part, hpart, rfl⟩ := List.mem_map.mp hs
      exact h part hpart c hc
  cases ps with
  | nil => exact List.forall_mem_nil _
  | cons p ps =>
      cases p with
      | root => exact isBare_cons.mpr ⟨hslash, hjoined (List.forall_mem_cons.mp h).2⟩
      | here => exact hjoined h
      | up => exact hjoined h
      | name n => exact hjoined h

/-- Below the root, the script path of a path in a directory is that of the directory with the path
    behind it. -/
theorem ofPath?_join (hdir : dir.parts = root.parts ++ ds) (hbare : IsBare dir.text)
    (hq : q.isAbsolute = false) (hq' : IsBare q.text) :
    ofPath? root (dir.join q) = some (normalize (normalize (render ds) ++ '/' :: q.text)) := by
  have hds : IsBare (render ds) := isBare_render fun part hpart =>
    isBare_of_mem_parts hbare (hdir ▸ List.mem_append_right _ hpart)
  obtain ⟨ps, hps, hwork⟩ := exists_parts_join hdir hq
  have hps' : IsBare (render ps) := isBare_render fun part hpart =>
    isBare_of_mem_parts (isBare_join hbare hq') (hps ▸ List.mem_append_right _ hpart)
  have hsame : workIn [] (normalize (render ds)) = workIn [] (render ds) := by
    have hsegments := segments_normalize hds
    rw [segments_eq_workIn hds, segments_eq_workIn (isBare_normalize hds)] at hsegments
    exact List.reverse_inj.mp hsegments
  rw [ofPath?_of_parts hps, ScriptPath.normalize, segments_eq_workIn hps', hwork,
    ScriptPath.normalize, segments_eq_workIn (isBare_append_slash (isBare_normalize hds) hq'),
    workIn_append rfl, hsame]

end Path

namespace ScriptPath

theorem normalize_eq_iff {a b : Text} : normalize a = normalize b ↔ segments a = segments b := by
  constructor
  · intro h
    rw [← segmentsIn_normalize, h, segmentsIn_normalize]
  · intro h
    rw [normalize, h, normalize]

/-- From a directory and from the root a path reads alike exactly when it climbs out of all of the
    directory. -/
theorem normalize_append_eq_iff {d : Text} (hd : IsBare d) (hnormal : IsNormal d)
    (hraw : IsBare raw) : normalize (d ++ '/' :: raw) = normalize raw
      ↔ (segmentsIn d).length ≤ climb (written raw) := by
  have hsegments : segmentsIn d = (workIn [] d).reverse := by
    rw [← segments_eq_workIn hd, ← segmentsIn_normalize, (normalize_eq_self_iff hd).mpr hnormal]
  have hwork : workIn (workIn [] d) raw
      = workIn [] raw ++ (workIn [] d).drop (climb (written raw)) := foldl_push_eq _ _
  rw [normalize_eq_iff, segments_eq_workIn (isBare_append_slash hd hraw), segments_eq_workIn hraw,
    workIn_append rfl, hwork, List.reverse_inj, List.append_right_eq_self, List.drop_eq_nil_iff,
    hsegments, List.length_reverse]

end ScriptPath

/-! ## Resolution -/

namespace Catalog

open ScriptPath

/-- The tracked file that a raw path names from the directory of a file. -/
def beside (c : Catalog) (file : Path) (raw : Text) : Option Path :=
  ((besides? file raw).bind (ofPath? c.root)).bind c.find?

/-- The reading from the root comes first. -/
theorem resolve_eq (c : Catalog) (raw : Text) (file : Path) :
    c.resolve raw (some file) = (c.find? (normalize raw)).or (c.beside file raw) := by
  rw [beside, Option.bind_assoc, resolve]
  cases c.find? (normalize raw) with
  | none => rfl
  | some target => rfl

/-- The file beside is found exactly when the reading from the root finds none, or is the same. -/
theorem resolve_eq_beside_iff {root file : Path} {files : List Path} {raw : Text} :
    (ofFiles root files).resolve raw (some file) = (ofFiles root files).beside file raw
      ↔ (∀ f ∈ files, ofPath? root f ≠ some (normalize raw))
        ∨ (besides? file raw).bind (ofPath? root) = some (normalize raw) := by
  rw [resolve_eq, ← find?_eq_none_iff]
  cases hfind : (ofFiles root files).find? (normalize raw) with
  | none => exact iff_of_true rfl (Or.inl rfl)
  | some target =>
      have hscript := (of_find? hfind).2
      rw [Option.some_or]
      constructor
      · intro hbeside
        obtain ⟨script, hjoined, hfound⟩ := Option.bind_eq_some_iff.mp hbeside.symm
        -- one file has one script path
        obtain rfl : script = normalize raw :=
          Option.some.inj ((of_find? hfound).2.symm.trans hscript)
        exact Or.inr hjoined
      · rintro (hnone | hjoined)
        · exact absurd hnone (Option.some_ne_none target)
        · show _ = ((besides? file raw).bind (ofPath? root)).bind (ofFiles root files).find?
          rw [hjoined, Option.bind_some, hfind]

/-- A file that stands where the reading from the root leads is taken. -/
theorem exists_resolve_of_script {root file f : Path} {files : List Path} {raw : Text}
    (hf : f ∈ files) (hscript : ofPath? root f = some (normalize raw)) :
    ∃ g ∈ files, ofPath? root g = some (normalize raw)
      ∧ (ofFiles root files).resolve raw (some file) = some g := by
  rw [resolve_eq]
  cases hfind : (ofFiles root files).find? (normalize raw) with
  | none => exact absurd hscript (find?_eq_none_iff.mp hfind f hf)
  | some g =>
      obtain ⟨hg, hscript'⟩ := of_find? hfind
      exact ⟨g, hg, hscript', rfl⟩

/-- **CAPTURED INCLUDES**: from the root, a path that climbs reads as what stands behind a step up
    that is lost, and a script with that script path is taken first.  So the script beside the
    including one is found exactly when there is no such script or both readings agree; for an
    including script below the root they agree exactly when the path climbs out of its whole
    directory. -/
theorem resolve_of_climbs (root : Path) (files : List Path) (file : Path) {raw : Text}
    (hraw : ∀ c ∈ raw, isPathChar c = true) (hclimbs : Climbs raw) :
    (∃ before after, written raw = before ++ dots :: after ∧ before.foldl push [] = []
      ∧ normalize raw = ['/'].intercalate (after.foldl push []).reverse)
    ∧ (∀ f ∈ files, ofPath? root f = some (normalize raw) →
      ∃ g ∈ files, ofPath? root g = some (normalize raw)
        ∧ (ofFiles root files).resolve raw (some file) = some g)
    ∧ ((ofFiles root files).resolve raw (some file) = (ofFiles root files).beside file raw
      ↔ (∀ f ∈ files, ofPath? root f ≠ some (normalize raw))
        ∨ (besides? file raw).bind (ofPath? root) = some (normalize raw))
    ∧ ∀ dir, file.parent? = some dir → IsBare dir.text → root.parts <+: dir.parts →
      raw.head? ≠ some '/' → ∃ d, ofPath? root dir = some d
        ∧ (besides? file raw).bind (ofPath? root) = some (normalize (d ++ '/' :: raw))
        ∧ ((ofFiles root files).resolve raw (some file) = (ofFiles root files).beside file raw
          ↔ (∀ f ∈ files, ofPath? root f ≠ some (normalize raw))
            ∨ (segmentsIn d).length ≤ climb (written raw)) := by
  have hbare := isBare_of_isPathChar hraw
  refine ⟨?lost, fun _ => exists_resolve_of_script, resolve_eq_beside_iff, ?below⟩
  case lost =>
    -- from an empty stack the first step up that leads out of the path is dropped
    have hlevels : ([] : List Text).length < climb (written raw) := climbs_iff.mp hclimbs
    obtain ⟨before, after, hsplit, hempty⟩ := exists_lost_step hlevels
    refine ⟨before, after, hsplit, hempty, ?_⟩
    have hwork : workIn [] raw = after.foldl push [] := by
      rw [workIn, hsplit, List.foldl_append, hempty]
      rfl
    rw [ScriptPath.normalize, segments_eq_workIn hbare, hwork]
  case below =>
    rintro dir hdir hdirBare ⟨ds, hds⟩ hrelative
    have hbeside : (besides? file raw).bind (ofPath? root) = ofPath? root (dir.join ⟨raw⟩) := by
      rw [besides?, hdir, unquote_of_isBare hbare]
      rfl
    have hq : (⟨raw⟩ : Path).isAbsolute = false := beq_eq_false_iff_ne.mpr hrelative
    have hd : IsBare (normalize (Path.render ds)) := by
      refine isBare_normalize (Path.isBare_render fun part hpart => ?_)
      exact Path.isBare_of_mem_parts hdirBare (hds ▸ List.mem_append_right _ hpart)
    -- below the root, the reading beside the file is that of the joined script paths
    have hjoin := Path.ofPath?_join hds.symm hdirBare hq hbare
    refine ⟨_, Path.ofPath?_of_parts hds.symm, hbeside.trans hjoin, ?_⟩
    rw [resolve_eq_beside_iff, hbeside, hjoin, Option.some.injEq,
      normalize_append_eq_iff hd (normalize_isNormal _) hbare]

/-- From two levels below the root, one step up leads to `maps/x`; the readings differ, and the
    script at the root stands in the way. -/
theorem resolve_of_climbs_two_levels_down :
    let root : Path := ⟨"/w".toList⟩
    let files : List Path := [⟨"/w/x".toList⟩, ⟨"/w/maps/x".toList⟩]
    let file : Path := ⟨"/w/maps/dm/a".toList⟩
    let raw : Text := "../x".toList
    Climbs raw ∧ (besides? file raw).bind (ofPath? root) = some "maps/x".toList
      ∧ (ofFiles root files).resolve raw (some file) ≠ (ofFiles root files).beside file raw := by
  intro root files file raw
  have hraw : raw.all isPathChar = true := by decide
  have hclimbs : Climbs raw := ⟨1, by decide +kernel⟩
  obtain ⟨hdir, hparts, hdirectory, hnormal, hroot, hclimb⟩ :
      file.parent? = some ⟨"/w/maps/dm".toList⟩
      ∧ root.parts <+: Path.parts ⟨"/w/maps/dm".toList⟩
      ∧ ofPath? root ⟨"/w/maps/dm".toList⟩ = some "maps/dm".toList
      ∧ normalize ("maps/dm".toList ++ '/' :: raw) = "maps/x".toList
      ∧ ofPath? root ⟨"/w/x".toList⟩ = some (normalize raw)
      ∧ climb (written raw) < (segmentsIn "maps/dm".toList).length := by
    decide +kernel
  have hbare : IsBare "/w/maps/dm".toList :=
    isBare_of_isPathChar (List.all_eq_true.mp (by decide))
  obtain ⟨-, -, -, hbelow⟩ := resolve_of_climbs root files file (List.all_eq_true.mp hraw) hclimbs
  obtain ⟨d, hd, hbeside, hiff⟩ := hbelow _ hdir hbare hparts (by decide)
  obtain rfl : d = "maps/dm".toList := Option.some.inj (hd.symm.trans hdirectory)
  refine ⟨hclimbs, hbeside.trans (congrArg some hnormal), ?_⟩
  rw [ne_eq, hiff, not_or]
  exact ⟨fun hnone => hnone _ List.mem_cons_self hroot, Nat.not_le.mpr hclimb⟩

/-- A script one level up is meant and stands there, and the script of that name at the root is
    taken. -/
theorem root_script_taken_for_parent_script :
    let c := ofFiles ⟨"/w".toList⟩
      [⟨"/w/x.scr".toList⟩, ⟨"/w/maps/x.scr".toList⟩, ⟨"/w/maps/dm/a.scr".toList⟩]
    let file : Path := ⟨"/w/maps/dm/a.scr".toList⟩
    let raw : Text := "../x.scr".toList
    (raw.all isPathChar = true ∧ Climbs raw)
      ∧ c.beside file raw = some ⟨"/w/maps/x.scr".toList⟩
      ∧ c.resolve raw (some file) = some ⟨"/w/x.scr".toList⟩ := by
  intro c file raw
  obtain ⟨hraw, hclimbs, hbeside, hresolve⟩ : raw.all isPathChar = true
      ∧ ((written raw).take 1).countP isNamed < ((written raw).take 1).count dots
      ∧ c.beside file raw = some ⟨"/w/maps/x.scr".toList⟩
      ∧ c.resolve raw (some file) = some ⟨"/w/x.scr".toList⟩ := by
    decide +kernel
  exact ⟨⟨hraw, 1, hclimbs⟩, hbeside, hresolve⟩

end Catalog

end ScriptAtlas
