import ScriptAtlas.Proofs.Path.Normalization

/-! # Respelling — a tracked script is found under every spelling of its path

    Scripts name each other in capitals, with backslashes, doubled or leading
    separators and idle dots, in quotes and among blanks.  The route:

    * one such change leaves what a path works into a stack of segments as it is
      (`Respells.workIn_eq`), hence so do any number of them, and the path stays
      bare (`normalize_of_respells`);
    * quotes and the blanks around them are taken off again (`unquote_wrapped`);
    * a script path is normal, so every spelling of it normalizes to it
      (`normalize_of_isSpelling`), and script paths that differ lead to one file
      each (`Catalog.find?_eq_some_iff`). -/

namespace ScriptAtlas

open Vocabulary Text

namespace ScriptPath

variable {t a b : Text} {c : Char}

/-! ## Working a path into a stack -/

/-- The segments of a path as they stand, in lower case. -/
def written (t : Text) : List Text := (spelled t).splitOn '/'

/-- The stack once the segments of a path have been worked in. -/
def workIn (stack : List Text) (t : Text) : List Text := (written t).foldl push stack

/-- The characters that stand between segments. -/
def isSeparator (c : Char) : Bool := c == '/' || c == '\\'

@[simp] theorem workIn_nil (stack : List Text) : workIn stack [] = stack := rfl

@[simp] theorem workIn_dot (stack : List Text) : workIn stack ['.'] = stack := rfl

theorem spelled_append_separator (hc : isSeparator c = true) (a b : Text) :
    spelled (a ++ c :: b) = spelled a ++ '/' :: spelled b := by
  rw [isSeparator, Bool.or_eq_true, beq_iff_eq, beq_iff_eq] at hc
  rcases hc with rfl | rfl
  · exact spelled_append_slash a b
  · simp [spelled, unifySeparators, lower, show Char.toLower '/' = '/' from rfl]

/-- What stands behind a separator is worked into what those before it leave. -/
theorem workIn_append (hc : isSeparator c = true) (stack : List Text) (a b : Text) :
    workIn stack (a ++ c :: b) = workIn (workIn stack a) b := by
  rw [workIn, written, spelled_append_separator hc, List.splitOn_append_cons_self,
    List.foldl_append]
  rfl

theorem workIn_cons (hc : isSeparator c = true) (stack : List Text) (b : Text) :
    workIn stack (c :: b) = workIn stack b := workIn_append hc stack [] b

theorem workIn_dot_cons (hc : isSeparator c = true) (stack : List Text) (b : Text) :
    workIn stack ('.' :: c :: b) = workIn stack b := workIn_append hc stack ['.'] b

theorem segments_eq_workIn (h : IsBare t) : segments t = (workIn [] t).reverse := by
  rw [segments_of_isBare h, foldl_push_segmentsIn, workIn, written]

/-- Letters are lowered and separators unified in either order. -/
theorem spelled_eq_unify (t : Text) : spelled t = unifySeparators (lower t) := by
  rw [spelled, lower, unifySeparators, List.map_map, lower, unifySeparators, List.map_map]
  refine List.map_congr_left ?_
  intro c _
  by_cases hc : c = '\\'
  · subst hc
    rfl
  · have hlower : c.toLower ≠ '\\' := fun h => hc ((toLower_eq_iff rfl c).mp h)
    simp [hc, hlower]

/-! ## Changes of spelling -/

/-- One change of spelling. -/
inductive Respells : Text → Text → Prop
  /-- Letters are written in the other case. -/
  | letterCase {u v : Text} (h : lower u = lower v) : Respells u v
  /-- A slash is written as a backslash. -/
  | backslash (u v : Text) : Respells (u ++ '/' :: v) (u ++ '\\' :: v)
  /-- A separator is written twice, with either sign. -/
  | doubled (u v : Text) {x y : Char} (hx : isSeparator x = true) (hy : isSeparator y = true) :
      Respells (u ++ x :: v) (u ++ x :: y :: v)
  /-- A separator is put in front. -/
  | leading (u : Text) {x : Char} (hx : isSeparator x = true) : Respells u (x :: u)
  /-- A segment `.` is put in front, behind a separator or at the end. -/
  | dotFirst (u : Text) {x : Char} (hx : isSeparator x = true) : Respells u ('.' :: x :: u)
  | dotBetween (u v : Text) {x y : Char} (hx : isSeparator x = true) (hy : isSeparator y = true) :
      Respells (u ++ x :: v) (u ++ x :: '.' :: y :: v)
  | dotLast (u : Text) {x : Char} (hx : isSeparator x = true) : Respells u (u ++ [x, '.'])

/-- A change of spelling leaves what the path works into a stack. -/
theorem Respells.workIn_eq (h : Respells a b) (stack : List Text) :
    workIn stack b = workIn stack a := by
  cases h with
  | letterCase hlower =>
      rw [workIn, workIn, written, written, spelled_eq_unify, spelled_eq_unify, hlower]
  | backslash u v => rw [workIn_append rfl, workIn_append rfl]
  | doubled u v hc hd => rw [workIn_append hc, workIn_append hc, workIn_cons hd]
  | leading u hc => exact workIn_cons hc stack a
  | dotFirst u hc => exact workIn_dot_cons hc stack a
  | dotBetween u v hc hd => rw [workIn_append hc, workIn_append hc, workIn_dot_cons hd]
  | dotLast u hc => rw [workIn_append hc, workIn_dot]

/-! ## Bare texts stay bare -/

theorem isBare_lower : IsBare (lower t) ↔ IsBare t := by
  refine List.forall_mem_map.trans (forall₂_congr ?_)
  intro c _
  rw [isBlank_ignoresCase, ne_eq, toLower_eq_iff rfl]

theorem isBare_append : IsBare (a ++ b) ↔ IsBare a ∧ IsBare b := List.forall_mem_append

theorem isBare_cons : IsBare (c :: t) ↔ (isBlank c = false ∧ c ≠ '"') ∧ IsBare t :=
  List.forall_mem_cons

theorem isSeparator.isBare (hc : isSeparator c = true) : isBlank c = false ∧ c ≠ '"' := by
  rw [isSeparator, Bool.or_eq_true, beq_iff_eq, beq_iff_eq] at hc
  rcases hc with rfl | rfl <;> decide

theorem Respells.isBare (h : Respells a b) (ha : IsBare a) : IsBare b := by
  have hdot : isBlank '.' = false ∧ '.' ≠ '"' := by decide
  cases h with
  | letterCase hlower => rwa [← isBare_lower, ← hlower, isBare_lower]
  | backslash u v =>
      rw [isBare_append, isBare_cons] at ha ⊢
      exact ⟨ha.1, by decide, ha.2.2⟩
  | doubled u v hc hd =>
      rw [isBare_append, isBare_cons] at ha ⊢
      exact ⟨ha.1, ha.2.1, isBare_cons.mpr ⟨isSeparator.isBare hd, ha.2.2⟩⟩
  | leading u hc => exact isBare_cons.mpr ⟨isSeparator.isBare hc, ha⟩
  | dotFirst u hc => exact isBare_cons.mpr ⟨hdot, isBare_cons.mpr ⟨isSeparator.isBare hc, ha⟩⟩
  | dotBetween u v hc hd =>
      rw [isBare_append, isBare_cons] at ha ⊢
      exact ⟨ha.1, ha.2.1, isBare_cons.mpr ⟨hdot, isBare_cons.mpr ⟨isSeparator.isBare hd, ha.2.2⟩⟩⟩
  | dotLast u hc =>
      exact isBare_append.mpr ⟨ha, isBare_cons.mpr ⟨isSeparator.isBare hc,
        isBare_cons.mpr ⟨hdot, List.forall_mem_nil _⟩⟩⟩

/-- Any number of changes leaves a path bare and its normal form as it is. -/
theorem normalize_of_respells (h : Relation.ReflTransGen Respells a b) (ha : IsBare a) :
    IsBare b ∧ normalize b = normalize a := by
  induction h with
  | refl => exact ⟨ha, rfl⟩
  | tail _ hstep ih =>
      obtain ⟨hbare, hnormal⟩ := ih
      refine ⟨hstep.isBare hbare, ?_⟩
      rw [← hnormal, normalize, normalize, segments_eq_workIn (hstep.isBare hbare),
        segments_eq_workIn hbare, hstep.workIn_eq]

/-! ## Quotes and blanks -/

/-- What fails a test is left over once both ends that pass it have been dropped. -/
theorem dropEndWhile_dropWhile {p : Char → Bool} {before core after : Text}
    (hbefore : ∀ c ∈ before, p c = true) (hcore : ∀ c ∈ core, p c = false)
    (hafter : ∀ c ∈ after, p c = true) :
    dropEndWhile p ((before ++ core ++ after).dropWhile p) = core := by
  have hend : dropEndWhile p (core ++ after) = core := by
    rw [dropEndWhile, List.reverse_append,
      List.dropWhile_append_of_pos fun c hc => hafter c (List.mem_reverse.mp hc)]
    exact dropEndWhile_of_forall hcore
  rw [List.append_assoc, List.dropWhile_append_of_pos hbefore]
  cases core with
  | nil =>
      rw [List.nil_append, List.dropWhile_eq_nil_iff.mpr hafter]
      rfl
  | cons c core =>
      rw [List.cons_append, List.dropWhile_cons_of_neg (by simp [hcore c List.mem_cons_self])]
      exact hend

/-- Quotes around a bare path, and blanks around those, are taken off. -/
theorem unquote_wrapped {before quotes after : Text} (ht : IsBare t)
    (hquotes : quotes = [] ∨ quotes = ['"']) (hbefore : ∀ c ∈ before, isBlank c = true)
    (hafter : ∀ c ∈ after, isBlank c = true) :
    unquote (before ++ (quotes ++ t ++ quotes) ++ after) = t := by
  have hquote : ∀ c ∈ quotes, isBlank c = false ∧ (c == '"') = true := by
    rcases hquotes with rfl | rfl
    · exact List.forall_mem_nil _
    · exact List.forall_mem_singleton.mpr (by decide)
  have hcore : ∀ c ∈ quotes ++ t ++ quotes, isBlank c = false := by
    refine List.forall_mem_append.mpr ⟨List.forall_mem_append.mpr ⟨?_, ?_⟩, ?_⟩
    · exact fun c hc => (hquote c hc).1
    · exact fun c hc => (ht c hc).1
    · exact fun c hc => (hquote c hc).1
  have htrim : trim (before ++ (quotes ++ t ++ quotes) ++ after) = quotes ++ t ++ quotes :=
    dropEndWhile_dropWhile hbefore hcore hafter
  rw [unquote, htrim]
  exact dropEndWhile_dropWhile (fun c hc => (hquote c hc).2)
    (fun c hc => beq_eq_false_iff_ne.mpr (ht c hc).2) fun c hc => (hquote c hc).2

/-- The spellings of a script path: any changes, then quotes or none, then any blanks. -/
inductive IsSpelling (script : Text) : Text → Prop
  | intro {path quotes before after : Text} (hpath : Relation.ReflTransGen Respells script path)
      (hquotes : quotes = [] ∨ quotes = ['"']) (hbefore : ∀ c ∈ before, isBlank c = true)
      (hafter : ∀ c ∈ after, isBlank c = true) :
      IsSpelling script (before ++ (quotes ++ path ++ quotes) ++ after)

/-- Every spelling of a path normalizes as the path does. -/
theorem normalize_of_isSpelling {script raw : Text} (h : IsSpelling script raw)
    (hscript : IsBare script) : normalize raw = normalize script := by
  obtain ⟨hpath, hquotes, hbefore, hafter⟩ := h
  obtain ⟨hbare, hnormal⟩ := normalize_of_respells hpath hscript
  rw [← hnormal, normalize, normalize, segments, segments,
    unquote_wrapped hbare hquotes hbefore hafter, unquote_of_isBare hbare]

/-- A script path is normal. -/
theorem isNormal_of_ofPath? {root file : Path} {script : Text}
    (h : ofPath? root file = some script) : IsNormal script := by
  rw [ofPath?] at h
  split at h
  · obtain ⟨ps, -, rfl⟩ := Option.map_eq_some_iff.mp h
    exact normalize_isNormal _
  · split at h
    · exact Option.some.inj h ▸ normalize_isNormal _
    · exact Option.some.inj h ▸ normalize_isNormal _

end ScriptPath

/-! ## Files by script path -/

namespace Catalog

open ScriptPath

variable {root : Path} {files : List Path} {script : Text} {file : Path}

/-- What is found under a script path is a file with that script path. -/
theorem of_find? (h : (ofFiles root files).find? script = some file) :
    file ∈ files ∧ ofPath? root file = some script := by
  obtain ⟨entry, hentry, rfl⟩ := Option.map_eq_some_iff.mp h
  rw [List.findRev?_eq_find?_reverse] at hentry
  obtain ⟨f, hf, hscript⟩ :=
    List.mem_filterMap.mp (List.mem_reverse.mp (List.mem_of_find?_eq_some hentry))
  obtain ⟨s, hs, rfl⟩ := Option.map_eq_some_iff.mp hscript
  have hkey := List.find?_some hentry
  obtain rfl : s = script := beq_iff_eq.mp hkey
  exact ⟨hf, hs⟩

/-- Nothing is found under a script path exactly when no file has it. -/
theorem find?_eq_none_iff : (ofFiles root files).find? script = none
    ↔ ∀ f ∈ files, ofPath? root f ≠ some script := by
  rw [find?, Option.map_eq_none_iff, List.findRev?_eq_find?_reverse, List.find?_eq_none]
  constructor
  · intro hnone f hf hscript
    refine hnone (script, f) (List.mem_reverse.mpr (List.mem_filterMap.mpr ⟨f, hf, ?_⟩)) ?_
    · rw [hscript]
      rfl
    · exact beq_self_eq_true script
  · intro hnone entry hentry hscript
    obtain ⟨f, hf, hf'⟩ := List.mem_filterMap.mp (List.mem_reverse.mp hentry)
    obtain ⟨s, hs, rfl⟩ := Option.map_eq_some_iff.mp hf'
    obtain rfl : s = script := beq_iff_eq.mp hscript
    exact hnone f hf hs

/-- Where script paths differ, a file is found under its own. -/
theorem find?_eq_some_iff
    (hdistinct : files.Pairwise fun f g => ofPath? root f ≠ ofPath? root g) :
    (ofFiles root files).find? script = some file
      ↔ file ∈ files ∧ ofPath? root file = some script := by
  refine ⟨of_find?, ?_⟩
  rintro ⟨hfile, hscript⟩
  cases hfind : (ofFiles root files).find? script with
  | none => exact absurd hscript (find?_eq_none_iff.mp hfind file hfile)
  | some other =>
      obtain ⟨hother, hsame⟩ := of_find? hfind
      have hnodup : (files.map (ofPath? root)).Nodup := List.pairwise_map.mpr hdistinct
      rw [List.inj_on_of_nodup_map hnodup hother hfile (hsame.trans hscript.symm)]

/-- **EVERY SPELLING**: where all files have script paths of path characters and no two share one, a
    file is found under every spelling of its script path, whatever file names it. -/
theorem resolve_isSpelling (root : Path) {files : List Path}
    (hscripts : ∀ f ∈ files, ∃ s, ofPath? root f = some s ∧ ∀ c ∈ s, isPathChar c = true)
    (hdistinct : files.Pairwise fun f g => ofPath? root f ≠ ofPath? root g) {file : Path}
    (hfile : file ∈ files) {raw : Text}
    (hraw : IsSpelling ((ofFiles root files).scriptPath file) raw) (includer : Option Path) :
    (ofFiles root files).resolve raw includer = some file := by
  obtain ⟨script, hscript, hchars⟩ := hscripts file hfile
  have hbare := isBare_of_isPathChar hchars
  rw [scriptPath, show (ofFiles root files).root = root from rfl, hscript, Option.getD_some] at hraw
  have hnormal : normalize raw = script :=
    (normalize_of_isSpelling hraw hbare).trans
      ((normalize_eq_self_iff hbare).mpr (isNormal_of_ofPath? hscript))
  rw [resolve, hnormal, (find?_eq_some_iff hdistinct).mpr ⟨hfile, hscript⟩]

/-- Capitals, a backslash, an idle dot, a leading slash, quotes and blanks at once.  Beside the file
    that names it stands another with the same path from there. -/
theorem resolve_in_capitals_and_quotes :
    let root : Path := ⟨"/w".toList⟩
    let file : Path := ⟨"/w/A/b".toList⟩
    let nearer : Path := ⟨"/w/dm/a/b".toList⟩
    let raw : Text := "\t\"/A\\./B\" ".toList
    (ofFiles root [file, nearer]).scriptPath file = "a/b".toList ∧ IsSpelling "a/b".toList raw
      ∧ (ofFiles root [file, nearer]).resolve raw (some ⟨"/w/dm/c".toList⟩) = some file := by
  intro root file nearer raw
  obtain ⟨hfile, hnearer, hscript⟩ : ofPath? root file = some "a/b".toList
      ∧ ofPath? root nearer = some "dm/a/b".toList
      ∧ (ofFiles root [file, nearer]).scriptPath file = "a/b".toList := by
    decide +kernel
  have hscripts : ∀ f ∈ [file, nearer], ∃ s, ofPath? root f = some s
      ∧ ∀ c ∈ s, isPathChar c = true := by
    refine List.forall_mem_cons.mpr ⟨⟨_, hfile, ?_⟩, List.forall_mem_singleton.mpr ⟨_, hnearer, ?_⟩⟩
    · exact List.all_eq_true.mp (by decide)
    · exact List.all_eq_true.mp (by decide)
  have hdistinct : [file, nearer].Pairwise fun f g => ofPath? root f ≠ ofPath? root g := by
    refine List.pairwise_pair.mpr ?_
    rw [hfile, hnearer]
    decide
  have hspelling : IsSpelling "a/b".toList raw := by
    rw [show "a/b".toList = ['a'] ++ '/' :: ['b'] by decide,
      show raw = ['\t'] ++ (['"'] ++ ['/', 'A', '\\', '.', '/', 'B'] ++ ['"']) ++ [' '] by decide]
    refine .intro ?_ (Or.inr rfl) (List.forall_mem_singleton.mpr (by decide))
      (List.forall_mem_singleton.mpr (by decide))
    refine .head (.backslash ['a'] ['b']) ?_
    refine .head (.dotBetween ['a'] ['b'] rfl (show isSeparator '/' = true from rfl)) ?_
    refine .head (.leading _ (show isSeparator '/' = true from rfl)) ?_
    exact .single (.letterCase (by decide))
  refine ⟨hscript, hspelling, ?_⟩
  exact resolve_isSpelling root hscripts hdistinct List.mem_cons_self (hscript ▸ hspelling) _

end Catalog

end ScriptAtlas
