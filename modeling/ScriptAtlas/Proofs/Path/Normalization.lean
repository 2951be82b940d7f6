import ScriptAtlas.Path.Script
import ScriptAtlas.Proofs.Scan.Lowering

/-! # Normalization — one spelling for every script path

    A raw path is spelled in lower case with forward slashes, and its segments
    are worked into a stack one by one.  The route:

    * one segment puts nothing on the stack but itself, and never an empty one, `.`
      or `..` (`of_mem_push`), hence neither do many (`of_mem_foldl_push`), and
      segments other than these are stacked as they come
      (`foldl_push_of_isProper`);
    * so a normalized path is made of its own segments (`segmentsIn_normalize`) and
      is normal (`normalize_isNormal`), and a normal path is left alone
      (`normalize_eq_self_iff`);
    * the segments behind a slash go onto the stack that those before it leave
      (`segments_append`), whichever way the path before it was spelled. -/

namespace ScriptAtlas

open Vocabulary Text

namespace ScriptPath

variable {t a b : Text}

/-! ## Bare texts -/

/-- A text without blanks and quotes, which trimming leaves alone. -/
def IsBare (t : Text) : Prop := ∀ c ∈ t, isBlank c = false ∧ c ≠ '"'

/-- Path characters make a bare text. -/
theorem isBare_of_isPathChar (h : ∀ c ∈ t, isPathChar c = true) : IsBare t := by
  intro c hc
  have hpath := h c hc
  simp only [isPathChar, Bool.or_eq_true, beq_iff_eq] at hpath
  rcases hpath with (((hident | rfl) | rfl) | rfl) | rfl
  · refine ⟨isBlank_of_isIdentifierChar hident, ?_⟩
    rintro rfl
    exact absurd hident (by decide)
  all_goals decide

theorem isBare_append_slash (ha : IsBare a) (hb : IsBare b) : IsBare (a ++ '/' :: b) := by
  intro c hc
  rcases List.mem_append.mp hc with hc | hc
  · exact ha c hc
  · rcases List.mem_cons.mp hc with rfl | hc
    · decide
    · exact hb c hc

theorem dropWhile_of_forall {p : Char → Bool} (h : ∀ c ∈ t, p c = false) : t.dropWhile p = t := by
  cases t with
  | nil => rfl
  | cons c t => exact List.dropWhile_cons_of_neg (by simp [h c List.mem_cons_self])

theorem dropEndWhile_of_forall {p : Char → Bool} (h : ∀ c ∈ t, p c = false) :
    dropEndWhile p t = t := by
  rw [dropEndWhile, dropWhile_of_forall fun c hc => h c (List.mem_reverse.mp hc),
    List.reverse_reverse]

theorem unquote_of_isBare (h : IsBare t) : unquote t = t := by
  have hblank : ∀ c ∈ t, isBlank c = false := fun c hc => (h c hc).1
  have hquote : ∀ c ∈ t, (c == '"') = false := fun c hc => beq_eq_false_iff_ne.mpr (h c hc).2
  rw [unquote, trim, trimEnd, dropWhile_of_forall hblank, dropEndWhile_of_forall hblank, trimQuotes,
    dropWhile_of_forall hquote, dropEndWhile_of_forall hquote]

/-! ## Lower case and forward slashes -/

/-- The text in lower case and with forward slashes. -/
def spelled (t : Text) : Text := lower (unifySeparators t)

theorem spelled_append_slash (a b : Text) :
    spelled (a ++ '/' :: b) = spelled a ++ '/' :: spelled b := by
  simp [spelled, unifySeparators, lower, show Char.toLower '/' = '/' from rfl]

/-- What is spelled so has no backslash and no capital. -/
theorem of_mem_spelled {c : Char} (h : c ∈ spelled t) :
    c ≠ '\\' ∧ c.isUpper = false := by
  obtain ⟨d, hd, rfl⟩ := List.mem_map.mp h
  refine ⟨?_, Char.isUpper_toLower_eq_false d⟩
  rw [ne_eq, toLower_eq_iff rfl]
  obtain ⟨e, -, rfl⟩ := List.mem_map.mp hd
  by_cases he : e = '\\'
  · simp [he]
  · simp [he]

theorem spelled_eq_self (hslash : '\\' ∉ t) (hlower : ∀ c ∈ t, c.isUpper = false) :
    spelled t = t := by
  have hunified : unifySeparators t = t := by
    refine (List.map_congr_left ?_).trans (List.map_id t)
    intro c hc
    have hne : c ≠ '\\' := fun h => hslash (h ▸ hc)
    simp [hne]
  rw [spelled, hunified]
  refine (List.map_congr_left ?_).trans (List.map_id t)
  intro c hc
  exact Char.toLower_eq_of_not_isUpper (by simp [hlower c hc])

/-! ## Segments on a stack -/

/-- A segment that names something: it is not empty, not `.` and not `..`. -/
def IsProper (s : Text) : Prop := s ≠ [] ∧ s ≠ ['.'] ∧ s ≠ ['.', '.']

/-- The segments between the slashes of a path; the empty path has none. -/
def segmentsIn (p : Text) : List Text := if p.isEmpty then [] else p.splitOn '/'

/-- A path in its one spelling. -/
structure IsNormal (p : Text) : Prop where
  /-- All separators are forward slashes. -/
  noBackslash : '\\' ∉ p
  /-- No letter is a capital. -/
  noCapital : ∀ c ∈ p, c.isUpper = false
  /-- No segment is empty, `.` or `..`. -/
  isProper : ∀ s ∈ segmentsIn p, IsProper s

variable {stack ss : List Text} {s segment : Text}

theorem push_of_isProper (h : IsProper s) : push stack s = s :: stack := by
  obtain ⟨hempty, hdot, hdots⟩ := h
  simp [push, Path.isTrivial, hempty, hdot, hdots]

/-- What is on the stack after a segment was there before it, or is the segment itself. -/
theorem of_mem_push (h : s ∈ push stack segment) : s ∈ stack ∨ s = segment ∧ IsProper s := by
  rw [push] at h
  split at h
  · exact Or.inl h
  · next htrivial =>
      split at h
      · exact Or.inl (List.mem_of_mem_tail h)
      · next hdots =>
          rcases List.mem_cons.mp h with rfl | h
          · refine Or.inr ⟨rfl, ?_⟩
            simp only [Path.isTrivial, Bool.or_eq_true, List.isEmpty_iff, beq_iff_eq, not_or]
              at htrivial hdots
            exact ⟨htrivial.1, htrivial.2, hdots⟩
          · exact Or.inl h

/-- What is on the stack after segments was there before them, or is a proper one of them. -/
theorem of_mem_foldl_push (h : s ∈ ss.foldl push stack) : s ∈ stack ∨ s ∈ ss ∧ IsProper s := by
  induction ss generalizing stack with
  | nil => exact Or.inl h
  | cons segment ss ih =>
      rcases ih h with h | ⟨hmem, hproper⟩
      · rcases of_mem_push h with h | ⟨rfl, hproper⟩
        · exact Or.inl h
        · exact Or.inr ⟨List.mem_cons_self, hproper⟩
      · exact Or.inr ⟨List.mem_cons_of_mem segment hmem, hproper⟩

/-- Proper segments are stacked as they come. -/
theorem foldl_push_of_isProper (h : ∀ s ∈ ss, IsProper s) (stack : List Text) :
    ss.foldl push stack = ss.reverse ++ stack := by
  induction ss generalizing stack with
  | nil => rfl
  | cons segment ss ih =>
      obtain ⟨hsegment, hss⟩ := List.forall_mem_cons.mp h
      rw [List.foldl_cons, push_of_isProper hsegment, ih hss, List.reverse_cons, List.append_assoc]
      rfl

/-- An empty path puts nothing on the stack. -/
theorem foldl_push_segmentsIn (p : Text) (stack : List Text) :
    (segmentsIn p).foldl push stack = (p.splitOn '/').foldl push stack := by
  cases p with
  | nil => rfl
  | cons c p => rfl

theorem intercalate_segmentsIn (p : Text) : ['/'].intercalate (segmentsIn p) = p := by
  cases p with
  | nil => rfl
  | cons c p => exact List.intercalate_splitOn '/'

/-! ## The segments of a raw path -/

theorem of_mem_segments {raw : Text} (h : s ∈ segments raw) :
    s ∈ (spelled (unquote raw)).splitOn '/' ∧ IsProper s := by
  rcases of_mem_foldl_push (List.mem_reverse.mp h) with h | h
  · exact absurd h List.not_mem_nil
  · exact h

/-- A normalized path is made of the segments of the raw one. -/
theorem segmentsIn_normalize (raw : Text) : segmentsIn (normalize raw) = segments raw := by
  have hslash : ∀ s ∈ segments raw, '/' ∉ s := fun s hs =>
    notMem_of_mem_splitOn (of_mem_segments hs).1
  cases hsegments : segments raw with
  | nil => simp [normalize, hsegments, segmentsIn]
  | cons first rest =>
      have hne : segments raw ≠ [] := by simp [hsegments]
      have hsplit : (normalize raw).splitOn '/' = segments raw :=
        List.splitOn_intercalate '/' hslash hne
      rw [segmentsIn, if_neg, hsplit, hsegments]
      -- the parts of an empty path would be one empty segment
      intro hempty
      rw [List.isEmpty_iff.mp hempty, List.splitOn_nil] at hsplit
      have hmem : [] ∈ segments raw := hsplit ▸ List.mem_singleton_self []
      exact (of_mem_segments hmem).2.1 rfl

theorem of_mem_intercalate {x c : Char} (h : c ∈ [x].intercalate ss) :
    c = x ∨ ∃ s ∈ ss, c ∈ s := by
  induction ss with
  | nil => exact absurd h List.not_mem_nil
  | cons s ss ih =>
      cases ss with
      | nil =>
          rw [List.intercalate_singleton] at h
          exact Or.inr ⟨s, List.mem_cons_self, h⟩
      | cons s' ss =>
          rw [List.intercalate_cons_cons, List.mem_append, List.mem_append,
            List.mem_singleton] at h
          rcases h with (h | rfl) | h
          · exact Or.inr ⟨s, List.mem_cons_self, h⟩
          · exact Or.inl rfl
          · rcases ih h with rfl | ⟨r, hr, hc⟩
            · exact Or.inl rfl
            · exact Or.inr ⟨r, List.mem_cons_of_mem s hr, hc⟩

/-- The characters of a normalized path are slashes and those of the raw one as it is spelled. -/
theorem of_mem_normalize {raw : Text} {c : Char} (h : c ∈ normalize raw) :
    c = '/' ∨ c ∈ spelled (unquote raw) := by
  rcases of_mem_intercalate h with rfl | ⟨s, hs, hc⟩
  · exact Or.inl rfl
  · exact Or.inr ((isInfix_of_mem_splitOn (of_mem_segments hs).1).subset hc)

/-- Normalizing makes a path normal, whatever it is given. -/
theorem normalize_isNormal (raw : Text) : IsNormal (normalize raw) where
  noBackslash := by
    intro h
    rcases of_mem_normalize h with hslash | hspelled
    · exact absurd hslash (by decide)
    · exact (of_mem_spelled hspelled).1 rfl
  noCapital := by
    intro c h
    rcases of_mem_normalize h with rfl | hspelled
    · rfl
    · exact (of_mem_spelled hspelled).2
  isProper := by
    intro s hs
    rw [segmentsIn_normalize] at hs
    exact (of_mem_segments hs).2

/-! ## Normal paths -/

theorem isBare_normalize (h : IsBare t) : IsBare (normalize t) := by
  intro c hc
  rcases of_mem_normalize hc with rfl | hspelled
  · decide
  · rw [unquote_of_isBare h] at hspelled
    obtain ⟨d, hd, rfl⟩ := List.mem_map.mp hspelled
    obtain ⟨e, he, rfl⟩ := List.mem_map.mp hd
    by_cases hslash : e = '\\'
    · subst hslash
      decide
    · obtain ⟨hblank, hquote⟩ := h e he
      simp only [beq_iff_eq, hslash, if_false]
      exact ⟨(isBlank_ignoresCase e).trans hblank, fun h => hquote ((toLower_eq_iff rfl e).mp h)⟩

/-- The segments of a bare path are worked in from an empty stack. -/
theorem segments_of_isBare (h : IsBare t) :
    segments t = ((segmentsIn (spelled t)).foldl push []).reverse := by
  rw [foldl_push_segmentsIn, segments, unquote_of_isBare h, spelled]

/-- The normal paths are those that normalizing leaves alone. -/
theorem normalize_eq_self_iff (h : IsBare t) : normalize t = t ↔ IsNormal t := by
  constructor
  · intro heq
    exact heq ▸ normalize_isNormal t
  · intro hnormal
    have hspelled : spelled t = t := spelled_eq_self hnormal.noBackslash hnormal.noCapital
    rw [normalize, segments_of_isBare h, hspelled, foldl_push_of_isProper hnormal.isProper,
      List.append_nil, List.reverse_reverse, intercalate_segmentsIn]

theorem normalize_normalize (h : IsBare t) : normalize (normalize t) = normalize t :=
  (normalize_eq_self_iff (isBare_normalize h)).mpr (normalize_isNormal t)

theorem segments_normalize (h : IsBare t) : segments (normalize t) = segments t := by
  rw [← segmentsIn_normalize, normalize_normalize h, segmentsIn_normalize]

/-- What stands behind a slash is worked into the segments before it. -/
theorem segments_append (ha : IsBare a) (hb : IsBare b) : segments (a ++ '/' :: b)
    = (((spelled b).splitOn '/').foldl push (segments a).reverse).reverse := by
  rw [segments_of_isBare (isBare_append_slash ha hb), segments_of_isBare ha, foldl_push_segmentsIn,
    foldl_push_segmentsIn, spelled_append_slash, List.splitOn_append_cons_self, List.foldl_append,
    List.reverse_reverse]

/-- **ONE SPELLING**: normalizing a path without blanks and quotes makes it normal and leaves exactly
    the normal paths alone, so doing it twice is doing it once; and a path may be normalized before
    more is put behind it. -/
theorem normalize_canonical (ha : IsBare a) (hb : IsBare b) :
    IsNormal (normalize a) ∧ (normalize a = a ↔ IsNormal a)
      ∧ normalize (normalize a) = normalize a
      ∧ normalize (a ++ '/' :: b) = normalize (normalize a ++ '/' :: b) := by
  refine ⟨normalize_isNormal a, normalize_eq_self_iff ha, normalize_normalize ha, ?_⟩
  rw [normalize, normalize, segments_append ha hb, segments_append (isBare_normalize ha) hb,
    segments_normalize ha]

/-- A `..` behind the slash takes away a segment before it, and at the root nothing. -/
theorem normalize_canonical_of_mixed_spelling :
    let a : Text := "..\\Maps//.\\DM-1/../Obj_2/".toList
    let b : Text := "..\\../.././X.SCR".toList
    (∀ c ∈ a ++ b, isPathChar c = true) ∧ IsNormal (normalize a)
      ∧ normalize a = "maps/obj_2".toList ∧ normalize (normalize a ++ '/' :: b) = "x.scr".toList := by
  intro a b
  have ha : a.all isPathChar = true := by decide +kernel
  have hb : b.all isPathChar = true := by decide +kernel
  obtain ⟨hnormal, -, -, happend⟩ := normalize_canonical
    (isBare_of_isPathChar (List.all_eq_true.mp ha)) (isBare_of_isPathChar (List.all_eq_true.mp hb))
  refine ⟨?_, hnormal, by decide +kernel, happend.symm.trans (by decide +kernel)⟩
  intro c hc
  rcases List.mem_append.mp hc with hc | hc
  · exact List.all_eq_true.mp ha c hc
  · exact List.all_eq_true.mp hb c hc

end ScriptPath

end ScriptAtlas
