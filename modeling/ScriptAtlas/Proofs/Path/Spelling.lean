import ScriptAtlas.Proofs.Path.Climbing
import ScriptAtlas.Proofs.PathMap
import Mathlib.Data.List.DropRight

/-! # Spelling — one path in many spellings

    Paths with the same key are one path, however it is spelled.  The key stands
    for the parts, so whatever is read off the parts is the same for all
    spellings.  The route:

    * what leads a text, followed by the first segments of the rest, has the
      leading part and the parts of these segments (`parts_of_segments`);
    * so a directory has all parts of a file in it but the last, in any spelling
      (`parent?_cases`), and files beside it go by their parts too;
    * the parts written out are one spelling for all (`canonical_eq_iff`).

    Script paths are read off the parts as well, but for files that have none and
    for relative files outside of the root: their text is taken
    (`ofPath?_eq_of_shown`). -/

namespace ScriptAtlas

open Text

namespace Path

variable {p q dir dir' : Path} {t : Text} {ss : List Text}

/-! ## Keys and parts -/

/-- Parts are told apart by their keys. -/
theorem Part.key_injective : Function.Injective Part.key := by
  intro a b h
  cases a with
  | name n =>
      cases b with
      | name m =>
          have hchars := (List.cons.inj h).2
          rw [List.map_inj_right fun _ _ => Char.toNat_inj.mp] at hchars
          rw [hchars]
      | _ => simp [Part.key] at h
  | _ => cases b <;> simp_all [Part.key]

/-- All spellings of a path have the same parts. -/
theorem parts_eq_of_key (h : p.key = q.key) : p.parts = q.parts :=
  List.map_injective_iff.mpr Part.key_injective h

/-- What keeps the keys of paths keeps which of them are the same. -/
theorem same_respell {f : Path → Path} (hf : ∀ p, (f p).key = p.key) (p q : Path) :
    (f p).same q = p.same q := by
  rw [same, hf, same]

theorem same_respell_right {f : Path → Path} (hf : ∀ p, (f p).key = p.key) (p q : Path) :
    p.same (f q) = p.same q := by
  rw [same, hf, same]

/-- The parts that segments stand for. -/
def partsOf (ss : List Text) : List Part := (ss.filter (!isTrivial ·)).map partOf

/-- What a text can start with; a text that is led by nothing is all rest. -/
theorem text_cases (t : Text) : (∃ rest, t = '/' :: rest) ∨ t = ['.']
    ∨ (∃ rest, t = '.' :: '/' :: rest) ∨ t = [] ∨ t ≠ [] ∧ leading t = (none, [], t) := by
  rcases leading_cases t with hroot | hdot | hhere | hother
  · exact Or.inl hroot
  · exact Or.inr (Or.inl hdot)
  · exact Or.inr (Or.inr (Or.inl hhere))
  · by_cases ht : t = []
    · exact Or.inr (Or.inr (Or.inr (Or.inl ht)))
    · exact Or.inr (Or.inr (Or.inr (Or.inr ⟨ht, leading_other ht hother⟩)))

/-- Segments without separators, joined and cut again. -/
theorem below_intercalate (h : ∀ s ∈ ss, '/' ∉ s) : below (['/'].intercalate ss) = partsOf ss := by
  cases ss with
  | nil => rfl
  | cons s ss => rw [below, List.splitOn_intercalate '/' h (List.cons_ne_nil s ss), partsOf]

/-- A text that starts with the segment of a name or of a step up has no leading part. -/
theorem leading_intercalate {s : Text} (hslash : '/' ∉ s) (hs : isTrivial s = false)
    (ss : List Text) : leading (['/'].intercalate (s :: ss))
      = (none, [], ['/'].intercalate (s :: ss)) := by
  obtain ⟨rest, hrest⟩ : ∃ rest, ['/'].intercalate (s :: ss) = s ++ rest := by
    cases ss with
    | nil => exact ⟨[], by simp [List.intercalate_singleton]⟩
    | cons u ss => exact ⟨_, by rw [List.intercalate_cons_cons, List.append_assoc]⟩
  rw [hrest]
  cases s with
  | nil => exact absurd hs (by decide)
  | cons c s =>
      have hc : c ≠ '/' := fun h => hslash (h ▸ List.mem_cons_self)
      cases s with
      | nil =>
          have hdot : c ≠ '.' := by
            rintro rfl
            exact absurd hs (by decide)
          simp [leading, hc, hdot]
      | cons d s =>
          have hd : d ≠ '/' := fun h => hslash (h ▸ List.mem_cons_of_mem c List.mem_cons_self)
          simp [leading, hc, hd]

/-- A text without a leading part starts with the segment of a name or of a step up. -/
theorem exists_splitOn_cons (ht : t ≠ []) (h : leading t = (none, [], t)) :
    ∃ s ss, t.splitOn '/' = s :: ss ∧ isTrivial s = false := by
  obtain ⟨s, ss, hsplit⟩ := List.exists_cons_of_ne_nil (List.splitOn_ne_nil '/' t)
  refine ⟨s, ss, hsplit, ?_⟩
  have hjoin : ['/'].intercalate (t.splitOn '/') = t := List.intercalate_splitOn '/'
  rw [hsplit] at hjoin
  rw [Bool.eq_false_iff]
  intro htrivial
  rw [isTrivial, Bool.or_eq_true, List.isEmpty_iff, beq_iff_eq] at htrivial
  -- an empty segment leaves nothing or a root in front, and a dot leaves itself
  rcases htrivial with rfl | rfl
  · cases ss with
    | nil => exact ht hjoin.symm
    | cons u ss =>
        rw [List.intercalate_cons_cons] at hjoin
        rw [← hjoin] at h
        exact Option.some_ne_none _ (congrArg Prod.fst h)
  · cases ss with
    | nil =>
        rw [List.intercalate_singleton] at hjoin
        rw [← hjoin] at h
        exact Option.some_ne_none _ (congrArg Prod.fst h)
    | cons u ss =>
        rw [List.intercalate_cons_cons] at hjoin
        rw [← hjoin] at h
        exact Option.some_ne_none _ (congrArg Prod.fst h)

/-- The one segment of an empty text adds nothing. -/
theorem of_prefix_singleton (h : ss <+: [[]]) : ['/'].intercalate ss = [] ∧ partsOf ss = [] := by
  cases ss with
  | nil => exact ⟨rfl, rfl⟩
  | cons s ss =>
      obtain ⟨rfl, hnil⟩ := List.cons_prefix_cons.mp h
      obtain rfl := List.prefix_nil.mp hnil
      exact ⟨rfl, rfl⟩

/-- What leads a text, with the first segments of the rest behind it. -/
theorem parts_of_segments (h : ss <+: (leading t).2.2.splitOn '/') :
    parts ⟨(leading t).2.1 ++ ['/'].intercalate ss⟩ = (leading t).1.toList ++ partsOf ss := by
  have hslash : ∀ s ∈ ss, '/' ∉ s := fun s hs => notMem_of_mem_splitOn (h.subset hs)
  rcases text_cases t with ⟨rest, rfl⟩ | rfl | ⟨rest, rfl⟩ | rfl | ⟨ht, hnone⟩
  · show .root :: below (['/'].intercalate ss) = .root :: partsOf ss
    rw [below_intercalate hslash]
  · obtain ⟨hjoin, hparts⟩ := of_prefix_singleton h
    rw [hjoin, hparts]
    rfl
  · cases ss with
    | nil => rfl
    | cons s ss =>
        have hsplit : ('/' :: rest).splitOn '/' = [] :: rest.splitOn '/' :=
          List.splitOn_append_cons_self [] rest
        have h : s :: ss <+: ('/' :: rest).splitOn '/' := h
        rw [hsplit, List.cons_prefix_cons] at h
        obtain rfl := h.1
        cases ss with
        | nil => rfl
        | cons u ss =>
            rw [← below_intercalate hslash, List.intercalate_cons_cons]
            rfl
  · obtain ⟨hjoin, hparts⟩ := of_prefix_singleton h
    rw [hjoin, hparts]
    rfl
  · -- the first segment is kept, and it shows that nothing leads the text
    obtain ⟨s, more, hsplit, hs⟩ := exists_splitOn_cons ht hnone
    rw [hnone] at h ⊢
    cases ss with
    | nil => rfl
    | cons u ss =>
        have h : u :: ss <+: t.splitOn '/' := h
        rw [hsplit, List.cons_prefix_cons] at h
        obtain rfl := h.1
        show parts ⟨['/'].intercalate (u :: ss)⟩ = partsOf (u :: ss)
        rw [parts_eq, leading_intercalate (hslash u List.mem_cons_self) hs,
          ← below_intercalate hslash]
        rfl

/-- The parts of a path: what leads it, and its segments. -/
theorem parts_eq_partsOf (p : Path) :
    p.parts = (leading p.text).1.toList ++ partsOf ((leading p.text).2.2.splitOn '/') := rfl

/-- Only the empty path has no parts. -/
theorem text_eq_nil_iff : p.text = [] ↔ p.parts = [] := by
  obtain ⟨t⟩ := p
  constructor
  · rintro rfl
    rfl
  · intro h
    rcases text_cases t with ⟨rest, rfl⟩ | rfl | ⟨rest, rfl⟩ | rfl | ⟨ht, hnone⟩
    · exact absurd h (List.cons_ne_nil _ _)
    · exact absurd h (List.cons_ne_nil _ _)
    · exact absurd h (List.cons_ne_nil _ _)
    · rfl
    · exfalso
      obtain ⟨s, more, hsplit, hs⟩ := exists_splitOn_cons ht hnone
      rw [parts_eq_partsOf, hnone] at h
      have h : partsOf (t.splitOn '/') = [] := h
      rw [hsplit, partsOf, List.filter_cons_of_pos (by simp [hs])] at h
      exact List.cons_ne_nil _ _ h

/-- A path starts at the root when its first part does. -/
theorem isAbsolute_iff : p.isAbsolute = true ↔ p.parts.head? = some .root := by
  obtain ⟨t⟩ := p
  rcases text_cases t with ⟨rest, rfl⟩ | rfl | ⟨rest, rfl⟩ | rfl | ⟨ht, hnone⟩
  · exact iff_of_true rfl rfl
  · exact iff_of_false (by decide) (by decide)
  · refine iff_of_false (by simp [isAbsolute]) ?_
    rintro ⟨⟩
  · exact iff_of_false (by decide) (by decide)
  · refine iff_of_false ?_ ?_
    · intro habsolute
      obtain ⟨rest, rfl⟩ : ∃ rest, t = '/' :: rest := by
        cases t with
        | nil => exact absurd rfl ht
        | cons c rest => exact ⟨rest, by simpa [isAbsolute] using habsolute⟩
      exact Option.some_ne_none _ (congrArg Prod.fst hnone)
    · intro hroot
      rw [parts_eq_partsOf, hnone] at hroot
      -- segments stand for names and steps up, never for the root
      have hmem := List.mem_of_head? hroot
      obtain ⟨s, -, hs⟩ := List.mem_map.mp hmem
      unfold partOf at hs
      split at hs
      · exact Part.noConfusion hs
      · exact Part.noConfusion hs

/-- Whether a path starts at the root does not depend on its spelling. -/
theorem isAbsolute_eq_of_key (h : p.key = q.key) : p.isAbsolute = q.isAbsolute := by
  rw [Bool.eq_iff_iff, isAbsolute_iff, isAbsolute_iff, parts_eq_of_key h]

/-! ## Directories -/

/-- Trivial segments at the end have no parts. -/
theorem partsOf_rdropWhile (ss : List Text) : partsOf (ss.rdropWhile isTrivial) = partsOf ss := by
  have htrivial : (ss.rtakeWhile isTrivial).filter (!isTrivial ·) = [] := by
    rw [List.filter_eq_nil_iff]
    intro s hs
    simp [List.mem_rtakeWhile_imp hs]
  conv_rhs => rw [← List.rdropWhile_append_rtakeWhile (p := isTrivial) (l := ss)]
  rw [partsOf, partsOf, List.filter_append, htrivial, List.append_nil]

theorem dropTrivial_eq : dropTrivial = List.rdropWhile isTrivial := rfl

/-- A path is led by nothing, by the root or by the directory itself. -/
theorem lead_cases (t : Text) :
    (leading t).1 = none ∨ (leading t).1 = some .root ∨ (leading t).1 = some .here := by
  rcases text_cases t with ⟨rest, rfl⟩ | rfl | ⟨rest, rfl⟩ | rfl | ⟨-, hnone⟩
  · exact Or.inr (Or.inl rfl)
  · exact Or.inr (Or.inr rfl)
  · exact Or.inr (Or.inr rfl)
  · exact Or.inl rfl
  · exact Or.inl (congrArg Prod.fst hnone)

/-- A file has a directory, with all parts but the last, unless it has no part to drop. -/
theorem parent?_cases (p : Path) :
    (∃ dir, p.parent? = some dir ∧ dir.parts = p.parts.dropLast ∧ p.parts ≠ []
      ∧ p.parts ≠ [.root])
    ∨ p.parent? = none ∧ (p.parts = [] ∨ p.parts = [.root]) := by
  obtain ⟨t⟩ := p
  have hlead := lead_cases t
  have hsegments : ∀ ss, ss <+: (leading t).2.2.splitOn '/' →
      parts ⟨(leading t).2.1 ++ ['/'].intercalate ss⟩ = (leading t).1.toList ++ partsOf ss :=
    fun ss => parts_of_segments
  rw [parts_eq_partsOf, ← partsOf_rdropWhile]
  unfold parent?
  rw [dropTrivial_eq]
  dsimp only at hsegments ⊢
  generalize leading t = l at hsegments hlead ⊢
  obtain ⟨lead, leadText, body⟩ := l
  dsimp only at hsegments hlead ⊢
  -- the directory keeps what leads the path and its first segments, up to the last that counts
  have hkept := List.rdropWhile_prefix isTrivial (body.splitOn '/')
  have hlast := List.rdropWhile_last_not isTrivial (body.splitOn '/')
  generalize (body.splitOn '/').rdropWhile isTrivial = segs at hkept hlast ⊢
  cases segs with
  | nil =>
      rcases hlead with rfl | rfl | rfl
      · exact Or.inr ⟨rfl, Or.inl rfl⟩
      · exact Or.inr ⟨rfl, Or.inr rfl⟩
      · exact Or.inl ⟨⟨[]⟩, rfl, rfl, by decide, by decide⟩
  | cons s segs =>
      have hlast := hlast (List.cons_ne_nil s segs)
      have hsplit := List.dropLast_append_getLast (List.cons_ne_nil s segs)
      generalize (s :: segs).getLast _ = last at hlast hsplit
      have hparts : partsOf (s :: segs) = partsOf (s :: segs).dropLast ++ [partOf last] := by
        rw [← hsplit, partsOf, List.filter_append, List.map_append,
          List.filter_cons_of_pos (by simp [hlast])]
        simp [partsOf]
      refine Or.inl ⟨_, rfl, ?_, ?_, ?_⟩
      · have hbefore := List.dropLast_prefix (s :: segs)
        have hdropped := List.rdropWhile_prefix isTrivial (s :: segs).dropLast
        rw [hsegments _ (hdropped.trans (hbefore.trans hkept)), partsOf_rdropWhile, hparts,
          ← List.append_assoc, List.dropLast_concat]
      · rw [hparts]
        simp
      · rw [hparts, ← List.append_assoc]
        intro hroot
        have hconcat : (lead.toList ++ partsOf (s :: segs).dropLast) ++ [partOf last]
            = [] ++ [.root] := hroot
        have hpart := (List.append_inj' hconcat rfl).2
        rw [List.singleton_inj, partOf] at hpart
        split at hpart
        · exact Part.noConfusion hpart
        · exact Part.noConfusion hpart

/-- The directories of two spellings have the same parts. -/
theorem parent?_rel (h : p.key = q.key) :
    Option.Rel (fun dir dir' : Path => dir.parts = dir'.parts) p.parent? q.parent? := by
  have hparts := parts_eq_of_key h
  rcases parent?_cases p with ⟨dir, hdir, hpd, hne, hne'⟩ | ⟨hnone, hpp⟩
  · rcases parent?_cases q with ⟨dir', hdir', hqd, -, -⟩ | ⟨-, hqq⟩
    · rw [hdir, hdir']
      exact .some (by rw [hpd, hqd, hparts])
    · rw [← hparts] at hqq
      exact absurd hqq (not_or.mpr ⟨hne, hne'⟩)
  · rcases parent?_cases q with ⟨_, -, -, hne, hne'⟩ | ⟨hnone', -⟩
    · rw [hparts] at hpp
      exact absurd hpp (not_or.mpr ⟨hne, hne'⟩)
    · rw [hnone, hnone']
      exact .none

/-- Directories with the same parts are told apart by a path below them only where it is relative
    and they are not empty. -/
theorem join_cases (h : dir.parts = dir'.parts) (q : Path) : dir.join q = dir'.join q
    ∨ q.isAbsolute = false ∧ dir.text ≠ [] ∧ dir'.text ≠ [] := by
  by_cases hq : q.isAbsolute = true
  · exact Or.inl (by rw [join, join, if_pos hq, if_pos hq])
  · rw [Bool.not_eq_true] at hq
    have hboth : dir.text = [] ↔ dir'.text = [] := by
      rw [text_eq_nil_iff, text_eq_nil_iff, h]
    by_cases hempty : dir.text = []
    · exact Or.inl (by rw [join_of_relative hq, join_of_relative hq, hempty, hboth.mp hempty])
    · exact Or.inr ⟨hq, hempty, fun hempty' => hempty (hboth.mpr hempty')⟩

/-- Below directories with the same parts, a path has the same parts. -/
theorem parts_join_eq (h : dir.parts = dir'.parts) (q : Path) :
    (dir.join q).parts = (dir'.join q).parts := by
  rcases join_cases h q with hjoin | ⟨hq, hdir, hdir'⟩
  · rw [hjoin]
  · rw [parts_join hdir hq, parts_join hdir' hq, h]

/-! ## One spelling for all -/

/-- The path without idle separators and dots. -/
def canonical (p : Path) : Path := ⟨render p.parts⟩

/-- Written out and read again, parts are the same. -/
theorem parts_canonical (p : Path) : p.canonical.parts = p.parts := by
  obtain ⟨t⟩ := p
  have hslash : ∀ s ∈ ((leading t).2.2.splitOn '/').filter (!isTrivial ·), '/' ∉ s :=
    fun s hs => notMem_of_mem_splitOn (List.mem_filter.mp hs).1
  have htrivial : ∀ s ∈ ((leading t).2.2.splitOn '/').filter (!isTrivial ·),
      isTrivial s = false :=
    fun s hs => by simpa using (List.mem_filter.mp hs).2
  have hlead := lead_cases t
  rw [canonical, parts_eq_partsOf ⟨t⟩, partsOf]
  dsimp only
  generalize ((leading t).2.2.splitOn '/').filter (!isTrivial ·) = ss at hslash htrivial ⊢
  have htexts : (ss.map partOf).map Part.text = ss := by
    rw [List.map_map, show Part.text ∘ partOf = id from funext text_partOf, List.map_id]
  have hbelow : below (['/'].intercalate ss) = ss.map partOf := by
    rw [below_intercalate hslash, partsOf, List.filter_eq_self.mpr (by simpa using htrivial)]
  -- a leading `.` is written in front of the segments, a root is the separator before them
  rcases hlead with hlead | hlead | hlead
  · rw [hlead]
    cases ss with
    | nil => rfl
    | cons s ss =>
        have hrender : render (List.map partOf (s :: ss))
            = ['/'].intercalate (List.map Part.text (List.map partOf (s :: ss))) := by
          rw [List.map_cons, partOf]
          split
          · rfl
          · rfl
        show parts ⟨render (List.map partOf (s :: ss))⟩ = List.map partOf (s :: ss)
        rw [hrender, htexts, parts_eq,
          leading_intercalate (hslash s List.mem_cons_self) (htrivial s List.mem_cons_self)]
        exact hbelow
  · rw [hlead]
    show .root :: below (['/'].intercalate ((ss.map partOf).map Part.text)) = .root :: ss.map partOf
    rw [htexts, hbelow]
  · rw [hlead]
    show parts ⟨['/'].intercalate (['.'] :: (ss.map partOf).map Part.text)⟩ = .here :: ss.map partOf
    rw [htexts]
    cases ss with
    | nil => rfl
    | cons s ss =>
        rw [List.intercalate_cons_cons, ← hbelow]
        show .here :: below ([] ++ '/' :: ['/'].intercalate (s :: ss)) = _
        rw [below_append_slash]
        rfl

theorem key_canonical (p : Path) : p.canonical.key = p.key := by
  rw [key, parts_canonical, key]

/-- **ONE SPELLING**: two spellings are the same path exactly when they are written alike without
    idle separators and dots. -/
theorem canonical_eq_iff : p.canonical = q.canonical ↔ p.same q = true := by
  rw [same_iff]
  constructor
  · intro h
    rw [← key_canonical p, h, key_canonical]
  · intro h
    rw [canonical, canonical, parts_eq_of_key h]

end Path

/-- What has the same image under a function is there in both or in neither. -/
theorem rel_of_map_eq {α β : Type} {f : α → β} {a b : Option α} (h : a.map f = b.map f) :
    Option.Rel (fun x y => f x = f y) a b := by
  cases a with
  | none =>
      cases b with
      | none => exact .none
      | some y => exact absurd h.symm (Option.some_ne_none _)
  | some x =>
      cases b with
      | none => exact absurd h (Option.some_ne_none _)
      | some y => exact .some (Option.some.inj h)

namespace ScriptPath

variable {root p q : Path}

/-! ## Script paths -/

/-- The script path of a file as it is shown: its own text if it has none. -/
def shown (root file : Path) : Text := (ofPath? root file).getD file.text

/-- Two spellings of a file that are shown alike have the same script path, or none. -/
theorem ofPath?_eq_of_shown (hkey : p.key = q.key) (hshown : shown root p = shown root q) :
    ofPath? root p = ofPath? root q := by
  have hparts := Path.parts_eq_of_key hkey
  have habsolute := Path.isAbsolute_eq_of_key hkey
  rw [shown, shown] at hshown
  unfold ofPath? at hshown ⊢
  rw [hparts, habsolute] at hshown ⊢
  by_cases hboth : (q.isAbsolute && root.isAbsolute) = true
  · rw [if_pos hboth, if_pos hboth]
  · rw [if_neg hboth, if_neg hboth] at hshown ⊢
    cases hafter : Path.partsAfter? root.parts q.parts with
    | some ps => rfl
    | none =>
        rw [hafter] at hshown
        dsimp only [Option.getD_some] at hshown ⊢
        rw [hshown]

/-- Changes of spelling that script paths do not show. -/
structure Respelling (root : Path) (f : Path → Path) : Prop where
  key : ∀ p, (f p).key = p.key
  shown : ∀ p, shown root (f p) = shown root p

namespace Respelling

variable {f : Path → Path}

theorem id (root : Path) : Respelling root id := ⟨fun _ => rfl, fun _ => rfl⟩

/-- A respelled file has the same script path, or none. -/
theorem ofPath?_eq (hf : Respelling root f) (p : Path) : ofPath? root (f p) = ofPath? root p :=
  ofPath?_eq_of_shown (hf.key p) (hf.shown p)

/-- Paths that are respelled alike are the same path. -/
theorem key_eq (hf : Respelling root f) (h : f p = f q) : p.key = q.key := by
  rw [← hf.key p, h, hf.key]

/-- So are paths that are found or not. -/
theorem rel_key_of_map_eq (hf : Respelling root f) {a b : Option Path} (h : a.map f = b.map f) :
    Option.Rel (fun p q => p.key = q.key) a b := by
  cases rel_of_map_eq h with
  | none => exact .none
  | some hpq => exact .some (hf.key_eq hpq)

end Respelling

/-- What script paths and comparisons tell of a path. -/
def told (root p : Path) : List (List Nat) × Text := (p.key, shown root p)

instance : Nonempty Path := ⟨⟨[]⟩⟩

/-- One spelling for all that are told alike. -/
noncomputable def representative (root p : Path) : Path := Function.invFun (told root) (told root p)

theorem told_representative (root p : Path) : told root (representative root p) = told root p :=
  Function.invFun_eq ⟨p, rfl⟩

/-- Taking the representative does not show. -/
theorem respelling_representative (root : Path) : Respelling root (representative root) :=
  ⟨fun p => congrArg Prod.fst (told_representative root p),
    fun p => congrArg Prod.snd (told_representative root p)⟩

/-- Spellings that are told alike have one representative. -/
theorem representative_eq (hkey : p.key = q.key) (hshown : shown root p = shown root q) :
    representative root p = representative root q := by
  have htold : told root p = told root q := by rw [told, hkey, hshown, told]
  rw [representative, htold, representative]

end ScriptPath

end ScriptAtlas
