import ScriptAtlas.Disk
import ScriptAtlas.Proofs.Path.Spelling

/-! # Disk — what a disk sees of a spelling

    A disk walks the parts of a path, so it finds the same for every spelling of
    a path, but for two things that it takes from the text: whether the path asks
    for a directory, and whether it is short enough (`find_eq_of_key`).  Files
    beside a file are asked for in the same way from every spelling of it
    (`asksDirectory_join`). -/

namespace ScriptAtlas

namespace Path

/-- The characters of a path, separators and dots apart, are those of its parts. -/
theorem mem_text_iff {p : Path} {c : Char} (hslash : c ≠ '/') (hdot : c ≠ '.') :
    c ∈ p.text ↔ ∃ part ∈ p.parts, c ∈ part.text := by
  -- segments that are left out hold dots at most
  have hbelow : ∀ t : Text, c ∈ t ↔ ∃ part ∈ below t, c ∈ part.text := by
    intro t
    constructor
    · intro hc
      have hjoin : ['/'].intercalate (t.splitOn '/') = t := List.intercalate_splitOn '/'
      rw [← hjoin] at hc
      obtain ⟨s, hs, hc⟩ := (ScriptPath.of_mem_intercalate hc).resolve_left hslash
      refine ⟨partOf s, List.mem_map.mpr ⟨s, List.mem_filter.mpr ⟨hs, ?_⟩, rfl⟩, ?_⟩
      · rw [Bool.not_eq_true', Bool.eq_false_iff, ne_eq, isTrivial, Bool.or_eq_true,
          List.isEmpty_iff, beq_iff_eq]
        rintro (rfl | rfl)
        · exact absurd hc List.not_mem_nil
        · exact hdot (List.mem_singleton.mp hc)
      · rw [text_partOf]
        exact hc
    · rintro ⟨part, hpart, hc⟩
      obtain ⟨s, hs, rfl⟩ := List.mem_map.mp hpart
      rw [text_partOf] at hc
      exact (isInfix_of_mem_splitOn (List.mem_filter.mp hs).1).subset hc
  obtain ⟨t⟩ := p
  rcases text_cases t with ⟨rest, rfl⟩ | rfl | ⟨rest, rfl⟩ | rfl | ⟨-, hnone⟩
  · show c ∈ '/' :: rest ↔ ∃ part ∈ .root :: below rest, c ∈ part.text
    simp [hslash, hbelow rest, Part.text]
  · show c ∈ ['.'] ↔ ∃ part ∈ [Part.here], c ∈ part.text
    simp [Part.text]
  · show c ∈ '.' :: '/' :: rest ↔ ∃ part ∈ .here :: below ('/' :: rest), c ∈ part.text
    rw [List.mem_cons, or_iff_right hdot, hbelow ('/' :: rest)]
    simp [Part.text, hdot]
  · simp [parts_eq, leading, below, isTrivial]
  · rw [parts_eq, hnone]
    exact hbelow t

end Path

namespace Disk

variable {p q dir dir' : Path}

/-- Every spelling of a path leads to what another one finds, if both ask for a directory or neither
    does, and both are short enough or neither is. -/
theorem find_eq_of_key (disk : Disk) (hkey : p.key = q.key)
    (hasks : asksDirectory p = asksDirectory q) (hfits : fits p = fits q) :
    disk.find p = disk.find q := by
  have hparts := Path.parts_eq_of_key hkey
  have hnul : p.text.contains '\x00' = q.text.contains '\x00' := by
    rw [Bool.eq_iff_iff, List.contains_iff_mem, List.contains_iff_mem,
      Path.mem_text_iff (by decide) (by decide), Path.mem_text_iff (by decide) (by decide), hparts]
  have hempty : p.text.isEmpty = q.text.isEmpty := by
    rw [Bool.eq_iff_iff, List.isEmpty_iff, List.isEmpty_iff, Path.text_eq_nil_iff,
      Path.text_eq_nil_iff, hparts]
  unfold find
  rw [hnul, hempty, hfits, hparts, hasks]

/-- Behind a separator, what stands before it does not tell whether a directory is asked for. -/
theorem asksDirectory_append_slash (a b : Text) :
    asksDirectory ⟨a ++ '/' :: b⟩ = asksDirectory ⟨'/' :: b⟩ := by
  have hreverse : (a ++ '/' :: b).reverse = b.reverse ++ '/' :: a.reverse := by simp
  have hreverse' : ('/' :: b).reverse = b.reverse ++ ['/'] := List.reverse_cons
  unfold asksDirectory List.isSuffixOf
  dsimp only
  rw [hreverse, hreverse']
  -- the last two characters decide, and there is one before `b`
  rcases b.reverse with _ | ⟨c, _ | ⟨d, rest⟩⟩
  · rfl
  · rfl
  · rfl

/-- A file below a directory asks for a directory or not, however that is spelled. -/
theorem asksDirectory_join (h : dir.parts = dir'.parts) (q : Path) :
    asksDirectory (dir.join q) = asksDirectory (dir'.join q) := by
  rcases Path.join_cases h q with hjoin | ⟨hq, hdir, hdir'⟩
  · rw [hjoin]
  · have hslash : ∀ d : Path, d.text ≠ [] →
        asksDirectory (d.join q) = asksDirectory ⟨'/' :: q.text⟩ := by
      intro d hd
      rw [Path.join_of_relative hq, List.isEmpty_eq_false_iff.mpr hd, Bool.false_or]
      split
      · rename_i hlast
        obtain ⟨u, hu⟩ := List.getLast?_eq_some_iff.mp (beq_iff_eq.mp hlast)
        rw [hu, List.append_assoc]
        exact asksDirectory_append_slash u q.text
      · exact asksDirectory_append_slash d.text q.text
    rw [hslash dir hdir, hslash dir' hdir']

end Disk

end ScriptAtlas
