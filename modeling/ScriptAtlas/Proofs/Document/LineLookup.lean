import ScriptAtlas.Document.Lookup
import ScriptAtlas.Proofs.Scan.ThreadExtent
import ScriptAtlas.Proofs.Sorting

/-! # Line lookup — the lexemes of a line, found by halving

    The lexemes of a line are looked up without a look at all the others: a
    search by halving finds where they start, and they are taken for as long as
    the line stays the same.  The route:

    * the rows of a text are scanned one after the other, so its lexemes go by
      lines, whatever rows without a lexeme come between (`scan_byLine`);
    * hence those of earlier lines come first, and behind them those of the line
      (`ByLine.earlier_first`, `ByLine.onLine_first`), which is what the search
      and the taking rely on (`ByLine.takeWhile_eq_filter`);
    * taken line after line, they are the lexemes of the text again
      (`ByLine.flatMap_filter`). -/

namespace ScriptAtlas

open Text

/-- Whether lexemes go by lines. -/
def ByLine (ls : List Lexeme) : Prop := ls.Pairwise fun a b => a.line ≤ b.line

theorem scan_byLine (t : Text) : ByLine (scan t).lexemes := by
  refine (scan_lexemes_ordered t).imp ?_
  rintro a b (hline | ⟨hline, -⟩)
  · exact Nat.le_of_lt hline
  · exact Nat.le_of_eq hline

namespace ByLine

variable {ls : List Lexeme}

/-- The lexemes of earlier lines come first. -/
theorem earlier_first (h : ByLine ls) (line : Nat) : Partitioned (·.line < line) ls := by
  refine h.imp ?_
  intro a b hab hb
  exact decide_eq_true (Nat.lt_of_le_of_lt hab (of_decide_eq_true hb))

/-- Once the lexemes of earlier lines are left out, those of the line come first. -/
theorem onLine_first (h : ByLine ls) (line : Nat) :
    Partitioned (·.line == line) (ls.filter fun l => !decide (l.line < line)) := by
  refine (h.filter _).imp_of_mem ?_
  intro a b ha _ hab hb
  have hfrom : line ≤ a.line := by simpa using (List.mem_filter.mp ha).2
  have hb : b.line = line := beq_iff_eq.mp hb
  exact beq_iff_eq.mpr (Nat.le_antisymm (hb ▸ hab) hfrom)

/-- What is taken where the search ends are the lexemes of the line. -/
theorem takeWhile_eq_filter (h : ByLine ls) (line : Nat) :
    (ls.drop (partitionPoint (·.line < line) ls)).takeWhile (·.line == line)
      = ls.filter (·.line == line) := by
  have hearlier := h.earlier_first line
  calc (ls.drop (partitionPoint (·.line < line) ls)).takeWhile (·.line == line)
      = (ls.filter fun l => !decide (l.line < line)).takeWhile (·.line == line) := by
        rw [hearlier.partitionPoint_eq_countP, hearlier.drop_countP]
    _ = (ls.filter fun l => !decide (l.line < line)).filter (·.line == line) :=
        (h.onLine_first line).takeWhile_eq_filter
    _ = ls.filter (·.line == line) := by
        rw [List.filter_filter]
        exact List.filter_congr fun l _ => by grind

/-- One more line adds its lexemes behind those of the lines before. -/
theorem filter_append_filter (h : ByLine ls) (count : Nat) :
    ls.filter (·.line < count) ++ ls.filter (·.line == count) = ls.filter (·.line < count + 1) := by
  have hearlier : Partitioned (·.line < count) (ls.filter (·.line < count + 1)) :=
    (h.earlier_first count).filter _
  rw [← hearlier.filter_append_filter, List.filter_filter, List.filter_filter]
  congr 1
  · exact List.filter_congr fun l _ => by grind
  · exact List.filter_congr fun l _ => by grind

/-- The lexemes of the first lines, taken line after line, stay in order. -/
theorem flatMap_filter (h : ByLine ls) (count : Nat) :
    (List.range count).flatMap (fun line => ls.filter (·.line == line))
      = ls.filter (·.line < count) := by
  induction count with
  | zero => simp
  | succ count ih =>
      rw [List.range_succ, List.flatMap_append, ih, List.flatMap_singleton]
      exact h.filter_append_filter count

end ByLine

namespace Document

theorem lineLexemes_read (path : Path) (t : Text) (line : Nat) :
    (Document.read path t).lineLexemes line = (scan t).lexemes.filter (·.line == line) :=
  (scan_byLine t).takeWhile_eq_filter line

/-- **LINE LOOKUP**: what is found for a line, whether the text has it or not, are all lexemes of the
    text on that line, in order.  Line after line, every lexeme of the text is found. -/
theorem lineLexemes_agrees_with_filter (path : Path) (t : Text) :
    let d := Document.read path t
    (∀ line : Nat, d.lineLexemes line = d.lexemes.filter (·.line == line))
      ∧ (List.range d.lines.length).flatMap d.lineLexemes = d.lexemes := by
  intro d
  have hlines : d.lines.length = (rows t).length := Scan.length_lines_ofRows .initial 0 (rows t)
  have hwithin : ∀ l ∈ (scan t).lexemes, decide (l.line < (rows t).length) = true := by
    intro l hl
    obtain ⟨-, row, hrow, -⟩ := scan_lexemes_placed hl
    exact decide_eq_true (List.getElem?_eq_some_iff.mp hrow).1
  refine ⟨lineLexemes_read path t, ?_⟩
  rw [hlines, funext (lineLexemes_read path t), (scan_byLine t).flatMap_filter]
  exact List.filter_eq_self.mpr hwithin

end Document

end ScriptAtlas
