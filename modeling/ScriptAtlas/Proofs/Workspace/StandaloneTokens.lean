import ScriptAtlas.Proofs.Scan.Lowering
import ScriptAtlas.Proofs.Symbols.Lookup
import ScriptAtlas.Proofs.Workspace.UnusedTokens

/-! # Standalone tokens — what the other scripts change about tokens

    A tracked script has the tokens of its text by itself, but for two things:
    definitions that nothing refers to are marked, and bare words that name a
    thread of another script are functions.  The route:

    * no meaning has the mark, so clearing it undoes the marking
      (`withoutUnused_markUnused`);
    * knowing further threads changes the meaning of bare words only, and of
      those only where the script itself does not decide (`ofLexeme_meaning`);
    * a bare word is looked up as it stands, so the threads known from the index
      are those of the tracked scripts (`Consistent.isThread_lower_iff`). -/

namespace ScriptAtlas

open Text Vocabulary Progress

/-! ## Clearing a mark -/

namespace Modifiers

/-- The modifiers of a set that are not in another. -/
def without (m n : Modifiers) : Modifiers := ⟨m.bits ^^^ (m.bits &&& n.bits)⟩

theorem without_of_disjoint {m n : Modifiers} (h : m.bits &&& n.bits = 0) : m.without n = m := by
  rw [without, h, Nat.xor_zero]

/-- What is added to a set is what is cleared again. -/
theorem union_without {m n : Modifiers} (h : m.bits &&& n.bits = 0) : (m ∪ n).without n = m := by
  have hbits : (m ∪ n).bits = m.bits ||| n.bits := rfl
  refine congrArg mk (Nat.eq_of_testBit_eq fun i => ?_)
  have hi : (m.bits.testBit i && n.bits.testBit i) = false := by
    rw [← Nat.testBit_and, h, Nat.zero_testBit]
  rw [hbits, Nat.testBit_xor, Nat.testBit_and, Nat.testBit_or]
  cases hm : m.bits.testBit i with
  | false => cases n.bits.testBit i <;> rfl
  | true =>
      rw [hm, Bool.true_and] at hi
      rw [hi]
      rfl

end Modifiers

namespace Token

/-- The token without the mark of what nothing refers to. -/
def withoutUnused (k : Token) : Token := { k with modifiers := k.modifiers.without .unused }

/-- The token as one that names a thread. -/
def asThread (k : Token) : Token := { k with type := .function, modifiers := .none }

/-- No meaning has the mark of what nothing refers to. -/
theorem meaning_disjoint_unused (d : Document) (isKnownThread : Text → Bool) (s : Site) :
    (meaning d isKnownThread s).2.bits &&& Modifiers.unused.bits = 0 := by
  have hplain : ∀ m ∈ plainModifiers, m.bits &&& Modifiers.unused.bits = 0 := by decide
  rcases meaning_cases d isKnownThread s with ⟨role, -, hmeaning⟩ | ⟨-, hmeaning⟩ | ⟨-, hmem⟩
  · rw [hmeaning]
    cases role with
    | plain | entryPoint | engineCallback => rfl
  · rw [hmeaning]
    rfl
  · exact hplain _ hmem

/-- Whether a lexeme is a bare word that is neither a function of the engine nor a thread of the
    script itself. -/
def isOpen (d : Document) (l : Lexeme) : Bool :=
  l.kind == .word && !isBuiltin l.text && !d.hasThread l.text

/-- Knowing threads of other scripts changes the meaning of bare words that name one of them. -/
theorem ofLexeme_meaning (d : Document) (isKnownThread : Text → Bool) (s : Site) :
    ofLexeme s.lexeme (meaning d isKnownThread s)
      = if isOpen d s.lexeme && isKnownThread (lower s.lexeme.text)
        then (ofLexeme s.lexeme (meaning d (fun _ => false) s)).asThread
        else ofLexeme s.lexeme (meaning d (fun _ => false) s) := by
  by_cases hkind : s.lexeme.kind = .word
  · have hword (known : Text → Bool) :
        meaning d known s = meaningOfWord d known s.owner s.lexeme.text := by
      rw [meaning, hkind]
    rw [isOpen, hword, hword, meaningOfWord, meaningOfWord, hkind]
    cases hbuiltin : isBuiltin s.lexeme.text with
    | true => rfl
    | false =>
        cases hthread : d.hasThread s.lexeme.text with
        | true => rfl
        | false =>
            cases isKnownThread (lower s.lexeme.text) with
            | true => rfl
            | false => rfl
  · have hopen : isOpen d s.lexeme = false := by
      rw [isOpen, beq_eq_false_iff_ne.mpr hkind]
      rfl
    have hmeaning : meaning d isKnownThread s = meaning d (fun _ => false) s := by
      rw [meaning, meaning]
      cases hk : s.lexeme.kind with
      | word => exact absurd hk hkind
      | _ => rfl
    rw [hopen, hmeaning, Bool.false_and, if_neg Bool.false_ne_true]

end Token

namespace Workspace

theorem withoutUnused_markUnused (index : SymbolIndex) {k : Token} (l : Lexeme)
    (h : k.modifiers.bits &&& Modifiers.unused.bits = 0) :
    (markUnused index k l).withoutUnused = k := by
  have hplain : k.withoutUnused = k := by
    rw [Token.withoutUnused, Modifiers.without_of_disjoint h]
  have hmarked : Token.withoutUnused { k with modifiers := k.modifiers ∪ .unused } = k := by
    rw [Token.withoutUnused, Modifiers.union_without h]
  unfold markUnused
  split
  · split
    · exact hmarked
    · exact hplain
  · exact hplain

/-- Whether a lexeme of a script is a bare word that names a thread of another script, and neither a
    function of the engine nor a thread of the script itself. -/
def namesThreadElsewhere (w : Workspace) (path : Path) (l : Lexeme) : Bool :=
  l.kind == .word && !isBuiltin l.text && !(w.document? path).any (·.hasThread l.text)
    && w.documents.any fun entry => !entry.1.same path && entry.2.hasThread l.text

namespace Consistent

variable {disk : Disk} {w : Workspace}

/-- A bare word is known as a thread when a tracked script has such a thread. -/
theorem isThread_lower_iff (hw : Consistent disk w) {t : Text} {i : Nat} {l : Lexeme}
    (hl : (scan t).lexemes[i]? = some l) (hkind : l.kind = .word) :
    w.symbolIndex.isThread (lower l.text) = true
      ↔ ∃ entry ∈ w.documents, entry.2.hasThread l.text = true := by
  have hplain : IsPlainName (lower l.text) := by
    refine isPlainName_of_identifier ?_
    intro a ha
    obtain ⟨c, hc, rfl⟩ := List.mem_map.mp ha
    rw [isIdentifierChar_ignoresCase]
    exact isIdentifierChar_of_mem_wordText hl hkind c hc
  have hthread (d : Document) : d.hasThread (lower l.text) = d.hasThread l.text := by
    simp only [Document.hasThread, sameName, lower_lower]
  rw [hw.symbolIndex_eq, freshIndex, SymbolIndex.isThread_iff w.root w.documents hplain]
  simp only [hthread]

/-- The words that the index makes functions are those that name a thread of another script. -/
theorem namesThreadElsewhere_eq (hw : Consistent disk w) {path : Path} {d : Document}
    (hd : w.document? path = some d) {t : Text} {i : Nat} {l : Lexeme}
    (hl : (scan t).lexemes[i]? = some l) :
    w.namesThreadElsewhere path l
      = (Token.isOpen d l && w.symbolIndex.isThread (lower l.text)) := by
  rw [namesThreadElsewhere, hd, Option.any_some, Token.isOpen]
  cases hopen : l.kind == .word && !isBuiltin l.text && !d.hasThread l.text with
  | false => rfl
  | true =>
      simp only [Bool.and_eq_true, beq_iff_eq, Bool.not_eq_true'] at hopen
      obtain ⟨⟨hkind, -⟩, hown⟩ := hopen
      rw [Bool.true_and, Bool.true_and, Bool.eq_iff_iff, hw.isThread_lower_iff hl hkind,
        List.any_eq_true]
      constructor
      · rintro ⟨entry, hentry, hother⟩
        exact ⟨entry, hentry, (Bool.and_eq_true_iff.mp hother).2⟩
      · rintro ⟨entry, hentry, hthread⟩
        refine ⟨entry, hentry, Bool.and_eq_true_iff.mpr ⟨?_, hthread⟩⟩
        -- the script itself has no such thread
        cases hsame : entry.1.same path with
        | false => rfl
        | true =>
            obtain rfl : entry.2 = d :=
              Option.some.inj ((hw.document?_of_mem hentry hsame).symm.trans hd)
            exact absurd (hown.symm.trans hthread) Bool.false_ne_true

end Consistent

/-- **STANDALONE TOKENS**: without the marks of what nothing refers to, the tokens of a tracked script
    are those of its text by itself, but that bare words which name a thread of another script are
    functions. -/
theorem tokens_agree_with_standalone (settings : Settings) (root : Path) (disk : Disk)
    (ops : List Operation) {path : Path} {t : Text}
    (ht : ((empty settings root).run disk ops).text? path = some t) :
    ∃ ts, ((empty settings root).run disk ops).tokenize path = some ts
      ∧ ts.length = (Token.tokenize t).length
      ∧ (Token.tokenize t).length = (scan t).lexemes.length
      ∧ ts.map Token.withoutUnused = List.zipWith
          (fun l k => if ((empty settings root).run disk ops).namesThreadElsewhere path l
            then k.asThread else k)
          (scan t).lexemes (Token.tokenize t) := by
  have hw := (Consistent.empty disk settings root).run ops
  generalize (empty settings root).run disk ops = w at hw ht ⊢
  obtain ⟨file, hd⟩ := hw.exists_document?_of_text? ht
  have hstandalone : Token.tokenize t = (Document.sites t).map fun s =>
      .ofLexeme s.lexeme (Token.meaning (Document.read file t) (fun _ => false) s) := rfl
  refine ⟨_, tokenize_eq hd, ?_, ?_, ?_⟩
  · rw [hstandalone, List.length_map, List.length_map]
  · rw [hstandalone, ← lexemes_sites, List.length_map, List.length_map]
  · rw [hstandalone, ← lexemes_sites, List.zipWith_map, List.zipWith_self, List.map_map]
    refine List.map_congr_left ?_
    intro s hs
    have hnames : w.namesThreadElsewhere path s.lexeme
        = (Token.isOpen (Document.read file t) s.lexeme
          && w.symbolIndex.isThread (lower s.lexeme.text)) := by
      obtain ⟨i, l, hl, rfl⟩ := mem_sites.mp hs
      exact hw.namesThreadElsewhere_eq hd hl
    rw [hnames]
    refine (withoutUnused_markUnused _ _ (Token.meaning_disjoint_unused _ _ _)).trans ?_
    exact Token.ofLexeme_meaning _ _ _

/-- `FAR` names a label of the thread around it, and alone is one; the other script makes it a
    function.  Nothing refers to `own`, which is marked, and the mark is all that is cleared. -/
theorem tokens_of_two_scripts :
    let a : Path := ⟨"/w/a.scr".toList⟩
    let t : Text := "own:\nfar:\nFAR".toList
    let w := (empty .default ⟨"/w".toList⟩).run .empty
      [.upsert a t, .upsert ⟨"/w/b.scr".toList⟩ "far:\nend".toList]
    w.text? a = some t
      ∧ (w.tokenize a).map (·.any (·.modifiers.contains .unused)) = some true
      ∧ (Token.tokenize t).map (fun k => (k.type, k.modifiers))
        = [(.function, .declaration ∪ .definition), (.operator, .none), (.label, .definition),
          (.operator, .none), (.label, .none)]
      ∧ (w.tokenize a).map (·.map fun k => (k.withoutUnused.type, k.withoutUnused.modifiers))
        = some [(.function, .declaration ∪ .definition), (.operator, .none), (.label, .definition),
          (.operator, .none), (.function, .none)] := by
  intro a t w
  have ht : w.text? a = some t := by decide +kernel
  obtain ⟨ts, hts, -, -, hagree⟩ := tokens_agree_with_standalone .default ⟨"/w".toList⟩ .empty
    [.upsert a t, .upsert ⟨"/w/b.scr".toList⟩ "far:\nend".toList] ht
  refine ⟨ht, by decide +kernel, by decide +kernel, ?_⟩
  have hmeanings := congrArg (List.map fun k : Token => (k.type, k.modifiers)) hagree
  rw [List.map_map] at hmeanings
  show ((w.tokenize a).map _) = _
  rw [hts]
  refine congrArg some (hmeanings.trans ?_)
  decide +kernel

end Workspace

end ScriptAtlas
