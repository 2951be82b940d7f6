import ScriptAtlas.Proofs.Workspace.UnusedTokens
import ScriptAtlas.Token.Delta

/-! # Round trip — no token is lost on its way to the editor

    Distances are differences of natural numbers, so they say where a token
    stands only if it stands after the one sent before it.  The route:

    * beside `encode` stands an encoder that gives up when it would have to take
      a larger number from a smaller one (`encode?`);
    * of tokens in order it never gives up (`encodeFrom?_eq`), and adding the
      distances up gives back the tokens that have characters
      (`decodeFrom_encodeFrom`), both by induction with the place of the token
      sent last as a parameter;
    * a token stands where its lexeme does, and the lexemes of a text go strictly
      by line and column and have characters (`Delta.Faithful.of_lexemes`). -/

namespace ScriptAtlas

/-- The place where a token starts. -/
def Token.start (k : Token) : Position := ⟨k.line, k.column⟩

/-- What an editor is to learn of a token: line, column, length, type and modifiers. -/
def Token.fields (k : Token) : Nat × Nat × Nat × Nat × Nat :=
  (k.line, k.column, k.length, k.type.index, k.modifiers.bits)

/-- Tokens that go by line and column. -/
def Token.Ordered (tokens : List Token) : Prop :=
  tokens.Pairwise fun a b => a.start.le b.start = true

namespace Delta

/-- The difference of two numbers, unless the second is larger. -/
def minus? (a b : Nat) : Option Nat := if b ≤ a then some (a - b) else none

/-- The distance of a token from a place, unless it stands before that place. -/
def between? (line column : Nat) (k : Token) : Option Delta := do
  let lines ← minus? k.line line
  let start ← if lines == 0 then minus? k.column column else some k.column
  return ⟨lines, start, k.length, k.type.index, k.modifiers.bits⟩

/-- The distances of the tokens, unless one of them stands before the one sent before it. -/
def encodeFrom? (line column : Nat) : List Token → Option (List Delta)
  | [] => some []
  | t :: ts =>
    if t.length == 0 then encodeFrom? line column ts
    else do
      let d ← between? line column t
      let ds ← encodeFrom? t.line t.column ts
      return d :: ds

/-- The distances of the tokens of a script, unless they are out of order. -/
def encode? (tokens : List Token) : Option (List Delta) := encodeFrom? 0 0 tokens

/-- What reaches the editor is what was sent: no difference falls below zero, every token has its
    distance, and adding the distances up gives back every token. -/
structure Faithful (tokens : List Token) : Prop where
  subtracts : encode? tokens = some (encode tokens)
  length : (encode tokens).length = tokens.length
  decodes : decode (encode tokens) = tokens.map Token.fields

/-! ## One token -/

section Step

variable {line column : Nat} {k : Token}

/-- The distance of a token that does not stand before the place. -/
theorem between?_eq (h : Position.le ⟨line, column⟩ k.start = true) :
    between? line column k = some ⟨k.line - line,
      if k.line - line == 0 then k.column - column else k.column, k.length, k.type.index,
      k.modifiers.bits⟩ := by
  rcases Position.le_iff.mp h with hline | ⟨hline, hcolumn⟩
  · have hlt : line < k.line := hline
    have hpos : ¬ k.line - line = 0 := by omega
    simp [between?, minus?, Nat.le_of_lt hlt, hpos]
  · have heq : line = k.line := hline
    have hle : column ≤ k.column := hcolumn
    simp [between?, minus?, heq, hle]

/-- Adding the distance of a token to the place leads to the token. -/
theorem add_distance (h : Position.le ⟨line, column⟩ k.start = true) :
    line + (k.line - line) = k.line
      ∧ (if k.line - line == 0 then
          column + (if k.line - line == 0 then k.column - column else k.column)
        else if k.line - line == 0 then k.column - column else k.column) = k.column := by
  rcases Position.le_iff.mp h with hline | ⟨hline, hcolumn⟩
  · have hlt : line < k.line := hline
    have hpos : ¬ k.line - line = 0 := by omega
    refine ⟨by omega, ?_⟩
    simp [hpos]
  · have heq : line = k.line := hline
    have hle : column ≤ k.column := hcolumn
    refine ⟨by omega, ?_⟩
    simp [heq, hle]

end Step

/-! ## Tokens in order -/

section Ordered

variable {line column : Nat} {tokens : List Token}

/-- Of tokens in order the careful encoder gives the same distances. -/
theorem encodeFrom?_eq (hafter : ∀ k ∈ tokens, Position.le ⟨line, column⟩ k.start = true)
    (hordered : Token.Ordered tokens) :
    encodeFrom? line column tokens = some (encodeFrom line column tokens) := by
  induction tokens generalizing line column with
  | nil => rfl
  | cons k ks ih =>
      obtain ⟨hk, hks⟩ := List.pairwise_cons.mp hordered
      rw [encodeFrom?, encodeFrom]
      by_cases hlength : (k.length == 0) = true
      · rw [if_pos hlength, if_pos hlength]
        exact ih (List.forall_mem_cons.mp hafter).2 hks
      · rw [if_neg hlength, if_neg hlength, between?_eq (hafter k List.mem_cons_self), ih hk hks]
        rfl

/-- Adding up the distances of tokens in order gives back those that have characters. -/
theorem decodeFrom_encodeFrom (hafter : ∀ k ∈ tokens, Position.le ⟨line, column⟩ k.start = true)
    (hordered : Token.Ordered tokens) :
    decodeFrom line column (encodeFrom line column tokens)
      = (tokens.filter (·.length != 0)).map Token.fields := by
  induction tokens generalizing line column with
  | nil => rfl
  | cons k ks ih =>
      obtain ⟨hk, hks⟩ := List.pairwise_cons.mp hordered
      by_cases hlength : (k.length == 0) = true
      · -- a token without characters is passed over, and the place stays
        rw [encodeFrom, if_pos hlength, List.filter_cons_of_neg (by simpa using hlength)]
        exact ih (List.forall_mem_cons.mp hafter).2 hks
      · obtain ⟨hline, hcolumn⟩ := add_distance (hafter k List.mem_cons_self)
        rw [encodeFrom, if_neg hlength, List.filter_cons_of_pos (by simpa using hlength), decodeFrom,
          List.map_cons]
        dsimp only
        rw [hline, hcolumn, ih hk hks]
        rfl

theorem length_encodeFrom (line column : Nat) (tokens : List Token) :
    (encodeFrom line column tokens).length = (tokens.filter (·.length != 0)).length := by
  induction tokens generalizing line column with
  | nil => rfl
  | cons k ks ih =>
      by_cases hlength : (k.length == 0) = true
      · rw [encodeFrom, if_pos hlength, List.filter_cons_of_neg (by simpa using hlength)]
        exact ih line column
      · rw [encodeFrom, if_neg hlength, List.filter_cons_of_pos (by simpa using hlength),
          List.length_cons, List.length_cons, ih]

end Ordered

theorem origin_le (k : Token) : Position.le ⟨0, 0⟩ k.start = true := by
  rw [Position.le_iff]
  rcases Nat.eq_zero_or_pos k.line with hline | hline
  · exact Or.inr ⟨hline.symm, Nat.zero_le _⟩
  · exact Or.inl hline

theorem encode?_eq {tokens : List Token} (hordered : Token.Ordered tokens) :
    encode? tokens = some (encode tokens) :=
  encodeFrom?_eq (fun k _ => origin_le k) hordered

theorem decode_encode {tokens : List Token} (hordered : Token.Ordered tokens) :
    decode (encode tokens) = (tokens.filter (·.length != 0)).map Token.fields :=
  decodeFrom_encodeFrom (fun k _ => origin_le k) hordered

/-! ## The tokens of a script -/

/-- Tokens that stand where the lexemes of a text do arrive as they were sent. -/
theorem Faithful.of_lexemes {t : Text} {tokens : List Token}
    (h : tokens.map Token.span = (scan t).lexemes.map Lexeme.span) : Faithful tokens := by
  have hlength : tokens.filter (·.length != 0) = tokens := by
    refine List.filter_eq_self.mpr ?_
    intro k hk
    obtain ⟨l, hl, hspan⟩ := List.mem_map.mp (h ▸ List.mem_map_of_mem hk)
    have hchars := (scan_lexemes_placed hl).1
    simp only [Lexeme.span, Token.span, Span.onLine, Span.mk.injEq, Position.mk.injEq,
      Lexeme.endColumn] at hspan
    exact bne_iff_ne.mpr (by omega)
  have hordered : Token.Ordered tokens := by
    have hlexemes : ((scan t).lexemes.map Lexeme.span).Pairwise
        fun a b => a.start.le b.start = true := by
      refine List.pairwise_map.mpr ((scan_lexemes_ordered t).imp ?_)
      rintro a b (hline | ⟨hline, hcolumn⟩)
      · exact Position.le_iff.mpr (Or.inl hline)
      · exact Position.le_iff.mpr (Or.inr ⟨hline, Nat.le_of_lt hcolumn⟩)
    rw [← h] at hlexemes
    exact List.pairwise_map.mp hlexemes
  refine ⟨encode?_eq hordered, ?_, ?_⟩
  · rw [encode, length_encodeFrom, hlength]
  · rw [decode_encode hordered, hlength]

theorem span_tokenize (t : Text) :
    (Token.tokenize t).map Token.span = (scan t).lexemes.map Lexeme.span := by
  rw [← lexemes_sites, List.map_map, Token.tokenize, Token.classify, List.map_map]
  rfl

theorem span_workspace_tokenize {w : Workspace} {path file : Path} {t : Text}
    (hd : w.document? path = some (Document.read file t)) :
    ∃ tokens, w.tokenize path = some tokens
      ∧ tokens.map Token.span = (scan t).lexemes.map Lexeme.span := by
  refine ⟨_, Workspace.tokenize_eq hd, ?_⟩
  rw [← lexemes_sites, List.map_map, List.map_map]
  exact List.map_congr_left fun s _ => Workspace.span_markedToken

/-- **NOTHING IS LOST**: the distances of tokens in order are differences that never fall below
    zero, and adding them up gives back the tokens that have characters.  The tokens of every text,
    and of every tracked script after any operations, are in order and have characters, so each has
    its distance and all of them come back. -/
theorem encode_loses_nothing :
    (∀ tokens, Token.Ordered tokens → encode? tokens = some (encode tokens)
      ∧ decode (encode tokens) = (tokens.filter (·.length != 0)).map Token.fields)
    ∧ (∀ t, Faithful (Token.tokenize t))
    ∧ ∀ settings root disk ops path d,
      ((Workspace.empty settings root).run disk ops).document? path = some d →
        ∃ tokens, ((Workspace.empty settings root).run disk ops).tokenize path = some tokens
          ∧ Faithful tokens := by
  refine ⟨?_, ?_, ?_⟩
  · intro tokens hordered
    exact ⟨encode?_eq hordered, decode_encode hordered⟩
  · intro t
    exact .of_lexemes (span_tokenize t)
  · intro settings root disk ops path d hd
    have hw := (Workspace.Consistent.empty disk settings root).run ops
    obtain ⟨file, t, rfl⟩ := hw.exists_read_of_document? hd
    obtain ⟨tokens, htokens, hspans⟩ := span_workspace_tokenize hd
    exact ⟨tokens, htokens, .of_lexemes hspans⟩

/-- Three tokens, the second without characters; and a script of two rows whose label nothing goes
    to. -/
theorem encode_loses_nothing_of_rows :
    let tokens : List Token := [⟨0, 3, 2, .keyword, .none⟩, ⟨0, 4, 0, .var, .read⟩,
      ⟨2, 1, 4, .label, .definition⟩]
    let path : Path := ⟨"/w/a.scr".toList⟩
    let w := (Workspace.empty .default ⟨"/w".toList⟩).run .empty
      [.upsert path "main:\n  spare: local.x = 1".toList]
    Token.Ordered tokens
      ∧ decode (encode tokens) = [(0, 3, 2, 0, 0), (2, 1, 4, 3, 2)]
      ∧ (w.document? path).isSome = true
      ∧ ∃ sent, w.tokenize path = some sent ∧ sent.length = 9 ∧ Faithful sent := by
  intro tokens path w
  have hfacts : Token.Ordered tokens ∧ (w.document? path).isSome = true
      ∧ (w.tokenize path).map List.length = some 9 := by
    unfold Token.Ordered
    decide +kernel
  obtain ⟨hordered, hsome, hlength⟩ := hfacts
  obtain ⟨d, hd⟩ := Option.isSome_iff_exists.mp hsome
  obtain ⟨sent, hsent, hfaithful⟩ := encode_loses_nothing.2.2 _ _ _ _ _ d hd
  rw [hsent] at hlength
  exact ⟨hordered, (encode_loses_nothing.1 tokens hordered).2, hsome, sent, hsent,
    Option.some.inj hlength, hfaithful⟩

end Delta

end ScriptAtlas
