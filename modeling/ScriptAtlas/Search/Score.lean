import ScriptAtlas.Search.Query

/-! # Scores — how well a name answers a query

    A character that is found scores, and scores more at the start of a word:
    after an underscore, at a capital, at a first digit.  Characters found in a
    row share the best bonus of their stretch, and gaps between them cost.  A
    fuzzy term is scored by the best of all ways to find it, worked out row by
    row, one row for each character of the term; where that table would be too
    large, the first way found is scored.  Scores are words of sixteen binary
    digits. -/

namespace ScriptAtlas.Score

/-- The classes of characters; `edge` stands before a name. -/
inductive CharClass where
  | edge
  | sign
  | lower
  | upper
  | digit
deriving DecidableEq, Repr

/-- The class of a character. -/
def classOf (c : Char) : CharClass :=
  if c.isLower then .lower else if c.isUpper then .upper else if c.isDigit then .digit else .sign

/-- The bonus of a character by its class and the class before it. -/
def bonus (previous current : CharClass) : Nat :=
  if current != .sign && previous == .edge then 10
  else if current != .sign && previous == .sign then 8
  else if previous == .lower && current == .upper then 5
  else if previous != .digit && current == .digit then 5
  else if current == .sign then 8
  else 0

/-- A character of a name as it is compared, with its bonus. -/
structure Column where
  char : Char
  bonus : Nat
deriving DecidableEq, Repr

/-- The columns of a name after a character of class `previous`. -/
def columnsFrom (ignoreCase : Bool) (previous : CharClass) : Text → List Column
  | [] => []
  | c :: cs =>
    ⟨if ignoreCase then c.toLower else c, bonus previous (classOf c)⟩
      :: columnsFrom ignoreCase (classOf c) cs

/-- The columns of a name. -/
def columns (ignoreCase : Bool) (name : Text) : List Column := columnsFrom ignoreCase .edge name

/-- The score of one character that is found by itself. -/
def single (c : Column) : Nat := 16 + 2 * c.bonus

/-- Where the scoring of a stretch of columns stands. -/
structure Run where
  score : Nat
  /-- The bonus that the current row of found characters shares. -/
  first : Nat
  consecutive : Bool
  gap : Bool
  /-- The characters still looked for; the last one stays. -/
  needle : Text
deriving DecidableEq, Repr

/-- The rest of what is looked for, where the last character stays. -/
def advance : Text → Text
  | _ :: d :: rest => d :: rest
  | t => t

/-- A score within sixteen binary digits. -/
def wrap (score : Nat) : Nat := score % 65536

/-- Scores one more column. -/
def Run.step (r : Run) (c : Column) : Run :=
  if r.needle.head? == some c.char then
    let first :=
      if !r.consecutive || (8 ≤ c.bonus && r.first < c.bonus) then c.bonus else r.first
    let gain := if r.consecutive then max (max c.bonus first) 4 else c.bonus
    ⟨wrap (r.score + 16 + gain), first, true, false, advance r.needle⟩
  else
    { r with score := r.score - (if r.gap then 1 else 3), gap := true, consecutive := false }

/-- The score of a window whose first column is the first character of the needle. -/
def window (needle : Text) : List Column → Nat
  | [] => 0
  | c :: cs => (cs.foldl Run.step ⟨single c, c.bonus, true, false, advance needle⟩).score

/-- The score of a window that has to be the needle. -/
def exactWindow (needle : Text) (cols : List Column) : Option Nat :=
  if cols.map (·.char) == needle then some (window needle cols) else none

/-- The starts of the needle in a name, and what is there, from left to right; `apart` if they may
    not overlap. -/
def occurrences (apart : Bool) (needle : Text) : (skip : Nat) → List Column → List (List Column)
  | _, [] => []
  | skip + 1, _ :: cs => occurrences apart needle skip cs
  | 0, c :: cs =>
    let start := (c :: cs).take needle.length
    if start.map (·.char) == needle then
      start :: occurrences apart needle (if apart then needle.length - 1 else 0) cs
    else occurrences apart needle 0 cs

/-- The first of the windows whose first character scores most. -/
def bestStart : List (List Column) → Option (List Column)
  | [] => none
  | w :: ws =>
    match bestStart ws with
    | none => some w
    | some best => if (w.head?.map single).getD 0 < (best.head?.map single).getD 0 then some best
        else some w

/-- The score of the needle as a stretch of a name.  A needle without a letter among its first two
    characters is compared as written and only as far as its beginning may stand; one without letters
    or with letter case is looked for without overlaps. -/
def substring (ignoreCase : Bool) (needle name : Text) : Option Nat :=
  let cols := columns ignoreCase name
  let found :=
    match needle.findIdx? Char.isLower with
    | some index =>
      if !ignoreCase then occurrences true needle 0 cols
      else if index < 2 then occurrences false needle 0 cols
      else
        let written := List.zipWith (fun col c => { col with char := c }) cols name
        occurrences true needle 0 (written.take (name.length - needle.length + index))
    | none => occurrences true needle 0 cols
  (bestStart found).map (window needle)

/-- The columns at which the needle is found, each as early as possible. -/
def greedy : (column : Nat) → (needle : Text) → List Column → Option (List Nat)
  | _, [], _ => some []
  | _, _ :: _, [] => none
  | column, n :: ns, c :: cs =>
    if c.char == n then (greedy (column + 1) ns cs).map (column :: ·)
    else greedy (column + 1) (n :: ns) cs

/-- A character found at a column: the best score there, and the bonus its stretch shares. -/
structure Cell where
  score : Nat
  shared : Nat
deriving DecidableEq, Repr

/-- The cells of a row with the best score before each after a gap. -/
def withGaps : (best : Nat) → List (Option Cell) → List (Option Cell × Nat)
  | _, [] => []
  | best, cell :: cells =>
    (cell, best) :: withGaps (max ((cell.map (·.score)).getD 0 - 3) (best - 1)) cells

/-- A cell, from the cell and the gap score to the upper left of it. -/
def nextCell (n : Char) (before : Option Cell × Nat) (c : Column) : Option Cell :=
  if c.char != n then none
  else
    match before with
    | (none, gap) => some ⟨gap + c.bonus + 16, c.bonus⟩
    | (some cell, gap) =>
      let least := max cell.shared 4
      let shared := if 8 ≤ c.bonus && least < c.bonus then c.bonus else least
      let joined := cell.score + max shared c.bonus
      let apart := gap + c.bonus
      if apart < joined then some ⟨joined + 16, shared⟩ else some ⟨apart + 16, c.bonus⟩

/-- The last row, from a row that starts at column `offset` and the characters and columns that are
    still to come. -/
def lastRow (cols : List Column) :
    (offset : Nat) → (row : List (Option Cell)) → List (Char × Nat) → List (Option Cell)
  | _, row, [] => row
  | offset, row, (n, offset') :: rest =>
    let row' := List.zipWith (nextCell n) ((withGaps 0 row).drop (offset' - 1 - offset))
      (cols.drop offset')
    lastRow cols offset' row' rest

/-- The cell of the first character. -/
def firstCell (n : Char) (c : Column) : Option Cell :=
  if c.char == n then some ⟨single c, c.bonus⟩ else none

/-- The most cells that a table may have. -/
def cellLimit : Nat := 102400

/-- The most octets that a table and its rows may take. -/
def spaceLimit : Nat := 133120

/-- The octets that a table takes: two for each column and each character of the needle, rounded up to
    eights, eight for each column of a row and one for each cell, where a row leaves out the columns
    that the other rows need. -/
def space (columns needle : Nat) : Nat :=
  (2 * columns + 2 * needle + 7) / 8 * 8 + (columns + 1 - needle) * (8 + needle)

/-- Whether a table for so many columns and characters may be worked out. -/
def fits (columns needle : Nat) : Bool :=
  columns * needle ≤ cellLimit && space columns needle ≤ spaceLimit

/-- The score of the first way to find the needle, within columns that end with its last character:
    from the latest start from which the needle can still be found. -/
def firstWay (needle : Text) (cols : List Column) : Nat :=
  let back := ((greedy 0 needle.reverse cols.reverse).getD []).getLastD 0
  window needle (cols.drop (cols.length - 1 - back))

/-- The score of the characters of a needle in order, gaps allowed. -/
def fuzzy (ignoreCase : Bool) (needle name : Text) : Option Nat :=
  let cols := columns ignoreCase name
  match needle, greedy 0 needle cols with
  | n :: ns, some (start :: offsets) =>
    let last := (n :: ns).getLastD n
    let found := cols.take (cols.length - (cols.reverse.takeWhile (·.char != last)).length)
    let greedyEnd := ((start :: offsets).getLastD start) + 1
    if found.length - start == needle.length then
      some (window needle ((cols.take greedyEnd).drop start))
    else if !fits (found.length - start) needle.length then
      some (firstWay needle ((cols.take greedyEnd).drop start))
    else
      let row := (found.drop start).map (firstCell n)
      let scores := (lastRow found start row (ns.zip offsets)).map fun c => (c.map (·.score)).getD 0
      some (scores.foldl max 0)
  | _, _ => none

/-- The score of a needle of one character: its best occurrence. -/
def oneCharacter (ignoreCase : Bool) (needle name : Text) : Option Nat :=
  match (columns ignoreCase name).filter fun c => needle.head? == some c.char with
  | [] => none
  | found => some ((found.map single).foldl max 0)

/-- The score of a needle that has to stand at one end of a name, or be all of it: with letter case it
    has to be the whole name. -/
def anchored (t : Term) (name : Text) (skip : Nat) : Option Nat :=
  let cols := columns t.ignoreCase name
  if t.ignoreCase then exactWindow t.needle ((cols.drop skip).take t.needle.length)
  else exactWindow t.needle cols

/-- The score of a name for what a term looks for. -/
def ofNeedle (t : Term) (name : Text) : Option Nat :=
  if name.length < t.needle.length then none
  else
    match t.kind with
    | .exact => exactWindow t.needle (columns t.ignoreCase name)
    | .beginning => anchored t name 0
    | .ending => anchored t name (name.length - t.needle.length)
    | .substring =>
      if name.length == t.needle.length then exactWindow t.needle (columns t.ignoreCase name)
      else if t.needle.length == 1 then oneCharacter t.ignoreCase t.needle name
      else substring t.ignoreCase t.needle name
    | .fuzzy =>
      if name.length == t.needle.length then exactWindow t.needle (columns t.ignoreCase name)
      else if t.needle.length == 1 then oneCharacter t.ignoreCase t.needle name
      else fuzzy t.ignoreCase t.needle name

/-- The score of a name for a term; a negative term scores nothing where it is not found. -/
def ofTerm (t : Term) (name : Text) : Option Nat :=
  match ofNeedle t name, t.negative with
  | some _, true => none
  | none, true => some 0
  | score, false => score

/-- The score of a name for a query: all terms have to be met. -/
def ofTerms (terms : List Term) (name : Text) : Option Nat :=
  terms.foldl (fun total t => do return (← total) + (← ofTerm t name)) (some 0)

end ScriptAtlas.Score
