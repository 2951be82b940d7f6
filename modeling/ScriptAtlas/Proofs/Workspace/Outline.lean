import ScriptAtlas.Workspace.Outline
import ScriptAtlas.Proofs.Document.Ownership
import ScriptAtlas.Proofs.Workspace.Consistency
import Mathlib.Data.List.Nodup

/-! # Outline — the entries of a script partition it

    An entry reaches from the header of its thread to a last line that is found
    in one of three ways, and what is listed below it is chosen by owners.  The
    two agree: nothing is listed outside the lines of its entry, and the lines
    of different entries are apart.  The route:

    * a line whose thread is `k` lies between the header and the last line of
      `k` (`line_le_lastLine`), and the last line of `k` above every later
      header (`lastLine_lt_line`);
    * everything listed below an entry stands at a lexeme that its thread owns
      (`exists_owned_of_mem_children`), so on its lines (`children_within`);
    * hence no two entries list the same, and what one entry lists differs by
      kind or by place (`children_nodup`, `flatMap_children_nodup`);
    * of the writes to one variable an entry lists the first
      (`filter_children_var`). -/

namespace ScriptAtlas

open Text Progress

/-- Of the elements with one key, the first is kept. -/
theorem filter_distinctBy {α κ : Type} [BEq κ] [LawfulBEq κ] (key : α → κ) (l : List α) (k : κ) :
    (distinctBy key l).filter (key · == k) = (l.find? (key · == k)).toList := by
  have hgo (seen : List κ) : (distinctBy.go key seen l).filter (key · == k)
      = if k ∈ seen then [] else (l.find? (key · == k)).toList := by
    induction l generalizing seen with
    | nil => simp [distinctBy.go]
    | cons a l ih =>
        rw [distinctBy.go]
        by_cases hkey : key a = k
        · by_cases hseen : k ∈ seen <;> simp [hkey, hseen, ih]
        · by_cases hseen : key a ∈ seen
          · simp [hkey, hseen, ih]
          · simp [hkey, Ne.symm hkey, hseen, ih]
  exact hgo []

namespace Outline

/-- The entry below a thread for one of its labels. -/
def ofLabel (l : Label) : OutlineLeaf := ⟨l.name, .label, l.span⟩

/-- The entry below a thread for a write. -/
def ofBinding (b : Binding) : OutlineLeaf := ⟨b.qualified, .var, b.span⟩

/-- Whether entries partition a script, so that each thing it holds is found in one place. -/
structure Partitions (d : Document) (entries : List OutlineThread) : Prop where
  /-- There is one entry for each thread, in order. -/
  threads : entries.map (fun e => (e.name, e.role, e.nameSpan))
    = d.threads.map fun th => (th.name, th.role, th.span)
  starts : ∀ e ∈ entries, e.span.start = e.nameSpan.start
  nonempty : ∀ e ∈ entries, e.span.start.line ≤ e.span.stop.line
  /-- An entry ends on a line above the next one. -/
  disjoint : entries.Pairwise fun a b => a.span.stop.line < b.span.start.line
  /-- A label is listed once, and below its thread. -/
  label : ∀ l ∈ d.labels, (∃ e, entries[l.owner]? = some e ∧ ofLabel l ∈ e.children)
    ∧ (entries.flatMap (·.children)).count (ofLabel l) = 1
  /-- A variable that a thread writes is listed once below that thread, at its first write, and that
      write nowhere else. -/
  var : ∀ b ∈ d.bindings, ∃ e first, entries[b.owner]? = some e
    ∧ d.bindings.find? (fun b' => b'.owner == b.owner && b'.qualified == b.qualified) = some first
    ∧ e.children.filter (fun c => c.kind == .var && c.name == b.qualified) = [ofBinding first]
    ∧ (entries.flatMap (·.children)).count (ofBinding first) = 1
  /-- What is listed as a label or a variable is one, of that thread. -/
  origin : ∀ k e, entries[k]? = some e → ∀ c ∈ e.children,
    (c.kind = .label → ∃ l ∈ d.labels, l.owner = k ∧ c = ofLabel l)
    ∧ (c.kind = .var → ∃ b ∈ d.bindings, b.owner = k ∧ c = ofBinding b)
  within : ∀ e ∈ entries, ∀ c ∈ e.children, e.span.start.line ≤ c.span.start.line
    ∧ c.span.start.line ≤ c.span.stop.line ∧ c.span.stop.line ≤ e.span.stop.line
  /-- What is listed below an entry goes by line and column. -/
  ordered : ∀ e ∈ entries,
    e.children.Pairwise fun a b => (a.span.start.order b.span.start).isLE = true

/-- The entries of a document. -/
def entries (d : Document) (width : Nat → Nat) : List OutlineThread :=
  d.threads.zipIdx.map fun e => entry d width e.2 e.1

theorem getElem?_entries (d : Document) (width : Nat → Nat) (k : Nat) :
    (entries d width)[k]? = d.threads[k]?.map (entry d width k) := by
  simp [entries, List.getElem?_zipIdx, Function.comp_def]

theorem mem_entries {d : Document} {width : Nat → Nat} {e : OutlineThread}
    (h : e ∈ entries d width) : ∃ k th, d.threads[k]? = some th ∧ e = entry d width k th := by
  obtain ⟨k, hk⟩ := List.mem_iff_getElem?.mp h
  rw [getElem?_entries] at hk
  obtain ⟨th, hth, rfl⟩ := Option.map_eq_some_iff.mp hk
  exact ⟨k, th, hth, rfl⟩

section Text

variable {t : Text} {file : Path} {k : Nat} {th : Thread}

/-! ## The lines of an entry -/

/-- A line with a thread is not below the last line of the thread. -/
theorem line_le_lastLine {line : Nat} (hth : (Document.read file t).threads[k]? = some th)
    (hindex : (Document.read file t).threadIndexAt line = some k)
    (hline : line < (rows t).length) : line ≤ lastLine (Document.read file t) k th := by
  obtain ⟨th', hth', -, hlast, hend⟩ := Document.threadIndexAt_eq_some_iff.mp hindex
  obtain rfl : th' = th := Option.some.inj (hth'.symm.trans hth)
  have hlength : (Document.read file t).lines.length = (rows t).length :=
    Scan.length_lines_ofRows .initial 0 (rows t)
  rw [lastLine]
  split
  · rename_i e he
    exact hend e he
  · rename_i next _ hnext
    exact Nat.le_sub_one_of_lt (hlast (k + 1) next (Nat.lt_succ_self k) hnext)
  · rw [hlength]
    exact Nat.le_sub_one_of_lt hline

theorem line_lt_of_index_lt {k' : Nat} {th' : Thread}
    (hth : (Document.read file t).threads[k]? = some th)
    (hth' : (Document.read file t).threads[k']? = some th') (hk : k < k') : th.line < th'.line := by
  obtain ⟨hlt, rfl⟩ := List.getElem?_eq_some_iff.mp hth
  obtain ⟨hlt', rfl⟩ := List.getElem?_eq_some_iff.mp hth'
  exact List.pairwise_iff_getElem.mp (header_lines_increase file t) k k' hlt hlt' hk

/-- The last line of a thread is above every later header. -/
theorem lastLine_lt_line {k' : Nat} {th' : Thread}
    (hth : (Document.read file t).threads[k]? = some th)
    (hth' : (Document.read file t).threads[k']? = some th') (hk : k < k') :
    lastLine (Document.read file t) k th < th'.line := by
  have hlength := (List.getElem?_eq_some_iff.mp hth').1
  obtain ⟨next, hnext⟩ : ∃ next, (Document.read file t).threads[k + 1]? = some next :=
    ⟨_, List.getElem?_eq_getElem (Nat.lt_of_le_of_lt hk hlength)⟩
  have hle : next.line ≤ th'.line := by
    rcases Nat.eq_or_lt_of_le hk with heq | hlt
    · rw [← heq, hnext] at hth'
      exact Nat.le_of_eq (congrArg Thread.line (Option.some.inj hth'))
    · exact Nat.le_of_lt (line_lt_of_index_lt hnext hth' hlt)
  refine Nat.lt_of_lt_of_le ?_ hle
  rw [lastLine, hnext]
  cases hend : th.endLine with
  | some e => exact (end_between_headers hth hend).2 next hnext
  | none =>
      -- the header above keeps the next one off the first line
      have habove := line_lt_of_index_lt hth hnext (Nat.lt_succ_self k)
      exact Nat.sub_one_lt (Nat.ne_zero_of_lt habove)

/-- What a thread owns stands between its header and its last line. -/
theorem owned_within {i : Nat} {l : Lexeme} (hth : (Document.read file t).threads[k]? = some th)
    (hl : (scan t).lexemes[i]? = some l) (howner : (upTo (scan t).lexemes i).owner l = some k) :
    th.line ≤ l.line ∧ l.line ≤ lastLine (Document.read file t) k th := by
  have hindex := threadIndexAt_of_owner file hl howner
  obtain ⟨-, row, hrow, -⟩ := scan_lexemes_placed (List.mem_of_getElem? hl)
  refine ⟨?_, line_le_lastLine hth hindex (List.getElem?_eq_some_iff.mp hrow).1⟩
  rw [thread_line_le_iff hth hl, opened_of_owner hl howner]
  exact Nat.lt_succ_self k

theorem line_le_lastLine_self (hth : (Document.read file t).threads[k]? = some th) :
    th.line ≤ lastLine (Document.read file t) k th := by
  obtain ⟨i, l, hheader, -, hspan, -⟩ := threads_spec hth
  obtain ⟨role, hrole⟩ := exists_role hheader.kind
  have howner : (upTo (scan t).lexemes i).owner l = some k := by
    rw [owner_header hrole, hheader.opened]
  obtain ⟨hstart, hlast⟩ := owned_within hth hheader.lexeme howner
  exact Nat.le_trans hstart hlast

/-! ## What is listed below an entry -/

theorem mem_children {d : Document} {c : OutlineLeaf} : c ∈ children d k th
    ↔ c ∈ parameters d k th ∨ c ∈ labels d k ∨ c ∈ firstWrites d k := by
  rw [children, mem_sortBy, List.mem_append, List.mem_append, or_assoc]

theorem mem_labels_iff {d : Document} {c : OutlineLeaf} :
    c ∈ labels d k ↔ ∃ l ∈ d.labels, l.owner = k ∧ c = ofLabel l := by
  simp only [labels, Document.labelsOf, List.mem_map, List.mem_filter, beq_iff_eq, and_assoc]
  exact exists_congr fun l => and_congr_right' (and_congr_right' eq_comm)

/-- What is listed as a variable is a write of the thread. -/
theorem exists_binding_of_mem_firstWrites {d : Document} {c : OutlineLeaf}
    (h : c ∈ firstWrites d k) : ∃ b ∈ d.bindings, b.owner = k ∧ c = ofBinding b := by
  obtain ⟨b, hb, rfl⟩ := List.mem_map.mp h
  have hfilter := (distinctBy_go_sublist Binding.qualified [] _).mem hb
  obtain ⟨hb, howner⟩ := List.mem_filter.mp hfilter
  exact ⟨b, hb, beq_iff_eq.mp howner, rfl⟩

/-- Everything listed stands at a lexeme that the thread owns. -/
theorem exists_owned_of_mem_children {c : OutlineLeaf}
    (h : c ∈ children (Document.read file t) k th) :
    ∃ i l, (scan t).lexemes[i]? = some l ∧ (upTo (scan t).lexemes i).owner l = some k
      ∧ c.span = l.span := by
  rcases mem_children.mp h with hparameter | hlabel | hwrite
  · obtain ⟨o, ho, rfl⟩ := List.mem_map.mp hparameter
    obtain ⟨ho, hcondition⟩ := List.mem_filter.mp ho
    obtain ⟨i, l, hl, ho⟩ := mem_filterMap_sites.mp ho
    obtain ⟨_, -, rfl⟩ := Option.map_eq_some_iff.mp ho
    simp only [Bool.and_eq_true, beq_iff_eq] at hcondition
    exact ⟨i, l, hl, hcondition.1.1.2, rfl⟩
  · obtain ⟨label, hmem, howner, rfl⟩ := mem_labels_iff.mp hlabel
    obtain ⟨i, l, hl, -, -, hspan, hl'⟩ := mem_labels hmem
    exact ⟨i, l, hl, hl'.trans (congrArg some howner), hspan⟩
  · obtain ⟨b, hb, howner, rfl⟩ := exists_binding_of_mem_firstWrites hwrite
    obtain ⟨i, l, hl, hbinding⟩ := mem_filterMap_sites.mp hb
    obtain ⟨-, hl', hbinding⟩ := Site.of_binding? hbinding
    exact ⟨i, l, hl, hl'.trans (congrArg some howner), congrArg Binding.span hbinding⟩

/-- What is listed stands on the lines of the thread. -/
theorem children_within {c : OutlineLeaf} (hth : (Document.read file t).threads[k]? = some th)
    (h : c ∈ children (Document.read file t) k th) : th.line ≤ c.span.start.line
      ∧ c.span.start.line ≤ c.span.stop.line
      ∧ c.span.stop.line ≤ lastLine (Document.read file t) k th := by
  obtain ⟨i, l, hl, howner, hspan⟩ := exists_owned_of_mem_children h
  obtain ⟨hstart, hlast⟩ := owned_within hth hl howner
  rw [hspan]
  exact ⟨hstart, Nat.le_refl _, hlast⟩

/-- Leaves at places that go by line and column are all different. -/
theorem nodup_of_ordered {β : Type} {l : List β} {leaf : β → OutlineLeaf}
    (h : l.Pairwise fun a b => (leaf a).span.start.order (leaf b).span.start = .lt) :
    (l.map leaf).Nodup := by
  refine List.pairwise_map.mpr (h.imp ?_)
  intro a b hlt heq
  have hself : (leaf b).span.start.order (leaf b).span.start = .eq := Std.ReflCmp.compare_self
  rw [heq, hself] at hlt
  exact Ordering.noConfusion hlt

theorem kind_parameters {d : Document} : ∀ c ∈ parameters d k th, c.kind = .parameter :=
  List.forall_mem_map.mpr fun _ _ => rfl

theorem kind_labels {d : Document} : ∀ c ∈ labels d k, c.kind = .label :=
  List.forall_mem_map.mpr fun _ _ => rfl

theorem kind_firstWrites {d : Document} : ∀ c ∈ firstWrites d k, c.kind = .var :=
  List.forall_mem_map.mpr fun _ _ => rfl

/-- The leaves of a thread differ by kind or by place. -/
theorem children_nodup : (children (Document.read file t) k th).Nodup := by
  have hoccurrences : (Document.read file t).occurrences.Pairwise
      fun a b => a.span.start.order b.span.start = .lt := by
    refine filterMap_sites_ordered Occurrence.span ?_ t
    intro s o ho
    obtain ⟨_, -, rfl⟩ := Option.map_eq_some_iff.mp ho
    rfl
  have hlabels : (Document.read file t).labels.Pairwise
      fun a b => a.span.start.order b.span.start = .lt := by
    refine filterMap_sites_ordered Label.span ?_ t
    intro s label hlabel
    obtain ⟨-, k, th, -, -, rfl⟩ := Site.label?_eq_some_iff.mp hlabel
    rfl
  -- each sort is in order by its places, and the three sorts differ in their kinds
  rw [children, (sortBy_perm _ _).nodup_iff, List.nodup_append, List.nodup_append]
  refine ⟨⟨?parameters, ?labels, ?_⟩, ?writes, ?_⟩
  case parameters => exact nodup_of_ordered (hoccurrences.filter _)
  case labels => exact nodup_of_ordered (hlabels.filter _)
  case writes =>
    have hkept := distinctBy_go_sublist Binding.qualified []
      ((Document.read file t).bindings.filter (·.owner == k))
    exact nodup_of_ordered (((bindings_ordered file t).filter _).sublist hkept)
  · intro a ha b hb heq
    rw [heq] at ha
    exact EntryKind.noConfusion ((kind_labels b hb).symm.trans (kind_parameters b ha))
  · intro a ha b hb heq
    rw [heq] at ha
    have hvar := kind_firstWrites b hb
    rcases List.mem_append.mp ha with ha | ha
    · exact EntryKind.noConfusion (hvar.symm.trans (kind_parameters b ha))
    · exact EntryKind.noConfusion (hvar.symm.trans (kind_labels b ha))

/-- Of the writes of a thread to one variable, the first is listed, and no other. -/
theorem filter_children_var (d : Document) (qualified : Text) :
    (children d k th).filter (fun c => c.kind == .var && c.name == qualified)
      = (d.bindings.find? fun b => b.owner == k && b.qualified == qualified).toList.map
          ofBinding := by
  have hother {cs : List OutlineLeaf} {kind : EntryKind} (hcs : ∀ c ∈ cs, c.kind = kind)
      (hkind : kind ≠ .var) : cs.filter (fun c => c.kind == .var && c.name == qualified) = [] := by
    refine List.filter_eq_nil_iff.mpr ?_
    intro c hc hvar
    rw [Bool.and_eq_true, beq_iff_eq, hcs c hc] at hvar
    exact hkind hvar.1
  have hwrites : (firstWrites d k).filter (fun c => c.kind == .var && c.name == qualified)
      = (d.bindings.find? fun b => b.owner == k && b.qualified == qualified).toList.map
          ofBinding := by
    have hnamed : (fun c : OutlineLeaf => c.kind == .var && c.name == qualified) ∘ ofBinding
        = fun b => b.qualified == qualified := rfl
    show ((distinctBy Binding.qualified (d.bindings.filter (·.owner == k))).map ofBinding).filter _
      = _
    rw [List.filter_map, hnamed, filter_distinctBy, List.find?_filter]
    simp only [Bool.decide_and, Bool.decide_eq_true]
  have horder := transCmp_on Position.order fun c : OutlineLeaf => c.span.start
  rw [children, filter_sortBy, List.filter_append, List.filter_append,
    hother kind_parameters (by decide), hother kind_labels (by decide), hwrites]
  cases d.bindings.find? fun b => b.owner == k && b.qualified == qualified with
  | none => rfl
  | some first => rfl

/-! ## The entries of a document -/

/-- An entry ends on a line above the later ones. -/
theorem entries_disjoint (file : Path) (t : Text) (width : Nat → Nat) :
    (entries (Document.read file t) width).Pairwise
      fun a b => a.span.stop.line < b.span.start.line := by
  rw [List.pairwise_iff_getElem]
  intro k k' hk hk' hlt
  have ha := getElem?_entries (Document.read file t) width k
  have hb := getElem?_entries (Document.read file t) width k'
  rw [List.getElem?_eq_getElem hk, eq_comm, Option.map_eq_some_iff] at ha
  rw [List.getElem?_eq_getElem hk', eq_comm, Option.map_eq_some_iff] at hb
  obtain ⟨th, hth, hentry⟩ := ha
  obtain ⟨th', hth', hentry'⟩ := hb
  rw [← hentry, ← hentry']
  exact lastLine_lt_line hth hth' hlt

/-- Entries on different lines list nothing in common. -/
theorem flatMap_children_nodup (file : Path) (t : Text) (width : Nat → Nat) :
    ((entries (Document.read file t) width).flatMap (·.children)).Nodup := by
  have hdisjoint := entries_disjoint file t width
  refine List.nodup_flatMap.mpr ⟨?_, hdisjoint.imp_of_mem ?_⟩
  · intro e he
    obtain ⟨k, th, -, rfl⟩ := mem_entries he
    exact children_nodup
  · -- what two entries list would stand on lines of both
    intro a b ha hb hlt c hca hcb
    obtain ⟨k, th, hth, rfl⟩ := mem_entries ha
    obtain ⟨k', th', hth', rfl⟩ := mem_entries hb
    obtain ⟨-, hlines, hlast⟩ := children_within hth hca
    obtain ⟨hfirst, -, -⟩ := children_within hth' hcb
    have hlt : lastLine (Document.read file t) k th < th'.line := hlt
    omega

/-- What an entry lists is listed once in the whole outline. -/
theorem count_children {width : Nat → Nat} {c : OutlineLeaf}
    (hth : (Document.read file t).threads[k]? = some th)
    (hc : c ∈ children (Document.read file t) k th) :
    ((entries (Document.read file t) width).flatMap (·.children)).count c = 1 := by
  have hentry := getElem?_entries (Document.read file t) width k
  rw [hth] at hentry
  refine List.count_eq_one_of_mem (flatMap_children_nodup file t width) ?_
  exact List.mem_flatMap.mpr ⟨_, List.mem_of_getElem? hentry, hc⟩

/-- What is listed as a label or a variable is one, of that thread. -/
theorem origin_of_mem_children {d : Document} {c : OutlineLeaf} (h : c ∈ children d k th) :
    (c.kind = .label → ∃ l ∈ d.labels, l.owner = k ∧ c = ofLabel l)
    ∧ (c.kind = .var → ∃ b ∈ d.bindings, b.owner = k ∧ c = ofBinding b) := by
  rcases mem_children.mp h with hparameter | hlabel | hwrite
  · have hkind := kind_parameters c hparameter
    exact ⟨fun hlabel => EntryKind.noConfusion (hkind.symm.trans hlabel),
      fun hvar => EntryKind.noConfusion (hkind.symm.trans hvar)⟩
  · exact ⟨fun _ => mem_labels_iff.mp hlabel,
      fun hvar => EntryKind.noConfusion ((kind_labels c hlabel).symm.trans hvar)⟩
  · exact ⟨fun hlabel => EntryKind.noConfusion ((kind_firstWrites c hwrite).symm.trans hlabel),
      fun _ => exists_binding_of_mem_firstWrites hwrite⟩

/-- A variable that a thread writes is listed once, at its first write. -/
theorem exists_first_write {d : Document} {b : Binding} (hb : b ∈ d.bindings) (th : Thread) :
    ∃ first, d.bindings.find? (fun b' => b'.owner == b.owner && b'.qualified == b.qualified)
        = some first
      ∧ (children d b.owner th).filter (fun c => c.kind == .var && c.name == b.qualified)
        = [ofBinding first] := by
  have hsome : (d.bindings.find? fun b' =>
      b'.owner == b.owner && b'.qualified == b.qualified).isSome = true := by
    rw [List.find?_isSome]
    exact ⟨b, hb, Bool.and_eq_true_iff.mpr ⟨beq_self_eq_true _, beq_self_eq_true _⟩⟩
  obtain ⟨first, hfind⟩ := Option.isSome_iff_exists.mp hsome
  refine ⟨first, hfind, ?_⟩
  rw [filter_children_var, hfind]
  rfl

/-- The entries of a text partition its document. -/
theorem partitions_entries (file : Path) (t : Text) (width : Nat → Nat) :
    Partitions (Document.read file t) (entries (Document.read file t) width) := by
  have hentry (k : Nat) (hk : k < (Document.read file t).threads.length) :
      ∃ th, (Document.read file t).threads[k]? = some th ∧
        (entries (Document.read file t) width)[k]?
          = some (entry (Document.read file t) width k th) := by
    have hth := List.getElem?_eq_getElem hk
    refine ⟨_, hth, ?_⟩
    rw [getElem?_entries, hth]
    rfl
  refine ⟨?threads, ?starts, ?nonempty, entries_disjoint file t width, ?label, ?var, ?origin,
    ?within, ?ordered⟩
  case threads =>
    refine List.ext_getElem? ?_
    intro k
    rw [List.getElem?_map, getElem?_entries, List.getElem?_map, Option.map_map]
    rfl
  case starts =>
    intro e he
    obtain ⟨k, th, -, rfl⟩ := mem_entries he
    rfl
  case nonempty =>
    intro e he
    obtain ⟨k, th, hth, rfl⟩ := mem_entries he
    exact line_le_lastLine_self hth
  case label =>
    intro l hl
    obtain ⟨i, m, hm, -, -, -, howner⟩ := mem_labels hl
    obtain ⟨th, hth, he⟩ := hentry l.owner (owner_lt_length file hm howner)
    have hlisted : ofLabel l ∈ children (Document.read file t) l.owner th :=
      mem_children.mpr (Or.inr (Or.inl (mem_labels_iff.mpr ⟨l, hl, rfl, rfl⟩)))
    exact ⟨⟨_, he, hlisted⟩, count_children hth hlisted⟩
  case var =>
    intro b hb
    obtain ⟨i, m, hm, hbinding⟩ := mem_filterMap_sites.mp hb
    obtain ⟨th, hth, he⟩ :=
      hentry b.owner (owner_lt_length file hm (Site.of_binding? hbinding).2.1)
    -- a variable is listed once, at its first write, so other writes are accounted for by that one
    obtain ⟨first, hfind, hfilter⟩ := exists_first_write hb th
    have hlisted : ofBinding first ∈ children (Document.read file t) b.owner th := by
      have hmem : ofBinding first ∈ [ofBinding first] := List.mem_singleton_self _
      rw [← hfilter] at hmem
      exact (List.mem_filter.mp hmem).1
    exact ⟨_, first, he, hfind, hfilter, count_children hth hlisted⟩
  case origin =>
    intro k e he c hc
    rw [getElem?_entries] at he
    obtain ⟨th, -, rfl⟩ := Option.map_eq_some_iff.mp he
    exact origin_of_mem_children hc
  case within =>
    intro e he c hc
    obtain ⟨k, th, hth, rfl⟩ := mem_entries he
    exact children_within hth hc
  case ordered =>
    intro e he
    obtain ⟨k, th, -, rfl⟩ := mem_entries he
    have horder := transCmp_on Position.order fun c : OutlineLeaf => c.span.start
    exact sortBy_pairwise _ _

end Text

end Outline

namespace Workspace

/-- A tracked document with threads has an outline. -/
theorem exists_outline {w : Workspace} {path : Path} {d : Document}
    (hd : w.document? path = some d) (hthreads : d.threads ≠ []) :
    ∃ width, w.outline path = some (Outline.entries d width) := by
  refine ⟨fun line => ((w.displayLine? path line).map List.length).getD 0, ?_⟩
  rw [outline, hd, Option.bind_some, if_neg (by simpa using hthreads)]
  rfl

/-- **THE OUTLINE PARTITIONS THE SCRIPT**: whatever a workspace has gone through, each tracked
    document with threads has an outline.  It has one entry for each thread in order, on lines of
    its own; each label and each variable of a thread is listed once, below that thread; and what is
    listed stands on the lines of its entry, by line and column. -/
theorem outline_partitions (settings : Settings) (root : Path) (disk : Disk) (ops : List Operation)
    {path : Path} {d : Document}
    (hd : ((empty settings root).run disk ops).document? path = some d)
    (hthreads : d.threads ≠ []) :
    ∃ entries, ((empty settings root).run disk ops).outline path = some entries
      ∧ Outline.Partitions d entries := by
  have hconsistent := (Consistent.empty disk settings root).run ops
  obtain ⟨file, t, rfl⟩ := hconsistent.exists_read_of_document? hd
  obtain ⟨width, houtline⟩ := exists_outline hd hthreads
  exact ⟨_, houtline, Outline.partitions_entries file t width⟩

/-- A thread without an `end`, up to the next header, and one that is closed; the first writes a
    variable twice, around a label, and the second writes it again. -/
theorem outline_partitions_two_threads :
    let a : Path := ⟨"/w/a.scr".toList⟩
    let t : Text := ("main local.x:\nlocal.y = 1\nlab:\nlocal.y = 2\n"
      ++ "run local.z:\nlocal.y = 3\nend\n").toList
    let w := (empty .default ⟨"/w".toList⟩).run .empty [.upsert a t]
    (w.document? a = some (.read a t) ∧ (Document.read a t).threads ≠ [])
      ∧ (w.outline a).map (·.map fun e =>
          (e.span.start.line, e.span.stop.line, e.children.map (·.name)))
        = some [(0, 3, ["local.x".toList, "local.y".toList, "lab".toList]),
          (4, 6, ["local.z".toList, "local.y".toList])]
      ∧ ∃ entries, w.outline a = some entries ∧ Outline.Partitions (.read a t) entries := by
  intro a t w
  obtain ⟨hd, hthreads, hlines⟩ : w.document? a = some (.read a t)
      ∧ (Document.read a t).threads ≠ []
      ∧ (w.outline a).map (·.map fun e =>
          (e.span.start.line, e.span.stop.line, e.children.map (·.name)))
        = some [(0, 3, ["local.x".toList, "local.y".toList, "lab".toList]),
          (4, 6, ["local.z".toList, "local.y".toList])] := by
    decide +kernel
  exact ⟨⟨hd, hthreads⟩, hlines, outline_partitions .default ⟨"/w".toList⟩ .empty [.upsert a t] hd
    hthreads⟩

end Workspace

end ScriptAtlas
