import Mathlib
import ShaderNodes.Proofs.Scoping
import ShaderNodes.Proofs.Termination

/-!
# Filling in is a scan for the longest placeholder

Although placeholders are replaced one after the other, the outcome can be told in one go: read the
line from left to right, and wherever a `#` comes up, replace the longest placeholder that starts
there. What matters about the order of the replacements is only that no placeholder comes before one
that starts like it. Sorting by length gives such an order, and if no placeholder starts like
another one every order is such.

* `Template.Table.scan`: the scan;
* `Template.Table.LongerFirst`: the orders in question, such as `Template.Table.longestFirst`;
* `Template.Table.apply_eq_scan`: replacing in such an order is the scan;
* `Fragment.Builds`: the tables of nodes;
* `fill_replaces_longest`: the theorem.
-/

namespace ShaderNodes

namespace Template

namespace Table

/-! ## The scan -/

/-- The longest placeholder that a text starts with. -/
def longest? (table : Table) (text : List Char) : Option (String × String) :=
  (table.filter fun entry => entry.1.toList.isPrefixOf text).argmax fun entry => entry.1.length

/-- Reads a text from left to right and replaces the longest placeholder at each `#`. The next
`skip` characters belong to a placeholder that has been replaced. -/
def scanFrom (table : Table) : Nat → List Char → List Char
  | _, [] => []
  | skip + 1, _ :: cs => scanFrom table skip cs
  | 0, c :: cs =>
    if c = '#' then
      match table.longest? (c :: cs) with
      | some entry => entry.2.toList ++ scanFrom table (entry.1.length - 1) cs
      | none => c :: scanFrom table 0 cs
    else c :: scanFrom table 0 cs

/-- Replaces the longest placeholder at each `#` of a line. -/
def scan (table : Table) (line : String) : String := String.ofList (table.scanFrom 0 line.toList)

/-- In front of each further `#` of the line stands a character that occurs in no placeholder. -/
def Separated (table : Table) (line : String) : Prop :=
  line.toList.IsChain fun c d => d = '#' → ∀ entry ∈ table, c ∉ entry.1.toList

instance (table : Table) (line : String) : Decidable (table.Separated line) :=
  inferInstanceAs (Decidable (List.IsChain _ _))

/-! ## The longest placeholder -/

theorem longest?_congr {table : Table} {text text' : List Char}
    (h : ∀ entry ∈ table, entry.1.toList <+: text ↔ entry.1.toList <+: text') :
    table.longest? text = table.longest? text' := by
  unfold longest?
  rw [List.filter_congr]
  intro entry hentry
  rw [Bool.eq_iff_iff, List.isPrefixOf_iff_prefix, List.isPrefixOf_iff_prefix]
  exact h entry hentry

theorem longest?_eq_none_iff {table : Table} {text : List Char} :
    table.longest? text = none ↔ ∀ entry ∈ table, ¬ entry.1.toList <+: text := by
  unfold longest?
  rw [List.argmax_eq_none, List.filter_eq_nil_iff]
  simp only [List.isPrefixOf_iff_prefix]

/-- Placeholders of the same length at the start of a text are the same. -/
theorem eq_of_starts {table : Table} (hdistinct : (table.map Prod.fst).Nodup) {text : List Char}
    {a b : String × String} (ha : a ∈ table) (hb : b ∈ table) (hatext : a.1.toList <+: text)
    (hbtext : b.1.toList <+: text) (hlength : a.1.length = b.1.length) : a = b := by
  have hsame : a.1.toList.length = b.1.toList.length := by
    rw [String.length_toList, String.length_toList, hlength]
  have hstart := List.prefix_of_prefix_length_le hatext hbtext hsame.le
  have hkey : a.1 = b.1 := String.toList_inj.1 (hstart.eq_of_length hsame)
  exact List.inj_on_of_nodup_map hdistinct ha hb hkey

theorem longest?_eq_some {table : Table} (hdistinct : (table.map Prod.fst).Nodup)
    {text : List Char} {entry : String × String} (hentry : entry ∈ table)
    (htext : entry.1.toList <+: text)
    (hmax : ∀ other ∈ table, other.1.toList <+: text → other.1.length ≤ entry.1.length) :
    table.longest? text = some entry := by
  have hmem : entry ∈ table.filter fun entry => entry.1.toList.isPrefixOf text :=
    List.mem_filter.2 ⟨hentry, List.isPrefixOf_iff_prefix.2 htext⟩
  cases hfound : table.longest? text with
  | none => exact absurd htext (longest?_eq_none_iff.1 hfound entry hentry)
  | some found =>
    obtain ⟨hfoundmem, hfoundtext⟩ := List.mem_filter.1 (List.argmax_mem hfound)
    rw [List.isPrefixOf_iff_prefix] at hfoundtext
    have hle :=
      List.le_of_mem_argmax (f := fun entry : String × String => entry.1.length) hmem hfound
    have hge := hmax found hfoundmem hfoundtext
    rw [eq_of_starts hdistinct hfoundmem hentry hfoundtext htext (by omega)]

/-! ## Orders in which the longest placeholder comes first -/

/-- No placeholder stands in front of one that starts like it. -/
def LongerFirst (table : Table) : Prop := table.Pairwise fun a b => ¬ a.1.toList <+: b.1.toList

theorem utf8ByteSize_lt_of_starts {s t : String} (h : s.toList <+: t.toList) (hne : s ≠ t) :
    s.utf8ByteSize < t.utf8ByteSize := by
  obtain ⟨rest, hrest⟩ := h
  have ht : t = s ++ String.ofList rest := by
    rw [← String.toList_inj, String.toList_append, String.toList_ofList, hrest]
  have hrestne : String.ofList rest ≠ "" := by
    rintro hnil
    rw [hnil, String.append_empty] at ht
    exact hne ht.symm
  rw [ht, String.utf8ByteSize_append]
  have hpos : (String.ofList rest).utf8ByteSize ≠ 0 := by
    rwa [ne_eq, String.utf8ByteSize_eq_zero_iff]
  omega

theorem longerFirst_longestFirst {table : Table} (hdistinct : (table.map Prod.fst).Nodup) :
    table.longestFirst.LongerFirst := by
  have hsorted : table.longestFirst.Pairwise fun a b =>
      decide (b.1.utf8ByteSize ≤ a.1.utf8ByteSize) = true := by
    refine List.pairwise_mergeSort (fun a b c hab hbc => ?_) (fun a b => ?_) table
    · simp only [decide_eq_true_eq] at *
      omega
    · simp only [Bool.or_eq_true, decide_eq_true_eq]
      omega
  have hkeys : (table.longestFirst.map Prod.fst).Nodup :=
    ((List.mergeSort_perm ..).map Prod.fst).nodup_iff.2 hdistinct
  rw [List.Nodup, List.pairwise_map] at hkeys
  refine (hsorted.and hkeys).imp ?_
  rintro a b ⟨hle, hne⟩ hstart
  rw [decide_eq_true_eq] at hle
  have hlt := utf8ByteSize_lt_of_starts hstart hne
  omega

theorem longerFirst_of_prefixFree {table : Table} (hdistinct : (table.map Prod.fst).Nodup)
    (hfree : ∀ a ∈ table, ∀ b ∈ table, a.1.toList <+: b.1.toList → a = b) :
    table.LongerFirst := by
  rw [List.Nodup, List.pairwise_map] at hdistinct
  refine hdistinct.imp_of_mem ?_
  intro a b ha hb hne hstart
  exact hne (congrArg Prod.fst (hfree a ha b hb hstart))

theorem Plain.perm {table order : Table} (h : table.Plain) (hperm : order.Perm table) :
    order.Plain where
  key entry hentry := h.key entry (hperm.mem_iff.1 hentry)
  value entry hentry := h.value entry (hperm.mem_iff.1 hentry)

theorem Plain.prefix_iff {table : Table} (h : table.Plain) {entry : String × String}
    (hentry : entry ∈ table) {tail : List Char} :
    entry.1.toList <+: '#' :: tail ↔ name entry <+: tail := by
  rw [(h.key entry hentry).1, List.cons_prefix_cons]
  exact and_iff_right rfl

/-- In such an order the first placeholder that fits is the longest one. -/
theorem find?_eq_longest? {table order : Table} (hplain : table.Plain)
    (hdistinct : (table.map Prod.fst).Nodup) (hperm : order.Perm table)
    (horder : order.LongerFirst) (tail : List Char) :
    (order.find? fun entry => (name entry).isPrefixOf tail) = table.longest? ('#' :: tail) := by
  cases hfind : order.find? fun entry => (name entry).isPrefixOf tail with
  | none =>
    refine (longest?_eq_none_iff.2 fun entry hentry => ?_).symm
    have hmiss := List.find?_eq_none.1 hfind entry (hperm.mem_iff.2 hentry)
    rwa [List.isPrefixOf_iff_prefix, ← hplain.prefix_iff hentry] at hmiss
  | some first =>
    obtain ⟨hfits, front, back, hsplit, hfront⟩ := List.find?_eq_some_iff_append.1 hfind
    have hfirst : first ∈ table := hperm.mem_iff.1 (hsplit ▸ by simp)
    have htext := (hplain.prefix_iff hfirst).2 (List.isPrefixOf_iff_prefix.1 hfits)
    refine (longest?_eq_some hdistinct hfirst htext fun other hother hfit => ?_).symm
    have hmem : other ∈ front ++ first :: back := hsplit ▸ hperm.mem_iff.2 hother
    rcases List.mem_append.1 hmem with hbefore | hafter
    · have hmiss := hfront other hbefore
      rw [hplain.prefix_iff hother, ← List.isPrefixOf_iff_prefix] at hfit
      simp [hfit] at hmiss
    · rcases List.mem_cons.1 hafter with rfl | hback
      · exact le_rfl
      · -- It comes later, so the first one is not a part of it.
        rw [LongerFirst, hsplit, List.pairwise_append, List.pairwise_cons] at horder
        have hnot := horder.2.1.1 other hback
        rcases List.prefix_or_prefix_of_prefix htext hfit with hstart | hstart
        · exact absurd hstart hnot
        · rw [← String.length_toList, ← String.length_toList]
          exact hstart.length_le

/-! ## Scanning a line piece by piece -/

theorem scanFrom_append (table : Table) {text : List Char} (h : '#' ∉ text) (cs : List Char) :
    table.scanFrom 0 (text ++ cs) = text ++ table.scanFrom 0 cs := by
  induction text with
  | nil => rfl
  | cons c text ih =>
    obtain ⟨hc, htext⟩ := not_or.1 (mt List.mem_cons.2 h)
    rw [List.cons_append, scanFrom, if_neg (Ne.symm hc), ih htext, List.cons_append]

theorem scanFrom_skip (table : Table) (text cs : List Char) :
    table.scanFrom text.length (text ++ cs) = table.scanFrom 0 cs := by
  induction text with
  | nil => rfl
  | cons c text ih => exact ih

section pieces

variable {table order : Table} (hplain : table.Plain) (hdistinct : (table.map Prod.fst).Nodup)
  (hperm : order.Perm table) (horder : order.LongerFirst)

include hplain hdistinct hperm horder

/-- A `#` with what follows it, if no placeholder reaches further. -/
theorem scanFrom_piece {tail cs : List Char} (htail : '#' ∉ tail)
    (hreach : ∀ entry ∈ table, name entry <+: tail ++ cs → name entry <+: tail) :
    table.scanFrom 0 ('#' :: (tail ++ cs)) = order.expand tail ++ table.scanFrom 0 cs := by
  have hlongest : table.longest? ('#' :: (tail ++ cs)) = table.longest? ('#' :: tail) := by
    refine longest?_congr fun entry hentry => ?_
    rw [hplain.prefix_iff hentry, hplain.prefix_iff hentry]
    exact ⟨hreach entry hentry, fun h => h.trans (List.prefix_append _ _)⟩
  rw [scanFrom, if_pos rfl, hlongest, ← find?_eq_longest? hplain hdistinct hperm horder]
  unfold expand piece
  cases hfind : order.find? fun entry => (name entry).isPrefixOf tail with
  | none => exact congrArg ('#' :: ·) (scanFrom_append table htail cs)
  | some entry =>
    have hentry : entry ∈ table := hperm.mem_iff.1 (List.mem_of_find?_eq_some hfind)
    obtain ⟨more, rfl⟩ : name entry <+: tail := by simpa using List.find?_some hfind
    have hlength : entry.1.length - 1 = (name entry).length := by
      rw [← String.length_toList, (hplain.key entry hentry).1]
      rfl
    have hmore : '#' ∉ more := fun hmem => htail (List.mem_append_right _ hmem)
    simp only [Piece.text, List.drop_left, List.append_assoc]
    rw [hlength, scanFrom_skip, scanFrom_append table hmore]

theorem scanFrom_pieces {tails : List (List Char)} (htails : ∀ tail ∈ tails, '#' ∉ tail)
    (hclosed : table.Closed tails) :
    table.scanFrom 0 (tails.flatMap fun tail => '#' :: tail) = tails.flatMap order.expand := by
  induction tails with
  | nil => rfl
  | cons tail tails ih =>
    have hrest := ih (fun t ht => htails t (List.mem_cons_of_mem _ ht)) fun t ht =>
      hclosed t (mem_dropLast_cons_of_mem ht)
    rw [List.flatMap_cons, List.flatMap_cons, List.cons_append, ← hrest]
    refine scanFrom_piece hplain hdistinct hperm horder (htails tail List.mem_cons_self) ?_
    intro entry hentry hstart
    by_cases hnil : tails = []
    · simpa [hnil] using hstart
    · obtain ⟨c, hlast, hc⟩ := hclosed tail (mem_dropLast_cons hnil)
      exact prefix_of_prefix_append ⟨c, hlast, hc entry hentry⟩ hstart

end pieces

/-- Unless there are no placeholders, the pieces of a separated line are closed: a `#` cannot follow
another one at once, since it occurs in placeholders. -/
theorem Separated.closed {table : Table} {line : String} (h : table.Separated line)
    (hplain : table.Plain) (hne : table ≠ []) : table.Closed (cut line.toList).2 := by
  intro tail htail
  obtain ⟨entry, hentry⟩ := List.exists_mem_of_ne_nil table hne
  obtain ⟨front, back, hsplit⟩ := List.append_of_mem htail
  have htails : (cut line.toList).2 ≠ [] := List.ne_nil_of_mem (List.dropLast_subset _ htail)
  obtain ⟨next, more, hnext⟩ : ∃ next more, back ++ [(cut line.toList).2.getLast htails] =
      next :: more := List.exists_cons_of_ne_nil (by simp)
  obtain ⟨init, c, hlast⟩ : ∃ init c, '#' :: tail = init ++ [c] :=
    ⟨_, _, (List.dropLast_append_getLast (List.cons_ne_nil '#' tail)).symm⟩
  have hline : line.toList = ((cut line.toList).1 ++ front.flatMap (fun t => '#' :: t) ++ init) ++
      c :: '#' :: (next ++ more.flatMap fun t => '#' :: t) := by
    conv_lhs => rw [← cut_append line.toList, ← List.dropLast_append_getLast htails, hsplit,
      List.append_assoc, List.cons_append, hnext]
    simp only [List.flatMap_append, List.flatMap_cons, hlast]
    simp
  rw [Separated, hline, List.isChain_append_cons_cons] at h
  have hfree := h.2.1 rfl
  have hhash : c ≠ '#' := by
    rintro rfl
    exact hfree entry hentry ((hplain.key entry hentry).1 ▸ List.mem_cons_self)
  have htailne : tail ≠ [] := by
    rintro rfl
    have hlast := congrArg List.getLast? hlast
    rw [List.getLast?_concat] at hlast
    exact hhash (Option.some.inj hlast).symm
  refine ⟨c, ?_, fun other hother hmem => hfree other hother ?_⟩
  · rw [← List.getLast?_cons_of_ne_nil htailne, hlast, List.getLast?_concat]
  · rw [(hplain.key other hother).1]
    exact List.mem_cons_of_mem _ hmem

theorem scan_nil (line : String) : scan [] line = line := by
  have hsame (cs : List Char) : scanFrom [] 0 cs = cs := by
    induction cs with
    | nil => rfl
    | cons c cs ih =>
      rw [scanFrom, ih]
      exact ite_self _
  rw [scan, hsame, String.ofList_toList]

/-- Replacing placeholders one after the other, longer ones first, is the scan. -/
theorem apply_eq_scan {table order : Table} (hplain : table.Plain)
    (hdistinct : (table.map Prod.fst).Nodup) (hperm : order.Perm table)
    (horder : order.LongerFirst) {line : String} (hline : table.Separated line) :
    order.apply line = table.scan line := by
  by_cases hne : table = []
  · subst hne
    rw [hperm.eq_nil, scan_nil]
    rfl
  · have hclosed := hline.closed hplain hne
    have hclosed' : order.Closed (cut line.toList).2 := fun tail htail => by
      obtain ⟨c, hlast, hc⟩ := hclosed tail htail
      exact ⟨c, hlast, fun entry hentry => hc entry (hperm.mem_iff.1 hentry)⟩
    obtain ⟨hlead, htails⟩ := not_mem_cut line.toList
    have hscan : table.scanFrom 0 line.toList =
        (cut line.toList).1 ++ (cut line.toList).2.flatMap order.expand := by
      conv_lhs => rw [← cut_append line.toList]
      rw [scanFrom_append table hlead, scanFrom_pieces hplain hdistinct hperm horder htails hclosed]
    rw [← String.toList_inj, apply_eq (hplain.perm hperm) line hclosed', scan,
      String.toList_ofList, hscan]

end Table

end Template

/-! ## The tables of nodes -/

namespace Fragment

/-- The table that is made for a node once its inputs are resolved and its parameters are bound. -/
def Builds (node : Node) (type : NodeType) (joints : List Joint) (lookup : NodeId → Option Outcome)
    (table : Template.Table) : Prop :=
  ∃ inputs params,
    type.inputs.entries.map (resolveInput node.id joints lookup) = inputs.map .ok ∧
    type.params.entries.map (resolveParam node) = params.map .ok ∧
    table = Fragment.table node.id inputs params

/-- Every fragment that the lookup shows has been compiled. -/
def ShowsCompiled (lookup : NodeId → Option Outcome) : Prop :=
  ∀ id f, lookup id = some (.ok f) → ∃ node type joints dependencies lookup',
    compile node type joints dependencies lookup' = .ok f

theorem exists_builds_of_compile {node : Node} {type : NodeType} {joints : List Joint}
    {dependencies : List NodeId} {lookup : NodeId → Option Outcome} {f : Fragment}
    (h : compile node type joints dependencies lookup = .ok f) :
    ∃ overload ∈ type.code, ∃ table, Builds node type joints lookup table ∧
      f.code = Template.fill table overload.code := by
  obtain ⟨inputs, overload, result, params, hinputs, hoverload, hparams, rfl⟩ :=
    compile_eq_ok_iff.1 h
  exact ⟨overload, (NodeType.mem_code_of_overload? hoverload).1, _,
    ⟨inputs, params, hinputs, hparams, rfl⟩, rfl⟩

namespace Builds

variable {node : Node} {type : NodeType} {joints : List Joint} {lookup : NodeId → Option Outcome}
  {table : Template.Table}

/-- Inputs and parameters keep their names behind different words, none of which is that of the
node. -/
theorem nodup_placeholders (h : Builds node type joints lookup table) :
    (table.map Prod.fst).Nodup := by
  obtain ⟨inputs, params, hinputs, hparams, rfl⟩ := h
  have hinput : inputs.map (fun i => i.1) = type.inputs.entries.map inputPlaceholder :=
    map_eq_of_map_eq_ok hinputs fun input r hr => by
      obtain ⟨_, _, -, -, -, hkey⟩ := resolveInput_eq_ok_iff.1 hr
      exact hkey
  have hparam : params.map (fun p => p.1) =
      type.params.entries.map fun param => paramPlaceholder param.name :=
    map_eq_of_map_eq_ok hparams fun param r hr => by
      obtain ⟨v, rfl⟩ := exists_of_resolveParam hr
      rfl
  have hkeys : (Fragment.table node.id inputs params).map Prod.fst =
      type.inputs.entries.map inputPlaceholder ++
        (type.params.entries.map Param.name).map paramPlaceholder ++ [nodePlaceholder] := by
    rw [List.map_map]
    simp only [Fragment.table, List.map_append, List.map_map, List.map_cons, List.map_nil]
    exact congrArg₂ _ (congrArg₂ _ hinput hparam) rfl
  have hinputs : (type.inputs.entries.map inputPlaceholder).Nodup :=
    List.Nodup.map (fun _ _ h => (String.append_right_inj _).1 h)
      (List.map_id type.inputs.entries ▸ type.inputs.nodup_keys)
  have hparams : ((type.params.entries.map Param.name).map paramPlaceholder).Nodup :=
    List.Nodup.map (fun _ _ h => (String.append_right_inj _).1 h) type.params.nodup_keys
  -- Placeholders of different kinds differ in the character behind the `#`.
  have hinputKind : ∀ key ∈ type.inputs.entries.map inputPlaceholder,
      key.toList[1]? = some 'i' := by
    simp [inputPlaceholder]
  have hparamKind : ∀ key ∈ (type.params.entries.map Param.name).map paramPlaceholder,
      key.toList[1]? = some 'p' := by
    simp [paramPlaceholder]
  have hnodeKind : nodePlaceholder.toList[1]? = some 'n' := by decide
  rw [hkeys]
  refine List.Nodup.append (hinputs.append hparams ?_) (List.nodup_singleton _) ?_
  · intro key hinput hparam
    have hkind := hinputKind key hinput
    rw [hparamKind key hparam] at hkind
    exact absurd hkind (by decide)
  · intro key hkey hnode
    obtain rfl := List.mem_singleton.1 hnode
    rcases List.mem_append.1 hkey with hinput | hparam
    · rw [hinputKind _ hinput] at hnodeKind
      exact absurd hnodeKind (by decide)
    · rw [hparamKind _ hparam] at hnodeKind
      exact absurd hnodeKind (by decide)

theorem hash_not_mem_value (h : Builds node type joints lookup table)
    (hlookup : ShowsCompiled lookup) : ∀ entry ∈ table, '#' ∉ entry.2.toList := by
  obtain ⟨inputs, params, hinputs, hparams, rfl⟩ := h
  intro entry hentry
  unfold Fragment.table at hentry
  rw [List.mem_append, List.mem_append, List.mem_singleton] at hentry
  rcases hentry with (hentry | hentry) | rfl
  · obtain ⟨i, hi, rfl⟩ := List.mem_map.1 hentry
    obtain ⟨input, -, hr⟩ := List.mem_map.1 (hinputs ▸ List.mem_map_of_mem hi)
    obtain ⟨j, source, -, hsource, hv, -⟩ := resolveInput_eq_ok_iff.1 hr
    obtain ⟨_, _, _, _, _, hcompile⟩ := hlookup _ source hsource
    obtain ⟨_, _, _, _, -, -, -, rfl⟩ := compile_eq_ok_iff.1 hcompile
    exact hash_not_mem_output hv
  · obtain ⟨param, -, hr⟩ := List.mem_map.1 (hparams ▸ List.mem_map_of_mem hentry)
    obtain ⟨v, rfl⟩ := exists_of_resolveParam hr
    exact v.inert_code.hash
  · intro hmem
    exact absurd (NodeId.isAlphanum_of_mem_stem hmem) (by decide)

end Builds

end Fragment

theorem Stage.showsCompiled (types : Catalogue) (g : Graph) (k : Nat) :
    Fragment.ShowsCompiled (stageAt types g k).walk.outcome? := by
  intro id f hf
  have hsome : ((stageAt types g k).walk.outcome? id).isSome := by
    rw [hf]
    rfl
  have hshown := value?_walk hsome
  rw [hf] at hshown
  obtain ⟨o, ho, hvalue⟩ := Option.map_eq_some_iff.1 hshown.symm
  rw [Checked.value?_eq_some_iff.1 hvalue] at ho
  obtain ⟨-, node, type, -, hcompile⟩ := Walk.of_outcome?_ok ho
  exact ⟨node, type, _, _, _, hcompile⟩

/-- **Filling in is a scan for the longest placeholder.** Let the placeholders of a table be
distinct, each a `#` and text without one, and let nothing that is put in contain a `#`. If in front
of each further `#` of a line stands a character that occurs in no placeholder, then filling in the
line gives what the scan gives, however the table is ordered. If no placeholder starts like another
one, even replacing them one after the other in any order gives the same.

The code of a node is filled in from a table for its inputs and parameters. As long as the nodes in
front of it have been compiled, which holds throughout a walk, the placeholders of this table are
distinct and nothing that is put in contains a `#`. -/
theorem fill_replaces_longest :
    (∀ (table : Template.Table) (lines : List String), (table.map Prod.fst).Nodup → table.Plain →
      (∀ line ∈ lines, table.Separated line) →
      (∀ order : Template.Table, order.Perm table →
        Template.fill order lines = lines.map table.scan) ∧
      ((∀ a ∈ table, ∀ b ∈ table, a.1.toList <+: b.1.toList → a = b) →
        ∀ order : Template.Table, order.Perm table →
          lines.map order.apply = lines.map table.scan)) ∧
    (∀ node type joints dependencies lookup f,
      Fragment.compile node type joints dependencies lookup = .ok f →
        ∃ overload ∈ type.code, ∃ table, Fragment.Builds node type joints lookup table ∧
          f.code = Template.fill table overload.code) ∧
    (∀ types g k, Fragment.ShowsCompiled (stageAt types g k).walk.outcome?) ∧
    ∀ node type joints lookup table, Fragment.ShowsCompiled lookup →
      Fragment.Builds node type joints lookup table →
        (table.map Prod.fst).Nodup ∧ ∀ entry ∈ table, '#' ∉ entry.2.toList := by
  refine ⟨fun table lines hdistinct hplain hlines => ?_, ?_, Stage.showsCompiled, ?_⟩
  · have hkeys {order : Template.Table} (hperm : order.Perm table) : (order.map Prod.fst).Nodup :=
      (hperm.map Prod.fst).nodup_iff.2 hdistinct
    constructor
    · intro order hperm
      refine List.map_congr_left fun line hline => ?_
      have hsorted := Template.Table.longerFirst_longestFirst (hkeys hperm)
      exact Template.Table.apply_eq_scan hplain hdistinct ((List.mergeSort_perm ..).trans hperm)
        hsorted (hlines line hline)
    · intro hfree order hperm
      refine List.map_congr_left fun line hline => ?_
      have horder : order.LongerFirst :=
        Template.Table.longerFirst_of_prefixFree (hkeys hperm) fun a ha b hb =>
          hfree a (hperm.mem_iff.1 ha) b (hperm.mem_iff.1 hb)
      exact Template.Table.apply_eq_scan hplain hdistinct hperm horder (hlines line hline)
  · intro node type joints dependencies lookup f h
    exact Fragment.exists_builds_of_compile h
  · intro node type joints lookup table hlookup h
    exact ⟨h.nodup_placeholders, h.hash_not_mem_value hlookup⟩

namespace Sample

/-- A table in which one placeholder starts like another one. -/
def overlapping : Template.Table :=
  [("#inputA", "node1_result"), ("#inputAB", "node2_result.r"), ("#node", "node3")]

/-- A node that reads another one. -/
def pair : Graph := ⟨.ofList [node 1 "One", node 2 "Negate"], .ofList [joint 1 2 "X"]⟩

end Sample

theorem fill_replaces_longest_overlapping :
    (∀ order : Template.Table, order.Perm Sample.overlapping →
      Template.fill order ["#node = #inputAB - #inputA # #inputC;"] =
        ["node3 = node2_result.r - node1_result # #inputC;"]) ∧
    (∀ order : Template.Table, order.Perm Sample.overlapping.tail →
      ["#node = #inputAB - #inputA # #inputC;"].map order.apply =
        ["node3 = node2_result.r - #inputA # #inputC;"]) ∧
    ∃ table : Template.Table, table.length = 2 ∧ (table.map Prod.fst).Nodup ∧
      (∀ entry ∈ table, '#' ∉ entry.2.toList) ∧
      Fragment.Builds (Sample.node 2 "Negate")
        (((NodeType.new ⟨"Test", "Negate"⟩).withInput "X").withOverload
          ⟨[.scalar, .scalar], ["float #node_result = -#inputX;"]⟩)
        (Sample.pair.jointsInto ⟨2⟩) (stageAt Sample.types Sample.pair 4).walk.outcome? table := by
  obtain ⟨hscan, -, hshows, hbuilds⟩ := fill_replaces_longest
  refine ⟨fun order hperm => ?_, fun order hperm => ?_, ?_⟩
  · obtain ⟨hfill, -⟩ := hscan Sample.overlapping ["#node = #inputAB - #inputA # #inputC;"]
      (by decide +kernel) ⟨by decide +kernel, by decide +kernel⟩ (by decide +kernel)
    rw [hfill order hperm]
    decide +kernel
  · obtain ⟨-, happly⟩ := hscan Sample.overlapping.tail ["#node = #inputAB - #inputA # #inputC;"]
      (by decide +kernel) ⟨by decide +kernel, by decide +kernel⟩ (by decide +kernel)
    rw [happly (by decide +kernel) order hperm]
    decide +kernel
  · have htable : Fragment.Builds (Sample.node 2 "Negate")
        (((NodeType.new ⟨"Test", "Negate"⟩).withInput "X").withOverload
          ⟨[.scalar, .scalar], ["float #node_result = -#inputX;"]⟩)
        (Sample.pair.jointsInto ⟨2⟩) (stageAt Sample.types Sample.pair 4).walk.outcome?
        [("#inputX", "node1_result"), ("#node", "node2")] :=
      ⟨[("#inputX", ⟨"node1_result", .scalar⟩)], [], by decide_cbv, by decide_cbv, by decide_cbv⟩
    obtain ⟨hdistinct, hvalues⟩ := hbuilds _ _ _ _ _ (hshows _ _ _) htable
    exact ⟨_, rfl, hdistinct, hvalues, htable⟩

end ShaderNodes
