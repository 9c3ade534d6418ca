import Mathlib.Data.List.Pairwise
import ShaderNodes.Emit.Template

/-!
# Filling in templates

Placeholders are replaced one after the other, so a replacement goes over text that earlier ones
have put in. If nothing that is put in contains a `#`, and if in front of each further `#` of the
line stands a character that occurs in no placeholder, then what follows one `#` is dealt with apart
from what follows the others: it is filled in by the first placeholder of the table that fits.

* `Template.cut`: a line, cut in front of each `#`;
* `Template.replaceFrom_pieces`: what replacing one placeholder does;
* `Template.Table.apply_eq`: what replacing all of them does;
* `Template.Table.expand_eq`: the order does not matter if no placeholder starts like another.
-/

namespace ShaderNodes

namespace Template

/-! ## Cutting a line -/

/-- What stands in front of the first `#`, and what follows each of them up to the next. -/
def cut : List Char → List Char × List (List Char)
  | [] => ([], [])
  | c :: cs =>
    let rest := cut cs
    if c = '#' then ([], rest.1 :: rest.2) else (c :: rest.1, rest.2)

theorem cut_append (cs : List Char) :
    (cut cs).1 ++ (cut cs).2.flatMap (fun tail => '#' :: tail) = cs := by
  induction cs with
  | nil => rfl
  | cons c cs ih =>
    unfold cut
    split
    · next hc => simpa [hc] using ih
    · simpa using ih

theorem not_mem_cut (cs : List Char) :
    '#' ∉ (cut cs).1 ∧ ∀ tail ∈ (cut cs).2, '#' ∉ tail := by
  induction cs with
  | nil => simp [cut]
  | cons c cs ih =>
    unfold cut
    split
    · refine ⟨List.not_mem_nil, fun tail htail => ?_⟩
      rcases List.mem_cons.1 htail with rfl | htail
      · exact ih.1
      · exact ih.2 tail htail
    · next hc =>
      refine ⟨fun hmem => ?_, ih.2⟩
      rcases List.mem_cons.1 hmem with heq | hmem
      · exact hc heq.symm
      · exact ih.1 hmem

/-! ## One placeholder -/

section replaceFrom

variable {name new : List Char}

/-- Text without `#` is left alone. -/
theorem replaceFrom_append {text : List Char} (h : '#' ∉ text) (cs : List Char) :
    replaceFrom ('#' :: name) new 0 (text ++ cs) = text ++ replaceFrom ('#' :: name) new 0 cs := by
  induction text with
  | nil => rfl
  | cons c text ih =>
    obtain ⟨hc, htext⟩ := not_or.1 (mt List.mem_cons.2 h)
    rw [List.cons_append, replaceFrom, if_neg, ih htext, List.cons_append]
    simp [List.isPrefixOf, hc]

theorem replaceFrom_skip (old : List Char) (text cs : List Char) :
    replaceFrom old new text.length (text ++ cs) = replaceFrom old new 0 cs := by
  induction text with
  | nil => rfl
  | cons c text ih => exact ih

theorem replaceFrom_hit (cs : List Char) :
    replaceFrom ('#' :: name) new 0 ('#' :: (name ++ cs)) =
      new ++ replaceFrom ('#' :: name) new 0 cs := by
  have hstart : ('#' :: name).isPrefixOf ('#' :: (name ++ cs)) = true :=
    List.isPrefixOf_iff_prefix.2 ⟨cs, rfl⟩
  rw [replaceFrom, if_pos hstart]
  exact congrArg (new ++ ·) (replaceFrom_skip _ name cs)

theorem replaceFrom_miss {cs : List Char} (h : ¬ name <+: cs) :
    replaceFrom ('#' :: name) new 0 ('#' :: cs) = '#' :: replaceFrom ('#' :: name) new 0 cs := by
  rw [replaceFrom, if_neg]
  rw [List.isPrefixOf_iff_prefix, List.cons_prefix_cons]
  exact fun hstart => h hstart.2

end replaceFrom

/-- A stretch of a line on the way. -/
inductive Piece
  /-- A `#` and what follows it. -/
  | untouched (tail : List Char)
  /-- What a placeholder has been replaced by, and what follows it. -/
  | filled (text : List Char)

namespace Piece

def text : Piece → List Char
  | untouched tail => '#' :: tail
  | filled text => text

/-- Replaces one placeholder. -/
def replace (name new : List Char) : Piece → Piece
  | untouched tail =>
    if name <+: tail then filled (new ++ tail.drop name.length) else untouched tail
  | filled text => filled text

/-- The characters apart from the `#` that an untouched piece starts with. -/
def rest : Piece → List Char
  | untouched tail => tail
  | filled text => text

/-- An untouched piece ends with a character that is not in `name`, which therefore cannot reach into
the next piece. -/
def Closed (name : List Char) : Piece → Prop
  | untouched tail => ∃ c, tail.getLast? = some c ∧ c ∉ name
  | filled _ => True

end Piece

theorem mem_dropLast_cons {α : Type} {a : α} {l : List α} (h : l ≠ []) : a ∈ (a :: l).dropLast := by
  rw [List.dropLast_cons_of_ne_nil h]
  exact List.mem_cons_self

theorem mem_dropLast_cons_of_mem {α : Type} {a b : α} {l : List α} (h : b ∈ l.dropLast) :
    b ∈ (a :: l).dropLast := by
  have hne : l ≠ [] := List.ne_nil_of_mem ((List.dropLast_subset l) h)
  rw [List.dropLast_cons_of_ne_nil hne]
  exact List.mem_cons_of_mem _ h

theorem prefix_of_prefix_append {name tail cs : List Char}
    (hclosed : ∃ c, tail.getLast? = some c ∧ c ∉ name) (h : name <+: tail ++ cs) :
    name <+: tail := by
  obtain ⟨c, hlast, hc⟩ := hclosed
  rcases List.prefix_or_prefix_of_prefix h (List.prefix_append tail cs) with h | h
  · exact h
  · exact absurd (h.subset (List.mem_of_getLast? hlast)) hc

/-- Replacing a placeholder replaces it in each piece. -/
theorem replaceFrom_pieces {name : List Char} (new : List Char) {pieces : List Piece}
    (hrest : ∀ p ∈ pieces, '#' ∉ p.rest) (hclosed : ∀ p ∈ pieces.dropLast, p.Closed name) :
    replaceFrom ('#' :: name) new 0 (pieces.flatMap Piece.text) =
      (pieces.map (Piece.replace name new)).flatMap Piece.text := by
  induction pieces with
  | nil => rfl
  | cons p pieces ih =>
    have hp := hrest p List.mem_cons_self
    have ih := ih (fun q hq => hrest q (List.mem_cons_of_mem _ hq)) fun q hq =>
      hclosed q (mem_dropLast_cons_of_mem hq)
    rw [List.flatMap_cons, List.map_cons, List.flatMap_cons]
    cases p with
    | filled text => exact (replaceFrom_append hp _).trans (congrArg (text ++ ·) ih)
    | untouched tail =>
      by_cases hstart : name <+: tail
      · obtain ⟨more, rfl⟩ := hstart
        have hmore : '#' ∉ more := fun hmem => hp (List.mem_append_right _ hmem)
        simp only [Piece.text, Piece.replace, List.prefix_append, if_true, List.drop_left,
          List.cons_append, List.append_assoc]
        rw [replaceFrom_hit, replaceFrom_append hmore, ih]
      · -- It does not fit together with what follows either, since it cannot reach that far.
        have hmiss : ¬ name <+: tail ++ pieces.flatMap Piece.text := by
          by_cases hnil : pieces = []
          · simpa [hnil] using hstart
          · have hend : (Piece.untouched tail).Closed name := hclosed _ (mem_dropLast_cons hnil)
            exact fun h => hstart (prefix_of_prefix_append hend h)
        have htail : '#' ∉ tail := hp
        simp only [Piece.text, Piece.replace, if_neg hstart, List.cons_append]
        rw [replaceFrom_miss hmiss, replaceFrom_append htail, ih]

/-! ## A table of placeholders -/

namespace Table

/-- What follows the `#` of a placeholder. -/
def name (entry : String × String) : List Char := entry.1.toList.tail

/-- Each placeholder starts with a `#` and has no other one, and nothing that is put in has one. -/
structure Plain (table : Table) : Prop where
  key : ∀ entry ∈ table, entry.1.toList = '#' :: name entry ∧ '#' ∉ name entry
  value : ∀ entry ∈ table, '#' ∉ entry.2.toList

/-- What follows a `#` ends with a character that occurs in no placeholder, the last time apart. -/
def Closed (table : Table) (tails : List (List Char)) : Prop :=
  ∀ tail ∈ tails.dropLast, ∃ c, tail.getLast? = some c ∧ ∀ entry ∈ table, c ∉ name entry

/-- The piece that is made of a `#` and what follows it: the first placeholder that fits is
replaced. -/
def piece (table : Table) (tail : List Char) : Piece :=
  match table.find? fun entry => (name entry).isPrefixOf tail with
  | some entry => .filled (entry.2.toList ++ tail.drop (name entry).length)
  | none => .untouched tail

theorem replace_piece (table : Table) (entry : String × String) (tail : List Char) :
    (table.piece tail).replace (name entry) entry.2.toList =
      (table ++ [entry] : Table).piece tail := by
  unfold piece
  rw [List.find?_append]
  cases table.find? fun entry => (name entry).isPrefixOf tail with
  | some first => rfl
  | none =>
    by_cases h : name entry <+: tail
    · simp [Piece.replace, h]
    · simp [Piece.replace, h]

theorem not_mem_rest_piece {table : Table} (h : table.Plain) {tail : List Char}
    (htail : '#' ∉ tail) : '#' ∉ (table.piece tail).rest := by
  unfold piece
  split
  · next entry hentry =>
    have hvalue := h.value entry (List.mem_of_find?_eq_some hentry)
    exact List.not_mem_append hvalue fun hmem => htail (List.mem_of_mem_drop hmem)
  · exact htail

theorem closed_piece (table : Table) {name tail : List Char}
    (h : ∃ c, tail.getLast? = some c ∧ c ∉ name) : (table.piece tail).Closed name := by
  unfold piece
  split
  · trivial
  · exact h

/-- The text that is made of a `#` and what follows it. -/
def expand (table : Table) (tail : List Char) : List Char := (table.piece tail).text

theorem replaceFrom_expand {table : Table} (h : table.Plain) {entry : String × String}
    {tails : List (List Char)} (htails : ∀ tail ∈ tails, '#' ∉ tail)
    (hclosed : ∀ tail ∈ tails.dropLast, ∃ c, tail.getLast? = some c ∧ c ∉ name entry) :
    replaceFrom ('#' :: name entry) entry.2.toList 0 (tails.flatMap table.expand) =
      tails.flatMap (table ++ [entry] : Table).expand := by
  have hrest : ∀ p ∈ tails.map table.piece, '#' ∉ p.rest := by
    intro p hp
    obtain ⟨tail, htail, rfl⟩ := List.mem_map.1 hp
    exact not_mem_rest_piece h (htails tail htail)
  have hend : ∀ p ∈ (tails.map table.piece).dropLast, p.Closed (name entry) := by
    intro p hp
    rw [← List.map_dropLast] at hp
    obtain ⟨tail, htail, rfl⟩ := List.mem_map.1 hp
    exact closed_piece table (hclosed tail htail)
  have hpieces := replaceFrom_pieces entry.2.toList hrest hend
  rw [List.map_map, List.flatMap_map, List.flatMap_map] at hpieces
  unfold expand
  rw [hpieces]
  exact congrArg (tails.flatMap ·) (funext fun tail => congrArg Piece.text (replace_piece ..))

/-- After the entries of `done`, those of `table` are replaced as well. -/
theorem apply_expand (done : Table) {table : Table} (h : (done ++ table : Table).Plain)
    {lead : List Char} {tails : List (List Char)} (hlead : '#' ∉ lead)
    (htails : ∀ tail ∈ tails, '#' ∉ tail) (hclosed : (done ++ table : Table).Closed tails) :
    table.apply (String.ofList (lead ++ tails.flatMap done.expand)) =
      String.ofList (lead ++ tails.flatMap (done ++ table : Table).expand) := by
  induction table generalizing done with
  | nil => simp [apply]
  | cons entry table ih =>
    have hmem : entry ∈ (done ++ entry :: table : Table) := by simp
    have hdone : Plain done := ⟨fun e he => h.key e (List.mem_append_left _ he),
      fun e he => h.value e (List.mem_append_left _ he)⟩
    have hstep := replaceFrom_expand hdone htails fun tail htail => by
      obtain ⟨c, hlast, hc⟩ := hclosed tail htail
      exact ⟨c, hlast, hc entry hmem⟩
    have hreplace : replace entry.1 entry.2 (String.ofList (lead ++ tails.flatMap done.expand)) =
        String.ofList (lead ++ tails.flatMap (done ++ [entry] : Table).expand) := by
      unfold replace
      rw [(h.key entry hmem).1, String.toList_ofList, replaceFrom_append hlead, hstep]
    have hassoc : (done ++ entry :: table : Table) = done ++ [entry] ++ table := by simp
    rw [hassoc] at h hclosed ⊢
    exact (congrArg (apply table) hreplace).trans (ih (done ++ [entry]) h hclosed)

/-- What follows each `#` of a line is filled in on its own. -/
theorem apply_eq {table : Table} (h : table.Plain) (line : String)
    (hclosed : table.Closed (cut line.toList).2) :
    (table.apply line).toList =
      (cut line.toList).1 ++ (cut line.toList).2.flatMap table.expand := by
  obtain ⟨hlead, htails⟩ := not_mem_cut line.toList
  have happly := apply_expand [] h hlead htails hclosed
  have hline : String.ofList ((cut line.toList).1 ++ (cut line.toList).2.flatMap (expand [])) =
      line :=
    (congrArg String.ofList (cut_append line.toList)).trans String.ofList_toList
  rw [hline] at happly
  rw [happly, String.toList_ofList]
  rfl

theorem mem_longestFirst {table : Table} {entry : String × String} :
    entry ∈ table.longestFirst ↔ entry ∈ table :=
  (List.mergeSort_perm ..).mem_iff

/-- No placeholder starts like another one. -/
def Distinct (table : Table) : Prop :=
  ∀ a ∈ table, ∀ b ∈ table, name a <+: name b → a = b

theorem Distinct.of_pairwise {table : Table}
    (h : (table.map name).Pairwise fun a b => ¬ a <+: b ∧ ¬ b <+: a) : table.Distinct := by
  intro a ha b hb hstart
  by_contra hne
  have : Std.Symm fun a b : String × String =>
      ¬ name a <+: name b ∧ ¬ name b <+: name a := ⟨fun _ _ hab => hab.symm⟩
  exact ((List.pairwise_map.1 h).forall ha hb hne).1 hstart

/-- If no placeholder starts like another one, the one that fits is replaced. -/
theorem expand_eq {table : Table} (h : table.Distinct) {entry : String × String}
    (hentry : entry ∈ table) (rest : List Char) :
    table.expand (name entry ++ rest) = entry.2.toList ++ rest := by
  unfold expand piece
  cases hfind : table.find? fun e => (name e).isPrefixOf (name entry ++ rest) with
  | none =>
    have hmiss := List.find?_eq_none.1 hfind entry hentry
    simp at hmiss
  | some first =>
    have hfirst : name first <+: name entry ++ rest := by simpa using List.find?_some hfind
    have hmem := List.mem_of_find?_eq_some hfind
    obtain rfl : first = entry := by
      rcases List.prefix_or_prefix_of_prefix hfirst (List.prefix_append ..) with hp | hp
      · exact h first hmem entry hentry hp
      · exact (h entry hentry first hmem hp).symm
    simp [Piece.text]

end Table

end Template

end ShaderNodes
