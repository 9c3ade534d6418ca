import Mathlib
import ShaderNodes.Catalogue.Bundled
import ShaderNodes.Proofs.Names
import ShaderNodes.Proofs.Substitution

/-!
# Well-written code

Code of a node type is well written if it is a single line that declares the result of the node,
with the name of its type in front, and computes it from inputs and parameters. When it is filled
in, the values that are put in can be found again in the text: they are set apart by what stands
between them, and nothing else looks like a variable. All code of the bundled catalogue is of this
form.

* `Woven`: text that is made of filler and of values which have been put in;
* `NodeType.WellWritten`: what is asked of the code of a type;
* `Catalogue.wellWritten_bundled`: the bundled types are well written;
* `Fills.apply_eq`: what well-written code is filled in to.
-/

namespace ShaderNodes

open Catalogue.Bundled

/-! ## Text with values put in -/

/-- Whether a character can stand between values: it belongs to no variable and opens no channel. -/
def isFiller (c : Char) : Bool := c ≠ '_' && c ≠ '.' && c ≠ '#'

/-- The text ends with a character that cannot stand in a name. -/
def Ends (text : List Char) : Prop := ∃ c, text.getLast? = some c ∧ isWordChar c = false

/-- Filler, or filler with a value behind it and so on. Filler in front of a value sets it apart. -/
inductive Woven (Operand : List Char → Prop) : List Char → Prop
  | filler {text : List Char} (h : text.all isFiller = true) : Woven Operand text
  | operand {text value rest : List Char} (htext : text.all isFiller = true) (hends : Ends text)
    (hvalue : Operand value) (hrest : Woven Operand rest) :
    Woven Operand (text ++ (value ++ rest))

theorem Ends.append {text : List Char} (h : Ends text) (front : List Char) :
    Ends (front ++ text) := by
  obtain ⟨c, hlast, hc⟩ := h
  exact ⟨c, by rw [List.getLast?_append, hlast]; rfl, hc⟩

/-- What is not filler belongs to a value, which is set apart from what stands in front of it. -/
theorem Woven.exists_operand {Operand : List Char → Prop} {text : List Char}
    (h : Woven Operand text) {before after : List Char} {c : Char} (hc : isFiller c = false)
    (hsplit : text = before ++ c :: after) :
    ∃ front value back u w, Operand value ∧ value = u ++ c :: w ∧ before = front ++ u ∧
      after = w ++ back ∧ Ends front := by
  have hfiller {t : List Char} (ht : t.all isFiller = true) {u w : List Char}
      (heq : t = u ++ c :: w) : False := by
    have hmem : c ∈ t := heq ▸ List.mem_append_right _ List.mem_cons_self
    rw [List.all_eq_true.1 ht c hmem] at hc
    cases hc
  -- The character stands in the filler at the start, in the value behind it, or further on.
  induction h generalizing before with
  | filler ht => exact (hfiller ht hsplit).elim
  | @operand t value rest ht hends hvalue hrest ih =>
    rcases append_eq_append_cons hsplit with ⟨_, heq, -⟩ | ⟨front, hbehind, rfl⟩
    · exact (hfiller ht heq).elim
    · rcases append_eq_append_cons hbehind with ⟨w, heq, rfl⟩ | ⟨u, hlater, rfl⟩
      · exact ⟨t, value, rest, front, w, hvalue, heq, rfl, rfl, hends⟩
      · obtain ⟨front, value', back, u', w, hvalue', heq, rfl, rfl, hends'⟩ := ih hlater
        refine ⟨t ++ (value ++ front), value', back, u', w, hvalue', heq, by simp, rfl, ?_⟩
        exact (hends'.append value).append t

theorem Ends.of_append {name rest : List Char} (h : Ends (name ++ rest))
    (hname : name.all isWordChar = true) : Ends rest := by
  obtain ⟨c, hlast, hc⟩ := h
  rw [List.getLast?_append] at hlast
  cases hrest : rest.getLast? with
  | some d =>
    rw [hrest] at hlast
    cases hlast
    exact ⟨c, hrest, hc⟩
  | none =>
    rw [hrest] at hlast
    rw [List.all_eq_true.1 hname c (List.mem_of_getLast? hlast)] at hc
    cases hc

theorem Woven.of_uses {Operand : List Char → Prop} {expand : List Char → List Char}
    {uses : List (List Char)} {text : List Char} (htext : text.all isFiller = true)
    (hends : uses ≠ [] → Ends text)
    (huses : ∀ tail ∈ uses, ∃ value rest, expand tail = value ++ rest ∧ Operand value ∧
      rest.all isFiller = true ∧ (Ends tail → Ends rest))
    (hlast : ∀ tail ∈ uses.dropLast, Ends tail) :
    Woven Operand (text ++ uses.flatMap expand) := by
  induction uses generalizing text with
  | nil =>
    rw [List.flatMap_nil, List.append_nil]
    exact .filler htext
  | cons tail uses ih =>
    obtain ⟨value, rest, hexpand, hvalue, hrest, hend⟩ := huses tail List.mem_cons_self
    rw [List.flatMap_cons, hexpand, List.append_assoc]
    refine .operand htext (hends (List.cons_ne_nil _ _)) hvalue (ih hrest (fun hne => ?_) ?_ ?_)
    · exact hend (hlast tail (Template.mem_dropLast_cons hne))
    · exact fun t ht => huses t (List.mem_cons_of_mem _ ht)
    · exact fun t ht => hlast t (Template.mem_dropLast_cons_of_mem ht)

/-- Behind a separator, text that ends with a word is what stands in front of the word and then the
word. -/
theorem Ends.exists_rest {lead front before word : List Char} (h : Ends front)
    (hlead : (lead.all fun c => !isWordChar c) = true) (hword : word.all isWordChar = true)
    (heq : lead ++ before = front ++ word) :
    ∃ rest, before = rest ++ word ∧
      ∀ last, rest.getLast? = some last → isWordChar last = false := by
  rcases List.append_eq_append_iff.1 heq with ⟨rest, rfl, hbefore⟩ | ⟨more, rfl, hword'⟩
  · refine ⟨rest, hbefore, fun last hlast => ?_⟩
    obtain ⟨c, hc, hnot⟩ := h
    rw [List.getLast?_append, hlast] at hc
    cases hc
    exact hnot
  · cases more with
    | nil => exact ⟨[], hword'.symm, fun last hlast => by cases hlast⟩
    | cons c more =>
      have hc := List.all_eq_true.1 hlead c (List.mem_append_right _ List.mem_cons_self)
      rw [List.all_eq_true.1 hword c (hword' ▸ List.mem_cons_self)] at hc
      cases hc

/-! ## Well-written types -/

/-- What follows the `#` in front of the declared variable. -/
def heading : List Char := "node_result = ".toList

/-- What can follow a `#` behind the equals sign. -/
def NodeType.operands (t : NodeType) : List (List Char) :=
  t.inputs.entries.map (fun input => (Fragment.inputPlaceholder input).toList.tail) ++
    t.params.entries.map fun param => (Fragment.paramPlaceholder param.name).toList.tail

/-- The line declares the result of a node and computes it from the operands. -/
structure IsDeclaration (operands : List (List Char)) (result : ValueType) (line : List Char) :
    Prop where
  lead : (Template.cut line).1 = (typeName result ++ " ").toList
  head : ((Template.cut line).2.head?.any fun head =>
    heading.isPrefixOf head && (head.drop heading.length).all isFiller) = true
  uses : ((Template.cut line).2.tail.all fun tail => operands.any fun name =>
    name.isPrefixOf tail && (tail.drop name.length).all isFiller) = true
  ends : ((Template.cut line).2.dropLast.all fun tail =>
    tail.getLast?.any fun c => !isWordChar c) = true

instance (operands : List (List Char)) (result : ValueType) (line : List Char) :
    Decidable (IsDeclaration operands result line) :=
  decidable_of_iff (_ ∧ _ ∧ _ ∧ _)
    ⟨fun ⟨hlead, hhead, huses, hends⟩ => ⟨hlead, hhead, huses, hends⟩,
      fun h => ⟨h.1, h.2, h.3, h.4⟩⟩

namespace IsDeclaration

variable {operands : List (List Char)} {result : ValueType} {line : List Char}

/-- The parts of such a line. -/
theorem cut_eq (h : IsDeclaration operands result line) :
    ∃ opening uses,
      Template.cut line = ((typeName result ++ " ").toList, (heading ++ opening) :: uses) ∧
      opening.all isFiller = true ∧
      (∀ tail ∈ uses, ∃ name ∈ operands, ∃ rest, tail = name ++ rest ∧ rest.all isFiller = true) ∧
      ∀ tail ∈ ((heading ++ opening) :: uses).dropLast, Ends tail := by
  obtain ⟨hlead, hhead, huses, hends⟩ := h
  generalize Template.cut line = cut at *
  obtain ⟨lead, tails⟩ := cut
  cases tails with
  | nil => cases hhead
  | cons head uses =>
    obtain rfl : lead = (typeName result ++ " ").toList := hlead
    simp only [List.head?_cons, Option.any_some, Bool.and_eq_true, List.isPrefixOf_iff_prefix]
      at hhead
    obtain ⟨⟨opening, rfl⟩, hopening⟩ := hhead
    rw [List.drop_left] at hopening
    refine ⟨opening, uses, rfl, hopening, fun tail htail => ?_, fun tail htail => ?_⟩
    · obtain ⟨name, hname, hfits⟩ := List.any_eq_true.1 (List.all_eq_true.1 huses tail htail)
      rw [Bool.and_eq_true, List.isPrefixOf_iff_prefix] at hfits
      obtain ⟨⟨rest, rfl⟩, hrest⟩ := hfits
      rw [List.drop_left] at hrest
      exact ⟨name, hname, rest, rfl, hrest⟩
    · obtain ⟨c, hlast, hc⟩ := (Option.any_eq_true _ _).1 (List.all_eq_true.1 hends tail htail)
      exact ⟨c, hlast, by simpa using hc⟩

end IsDeclaration

namespace NodeType

/-- All placeholders are words, none of them starts like another one, and each piece of code is a
single line that declares the result. -/
structure WellWritten (t : NodeType) : Prop where
  names : ((t.operands ++ ["node".toList]).all fun name => name.all isWordChar) = true
  distinct : (t.operands ++ ["node".toList]).Pairwise fun a b => ¬ a <+: b ∧ ¬ b <+: a
  code : ∀ o ∈ t.code, ∃ line ∈ o.code, o.code = [line] ∧
    ∀ result ∈ o.result?, IsDeclaration t.operands result line.toList

instance (t : NodeType) : Decidable t.WellWritten :=
  decidable_of_iff (_ ∧ _ ∧ _)
    ⟨fun ⟨hnames, hdistinct, hcode⟩ => ⟨hnames, hdistinct, hcode⟩, fun h => ⟨h.1, h.2, h.3⟩⟩

end NodeType

theorem Catalogue.wellWritten_bundled : ∀ t ∈ bundled.entries, t.WellWritten := by
  decide +kernel

/-! ## Filling in well-written code -/

open Template (Table)

/-- The table has a value for each operand of the type, and the stem of the node. -/
structure Fills (t : NodeType) (id : NodeId) (Operand : List Char → Prop) (table : Table) :
    Prop where
  plain : table.Plain
  distinct : table.Distinct
  words : ∀ entry ∈ table, (Table.name entry).all isWordChar = true
  node : (Fragment.nodePlaceholder, id.stem) ∈ table
  covers : ∀ name ∈ t.operands, ∃ entry ∈ table, Table.name entry = name ∧ Operand entry.2.toList

theorem name_nodePlaceholder (id : NodeId) :
    Table.name (Fragment.nodePlaceholder, id.stem) = "node".toList := by
  simp [Table.name, Fragment.nodePlaceholder]

namespace Fills

variable {t : NodeType} {id : NodeId} {Operand : List Char → Prop} {table : Table}

theorem longestFirst (h : Fills t id Operand table) : Fills t id Operand table.longestFirst where
  plain := ⟨fun e he => h.plain.key e (Table.mem_longestFirst.1 he),
    fun e he => h.plain.value e (Table.mem_longestFirst.1 he)⟩
  distinct a ha b hb :=
    h.distinct a (Table.mem_longestFirst.1 ha) b (Table.mem_longestFirst.1 hb)
  words e he := h.words e (Table.mem_longestFirst.1 he)
  node := Table.mem_longestFirst.2 h.node
  covers name hname := by
    obtain ⟨e, he, hvalue⟩ := h.covers name hname
    exact ⟨e, Table.mem_longestFirst.2 he, hvalue⟩

theorem closed (h : Fills t id Operand table) {tails : List (List Char)}
    (hends : ∀ tail ∈ tails.dropLast, Ends tail) : table.Closed tails := by
  intro tail htail
  obtain ⟨c, hlast, hc⟩ := hends tail htail
  refine ⟨c, hlast, fun entry hentry hmem => ?_⟩
  rw [List.all_eq_true.1 (h.words entry hentry) c hmem] at hc
  cases hc

/-- The line is filled in to a declaration. -/
theorem apply_eq (h : Fills t id Operand table) {result : ValueType} {line : String}
    (hline : IsDeclaration t.operands result line.toList) :
    ∃ right : String,
      table.apply line = typeName result ++ " " ++ Fragment.resultName id ++ " = " ++ right ∧
      Woven Operand (" = ".toList ++ right.toList) := by
  obtain ⟨opening, uses, hcut, hopening, huses, hends⟩ := hline.cut_eq
  have happly := Table.apply_eq h.plain line (by rw [hcut]; exact h.closed hends)
  have hheading : heading = "node".toList ++ "_result = ".toList := by decide
  have hhead : table.expand (heading ++ opening) =
      id.stem.toList ++ ("_result = ".toList ++ opening) := by
    rw [hheading, List.append_assoc, ← name_nodePlaceholder id]
    exact Table.expand_eq h.distinct h.node _
  refine ⟨String.ofList (opening ++ uses.flatMap table.expand), ?_, ?_⟩
  · refine String.toList_inj.1 ?_
    rw [happly, hcut, List.flatMap_cons, hhead]
    simp [Fragment.resultName]
  · have hright : (String.ofList (opening ++ uses.flatMap table.expand)).toList =
      opening ++ uses.flatMap table.expand := String.toList_ofList
    rw [hright, ← List.append_assoc]
    have hfirst (hne : uses ≠ []) : Ends (" = ".toList ++ opening) := by
      have hwhole : Ends ("node_result".toList ++ (" = ".toList ++ opening)) := by
        rw [← List.append_assoc]
        exact hends (heading ++ opening) (Template.mem_dropLast_cons hne)
      exact hwhole.of_append (by decide)
    refine .of_uses ?_ hfirst (fun tail htail => ?_) fun tail htail =>
      hends tail (Template.mem_dropLast_cons_of_mem htail)
    · rw [List.all_append, hopening]
      decide
    · obtain ⟨name, hname, rest, rfl, hrest⟩ := huses tail htail
      obtain ⟨entry, hentry, rfl, hvalue⟩ := h.covers name hname
      refine ⟨entry.2.toList, rest, Table.expand_eq h.distinct hentry rest, hvalue, hrest, ?_⟩
      exact fun hend => hend.of_append (h.words entry hentry)

/-- Values for the operands, followed by the stem, are such a table. -/
theorem of_values (hwritten : t.WellWritten) {values : Table}
    (hnames : values.map Table.name = t.operands)
    (hkeys : ∀ entry ∈ values, entry.1.toList = '#' :: Table.name entry)
    (hvalues : ∀ entry ∈ values, Operand entry.2.toList)
    (hhash : ∀ value, Operand value → '#' ∉ value) :
    Fills t id Operand (values ++ [(Fragment.nodePlaceholder, id.stem)]) := by
  have hall : (values ++ [(Fragment.nodePlaceholder, id.stem)]).map Table.name =
      t.operands ++ ["node".toList] := by
    rw [List.map_append, hnames, List.map_singleton, name_nodePlaceholder]
  have hwords : ∀ entry ∈ values ++ [(Fragment.nodePlaceholder, id.stem)],
      (Table.name entry).all isWordChar = true := by
    intro entry hentry
    refine List.all_eq_true.1 hwritten.names _ ?_
    rw [← hall]
    exact List.mem_map_of_mem hentry
  have hplain : Table.Plain (values ++ [(Fragment.nodePlaceholder, id.stem)]) := by
    refine ⟨fun entry hentry => ⟨?_, fun hmem => ?_⟩, fun entry hentry => ?_⟩
    · rcases List.mem_append.1 hentry with hentry | hentry
      · exact hkeys entry hentry
      · rw [List.mem_singleton.1 hentry, name_nodePlaceholder]
        simp [Fragment.nodePlaceholder]
    · exact absurd (List.all_eq_true.1 (hwords entry hentry) _ hmem) (by decide)
    · rcases List.mem_append.1 hentry with hentry | hentry
      · exact hhash _ (hvalues entry hentry)
      · rw [List.mem_singleton.1 hentry]
        exact fun hmem => absurd (NodeId.isAlphanum_of_mem_stem hmem) (by decide)
  refine ⟨hplain, .of_pairwise (hall ▸ hwritten.distinct), hwords,
    List.mem_append_right _ (List.mem_singleton_self _), fun name hname => ?_⟩
  rw [← hnames] at hname
  obtain ⟨entry, hentry, rfl⟩ := List.mem_map.1 hname
  exact ⟨entry, List.mem_append_left _ hentry, rfl, hvalues entry hentry⟩

end Fills

end ShaderNodes
