import Mathlib
import ShaderNodes.Proofs.Lexemes

/-!
# Reading written documents

Writing a complete document and reading the text gives the document back, in every layout. Whatever
follows the text is left, as long as no number goes on there.

* `Json.Complete`: documents that have a written form;
* `Json.scanScalar_chars`: values without parts;
* `Json.ItemsGoOn`, `Json.MembersGoOn`: what the scanner may meet behind an entry;
* `Json.scanValue_chars`: documents;
* `Json.scan_ofList_chars`: a text that holds one document and nothing else.
-/

namespace ShaderNodes

namespace Json

/-! ## Complete documents -/

/-- A value without parts that has a written form. -/
def Scalar.Complete : Scalar → Prop
  | .null | .bool _ => True
  | .number n => n.Proper
  | .string q => ∃ s, q = .of s
  | .absent | .stray | .broken _ _ => False

mutual

/-- A document in which everything has a written form and nothing breaks off. -/
def Complete : Json → Prop
  | .scalar s => s.Complete
  | .array items => items.Complete
  | .object members => members.Complete

/-- Complete elements, closed behind the last one. -/
def Items.Complete : Items → Prop
  | .nil e => e = .closed
  | .cons j tail => j.Complete ∧ tail.Complete

/-- Complete members, closed behind the last one. -/
def Members.Complete : Members → Prop
  | .nil e => e = .closed
  | .cons name j tail => (∃ s, name = .of s) ∧ j.Complete ∧ tail.Complete

end

@[simp] theorem complete_string (s : String) : (string s).Complete := ⟨s, rfl⟩

@[simp] theorem complete_number {n : Numeral} : (number n).Complete ↔ n.Proper := Iff.rfl

@[simp] theorem complete_array {js : List Json} :
    (array (.ofList js)).Complete ↔ ∀ j ∈ js, j.Complete := by
  induction js with
  | nil => exact iff_of_true rfl (by simp)
  | cons j js ih =>
    rw [List.forall_mem_cons, ← ih]
    exact Iff.rfl

@[simp] theorem complete_object {ms : List (String × Json)} :
    (object (.ofList ms)).Complete ↔ ∀ m ∈ ms, m.2.Complete := by
  induction ms with
  | nil => exact iff_of_true rfl (by simp)
  | cons m ms ih =>
    rw [List.forall_mem_cons, ← ih]
    exact and_iff_right ⟨m.1, rfl⟩

/-! ## Values without parts -/

theorem scanWord_append (s : Scalar) (ws rest : List Char) :
    scanWord s ws (ws ++ rest) = (s, some rest) := by
  induction ws with
  | nil => rfl
  | cons w ws ih => simpa [scanWord] using ih

theorem scanScalar_quote (s : String) (rest : List Char) :
    scanScalar '"' (s.toList.flatMap writtenChar ++ '"' :: rest) =
      (.string (.of s), some rest) := by
  unfold scanScalar
  rw [if_pos rfl, quotedFrom_toList]

theorem scanScalar_digit {d : Fin 10} (cs : List Char) :
    scanScalar (digitChar d) cs = scanNumber false (digitChar d :: cs) := by
  have hother : ∀ d, digitChar d ∉ ['"', 'n', 't', 'f', '-'] := by decide
  have hd := hother d
  simp only [List.mem_cons, List.not_mem_nil, or_false, not_or] at hd
  obtain ⟨h1, h2, h3, h4, h5⟩ := hd
  unfold scanScalar
  rw [if_neg h1, if_neg h2, if_neg h3, if_neg h4, if_neg h5, digitValue?_digitChar]
  rfl

/-- How a value may start: not with a blank, not with a bracket or brace. -/
def Opens (c : Char) : Prop := isBlank c = false ∧ c ∉ ['[', ']', '{', '}']

instance (c : Char) : Decidable (Opens c) := inferInstanceAs (Decidable (_ ∧ _))

/-- A written value without parts is found in front of whatever does not go on with a number. -/
theorem scanScalar_chars {s : Scalar} (hs : s.Complete) {rest : List Char} (hrest : Stops rest) :
    ∃ c cs, s.chars ++ rest = c :: cs ∧ Opens c ∧ scanScalar c cs = (s, some rest) := by
  cases s with
  | null => exact ⟨'n', "ull".toList ++ rest, rfl, by decide, scanWord_append .null _ rest⟩
  | bool b =>
    cases b with
    | true => exact ⟨'t', "rue".toList ++ rest, rfl, by decide, scanWord_append (.bool true) _ rest⟩
    | false =>
      exact ⟨'f', "alse".toList ++ rest, rfl, by decide, scanWord_append (.bool false) _ rest⟩
  | number n =>
    have hscan := scanNumber_chars hs hrest
    have hchars : n.chars ++ rest = (if n.negative then ['-'] else []) ++ (n.whole.map digitChar ++
        (fractionChars n.fraction ++ (exponentChars n.exponent ++ rest))) := by
      simp only [numeralChars_eq, List.append_assoc]
    rw [Scalar.chars, hchars]
    cases hnegative : n.negative with
    | true =>
      rw [hnegative] at hscan
      exact ⟨'-', _, rfl, by decide, hscan⟩
    | false =>
      rw [hnegative] at hscan
      obtain ⟨d, ds, hwhole⟩ := List.exists_cons_of_ne_nil hs.whole
      have hopens : ∀ d, Opens (digitChar d) := by decide
      rw [hwhole] at hscan ⊢
      exact ⟨digitChar d, _, rfl, hopens d, (scanScalar_digit _).trans hscan⟩
  | string q =>
    obtain ⟨s, rfl⟩ := hs
    refine ⟨'"', _, ?_, by decide, scanScalar_quote s rest⟩
    simp [Scalar.chars, Quoted.chars, Quoted.of, writtenText]
  | absent => exact hs.elim
  | stray => exact hs.elim
  | broken _ _ => exact hs.elim

/-! ## Turns of the scanner -/

/-- The scanner finds `a` and leaves `rest`. -/
def Finds {α : Type} {cs : List Char} (found : α × Rest cs) (a : α) (rest : List Char) : Prop :=
  found.1 = a ∧ found.2.map Subtype.val = some rest

theorem Finds.widen {α β : Type} {cs ds : List Char} {found : α × Rest cs} {a : α}
    {rest : List Char} (h : Finds found a rest) (f : α → β) (hle : cs.length ≤ ds.length) :
    Finds (f found.1, found.2.widen hle) (f a) rest := by
  refine ⟨congrArg f h.1, ?_⟩
  rw [← h.2, Rest.widen, Option.map_map]
  rfl

theorem scanValue_array {cs ds rest : List Char} {items : Items} (h : skipBlank cs = '[' :: ds)
    (hfinds : Finds (scanArray ds) items rest) : Finds (scanValue cs) (.array items) rest := by
  rw [scanValue]
  split
  · next heq => rw [h] at heq; cases heq
  · next c es heq =>
    obtain ⟨rfl, rfl⟩ := List.cons.inj (h.symm.trans heq)
    exact hfinds.widen _ _

theorem scanValue_object {cs ds rest : List Char} {members : Members}
    (h : skipBlank cs = '{' :: ds) (hfinds : Finds (scanObject ds) members rest) :
    Finds (scanValue cs) (.object members) rest := by
  rw [scanValue]
  split
  · next heq => rw [h] at heq; cases heq
  · next c es heq =>
    obtain ⟨rfl, rfl⟩ := List.cons.inj (h.symm.trans heq)
    exact hfinds.widen _ _

theorem scanValue_scalar {cs ds rest : List Char} {c : Char} {s : Scalar}
    (h : skipBlank cs = c :: ds) (hopens : Opens c) (hscan : scanScalar c ds = (s, some rest)) :
    Finds (scanValue cs) (.scalar s) rest := by
  have hbracket : c ≠ '[' := by rintro rfl; exact hopens.2 (by simp)
  have hbrace : c ≠ '{' := by rintro rfl; exact hopens.2 (by simp)
  rw [scanValue]
  split
  · next heq => rw [h] at heq; cases heq
  · next c' es heq =>
    obtain ⟨rfl, rfl⟩ := List.cons.inj (h.symm.trans heq)
    dsimp only
    rw [if_neg hbracket, if_neg hbrace]
    split
    · next heq => rw [hscan] at heq; cases heq
    · next heq =>
      rw [hscan] at heq
      cases heq
      exact ⟨rfl, rfl⟩

theorem scanArray_empty {cs ds : List Char} (h : skipBlank cs = ']' :: ds) :
    Finds (scanArray cs) (.nil .closed) ds := by
  rw [scanArray]
  split
  · next heq => rw [h] at heq; cases heq
  · next c es heq =>
    obtain ⟨rfl, rfl⟩ := List.cons.inj (h.symm.trans heq)
    exact ⟨rfl, rfl⟩

theorem scanArray_items {cs ds : List Char} {c : Char} (h : skipBlank cs = c :: ds) (hc : c ≠ ']') :
    scanArray cs = scanItems cs := by
  rw [scanArray]
  split
  · next heq => rw [h] at heq; cases heq
  · next c' es heq =>
    obtain ⟨rfl, rfl⟩ := List.cons.inj (h.symm.trans heq)
    exact if_neg hc

/-- What stands behind an element: the closing bracket, or a comma and further elements. -/
inductive ItemsGoOn (ds : List Char) : Items → List Char → Prop
  | close {rest : List Char} (h : skipBlank ds = ']' :: rest) : ItemsGoOn ds (.nil .closed) rest
  | more {es fs rest : List Char} {c : Char} {tail : Items} (h : skipBlank ds = ',' :: es)
    (hnext : skipBlank es = c :: fs) (hc : c ≠ ']') (htail : Finds (scanItems es) tail rest) :
    ItemsGoOn ds tail rest

theorem scanItems_cons {cs ds rest : List Char} {j : Json} {tail : Items}
    (hj : Finds (scanValue cs) j ds) (htail : ItemsGoOn ds tail rest) :
    Finds (scanItems cs) (.cons j tail) rest := by
  obtain ⟨rfl, hrest⟩ := hj
  rw [scanItems]
  split
  · next heq => rw [heq] at hrest; cases hrest
  next heq =>
  rw [heq] at hrest ⊢
  obtain rfl := Option.some.inj hrest
  dsimp only
  cases htail with
  | close h =>
    split
    · next hblank => rw [h] at hblank; cases hblank
    · next hblank =>
      obtain ⟨rfl, rfl⟩ := List.cons.inj (h.symm.trans hblank)
      exact ⟨rfl, rfl⟩
  | more h hnext hc htail =>
    split
    · next hblank => rw [h] at hblank; cases hblank
    · next hblank =>
      obtain ⟨rfl, rfl⟩ := List.cons.inj (h.symm.trans hblank)
      rw [if_neg (by decide), if_pos rfl, hnext]
      dsimp only
      rw [if_neg hc]
      exact htail.widen (Items.cons _) _

theorem scanObject_empty {cs ds : List Char} (h : skipBlank cs = '}' :: ds) :
    Finds (scanObject cs) (.nil .closed) ds := by
  rw [scanObject]
  split
  · next heq => rw [h] at heq; cases heq
  · next c es heq =>
    obtain ⟨rfl, rfl⟩ := List.cons.inj (h.symm.trans heq)
    exact ⟨rfl, rfl⟩

theorem scanObject_members {cs ds rest : List Char} {members : Members}
    (h : skipBlank cs = '"' :: ds) (hfinds : Finds (scanMembers ds) members rest) :
    Finds (scanObject cs) members rest := by
  rw [scanObject]
  split
  · next heq => rw [h] at heq; cases heq
  · next c es heq =>
    obtain ⟨rfl, rfl⟩ := List.cons.inj (h.symm.trans heq)
    exact hfinds.widen id _

/-- What stands behind a member: the closing brace, or a comma and further members. -/
inductive MembersGoOn (ds : List Char) : Members → List Char → Prop
  | close {rest : List Char} (h : skipBlank ds = '}' :: rest) : MembersGoOn ds (.nil .closed) rest
  | more {es fs rest : List Char} {tail : Members} (h : skipBlank ds = ',' :: es)
    (hnext : skipBlank es = '"' :: fs) (htail : Finds (scanMembers fs) tail rest) :
    MembersGoOn ds tail rest

theorem scanMembers_cons {cs ds ds' es rest : List Char} {name : Quoted} {j : Json}
    {tail : Members} (hname : quotedFrom [] none cs = (name, some ds))
    (hcolon : skipBlank ds = ':' :: ds') (hj : Finds (scanValue ds') j es)
    (htail : MembersGoOn es tail rest) : Finds (scanMembers cs) (.cons name j tail) rest := by
  obtain ⟨rfl, hrest⟩ := hj
  -- The scanner looks at the name, the colon, the value and what follows, in this order.
  rw [scanMembers]
  split
  · next heq => rw [hname] at heq; cases heq
  next heq =>
  rw [hname] at heq
  cases heq
  split
  · next hblank => rw [hcolon] at hblank; cases hblank
  next hblank =>
  obtain ⟨rfl, rfl⟩ := List.cons.inj (hcolon.symm.trans hblank)
  dsimp only
  rw [if_pos rfl]
  split
  · next hvalue => rw [hvalue] at hrest; cases hrest
  next hvalue =>
  rw [hvalue] at hrest ⊢
  obtain rfl := Option.some.inj hrest
  cases htail with
  | close h =>
    split
    · next hblank => rw [h] at hblank; cases hblank
    · next hblank =>
      obtain ⟨rfl, rfl⟩ := List.cons.inj (h.symm.trans hblank)
      exact ⟨rfl, rfl⟩
  | more h hnext htail =>
    split
    · next hblank => rw [h] at hblank; cases hblank
    next hblank =>
    obtain ⟨rfl, rfl⟩ := List.cons.inj (h.symm.trans hblank)
    dsimp only
    rw [if_neg (by decide), if_pos rfl]
    split
    · next hquote => rw [hnext] at hquote; cases hquote
    · next hquote =>
      obtain ⟨rfl, rfl⟩ := List.cons.inj (hnext.symm.trans hquote)
      exact htail.widen (Members.cons _ _) _

/-! ## Written documents -/

theorem skipBlank_gap (l : Layout) (cs : List Char) : skipBlank (l.gap ++ cs) = skipBlank cs := by
  refine List.dropWhile_append_of_pos fun c hc => ?_
  cases l with
  | compact => cases hc
  | lines level =>
    rcases List.mem_cons.1 hc with rfl | hc
    · rfl
    · rw [List.eq_of_mem_replicate hc]
      rfl

theorem stops_gap (l : Layout) {c : Char} (h : digitValue? c = none ∧ c ∉ ['.', 'e', 'E'])
    (cs : List Char) : Stops (l.gap ++ c :: cs) := by
  cases l with
  | compact => exact stops_cons h
  | lines level => exact stops_cons (by decide)

theorem exists_cons_chars (l : Layout) {j : Json} (hj : j.Complete) :
    ∃ c cs, j.chars l = c :: cs ∧ isBlank c = false ∧ c ≠ ']' := by
  cases j with
  | scalar s =>
    have hnil : Stops [] := by rintro _ ⟨⟩
    obtain ⟨c, cs, hchars, hopens, -⟩ := scanScalar_chars hj hnil
    rw [List.append_nil] at hchars
    refine ⟨c, cs, hchars, hopens.1, ?_⟩
    rintro rfl
    exact hopens.2 (by simp)
  | array items => cases items <;> exact ⟨'[', _, rfl, by decide, by decide⟩
  | object members => cases members <;> exact ⟨'{', _, rfl, by decide, by decide⟩

theorem skipBlank_chars (l : Layout) {j : Json} (hj : j.Complete) (rest : List Char) :
    skipBlank (j.chars l ++ rest) = j.chars l ++ rest := by
  obtain ⟨c, cs, hchars, hblank, -⟩ := exists_cons_chars l hj
  rw [hchars, List.cons_append]
  exact List.dropWhile_cons_of_neg (by simp [hblank])

theorem skipBlank_colon (l : Layout) (cs : List Char) :
    ∃ ds, skipBlank (l.colon ++ cs) = ':' :: ds ∧ skipBlank ds = skipBlank cs := by
  cases l with
  | compact => exact ⟨cs, rfl, rfl⟩
  | lines level => exact ⟨' ' :: cs, rfl, rfl⟩

theorem stops_items (l l' : Layout) (tail : Items) (rest : List Char) :
    Stops (tail.chars l ++ (l'.gap ++ ']' :: rest)) := by
  cases tail with
  | nil e => exact stops_gap l' (by decide) rest
  | cons j tail => exact stops_cons (by decide)

theorem stops_members (l l' : Layout) (tail : Members) (rest : List Char) :
    Stops (tail.chars l ++ (l'.gap ++ '}' :: rest)) := by
  cases tail with
  | nil e => exact stops_gap l' (by decide) rest
  | cons name j tail => exact stops_cons (by decide)

theorem chars_of (s : String) (cs : List Char) :
    (Quoted.of s).chars ++ cs = '"' :: (s.toList.flatMap writtenChar ++ '"' :: cs) := by
  simp [Quoted.chars, Quoted.of, writtenText]

mutual

/-- The scanner finds a written document behind any blanks, and leaves what follows it. -/
theorem scanValue_chars (l : Layout) (j : Json) (hj : j.Complete) {cs rest : List Char}
    (hrest : Stops rest) (hcs : skipBlank cs = j.chars l ++ rest) :
    Finds (scanValue cs) j rest := by
  match j, hj with
  | .scalar s, hs =>
    obtain ⟨c, ds, hchars, hopens, hscan⟩ := scanScalar_chars hs hrest
    exact scanValue_scalar (hcs.trans hchars) hopens hscan
  | .array (.nil e), he =>
    obtain rfl : e = .closed := he
    exact scanValue_array hcs (scanArray_empty rfl)
  | .array (.cons j tail), ⟨hj, htail⟩ =>
    simp only [chars, List.cons_append, List.append_assoc, List.nil_append] at hcs
    refine scanValue_array hcs ?_
    have hblank := (skipBlank_gap l.deeper _).trans
      (skipBlank_chars l.deeper hj (tail.chars l.deeper ++ (l.gap ++ ']' :: rest)))
    obtain ⟨c, ds, hchars, -, hc⟩ := exists_cons_chars l.deeper hj
    rw [scanArray_items (hblank.trans (by rw [hchars]; rfl)) hc]
    exact scanItems_cons (scanValue_chars l.deeper j hj (stops_items _ _ tail _) hblank)
      (itemsGoOn_chars l.deeper l tail htail rest)
  | .object (.nil e), he =>
    obtain rfl : e = .closed := he
    exact scanValue_object hcs (scanObject_empty rfl)
  | .object (.cons name j tail), ⟨⟨s, hs⟩, hj, htail⟩ =>
    subst hs
    simp only [chars, List.cons_append, List.append_assoc, List.nil_append, chars_of] at hcs
    refine scanValue_object hcs (scanObject_members (skipBlank_gap l.deeper _) ?_)
    obtain ⟨ds, hcolon, hds⟩ := skipBlank_colon l
      (j.chars l.deeper ++ (tail.chars l.deeper ++ (l.gap ++ '}' :: rest)))
    refine scanMembers_cons (quotedFrom_toList s _) hcolon ?_
      (membersGoOn_chars l.deeper l tail htail rest)
    exact scanValue_chars l.deeper j hj (stops_members _ _ tail _)
      (hds.trans (skipBlank_chars _ hj _))

theorem itemsGoOn_chars (l l' : Layout) (tail : Items) (htail : tail.Complete) (rest : List Char) :
    ItemsGoOn (tail.chars l ++ (l'.gap ++ ']' :: rest)) tail rest := by
  match tail, htail with
  | .nil e, he =>
    obtain rfl : e = .closed := he
    exact .close (skipBlank_gap l' _)
  | .cons j tail, ⟨hj, htail⟩ =>
    simp only [Items.chars, List.cons_append, List.append_assoc]
    have hblank := (skipBlank_gap l _).trans
      (skipBlank_chars l hj (tail.chars l ++ (l'.gap ++ ']' :: rest)))
    obtain ⟨c, ds, hchars, -, hc⟩ := exists_cons_chars l hj
    refine .more rfl (hblank.trans (by rw [hchars]; rfl)) hc ?_
    exact scanItems_cons (scanValue_chars l j hj (stops_items _ _ tail _) hblank)
      (itemsGoOn_chars l l' tail htail rest)

theorem membersGoOn_chars (l l' : Layout) (tail : Members) (htail : tail.Complete)
    (rest : List Char) : MembersGoOn (tail.chars l ++ (l'.gap ++ '}' :: rest)) tail rest := by
  match tail, htail with
  | .nil e, he =>
    obtain rfl : e = .closed := he
    exact .close (skipBlank_gap l' _)
  | .cons name j tail, ⟨⟨s, hs⟩, hj, htail⟩ =>
    subst hs
    simp only [Members.chars, List.cons_append, List.append_assoc, chars_of]
    obtain ⟨ds, hcolon, hds⟩ := skipBlank_colon l
      (j.chars l ++ (tail.chars l ++ (l'.gap ++ '}' :: rest)))
    refine .more rfl (skipBlank_gap l _) (scanMembers_cons (quotedFrom_toList s _) hcolon ?_
      (membersGoOn_chars l l' tail htail rest))
    exact scanValue_chars l j hj (stops_members _ _ tail _) (hds.trans (skipBlank_chars _ hj _))

end

/-- A text that holds one document and nothing else. -/
theorem scan_ofList_chars (l : Layout) {j : Json} (hj : j.Complete) :
    scan (String.ofList (j.chars l)) = ⟨j, some []⟩ := by
  have hcs : skipBlank (String.ofList (j.chars l)).toList = j.chars l ++ [] := by
    rw [String.toList_ofList, ← skipBlank_chars l hj [], List.append_nil]
  obtain ⟨hdocument, hrest⟩ := scanValue_chars l j hj (by rintro _ ⟨⟩) hcs
  exact congrArg₂ Scanned.mk hdocument hrest

end Json

end ShaderNodes
