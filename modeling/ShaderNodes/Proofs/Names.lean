import Mathlib
import ShaderNodes.Emit.Fragment

/-!
# Names and literals

A node keeps its result in a variable that is named by the number of the node, and the values of
parameters are written as literals. In text made of such names and literals an underscore belongs to
a name, and a point that no digit follows stands between a name and a channel. So it can be told
from the text alone which variables it reads.

* `digits_injective`: numbers are told apart by their digits;
* `NodeId.eq_of_stem_suffix`: no text ends with the stems of two nodes;
* `Inert`: text that reads no variable, such as `Value.inert_code`;
* `Variable.toList_name_of_lookup`: how the outputs of a node are named.
-/

namespace ShaderNodes

/-! ## Digits -/

theorem foldl_digitsOnto (n : Nat) (acc : List (Fin 10)) :
    (digitsOnto n acc).foldl (fun n d => 10 * n + d.val) 0 =
      acc.foldl (fun n d => 10 * n + d.val) n := by
  fun_induction digitsOnto n acc with
  | case1 n acc acc' hn =>
    simp only [acc', List.foldl_cons, Fin.ofNat]
    congr 1
    omega
  | case2 n acc acc' hn ih =>
    rw [ih]
    simp only [acc', List.foldl_cons, Fin.ofNat]
    congr 1
    omega

theorem ofDigits_digits (n : Nat) : ofDigits (digits n) = n := foldl_digitsOnto n []

theorem digits_injective : Function.Injective digits :=
  Function.LeftInverse.injective ofDigits_digits

theorem digitChar_injective : Function.Injective digitChar := by decide

theorem isDigit_digitChar (d : Fin 10) : (digitChar d).isDigit = true := by
  revert d
  decide

theorem toList_natText (n : Nat) : (natText n).toList = (digits n).map digitChar := by
  simp [natText, Numeral.text, Numeral.chars, Numeral.ofNat]

theorem isDigit_of_mem_natText {n : Nat} {c : Char} (h : c ∈ (natText n).toList) :
    c.isDigit = true := by
  rw [toList_natText] at h
  obtain ⟨d, -, rfl⟩ := List.mem_map.1 h
  exact isDigit_digitChar d

theorem natText_injective : Function.Injective natText := by
  intro m n h
  have hchars : (digits m).map digitChar = (digits n).map digitChar := by
    rw [← toList_natText, ← toList_natText, h]
  exact digits_injective (List.map_injective_iff.2 digitChar_injective hchars)

/-! ## The stem of a node -/

namespace NodeId

theorem text_injective : Function.Injective text := fun _ _ h =>
  congrArg mk (UInt32.toNat_inj.1 (natText_injective h))

theorem takeWhile_isDigit_stem (n : NodeId) (before : List Char) :
    (before ++ n.stem.toList).reverse.takeWhile Char.isDigit = n.text.toList.reverse := by
  unfold stem
  rw [String.toList_append, ← List.append_assoc, List.reverse_append, List.takeWhile_append_of_pos]
  · simp
  · intro c hc
    exact isDigit_of_mem_natText (List.mem_reverse.1 hc)

/-- No text ends with the stems of two nodes: the digits at its end are those of the number. -/
theorem eq_of_stem_suffix {i j : NodeId} {text : List Char} (hi : i.stem.toList <:+ text)
    (hj : j.stem.toList <:+ text) : i = j := by
  obtain ⟨before, rfl⟩ := hi
  obtain ⟨before', heq⟩ := hj
  have hdigits := takeWhile_isDigit_stem i before
  rw [← heq, takeWhile_isDigit_stem] at hdigits
  exact text_injective (String.toList_inj.1 (List.reverse_injective hdigits)).symm

end NodeId

/-- Whether a character can stand in the name of a variable. -/
def isWordChar (c : Char) : Bool := c.isAlphanum || c = '_'

namespace Fragment

theorem toList_resultName (n : NodeId) :
    (resultName n).toList = n.stem.toList ++ '_' :: "result".toList := by
  simp [resultName]

theorem resultName_injective : Function.Injective resultName := by
  intro i j h
  have hstem : i.stem = j.stem := by
    have hlist := congrArg String.toList h
    rw [toList_resultName, toList_resultName] at hlist
    exact String.toList_inj.1 (List.append_cancel_right hlist)
  exact NodeId.eq_of_stem_suffix (List.suffix_refl _) (hstem ▸ List.suffix_refl _)

end Fragment

theorem NodeId.isAlphanum_of_mem_stem {n : NodeId} {c : Char} (h : c ∈ n.stem.toList) :
    c.isAlphanum = true := by
  unfold stem at h
  rw [String.toList_append] at h
  rcases List.mem_append.1 h with h | h
  · have hall : "node".toList.all Char.isAlphanum = true := by decide
    exact List.all_eq_true.1 hall c h
  · have hdigit := isDigit_of_mem_natText h
    simp [Char.isAlphanum, hdigit]

/-! ## Text without variables -/

theorem decide_ne_of_not_mem {mark : Char} {cs : List Char} (h : mark ∉ cs) :
    ∀ c ∈ cs, decide (c ≠ mark) = true := by
  intro c hc
  exact decide_eq_true (ne_of_mem_of_not_mem hc h)

theorem append_eq_append_cons {α : Type} {a b before after : List α} {c : α}
    (h : a ++ b = before ++ c :: after) :
    (∃ rest, a = before ++ c :: rest ∧ after = rest ++ b) ∨
      ∃ front, b = front ++ c :: after ∧ before = a ++ front := by
  rcases List.append_eq_append_iff.1 h with ⟨front, hbefore, hb⟩ | ⟨rest, ha, hrest⟩
  · exact Or.inr ⟨front, hb, hbefore⟩
  · cases rest with
    | nil => exact Or.inr ⟨[], hrest.symm, by simpa using ha.symm⟩
    | cons d rest =>
      obtain ⟨rfl, hafter⟩ := List.cons.inj hrest
      exact Or.inl ⟨rest, ha, hafter⟩

/-- The text reads no variable: there is no underscore, and a digit follows each point. It has no
placeholder either. -/
structure Inert (text : List Char) : Prop where
  underscore : '_' ∉ text
  hash : '#' ∉ text
  point : ∀ before after, text = before ++ '.' :: after →
    ∃ d rest, after = d :: rest ∧ d.isDigit = true

namespace Inert

theorem of_not_mem {text : List Char} (h : ∀ c ∈ text, c ∉ ['_', '#', '.']) : Inert text where
  underscore hmem := h _ hmem (by simp)
  hash hmem := h _ hmem (by simp)
  point before after heq := by
    have hmem : '.' ∈ text := heq ▸ List.mem_append_right _ List.mem_cons_self
    exact absurd (by simp) (h _ hmem)

theorem append {a b : List Char} (ha : Inert a) (hb : Inert b) : Inert (a ++ b) where
  underscore := List.not_mem_append ha.underscore hb.underscore
  hash := List.not_mem_append ha.hash hb.hash
  point before after heq := by
    rcases append_eq_append_cons heq with ⟨rest, hsplit, rfl⟩ | ⟨front, hsplit, -⟩
    · obtain ⟨d, rest', rfl, hd⟩ := ha.point before rest hsplit
      exact ⟨d, rest' ++ b, rfl, hd⟩
    · exact hb.point front after hsplit

theorem digits (ds : List (Fin 10)) : Inert (ds.map digitChar) := by
  refine of_not_mem fun c hc => ?_
  obtain ⟨d, -, rfl⟩ := List.mem_map.1 hc
  have hother : ∀ d, digitChar d ∉ ['_', '#', '.'] := by decide
  exact hother d

theorem fraction {ds : List (Fin 10)} (h : ds ≠ []) : Inert ('.' :: ds.map digitChar) where
  underscore := List.not_mem_cons_of_ne_of_not_mem (by decide) (digits ds).underscore
  hash := List.not_mem_cons_of_ne_of_not_mem (by decide) (digits ds).hash
  point before after heq := by
    cases before with
    | nil =>
      obtain ⟨d, ds, rfl⟩ := List.exists_cons_of_ne_nil h
      obtain ⟨-, rfl⟩ := List.cons.inj heq
      exact ⟨digitChar d, _, rfl, isDigit_digitChar d⟩
    | cons c before =>
      obtain ⟨-, heq⟩ := List.cons.inj heq
      exact (digits ds).point before after heq

end Inert

theorem ExponentMark.inert_chars (mark : ExponentMark) : Inert mark.chars := by
  refine .of_not_mem ?_
  cases mark <;> simp [chars]

theorem Numeral.inert_chars (n : Numeral) : Inert n.chars := by
  unfold chars
  refine .append (.append (.append ?_ (.digits n.whole)) ?_) ?_
  · exact .of_not_mem (by split <;> simp)
  · split
    · exact .of_not_mem (by simp)
    · next h => exact .fraction (by simpa using h)
  · split
    · exact .of_not_mem (by simp)
    · next mark ds _ =>
      have he : Inert ['e'] := .of_not_mem (by simp)
      exact he.append (mark.inert_chars.append (.digits ds))

theorem inert_literal (x : Single) : Inert (literal x).toList := by
  unfold literal
  split
  · rw [Numeral.text, String.toList_ofList]
    exact Numeral.inert_chars _
  · have hzero : Inert ([0].map digitChar ++ '.' :: [0].map digitChar) :=
      (Inert.digits [0]).append (.fraction (by simp))
    exact hzero

theorem Value.inert_code (v : Value) : Inert v.code.toList := by
  have hclose : Inert ")".toList := .of_not_mem (by simp)
  cases v with
  | scalar x =>
    have hopen : Inert "float(".toList := .of_not_mem (by simp)
    simp only [code, String.toList_append]
    exact (hopen.append (inert_literal x)).append hclose
  | color c =>
    have hopen : Inert "vec4(".toList := .of_not_mem (by simp)
    have hcomma : Inert ", ".toList := .of_not_mem (by simp)
    have hchannels : ", ".intercalate (c.channels.map literal) = literal c.r ++ ", " ++
      literal c.g ++ ", " ++ literal c.b ++ ", " ++ literal c.a := rfl
    simp only [code, hchannels, String.toList_append]
    refine (hopen.append ?_).append hclose
    exact (((inert_literal c.r).append hcomma |>.append (inert_literal c.g)).append hcomma
      |>.append (inert_literal c.b)).append hcomma |>.append (inert_literal c.a)

/-! ## The outputs of a node -/

/-- An output is named like the result, or by a point and a channel behind it if that is a color. -/
theorem Variable.toList_name_of_lookup {v out : Variable} {o : Output}
    (h : v.outputs.lookup o = some out) :
    ∃ suffix, out.name.toList = v.name.toList ++ suffix ∧
      (suffix = [] ∨ v.type = .color ∧ ∃ c ∈ ['r', 'g', 'b', 'a'], suffix = ['.', c]) := by
  obtain ⟨before, after, hsplit, -⟩ := List.lookup_eq_some_iff.1 h
  have hmem : (o, out) ∈ v.outputs := hsplit ▸ by simp
  unfold outputs at hmem
  rcases List.mem_cons.1 hmem with heq | hmem
  · cases heq
    exact ⟨[], by simp, Or.inl rfl⟩
  · split at hmem
    · cases hmem
    · next hcolor =>
      obtain ⟨⟨_, channel⟩, hchannel, heq⟩ := List.mem_map.1 hmem
      cases heq
      obtain ⟨c, hc, hchar⟩ : ∃ c ∈ ['r', 'g', 'b', 'a'], channel.toList = [c] := by
        unfold swizzles at hchannel
        simp only [List.mem_cons, Prod.mk.injEq, List.not_mem_nil, or_false] at hchannel
        rcases hchannel with ⟨-, rfl⟩ | ⟨-, rfl⟩ | ⟨-, rfl⟩ | ⟨-, rfl⟩ <;> simp
      exact ⟨['.', c], by simp [hchar], Or.inr ⟨hcolor, c, hc, rfl⟩⟩

namespace Fragment

theorem isWordChar_of_mem_resultName {n : NodeId} {c : Char} (h : c ∈ (resultName n).toList) :
    isWordChar c = true := by
  rw [toList_resultName] at h
  rcases List.mem_append.1 h with h | h
  · simp [isWordChar, NodeId.isAlphanum_of_mem_stem h]
  · have hall : ('_' :: "result".toList).all isWordChar = true := by decide
    exact List.all_eq_true.1 hall c h

section outputs

variable {n : NodeId} {type : ValueType} {o : Output} {out : Variable}

/-- The name of an output has one underscore, behind the stem of the node. -/
theorem eq_stem_of_underscore
    (h : (Variable.outputs ⟨resultName n, type⟩).lookup o = some out) {before after : List Char}
    (hsplit : out.name.toList = before ++ '_' :: after) : before = n.stem.toList := by
  obtain ⟨suffix, hname, hsuffix⟩ := Variable.toList_name_of_lookup h
  have hstem : '_' ∉ n.stem.toList := fun hmem =>
    absurd (NodeId.isAlphanum_of_mem_stem hmem) (by decide)
  have hrest : '_' ∉ "result".toList ++ suffix := by
    rcases hsuffix with rfl | ⟨-, c, hc, rfl⟩
    · decide
    · have hne : '_' ≠ c := by
        rintro rfl
        simp at hc
      simp [hne]
  rw [hname, toList_resultName, List.append_assoc, List.cons_append] at hsplit
  exact ((List.append_cons_inj_of_notMem hstem hrest).1 hsplit).1.symm

/-- A point in the name of an output stands behind the result, which is a color. -/
theorem eq_resultName_of_point
    (h : (Variable.outputs ⟨resultName n, type⟩).lookup o = some out) {before after : List Char}
    (hsplit : out.name.toList = before ++ '.' :: after) :
    type = .color ∧ before = (resultName n).toList := by
  obtain ⟨suffix, hname, hsuffix⟩ := Variable.toList_name_of_lookup h
  have hpoint : '.' ∉ (resultName n).toList := fun hmem =>
    absurd (isWordChar_of_mem_resultName hmem) (by decide)
  rw [hname] at hsplit
  rcases append_eq_append_cons hsplit with ⟨rest, hresult, -⟩ | ⟨front, hfront, rfl⟩
  · exact absurd (hresult ▸ List.mem_append_right _ List.mem_cons_self) hpoint
  · rcases hsuffix with rfl | ⟨hcolor, c, hc, rfl⟩
    · simp at hfront
    · refine ⟨hcolor, ?_⟩
      cases front with
      | nil => exact List.append_nil _
      | cons d front =>
        have hmem : '.' ∈ [c] := by
          rw [(List.cons.inj hfront).2]
          exact List.mem_append_right _ List.mem_cons_self
        rw [← List.mem_singleton.1 hmem] at hc
        simp at hc

theorem hash_not_mem_output
    (h : (Variable.outputs ⟨resultName n, type⟩).lookup o = some out) : '#' ∉ out.name.toList := by
  obtain ⟨suffix, hname, hsuffix⟩ := Variable.toList_name_of_lookup h
  rw [hname]
  refine List.not_mem_append (fun hmem => ?_) ?_
  · exact absurd (isWordChar_of_mem_resultName hmem) (by decide)
  · rcases hsuffix with rfl | ⟨-, c, hc, rfl⟩
    · simp
    · have hne : '#' ≠ c := by
        rintro rfl
        simp at hc
      simp [hne]

end outputs

end Fragment

end ShaderNodes
