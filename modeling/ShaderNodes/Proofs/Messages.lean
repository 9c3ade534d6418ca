import Mathlib
import ShaderNodes.Proofs.Names

/-!
# Problems and their texts

The texts of problems quote names that may hold anything, so two problems can share a text. Still
most kinds of problems are told apart by how their texts start. For some of them the text even
determines the problem: the missing source of an input, the missing output of a source, and the
missing result of a node.

* `Problem.opening`: the first characters of a text;
* `Problem.message_eq_sourceNotFound_iff`, `Problem.message_eq_resultNotFound_iff`,
  `Problem.message_eq_outputNotFound_iff`: what the texts say about the problem.
-/

namespace ShaderNodes

/-- Text is split in one way where characters of a class come to an end. -/
theorem append_inj_of_class (p : Char → Bool) {a a' b b' : List Char} {c c' : Char}
    (ha : ∀ x ∈ a, p x = true) (ha' : ∀ x ∈ a', p x = true) (hc : p c = false) (hc' : p c' = false)
    (h : a ++ c :: b = a' ++ c' :: b') : a = a' ∧ c :: b = c' :: b' := by
  have hclass {a b : List Char} {c : Char} (ha : ∀ x ∈ a, p x = true) (hc : p c = false) :
      (a ++ c :: b).takeWhile p = a := by
    rw [List.takeWhile_append_of_pos ha, List.takeWhile_cons_of_neg (by simp [hc]), List.append_nil]
  have hfront : a = a' := by
    rw [← hclass (b := b) ha hc, h, hclass ha' hc']
  subst hfront
  exact ⟨rfl, List.append_cancel_left h⟩

namespace Output

theorem text_injective : Function.Injective text := by
  intro o o' h
  cases o <;> cases o' <;> first | rfl | exact absurd h (by decide)

theorem ne_quote_of_mem_text {o : Output} {c : Char} (h : c ∈ o.text.toList) :
    decide (c ≠ '\'') = true := by
  have hall : o.text.toList.all (fun c => decide (c ≠ '\'')) = true := by cases o <;> decide
  exact List.all_eq_true.1 hall c h

end Output

namespace Problem

/-- The first six characters of the text of a problem. -/
def opening : Problem → String
  | nodeNotFound => "Node n"
  | typeNotFound _ => "Type '"
  | notConnected _ => "Input "
  | sourceNotFound _ => "Node f"
  | outputNotFound .. | resultNotFound => "Output"
  | noOverload => "No sui"
  | paramNotSet _ | paramMistyped .. => "Parame"
  | cycle _ => "Cyclic"

theorem take_message (p : Problem) : p.message.toList.take 6 = p.opening.toList := by
  unfold message opening
  cases p <;> simp

theorem opening_eq {p q : Problem} (h : p.message = q.message) : p.opening = q.opening := by
  rw [← String.toList_inj, ← take_message, ← take_message, h]

theorem message_eq_sourceNotFound_iff {p : Problem} {x : String} :
    p.message = "Node for input '" ++ x ++ "' not found" ↔ p = .sourceNotFound x := by
  constructor
  · intro h
    have hopening : p.opening = "Node f" := opening_eq (q := .sourceNotFound x) h
    cases p with
    | sourceNotFound y =>
      have htext : "Node for input '" ++ y ++ "' not found" =
          "Node for input '" ++ x ++ "' not found" := h
      have hlist := congrArg String.toList htext
      simp only [String.toList_append] at hlist
      have hname := List.append_cancel_left (List.append_cancel_right hlist)
      rw [String.toList_inj.1 hname]
    | _ => exact absurd hopening (by simp [opening])
  · rintro rfl
    rfl

/-- The text of a missing output, cut behind the name of the output and the number of its node. -/
theorem toList_message_outputNotFound (o : Output) (m : NodeId) (x : String) :
    (outputNotFound o m x).message.toList =
      "Output '".toList ++ (o.text.toList ++ '\'' :: (" of node ".toList ++ (m.text.toList ++
        ' ' :: ("not found for input '".toList ++ (x.toList ++ "'".toList))))) := by
  unfold message
  simp

theorem toList_message_resultNotFound :
    resultNotFound.message.toList =
      "Output '".toList ++ (Output.all.text.toList ++ '\'' :: " not found".toList) := by
  decide

theorem message_outputNotFound_ne (o : Output) (m : NodeId) (x : String) :
    (outputNotFound o m x).message ≠ resultNotFound.message := by
  intro h
  have hlist := congrArg String.toList h
  rw [toList_message_outputNotFound, toList_message_resultNotFound] at hlist
  have hrest := (append_inj_of_class _ (fun _ => Output.ne_quote_of_mem_text)
    (fun _ => Output.ne_quote_of_mem_text) (by decide) (by decide)
    (List.append_cancel_left hlist)).2
  simp at hrest

theorem message_eq_resultNotFound_iff {p : Problem} :
    p.message = "Output 'All' not found" ↔ p = .resultNotFound := by
  constructor
  · intro h
    have hopening : p.opening = "Output" := opening_eq (q := .resultNotFound) h
    cases p with
    | resultNotFound => rfl
    | outputNotFound o m x => exact absurd h (message_outputNotFound_ne o m x)
    | _ => exact absurd hopening (by simp [opening])
  · rintro rfl
    rfl

theorem outputNotFound_of_message_eq {o o' : Output} {m m' : NodeId} {x x' : String}
    (h : (outputNotFound o m x).message = (outputNotFound o' m' x').message) :
    outputNotFound o m x = outputNotFound o' m' x' := by
  have hlist := congrArg String.toList h
  simp only [toList_message_outputNotFound] at hlist
  have houtput := append_inj_of_class _ (fun _ => Output.ne_quote_of_mem_text)
    (fun _ => Output.ne_quote_of_mem_text) (by decide) (by decide) (List.append_cancel_left hlist)
  have hnode := append_inj_of_class Char.isDigit (fun _ => isDigit_of_mem_natText)
    (fun _ => isDigit_of_mem_natText) (by decide) (by decide)
    (List.append_cancel_left (List.cons.inj houtput.2).2)
  have hinput := List.append_cancel_right (List.append_cancel_left (List.cons.inj hnode.2).2)
  rw [Output.text_injective (String.toList_inj.1 houtput.1),
    NodeId.text_injective (String.toList_inj.1 hnode.1), String.toList_inj.1 hinput]

theorem message_eq_outputNotFound_iff {p : Problem} {o : Output} {m : NodeId} {x : String} :
    p.message = "Output '" ++ o.text ++ "' of node " ++ m.text ++ " not found for input '" ++ x
      ++ "'" ↔ p = .outputNotFound o m x := by
  constructor
  · intro h
    have hopening : p.opening = "Output" := opening_eq (q := .outputNotFound o m x) h
    cases p with
    | outputNotFound o' m' x' => exact outputNotFound_of_message_eq h
    | resultNotFound => exact absurd h.symm (message_outputNotFound_ne o m x)
    | _ => exact absurd hopening (by simp [opening])
  · rintro rfl
    rfl

end Problem

end ShaderNodes
