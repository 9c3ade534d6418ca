import Mathlib
import ShaderNodes.Proofs.Catalogues

/-!
# The choice of an overload

The first overload whose signature starts with the given types is taken. In a catalogue that passes
its check no two overloads of a type take the same inputs, so there is never more than one to choose
from: their order does not matter, and none of them hides another one.

* `Overload.Takes`: what the signature of an overload says;
* `NodeType.overload?_eq_some_iff`, `NodeType.overload?_eq_none_iff`: what is chosen;
* `NodeType.overload?_eq_of_takes`, `NodeType.overload?_perm`: the choice among distinct overloads;
* `checked_overloads_unambiguous`: when a catalogue passes, and what follows for the choice.
-/

namespace ShaderNodes

namespace Overload

/-- The overload takes values of the given types, and its result has type `result`. -/
def Takes (o : Overload) (types : List ValueType) (result : ValueType) : Prop :=
  o.signature = types ++ [result]

variable {o : Overload} {types : List ValueType} {result result' : ValueType}

theorem takes_iff : o.Takes types result ↔ o.result? = some result ∧ o.inputs = types := by
  unfold Takes result? inputs
  constructor
  · intro h
    rw [h]
    exact ⟨List.getLast?_concat, List.dropLast_concat⟩
  · rintro ⟨hlast, hinputs⟩
    obtain ⟨init, hsplit⟩ := List.getLast?_eq_some_iff.1 hlast
    rw [hsplit, List.dropLast_concat] at hinputs
    rw [hsplit, hinputs]

theorem Takes.unique (h : o.Takes types result) (h' : o.Takes types result') : result = result' :=
  Option.some.inj ((takes_iff.1 h).1.symm.trans (takes_iff.1 h').1)

end Overload

namespace NodeType

variable {t : NodeType} {types : List ValueType} {o : Overload} {result : ValueType}

/-! ## The first overload that fits -/

theorem overload?_eq_none_iff :
    t.overload? types = none ↔ ∀ o ∈ t.code, ∀ result, ¬ o.Takes types result := by
  unfold overload?
  rw [List.findSome?_eq_none_iff]
  refine forall₂_congr fun o _ => ?_
  simp only [Overload.takes_iff]
  cases o.result? with
  | none => simp
  | some result => simp

theorem overload?_eq_some_iff :
    t.overload? types = some (o, result) ↔
      ∃ before after, t.code = before ++ o :: after ∧ o.Takes types result ∧
        ∀ other ∈ before, ∀ r, ¬ other.Takes types r := by
  constructor
  · intro h
    obtain ⟨before, first, after, hcode, hfirst, hbefore⟩ := List.findSome?_eq_some_iff.1 h
    have hnone : ({ t with code := before } : NodeType).overload? types = none :=
      List.findSome?_eq_none_iff.2 hbefore
    split at hfirst
    · next result' hresult =>
      split at hfirst
      · next hinputs =>
        cases hfirst
        exact ⟨before, after, hcode, Overload.takes_iff.2 ⟨hresult, hinputs⟩,
          overload?_eq_none_iff.1 hnone⟩
      · cases hfirst
    · cases hfirst
  · rintro ⟨before, after, hcode, htakes, hbefore⟩
    have hnone : ({ t with code := before } : NodeType).overload? types = none :=
      overload?_eq_none_iff.2 hbefore
    obtain ⟨hresult, hinputs⟩ := Overload.takes_iff.1 htakes
    unfold overload? at hnone ⊢
    rw [hcode, List.findSome?_append, hnone, Option.none_or, List.findSome?_cons_of_isSome] <;>
      simp [hresult, hinputs]

/-! ## Distinct overloads -/

section Distinct

variable (hdistinct : (t.code.map Overload.inputs).Nodup)

include hdistinct

theorem overload?_eq_of_takes (ho : o ∈ t.code) (h : o.Takes types result) :
    t.overload? types = some (o, result) := by
  cases hchosen : t.overload? types with
  | none => exact absurd h (overload?_eq_none_iff.1 hchosen o ho result)
  | some chosen =>
    obtain ⟨first, result'⟩ := chosen
    obtain ⟨before, after, hcode, htakes, -⟩ := overload?_eq_some_iff.1 hchosen
    have hmem : first ∈ t.code := hcode ▸ by simp
    have hinputs := (Overload.takes_iff.1 htakes).2.trans (Overload.takes_iff.1 h).2.symm
    obtain rfl : first = o := List.inj_on_of_nodup_map hdistinct hmem ho hinputs
    rw [htakes.unique h]

theorem overload?_perm {code : List Overload} (hperm : code.Perm t.code) :
    ({ t with code } : NodeType).overload? types = t.overload? types := by
  have hdistinct' : (code.map Overload.inputs).Nodup :=
    (hperm.map Overload.inputs).nodup_iff.2 hdistinct
  cases hchosen : t.overload? types with
  | none =>
    refine overload?_eq_none_iff.2 fun o ho => ?_
    exact overload?_eq_none_iff.1 hchosen o (hperm.mem_iff.1 ho)
  | some chosen =>
    obtain ⟨before, after, hcode, htakes, -⟩ := overload?_eq_some_iff.1 hchosen
    have hmem : chosen.1 ∈ t.code := hcode ▸ by simp
    exact overload?_eq_of_takes hdistinct' (hperm.mem_iff.2 hmem) htakes

theorem pairwise_not_takes :
    t.code.Pairwise fun a b =>
      ¬ ((∃ result, a.Takes types result) ∧ ∃ result, b.Takes types result) := by
  refine (List.pairwise_map.1 hdistinct).imp ?_
  rintro a b hne ⟨⟨r, ha⟩, r', hb⟩
  exact hne ((Overload.takes_iff.1 ha).2.trans (Overload.takes_iff.1 hb).2.symm)

end Distinct

end NodeType

/-- **Checked overloads are unambiguous.** A catalogue passes its check exactly if no type has the
name of the unknown type, each signature has a type for every input and one for the result, no two
overloads of a type take the same inputs, and the result of each overload provides the declared
outputs. Then at most one overload of a type takes values of given types. So it is chosen in
whatever order the overloads stand, and each overload is chosen for the types that it takes. -/
theorem checked_overloads_unambiguous (c : Catalogue) :
    (c.check = .ok () ↔ ∀ t ∈ c.entries,
      t.id ≠ ⟨"<Unknown>", "<Unknown>"⟩ ∧
      (∀ o ∈ t.code, o.signature.length = t.inputs.size + 1) ∧
      (t.code.Pairwise fun a b => a.inputs ≠ b.inputs) ∧
      ∀ o ∈ t.code, ∀ output ∈ t.outputs.entries,
        ∃ result, o.result? = some result ∧ output ∈ result.outputs) ∧
    (c.check = .ok () → ∀ t ∈ c.entries,
      (∀ types, t.code.Pairwise fun a b =>
        ¬ ((∃ result, a.Takes types result) ∧ ∃ result, b.Takes types result)) ∧
      (∀ types code, code.Perm t.code →
        ({ t with code } : NodeType).overload? types = t.overload? types) ∧
      ∀ o ∈ t.code, ∃ result, o.result? = some result ∧
        t.overload? o.inputs = some (o, result)) := by
  constructor
  · rw [Catalogue.check_eq_ok_iff]
    refine forall₂_congr fun t _ => and_congr Iff.rfl ?_
    rw [List.Nodup, List.pairwise_map]
    constructor
    · rintro ⟨hfits, hdistinct⟩
      refine ⟨fun o ho => (hfits o ho).arity, hdistinct, fun o ho output houtput => ?_⟩
      obtain ⟨result, hresult⟩ := Overload.exists_result (hfits o ho).arity
      exact ⟨result, hresult, (hfits o ho).provides result hresult output houtput⟩
    · rintro ⟨harity, hdistinct, hprovides⟩
      refine ⟨fun o ho => ⟨harity o ho, fun result hresult output houtput => ?_⟩, hdistinct⟩
      obtain ⟨result', hresult', hmem⟩ := hprovides o ho output houtput
      obtain rfl : result = result' := Option.some.inj (hresult.symm.trans hresult')
      exact hmem
  · intro hcheck t ht
    obtain ⟨-, hfits, hdistinct⟩ := Catalogue.check_eq_ok_iff.1 hcheck t ht
    refine ⟨fun types => NodeType.pairwise_not_takes hdistinct,
      fun types code hperm => NodeType.overload?_perm hdistinct hperm, fun o ho => ?_⟩
    obtain ⟨result, hresult⟩ := Overload.exists_result (hfits o ho).arity
    exact ⟨result, hresult,
      NodeType.overload?_eq_of_takes hdistinct ho (Overload.takes_iff.2 ⟨hresult, rfl⟩)⟩

namespace Sample

/-- Sums of two scalars, and of a scalar and a color. -/
def sum : NodeType :=
  ((((NodeType.new ⟨"Test", "Sum"⟩).withInput "A").withInput "B").withOverload
    ⟨[.scalar, .scalar, .scalar], ["float #node_result = #inputA + #inputB;"]⟩).withOverload
      ⟨[.scalar, .color, .color], ["vec4 #node_result = #inputA + #inputB;"]⟩

def sums : Catalogue := .ofList [sum]

end Sample

theorem checked_overloads_unambiguous_sum :
    Sample.sums.check = .ok () ∧
      ({ Sample.sum with code := Sample.sum.code.reverse } : NodeType).overload?
          [.scalar, .scalar] = Sample.sum.overload? [.scalar, .scalar] ∧
      ∀ o ∈ Sample.sum.code, ∃ result, o.result? = some result ∧
        Sample.sum.overload? o.inputs = some (o, result) := by
  have hcheck : Sample.sums.check = .ok () := by
    unfold Catalogue.check
    rw [if_pos (by decide_cbv)]
  obtain ⟨-, hperm, hchosen⟩ :=
    (checked_overloads_unambiguous _).2 hcheck Sample.sum (by decide_cbv)
  exact ⟨hcheck, hperm _ _ (List.reverse_perm _), hchosen⟩

end ShaderNodes
