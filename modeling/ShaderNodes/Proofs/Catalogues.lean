import Mathlib
import ShaderNodes.Load
import ShaderNodes.Proofs.Defences
import ShaderNodes.Proofs.Scoping

/-!
# Catalogues that pass the check

A catalogue passes its check when all types have proper names, all signatures fit the inputs, no two
overloads of a type take the same inputs, and every overload provides the declared outputs. The
check and the compilation of a node each have a table of what a type of values exposes. The two
agree, so an output that a type declares can be read from every node of the type that succeeds,
whichever overload it is compiled with.

* `Catalogue.check_eq_ok_iff`: when a catalogue passes;
* `Variable.mem_outputs_iff`, `Variable.type_of_lookup`: what a result exposes, and with what type;
* `declared_output_resolves`: inputs that are fed by declared outputs.
-/

namespace ShaderNodes

/-! ## The check -/

/-- The overload has a type for each input and one for the result, and the result provides the
declared outputs. -/
structure Overload.Fits (t : NodeType) (o : Overload) : Prop where
  arity : o.signature.length = t.inputs.size + 1
  provides : ∀ result, o.result? = some result → ∀ output ∈ t.outputs.entries,
    output ∈ result.outputs

theorem Overload.exists_result {o : Overload} {n : Nat} (h : o.signature.length = n + 1) :
    ∃ result, o.result? = some result := by
  have hne : o.signature ≠ [] := List.ne_nil_of_length_eq_add_one h
  exact ⟨_, List.getLast?_eq_some_getLast hne⟩

namespace Catalogue

/-- Overloads have no problems when they fit and their inputs are new each time. -/
theorem overloadProblems_eq_nil_iff {t : NodeType} {i : Nat} {seen : List (List ValueType)}
    {os : List Overload} :
    overloadProblems t i seen os = [] ↔
      (∀ o ∈ os, o.Fits t) ∧ (os.map Overload.inputs).Nodup ∧ ∀ o ∈ os, o.inputs ∉ seen := by
  induction os generalizing i seen with
  | nil => simp [overloadProblems]
  | cons o rest ih =>
    unfold overloadProblems
    dsimp only
    by_cases harity : o.signature.length = t.inputs.size + 1
    · obtain ⟨result, hresult⟩ := Overload.exists_result harity
      have hmissing :
          (t.outputs.entries.filter fun output => !result.outputs.contains output) = [] ↔
            o.Fits t := by
        rw [List.filter_eq_nil_iff]
        constructor
        · intro h
          refine ⟨harity, fun result' h' output houtput => ?_⟩
          obtain rfl : result = result' := Option.some.inj (hresult.symm.trans h')
          simpa using h output houtput
        · intro h output houtput
          simpa using h.provides result hresult output houtput
      have hrepeated : (if seen.contains o.inputs then [Problem.repeatedInputs t.id i o.inputs]
          else []) = [] ↔ o.inputs ∉ seen := by
        simp
      rw [if_neg (not_not.2 harity), hresult, List.append_eq_nil_iff, List.append_eq_nil_iff, ih,
        hrepeated]
      dsimp only
      rw [List.map_eq_nil_iff, hmissing, List.forall_mem_cons, List.forall_mem_cons]
      simp only [List.map_cons, List.nodup_cons, List.mem_map, List.mem_cons, not_or, not_exists,
        not_and]
      constructor
      · rintro ⟨⟨ho, hnew⟩, hrest, hnodup, hother⟩
        exact ⟨⟨ho, hrest⟩, ⟨fun o' ho' => (hother o' ho').1, hnodup⟩, hnew,
          fun o' ho' => (hother o' ho').2⟩
      · rintro ⟨⟨ho, hrest⟩, ⟨hother, hnodup⟩, hnew, hseen⟩
        exact ⟨⟨ho, hnew⟩, hrest, hnodup, fun o' ho' => ⟨hother o' ho', hseen o' ho'⟩⟩
    · rw [if_pos harity]
      constructor
      · intro h
        cases h
      · rintro ⟨hfits, -⟩
        exact absurd (hfits o List.mem_cons_self).arity harity

theorem check_eq_ok_iff {c : Catalogue} :
    c.check = .ok () ↔ ∀ t ∈ c.entries, t.id ≠ .unknown ∧ (∀ o ∈ t.code, o.Fits t) ∧
      (t.code.map Overload.inputs).Nodup := by
  have hproblems : c.check = .ok () ↔ c.problems = [] := by
    unfold check
    rw [← List.isEmpty_iff]
    split <;> simp_all
  rw [hproblems, problems, List.flatMap_eq_nil_iff]
  refine forall₂_congr fun t _ => ?_
  rw [typeProblems, List.append_eq_nil_iff, overloadProblems_eq_nil_iff]
  have hid : (if t.id.isUnknown then [Problem.reservedId] else []) = [] ↔ t.id ≠ .unknown := by
    simp [TypeId.isUnknown]
  rw [hid]
  simp

end Catalogue

/-! ## What a result exposes -/

namespace Variable

/-- The outputs by which a type of values is checked are those under which a result can be found. -/
theorem mem_outputs_iff (v : Variable) (o : Output) :
    o ∈ v.type.outputs ↔ ∃ w, v.outputs.lookup o = some w := by
  obtain ⟨name, type⟩ := v
  cases type with
  | scalar =>
    cases o with
    | all => exact ⟨fun _ => ⟨_, rfl⟩, fun _ => by simp [ValueType.outputs]⟩
    | _ => exact ⟨fun h => by simp [ValueType.outputs] at h, fun ⟨_, hw⟩ => by cases hw⟩
  | color => cases o <;> exact ⟨fun _ => ⟨_, rfl⟩, fun _ => by simp [ValueType.outputs]⟩

theorem type_of_lookup {v w : Variable} {o : Output} (h : v.outputs.lookup o = some w) :
    w.type = if o = .all then v.type else .scalar := by
  obtain ⟨name, type⟩ := v
  cases type with
  | scalar => cases o <;> cases h; rfl
  | color => cases o <;> cases h <;> rfl

end Variable

/-! ## Inputs fed by declared outputs -/

/-- The overload that a node of the graph is compiled with, and the type of its result. -/
def Graph.Selects (types : Catalogue) (g : Graph) (n : NodeId) (overload : Overload)
    (result : ValueType) : Prop :=
  ∃ (node : Node) (type : NodeType) (inputs : List (String × Variable)), g.Typed types n node type ∧
    type.inputs.entries.map (Fragment.resolveInput n (g.jointsInto n) (walk types g).outcome?) =
      inputs.map .ok ∧
    type.overload? (inputs.map fun i => i.2.type) = some (overload, result)

/-- An output is missing only from a source that has succeeded. -/
theorem Fragment.of_outputNotFound {node : NodeId} {joints : List Joint}
    {lookup : NodeId → Option Outcome} {input x : String} {d : Diagnostic} {o : Output} {m : NodeId}
    (h : d ∈ Checked.errors (resolveInput node joints lookup input))
    (hproblem : d.problem = .outputNotFound o m x) :
    input = x ∧ ∃ source, lookup m = some (.ok source) ∧ resolveInput node joints lookup x =
      .error [d] := by
  unfold resolveInput at h
  split at h
  · rw [List.mem_singleton.1 h] at hproblem
    cases hproblem
  · next j hj =>
    split at h
    · next source hsource =>
      split at h
      · cases h
      · next hnone =>
        obtain rfl := List.mem_singleton.1 h
        cases hproblem
        refine ⟨rfl, source, hsource, ?_⟩
        unfold resolveInput
        simp only [hj, hsource, hnone]
    · cases h
    · rw [List.mem_singleton.1 h] at hproblem
      cases hproblem

namespace Walk

variable {types : Catalogue} {g : Graph}

/-- A node that has succeeded exposes what its type declares. -/
theorem exists_output_of_declared (hcheck : types.check = .ok ()) {m : NodeId} {source : Node}
    {type : NodeType} (htyped : g.Typed types m source type) {f : Fragment}
    (hf : (walk types g).outcome? m = some (.ok f)) {o : Output} (ho : o ∈ type.outputs.entries) :
    ∃ overload result v, g.Selects types m overload result ∧ f.output? o = some v ∧
      v.type = if o = .all then result else .scalar := by
  obtain ⟨node, type', inputs, overload, result, params, htyped', hinputs, hoverload, -, rfl⟩ :=
    exists_made (fragment?_eq_some_iff.2 hf)
  obtain ⟨rfl, rfl⟩ := htyped.unique htyped'
  have htype := (Roster.mem_of_get? htyped.2).1
  obtain ⟨hmem, hresult⟩ := NodeType.mem_code_of_overload? hoverload
  have hfits := (Catalogue.check_eq_ok_iff.1 hcheck type htype).2.1 overload hmem
  have hexposed := hfits.provides result hresult o ho
  obtain ⟨v, hv⟩ := (Variable.mem_outputs_iff ⟨Fragment.resultName m, result⟩ o).1 hexposed
  exact ⟨overload, result, v, ⟨source, type, inputs, htyped, hinputs, hoverload⟩, hv,
    Variable.type_of_lookup hv⟩

/-- The input behind a joint resolves to what the source exposes. -/
theorem resolveInput_of_joint {j : Joint} (hj : j ∈ g.joints.entries) {f : Fragment}
    (hf : (walk types g).outcome? j.source.node = some (.ok f)) {v : Variable}
    (hv : f.output? j.source.output = some v) :
    Fragment.resolveInput j.dest.node (g.jointsInto j.dest.node) (walk types g).outcome?
      j.dest.input = .ok (Fragment.inputPlaceholder j.dest.input, v) := by
  refine Fragment.resolveInput_eq_ok_iff.2 ⟨j, f, ?_, hf, hv, rfl⟩
  rw [Graph.find?_jointsInto]
  exact Roster.get?_key hj

end Walk

/-- Inputs resolve while their node is compiled as they do in the end. -/
theorem Stage.resolveInput_eq {types : Catalogue} {g : Graph} {k : Nat} {frame : Frame}
    (h : (stageAt types g k).compiles? = some frame) (input : String) :
    Fragment.resolveInput frame.node.id frame.joints (stageAt types g k).walk.outcome? input =
      Fragment.resolveInput frame.node.id (g.jointsInto frame.node.id)
        (ShaderNodes.walk types g).outcome? input := by
  obtain ⟨hfits, hseen⟩ := fits_of_compiles? (reached_stageAt types g k) h
  rw [← hfits.joints]
  refine Fragment.resolveInput_congr (fun j hj => value?_walk ?_) input
  exact hseen _ (feeds_of_mem_joints hfits hj)

/-- A node that reports a missing output cannot resolve the input in question. -/
theorem Walk.of_outputNotFound {types : Catalogue} {g : Graph} {n m : NodeId} {o : Output}
    {x : String} (h : (⟨n, .outputNotFound o m x⟩ : Diagnostic) ∈ (walk types g).errorsOf n) :
    (∃ f, (walk types g).outcome? m = some (.ok f)) ∧
      Fragment.resolveInput n (g.jointsInto n) (walk types g).outcome? x =
        .error [⟨n, .outputNotFound o m x⟩] := by
  rcases mem_errorsOf_cases h with
    ⟨path, hcycle⟩ | ⟨problem, hreject, hd⟩ | ⟨node, type, htyped, hd⟩
  · cases hcycle
  · obtain rfl := (Diagnostic.mk.inj hd).2
    cases hreject
  · obtain rfl := htyped.id_eq
    rcases Fragment.mem_errors_compile_cases hd with
      ⟨input, -, hinput⟩ | ⟨inputs, hoverload⟩ | ⟨param, -, hparam⟩
    · obtain ⟨rfl, f, hf, hresolve⟩ := Fragment.of_outputNotFound hinput rfl
      exact ⟨⟨f, hf⟩, hresolve⟩
    · cases Fragment.eq_of_mem_chooseOverload hoverload
    · rcases Fragment.problem_of_resolveParam hparam with hunset | ⟨found, hmistyped⟩
      · cases hunset
      · cases hmistyped

/-- **Declared outputs can be used.** Let the catalogue pass its check, and let a joint lead from an
output that the type of its source declares. If the source succeeds, the input at the other end
resolves, in the end as well as when its node is compiled. It stands for a scalar if the output is a
channel, and else for a value of the type that the overload of the source results in. So the node
never reports that the output is missing. -/
theorem declared_output_resolves (types : Catalogue) (env : Envelope) (g : Graph)
    (hcheck : types.check = .ok ()) (j : Joint) (hj : j ∈ g.joints.entries)
    (source : Node) (sourceType : NodeType)
    (hsource : g.Typed types j.source.node source sourceType)
    (houtput : j.source.output ∈ sourceType.outputs.entries) :
    (∀ f, (walk types g).outcome? j.source.node = some (.ok f) →
      ∃ overload result v, g.Selects types j.source.node overload result ∧
        v.type = (if j.source.output = .all then result else .scalar) ∧
        Fragment.resolveInput j.dest.node (g.jointsInto j.dest.node) (walk types g).outcome?
          j.dest.input = .ok (Fragment.inputPlaceholder j.dest.input, v) ∧
        ∀ k frame, (stageAt types g k).compiles? = some frame → frame.node.id = j.dest.node →
          Fragment.resolveInput frame.node.id frame.joints (stageAt types g k).walk.outcome?
            j.dest.input = .ok (Fragment.inputPlaceholder j.dest.input, v)) ∧
    (∀ d ∈ (walk types g).errorsOf j.dest.node,
      d.problem.message ≠ "Output '" ++ j.source.output.text ++ "' of node " ++
        j.source.node.text ++ " not found for input '" ++ j.dest.input ++ "'") ∧
    ∀ n errors, (n, .error errors) ∈ (g.compile types env).value →
      ∀ d ∈ errors, d.node = j.dest.node →
        d.problem.message ≠ "Output '" ++ j.source.output.text ++ "' of node " ++
          j.source.node.text ++ " not found for input '" ++ j.dest.input ++ "'" := by
  have hresolves : ∀ f, (walk types g).outcome? j.source.node = some (.ok f) →
      ∃ overload result v, g.Selects types j.source.node overload result ∧
        v.type = (if j.source.output = .all then result else .scalar) ∧
        Fragment.resolveInput j.dest.node (g.jointsInto j.dest.node) (walk types g).outcome?
          j.dest.input = .ok (Fragment.inputPlaceholder j.dest.input, v) := by
    intro f hf
    obtain ⟨overload, result, v, hselects, hv, htype⟩ :=
      Walk.exists_output_of_declared hcheck hsource hf houtput
    exact ⟨overload, result, v, hselects, htype, Walk.resolveInput_of_joint hj hf hv⟩
  have hnone : ∀ d ∈ (walk types g).errorsOf j.dest.node,
      d.problem ≠ .outputNotFound j.source.output j.source.node j.dest.input := by
    rintro ⟨n, problem⟩ hd rfl
    obtain rfl : n = j.dest.node := Walk.node_of_mem_errorsOf hd
    obtain ⟨⟨f, hf⟩, hfailed⟩ := Walk.of_outputNotFound hd
    obtain ⟨_, _, v, -, -, hok⟩ := hresolves f hf
    rw [hok] at hfailed
    cases hfailed
  refine ⟨fun f hf => ?_, fun d hd hmessage => ?_, fun n errors hn d hd hnode hmessage => ?_⟩
  · obtain ⟨overload, result, v, hselects, htype, hok⟩ := hresolves f hf
    refine ⟨overload, result, v, hselects, htype, hok, fun k frame hframe hid => ?_⟩
    rw [Stage.resolveInput_eq hframe, hid, hok]
  · exact hnone d hd (Problem.message_eq_outputNotFound_iff.1 hmessage)
  · obtain ⟨rfl, -⟩ := Graph.error_mem_compile hn
    rw [Walk.errors_eq] at hd
    obtain ⟨m, -, hm⟩ := List.mem_flatMap.1 hd
    obtain rfl : m = j.dest.node := (Walk.node_of_mem_errorsOf hm).symm.trans hnode
    exact hnone d hm (Problem.message_eq_outputNotFound_iff.1 hmessage)

namespace Sample

/-- A type of colors that declares one of their channels. -/
def paint : NodeType :=
  (((NodeType.new ⟨"Test", "Paint"⟩).withOutput .all).withOutput .red).withOverload
    ⟨[.color], ["vec4 #node_result = vec4(1.0);"]⟩

def palette : Catalogue := types.put paint

/-- A node that reads the red channel of a color. -/
def painted : Graph :=
  ⟨.ofList [node 1 "Paint", node 2 "Negate"], .ofList [⟨⟨⟨2⟩, "X"⟩, ⟨⟨1⟩, .red⟩⟩]⟩

end Sample

theorem declared_output_resolves_painted :
    ∃ v, v.type = .scalar ∧
      Fragment.resolveInput ⟨2⟩ (Sample.painted.jointsInto ⟨2⟩)
        (walk Sample.palette Sample.painted).outcome? "X" =
          .ok (Fragment.inputPlaceholder "X", v) := by
  have hcheck : Sample.palette.check = .ok () := by
    unfold Catalogue.check
    rw [if_pos (by decide_cbv)]
  obtain ⟨f, hf⟩ := Option.isSome_iff_exists.1
    (show ((walk Sample.palette Sample.painted).fragment? ⟨1⟩).isSome by decide_cbv)
  obtain ⟨hresolves, -⟩ := declared_output_resolves Sample.palette .customary Sample.painted hcheck
    ⟨⟨⟨2⟩, "X"⟩, ⟨⟨1⟩, .red⟩⟩ (by decide_cbv) (Sample.node 1 "Paint") Sample.paint
    ⟨by decide_cbv, by decide_cbv⟩ (by decide_cbv)
  obtain ⟨_, _, v, -, htype, hok, -⟩ := hresolves f (Walk.fragment?_eq_some_iff.1 hf)
  exact ⟨v, htype, hok⟩

end ShaderNodes
