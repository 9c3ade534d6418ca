import Mathlib
import ShaderNodes.Proofs.Deletion
import ShaderNodes.Proofs.LongestMatch
import ShaderNodes.Proofs.Overloads

/-!
# What is reported of a node

Compiling a node goes through its inputs, chooses an overload once all of them are resolved, and
goes through its parameters in any case. What is wrong is gathered on the way by combining checked
results. Here it is told from the declarations of the type alone: input by input, or the missing
overload if the inputs are fine, and then parameter by parameter. An input whose source has failed
is reported by that source; the node fails all the same.

* `Fragment.Wired`, `Fragment.Bound`: what is expected of a node;
* `Fragment.inputReports`, `Fragment.paramReports`: what is said if it is not met;
* `Fragment.exists_compile_iff`: when a node compiles;
* `Fragment.entries_errors_compile`, `Fragment.nodup_errors_compile`: what is reported otherwise;
* `node_reports_each_problem_once`: the theorem.
-/

namespace ShaderNodes

universe u v

namespace Fragment

/-! ## What is expected of a node -/

/-- The joint into the input comes from a node that has succeeded, which exposes `v` there. -/
def Wired (joints : List Joint) (lookup : NodeId → Option Outcome) (input : String)
    (v : Variable) : Prop :=
  ∃ j source, (joints.find? fun j => j.dest.input = input) = some j ∧
    lookup j.source.node = some (.ok source) ∧ source.output? j.source.output = some v

/-- The parameter is bound to a value of its type. -/
def Bound (node : Node) (param : Param) : Prop :=
  ∃ v, node.value? param.name = some v ∧ v.type = param.type

/-- What is said of an input. A source that has failed speaks for itself. -/
def inputReports (joints : List Joint) (lookup : NodeId → Option Outcome) (input : String) :
    List String :=
  match joints.find? fun j => j.dest.input = input with
  | none => ["Input '" ++ input ++ "' not connected"]
  | some j =>
    match lookup j.source.node with
    | none => ["Node for input '" ++ input ++ "' not found"]
    | some (.error _) => []
    | some (.ok source) =>
      if (source.output? j.source.output).isSome then []
      else ["Output '" ++ j.source.output.text ++ "' of node " ++ j.source.node.text ++
        " not found for input '" ++ input ++ "'"]

/-- What is said of a parameter. -/
def paramReports (node : Node) (param : Param) : List String :=
  match node.value? param.name with
  | none => ["Parameter '" ++ param.name ++ "' not set"]
  | some v =>
    if v.type = param.type then []
    else ["Parameter '" ++ param.name ++ "' has wrong type, expected '" ++ param.type.text ++
      "', got '" ++ v.type.text ++ "'"]

end Fragment

/-- The node and the text of a diagnostic. -/
def Diagnostic.entry (d : Diagnostic) : NodeId × String := (d.node, d.problem.message)

/-- The input (left) or the parameter (right) that a problem is about. -/
def Problem.subject : Problem → Option (String ⊕ String)
  | notConnected input | sourceNotFound input | outputNotFound _ _ input => some (.inl input)
  | paramNotSet param | paramMistyped param .. => some (.inr param)
  | _ => none

/-- Elements that each give rise to at most one item, labelled by the element. -/
theorem map_flatMap_sublist {α : Type u} {β γ : Type v} {f : α → List β} {label : β → γ}
    {key : α → γ} (h : ∀ x, ((f x).map label).Sublist [key x]) (xs : List α) :
    ((xs.flatMap f).map label).Sublist (xs.map key) := by
  induction xs with
  | nil => exact List.Sublist.refl _
  | cons x xs ih =>
    rw [List.flatMap_cons, List.map_append]
    exact (h x).append ih

theorem Variable.keys_outputs (v : Variable) : v.outputs.map Prod.fst = v.type.outputs := by
  unfold outputs
  cases v.type <;> rfl

namespace NodeType

/-- Some overload of the type takes values of the given types. -/
def Takes (t : NodeType) (types : List ValueType) : Prop :=
  ∃ o ∈ t.code, ∃ result, o.Takes types result

theorem overload?_isSome_iff {t : NodeType} {types : List ValueType} :
    (t.overload? types).isSome = true ↔ t.Takes types := by
  unfold Takes
  rw [Option.isSome_iff_ne_none, Ne, overload?_eq_none_iff]
  push Not
  rfl

end NodeType

namespace Fragment

variable {node : Node} {type : NodeType} {joints : List Joint} {dependencies : List NodeId}
  {lookup : NodeId → Option Outcome}

/-! ## Inputs -/

theorem wired_iff {id : NodeId} {input : String} {v : Variable} :
    Wired joints lookup input v ↔
      resolveInput id joints lookup input = .ok (inputPlaceholder input, v) := by
  rw [resolveInput_eq_ok_iff]
  unfold Wired
  simp

/-- Resolving all inputs is finding a wire for each of them. -/
theorem forall₂_wired_iff (id : NodeId) {inputs : List String} {wires : List Variable} :
    List.Forall₂ (Wired joints lookup) inputs wires ↔
      ∃ resolved : List (String × Variable),
        inputs.map (resolveInput id joints lookup) = resolved.map .ok ∧
          resolved.map Prod.snd = wires := by
  induction inputs generalizing wires with
  | nil => simp [eq_comm]
  | cons input inputs ih =>
    constructor
    · rintro (_ | ⟨hwired, hrest⟩)
      obtain ⟨resolved, hresolved, rfl⟩ := ih.1 hrest
      refine ⟨(inputPlaceholder input, _) :: resolved, ?_, rfl⟩
      rw [List.map_cons, List.map_cons, hresolved, wired_iff.1 hwired]
    · rintro ⟨resolved, hresolved, rfl⟩
      cases resolved with
      | nil => simp at hresolved
      | cons r resolved =>
        obtain ⟨hr, hrest⟩ := List.cons.inj hresolved
        obtain ⟨j, source, hj, hsource, hv, -⟩ := resolveInput_eq_ok_iff.1 hr
        exact .cons ⟨j, source, hj, hsource, hv⟩ (ih.2 ⟨resolved, hrest, rfl⟩)

theorem entries_resolveInput (id : NodeId) (joints : List Joint)
    (lookup : NodeId → Option Outcome) (input : String) :
    (Checked.errors (resolveInput id joints lookup input)).map Diagnostic.entry =
      (inputReports joints lookup input).map fun text => (id, text) := by
  unfold resolveInput inputReports
  cases joints.find? fun j => j.dest.input = input with
  | none => rfl
  | some j =>
    dsimp only
    cases lookup j.source.node with
    | none => rfl
    | some o =>
      cases o with
      | error errors => rfl
      | ok source =>
        dsimp only
        cases source.output? j.source.output <;> rfl

/-! ## Parameters -/

theorem bound_iff {param : Param} :
    Bound node param ↔ ∃ r, resolveParam node param = .ok r := by
  unfold Bound resolveParam
  cases node.value? param.name with
  | none => simp
  | some v => by_cases h : v.type = param.type <;> simp [h]

theorem forall_bound_iff {params : List Param} :
    (∀ param ∈ params, Bound node param) ↔
      ∃ resolved : List (String × String), params.map (resolveParam node) = resolved.map .ok := by
  induction params with
  | nil => simp
  | cons param params ih =>
    rw [List.forall_mem_cons, ih, bound_iff]
    constructor
    · rintro ⟨⟨r, hr⟩, resolved, hresolved⟩
      exact ⟨r :: resolved, by rw [List.map_cons, List.map_cons, hr, hresolved]⟩
    · rintro ⟨resolved, hresolved⟩
      cases resolved with
      | nil => simp at hresolved
      | cons r resolved =>
        obtain ⟨hr, hrest⟩ := List.cons.inj hresolved
        exact ⟨⟨r, hr⟩, resolved, hrest⟩

/-- The errors of a parameter, as a list. -/
def paramErrors (node : Node) (param : Param) : List Diagnostic :=
  Checked.errors ((resolveParam node param).mapError fun d => [d])

theorem entries_paramErrors (node : Node) (param : Param) :
    (paramErrors node param).map Diagnostic.entry =
      (paramReports node param).map fun text => (node.id, text) := by
  unfold paramErrors resolveParam paramReports
  cases node.value? param.name with
  | none => rfl
  | some v =>
    dsimp only
    split <;> rfl

/-! ## Compiling a node -/

/-- The inputs are resolved before an overload is chosen. -/
def choice (node : NodeId) (type : NodeType) (joints : List Joint)
    (lookup : NodeId → Option Outcome) : Checked Diagnostic (Overload × ValueType) :=
  Checked.all (type.inputs.entries.map (resolveInput node joints lookup)) >>=
    chooseOverload node type

/-- A node reports what goes wrong with the choice of an overload and then each parameter. -/
theorem errors_compile (node : Node) (type : NodeType) (joints : List Joint)
    (dependencies : List NodeId) (lookup : NodeId → Option Outcome) :
    Checked.errors (compile node type joints dependencies lookup) =
      (choice node.id type joints lookup).errors ++
        type.params.entries.flatMap (paramErrors node) := by
  have hpure {α β : Type} (x : Checked Diagnostic α) (k : α → β) :
      Checked.errors (x >>= fun a => pure (k a)) = x.errors := by
    cases x <;> rfl
  unfold compile choice
  rw [hpure, Checked.errors_both]
  congr 1
  · cases Checked.all (type.inputs.entries.map (resolveInput node.id joints lookup)) with
    | error errors => rfl
    | ok inputs => exact hpure _ _
  · unfold Checked.each
    rw [Checked.errors_all, List.map_map, List.flatMap_map]
    rfl

/-- An input that is not resolved keeps the overloads from being looked at. -/
theorem errors_choice_of_not_wired (id : NodeId)
    (h : ¬ ∃ wires, List.Forall₂ (Wired joints lookup) type.inputs.entries wires) :
    (choice id type joints lookup).errors =
      type.inputs.entries.flatMap fun input =>
        Checked.errors (resolveInput id joints lookup input) := by
  unfold choice
  rw [← List.flatMap_map (resolveInput id joints lookup) Checked.errors, ← Checked.errors_all]
  cases hall : Checked.all (type.inputs.entries.map (resolveInput id joints lookup)) with
  | error errors => rfl
  | ok resolved =>
    exact absurd ⟨_, (forall₂_wired_iff id).2 ⟨resolved, Checked.all_eq_ok_iff.1 hall, rfl⟩⟩ h

theorem choice_of_wired (id : NodeId) {wires : List Variable}
    (h : List.Forall₂ (Wired joints lookup) type.inputs.entries wires) :
    choice id type joints lookup =
      (type.overload? (wires.map Variable.type)).elim (.error [⟨id, .noOverload⟩]) .ok := by
  obtain ⟨resolved, hresolved, rfl⟩ := (forall₂_wired_iff id).1 h
  unfold choice chooseOverload
  rw [Checked.all_eq_ok_iff.2 hresolved, List.map_map]
  dsimp only [bind, Except.bind, Function.comp_def]
  cases type.overload? (resolved.map fun i => i.2.type) <;> rfl

/-- A node compiles when its inputs are wired, an overload takes them and its parameters are
bound. -/
theorem exists_compile_iff :
    (∃ f, compile node type joints dependencies lookup = .ok f) ↔
      (∃ wires, List.Forall₂ (Wired joints lookup) type.inputs.entries wires ∧
        type.Takes (wires.map Variable.type)) ∧
      ∀ param ∈ type.params.entries, Bound node param := by
  simp only [forall_bound_iff, forall₂_wired_iff node.id, ← NodeType.overload?_isSome_iff,
    Option.isSome_iff_exists]
  constructor
  · rintro ⟨f, h⟩
    obtain ⟨inputs, overload, result, params, hinputs, hoverload, hparams, -⟩ :=
      compile_eq_ok_iff.1 h
    refine ⟨⟨_, ⟨inputs, hinputs, rfl⟩, (overload, result), ?_⟩, params, hparams⟩
    rw [List.map_map]
    exact hoverload
  · rintro ⟨⟨_, ⟨inputs, hinputs, rfl⟩, ⟨overload, result⟩, hoverload⟩, params, hparams⟩
    rw [List.map_map] at hoverload
    exact ⟨_, compile_eq_ok_iff.2
      ⟨inputs, overload, result, params, hinputs, hoverload, hparams, rfl⟩⟩

/-! ## Nothing is said twice -/

theorem subjects_resolveInput (id : NodeId) (joints : List Joint)
    (lookup : NodeId → Option Outcome) (input : String) :
    ((Checked.errors (resolveInput id joints lookup input)).map fun d => d.problem.subject).Sublist
      [some (.inl input)] := by
  unfold resolveInput
  split
  · exact List.Sublist.refl _
  · split
    · split
      · exact List.nil_sublist _
      · exact List.Sublist.refl _
    · exact List.nil_sublist _
    · exact List.Sublist.refl _

theorem subjects_paramErrors (node : Node) (param : Param) :
    ((paramErrors node param).map fun d => d.problem.subject).Sublist
      [some (.inr param.name)] := by
  unfold paramErrors resolveParam
  split
  · exact List.Sublist.refl _
  · split
    · exact List.nil_sublist _
    · exact List.Sublist.refl _

theorem subjects_choice (id : NodeId) (type : NodeType) (joints : List Joint)
    (lookup : NodeId → Option Outcome) :
    ((choice id type joints lookup).errors.map fun d => d.problem.subject).Sublist
      (type.inputs.entries.map (fun input => some (.inl input)) ++ [none]) := by
  by_cases h : ∃ wires, List.Forall₂ (Wired joints lookup) type.inputs.entries wires
  · obtain ⟨wires, hwires⟩ := h
    rw [choice_of_wired id hwires]
    cases type.overload? (wires.map Variable.type) with
    | none => exact List.sublist_append_right _ _
    | some chosen => exact List.nil_sublist _
  · rw [errors_choice_of_not_wired _ h]
    exact (map_flatMap_sublist (subjects_resolveInput id joints lookup) _).trans
      (List.sublist_append_left _ _)

/-- No problem of a node is reported twice. -/
theorem nodup_errors_compile (node : Node) (type : NodeType) (joints : List Joint)
    (dependencies : List NodeId) (lookup : NodeId → Option Outcome) :
    (Checked.errors (compile node type joints dependencies lookup)).Nodup := by
  have hinputs : type.inputs.entries.Nodup :=
    List.map_id type.inputs.entries ▸ type.inputs.nodup_keys
  have hparams : (type.params.entries.map Param.name).Nodup := type.params.nodup_keys
  have hsubjects : (type.inputs.entries.map (fun input => some (.inl input)) ++ [none] ++
      type.params.entries.map fun param => some (.inr param.name) :
        List (Option (String ⊕ String))).Nodup := by
    refine List.Nodup.append (List.Nodup.append ?_ (List.nodup_singleton _) ?_) ?_ ?_
    · exact hinputs.map fun _ _ h => Sum.inl.inj (Option.some.inj h)
    · simp
    · have hnames := hparams.map (f := fun name => (some (.inr name) : Option (String ⊕ String)))
        fun _ _ h => Sum.inr.inj (Option.some.inj h)
      rwa [List.map_map] at hnames
    · intro subject hsubject hparam
      obtain ⟨param, -, rfl⟩ := List.mem_map.1 hparam
      simp at hsubject
  rw [errors_compile]
  refine List.Nodup.of_map (fun d => d.problem.subject) ?_
  rw [List.map_append]
  exact hsubjects.sublist ((subjects_choice node.id type joints lookup).append
    (map_flatMap_sublist (subjects_paramErrors node) _))

/-- The overload that a node has been compiled with, and what it exposes then. -/
theorem exists_overload_of_compile {f : Fragment}
    (h : compile node type joints dependencies lookup = .ok f) :
    ∃ wires table before o after result,
      List.Forall₂ (Wired joints lookup) type.inputs.entries wires ∧
      Builds node type joints lookup table ∧ type.code = before ++ o :: after ∧
      o.Takes (wires.map Variable.type) result ∧
      (∀ other ∈ before, ∀ r, ¬ other.Takes (wires.map Variable.type) r) ∧
      f.code = Template.fill table o.code ∧
      f.outputs = Variable.outputs ⟨resultName node.id, result⟩ := by
  obtain ⟨inputs, overload, result, params, hinputs, hoverload, hparams, rfl⟩ :=
    compile_eq_ok_iff.1 h
  have hwires : List.Forall₂ (Wired joints lookup) type.inputs.entries (inputs.map Prod.snd) :=
    (forall₂_wired_iff node.id).2 ⟨inputs, hinputs, rfl⟩
  have htypes : (inputs.map Prod.snd).map Variable.type = inputs.map fun i => i.2.type :=
    List.map_map
  obtain ⟨before, after, hcode, htakes, hbefore⟩ := NodeType.overload?_eq_some_iff.1 hoverload
  rw [← htypes] at htakes hbefore
  exact ⟨_, _, before, overload, after, result, hwires, ⟨inputs, params, hinputs, hparams, rfl⟩,
    hcode, htakes, hbefore, rfl, rfl⟩

/-- The errors of a node in words, as they follow from the declarations of its type. -/
theorem entries_errors_compile (node : Node) (type : NodeType) (joints : List Joint)
    (dependencies : List NodeId) (lookup : NodeId → Option Outcome) :
    ∃ front, (Checked.errors (compile node type joints dependencies lookup)).map Diagnostic.entry =
        (front ++ type.params.entries.flatMap (paramReports node)).map
          (fun text => (node.id, text)) ∧
      ((¬ ∃ wires, List.Forall₂ (Wired joints lookup) type.inputs.entries wires) ∧
          front = type.inputs.entries.flatMap (inputReports joints lookup) ∨
        ∃ wires, List.Forall₂ (Wired joints lookup) type.inputs.entries wires ∧
          (¬ type.Takes (wires.map Variable.type) ∧ front = ["No suitable overload found"] ∨
            type.Takes (wires.map Variable.type) ∧ front = [])) := by
  have hparams : (type.params.entries.flatMap (paramErrors node)).map Diagnostic.entry =
      (type.params.entries.flatMap (paramReports node)).map fun text => (node.id, text) := by
    simp only [List.map_flatMap, entries_paramErrors]
  simp only [errors_compile, List.map_append, hparams]
  by_cases h : ∃ wires, List.Forall₂ (Wired joints lookup) type.inputs.entries wires
  · obtain ⟨wires, hwires⟩ := h
    have hchoice := choice_of_wired node.id hwires
    by_cases htakes : type.Takes (wires.map Variable.type)
    · obtain ⟨chosen, hchosen⟩ :=
        Option.isSome_iff_exists.1 (NodeType.overload?_isSome_iff.2 htakes)
      refine ⟨[], ?_, Or.inr ⟨wires, hwires, Or.inr ⟨htakes, rfl⟩⟩⟩
      rw [hchoice, hchosen]
      rfl
    · have hnone := Option.not_isSome_iff_eq_none.1 (mt NodeType.overload?_isSome_iff.1 htakes)
      refine ⟨_, ?_, Or.inr ⟨wires, hwires, Or.inl ⟨htakes, rfl⟩⟩⟩
      rw [hchoice, hnone]
      rfl
  · refine ⟨_, congrArg (· ++ _) ?_, Or.inl ⟨h, rfl⟩⟩
    simp only [errors_choice_of_not_wired _ h, List.map_flatMap, entries_resolveInput]

end Fragment

/-- **A node reports each of its problems once, in order, and nothing else.** It compiles exactly
when each of its inputs is wired to what a successful node exposes, some overload takes these types,
and each parameter is bound to a value of its type. If not, it says what is wrong with each input or,
if all of them are wired, that no overload takes them, and then what is wrong with each parameter. An
input from a failed node is not mentioned. If it compiles, then with the first overload that takes
its inputs, and it exposes what the type of the result provides. -/
theorem node_reports_each_problem_once (node : Node) (type : NodeType) (joints : List Joint)
    (dependencies : List NodeId) (lookup : NodeId → Option Outcome) :
    ((∃ f, Fragment.compile node type joints dependencies lookup = .ok f) ↔
      (∃ wires, List.Forall₂ (Fragment.Wired joints lookup) type.inputs.entries wires ∧
        type.Takes (wires.map Variable.type)) ∧
      ∀ param ∈ type.params.entries, Fragment.Bound node param) ∧
    (∀ errors, Fragment.compile node type joints dependencies lookup = .error errors →
      errors.Nodup ∧ ∃ front,
        errors.map Diagnostic.entry =
          (front ++ type.params.entries.flatMap (Fragment.paramReports node)).map
            (fun text => (node.id, text)) ∧
        ((¬ ∃ wires, List.Forall₂ (Fragment.Wired joints lookup) type.inputs.entries wires) ∧
            front = type.inputs.entries.flatMap (Fragment.inputReports joints lookup) ∨
          ∃ wires, List.Forall₂ (Fragment.Wired joints lookup) type.inputs.entries wires ∧
            (¬ type.Takes (wires.map Variable.type) ∧ front = ["No suitable overload found"] ∨
              type.Takes (wires.map Variable.type) ∧ front = []))) ∧
    ∀ f, Fragment.compile node type joints dependencies lookup = .ok f →
      ∃ wires table before o after result,
        List.Forall₂ (Fragment.Wired joints lookup) type.inputs.entries wires ∧
        Fragment.Builds node type joints lookup table ∧ type.code = before ++ o :: after ∧
        o.Takes (wires.map Variable.type) result ∧
        (∀ other ∈ before, ∀ r, ¬ other.Takes (wires.map Variable.type) r) ∧
        f.code = Template.fill table o.code ∧
        f.outputs.map Prod.fst = result.outputs ∧
        f.output? .all = some ⟨Fragment.resultName node.id, result⟩ ∧
        ∀ output v, f.output? output = some v →
          v.type = if output = .all then result else .scalar := by
  refine ⟨Fragment.exists_compile_iff, fun errors h => ?_, fun f h => ?_⟩
  · have hnodup := Fragment.nodup_errors_compile node type joints dependencies lookup
    have hentries := Fragment.entries_errors_compile node type joints dependencies lookup
    rw [h] at hnodup hentries
    exact ⟨hnodup, hentries⟩
  · obtain ⟨wires, table, before, o, after, result, hwires, htable, hcode, htakes, hbefore, hfill,
      houtputs⟩ := Fragment.exists_overload_of_compile h
    refine ⟨wires, table, before, o, after, result, hwires, htable, hcode, htakes, hbefore, hfill,
      ?_, ?_, fun output v hv => ?_⟩
    · rw [houtputs, Variable.keys_outputs]
    · unfold Fragment.output?
      rw [houtputs]
      rfl
    · unfold Fragment.output? at hv
      rw [houtputs] at hv
      exact Variable.type_of_lookup hv

namespace Sample

/-- What a node without inputs contributes. -/
def one : Fragment :=
  ⟨[], .empty, ["float node1_result = 1.0;"], [(.all, ⟨"node1_result", .scalar⟩)]⟩

end Sample

/-- An input that is not connected and a parameter that is not set are reported, and an input from a
failed node is not. -/
theorem node_reports_each_problem_once_sum :
    (∃ errors, Fragment.compile (Sample.node 3 "Sum") (Sample.sum.withParam "K" .scalar)
        [Sample.joint 1 3 "B"] [⟨1⟩] (fun _ => some (.error [])) = .error errors ∧ errors.Nodup ∧
      errors.map Diagnostic.entry =
        [(⟨3⟩, "Input 'A' not connected"), (⟨3⟩, "Parameter 'K' not set")]) ∧
    ∃ f result, Fragment.compile (Sample.node 3 "Sum") Sample.sum
        [Sample.joint 1 3 "A", Sample.joint 1 3 "B"] [⟨1⟩] (fun _ => some (.ok Sample.one)) =
          .ok f ∧
      f.outputs.map Prod.fst = result.outputs ∧
      f.output? .all = some ⟨"node3_result", result⟩ := by
  constructor
  · have hcompile : Fragment.compile (Sample.node 3 "Sum") (Sample.sum.withParam "K" .scalar)
        [Sample.joint 1 3 "B"] [⟨1⟩] (fun _ => some (.error [])) =
          .error [⟨⟨3⟩, .notConnected "A"⟩, ⟨⟨3⟩, .paramNotSet "K"⟩] := by decide_cbv
    obtain ⟨hnodup, front, hentries, hfront⟩ :=
      (node_reports_each_problem_once _ _ _ _ _).2.1 _ hcompile
    refine ⟨_, hcompile, hnodup, hentries.trans ?_⟩
    rcases hfront with ⟨-, rfl⟩ | ⟨wires, hwires, -⟩
    · decide_cbv
    · have hinputs : (Sample.sum.withParam "K" .scalar).inputs.entries = ["A", "B"] := by decide_cbv
      rw [hinputs] at hwires
      obtain _ | ⟨⟨j, source, hj, -⟩, -⟩ := hwires
      exact absurd hj (by simp [Sample.joint])
  · obtain ⟨f, hcompile⟩ : ∃ f, Fragment.compile (Sample.node 3 "Sum") Sample.sum
        [Sample.joint 1 3 "A", Sample.joint 1 3 "B"] [⟨1⟩] (fun _ => some (.ok Sample.one)) =
          .ok f :=
      Checked.succeeds_iff.1 (by decide_cbv)
    obtain ⟨_, _, _, _, _, result, -, -, -, -, -, -, houtputs, hall, -⟩ :=
      (node_reports_each_problem_once _ _ _ _ _).2.2 f hcompile
    have hname : Fragment.resultName ⟨3⟩ = "node3_result" := by decide_cbv
    exact ⟨f, result, hcompile, houtputs, hname ▸ hall⟩

end ShaderNodes
