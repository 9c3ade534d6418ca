import ShaderNodes.Emit.Fragment

/-!
# What compiling a node depends on

Compiling a node reads the outcomes of the nodes in front of it, but of a failed one it sees only
that it has failed. So two lookups that show the same fragments and the same failures give the same
result.

* `Checked.all_eq_ok_iff`: a list succeeds as a whole when every element succeeds;
* `Fragment.compile_eq_ok_iff`: when a node compiles, and to what;
* `Fragment.compile_congr`: what compiling a node depends on;
* `Fragment.exists_failed_source_of_compile`: a failure without an error is another node's failure;
* `Fragment.mem_errors_compile`: the errors of a node carry its number and report no cycles.
-/

namespace ShaderNodes

universe u v

/-! ## Checked results -/

namespace Checked

variable {ε : Type u} {α β : Type v}

theorem succeeds_iff {x : Checked ε α} : x.succeeds = true ↔ ∃ a, x = .ok a := by
  cases x with
  | ok a => simp [succeeds]
  | error es => simp [succeeds]

theorem value?_eq_some_iff {x : Checked ε α} {a : α} : x.value? = some a ↔ x = .ok a := by
  cases x with
  | ok b => simp [value?]
  | error es => simp [value?]

theorem filterMap_value?_map_ok (as : List α) :
    (as.map (Except.ok : α → Checked ε α)).filterMap value? = as := by
  induction as with
  | nil => rfl
  | cons a as ih => simp only [List.map_cons, List.filterMap_cons, value?, ih]

theorem map_ok_filterMap_value? {xs : List (Checked ε α)} (h : xs.all succeeds = true) :
    xs = (xs.filterMap value?).map .ok := by
  induction xs with
  | nil => rfl
  | cons x xs ih =>
    simp only [List.all_cons, Bool.and_eq_true] at h
    obtain ⟨a, rfl⟩ := succeeds_iff.1 h.1
    simp only [List.filterMap_cons, value?, List.map_cons]
    rw [← ih h.2]

theorem all_eq_ok_iff {xs : List (Checked ε α)} {as : List α} :
    all xs = .ok as ↔ xs = as.map .ok := by
  unfold all
  constructor
  · intro h
    split at h
    · next hall =>
      cases h
      exact map_ok_filterMap_value? hall
    · cases h
  · rintro rfl
    rw [if_pos (by simp [succeeds]), filterMap_value?_map_ok]

/-- The errors of a list are those of its elements. -/
theorem mem_errors_all {xs : List (Checked ε α)} {e : ε} (h : e ∈ (all xs).errors) :
    ∃ x ∈ xs, e ∈ x.errors := by
  unfold all at h
  split at h
  · simp [errors] at h
  · exact List.mem_flatMap.1 h

theorem each_eq_ok_iff {xs : List (Except ε α)} {as : List α} :
    each xs = .ok as ↔ xs = as.map .ok := by
  unfold each
  rw [all_eq_ok_iff]
  induction xs generalizing as with
  | nil => cases as <;> simp
  | cons x xs ih =>
    cases as with
    | nil => simp
    | cons a as =>
      have hhead : x.mapError (fun e => [e]) = .ok a ↔ x = .ok a := by
        cases x with
        | ok b =>
          exact ⟨fun h => congrArg _ (Except.ok.inj h), fun h => congrArg _ (Except.ok.inj h)⟩
        | error e => exact ⟨nofun, nofun⟩
      simp only [List.map_cons, List.cons.injEq, ih, hhead]

theorem mem_errors_each {xs : List (Except ε α)} {e : ε} (h : e ∈ (each xs).errors) :
    .error e ∈ xs := by
  obtain ⟨x, hx, he⟩ := mem_errors_all h
  obtain ⟨y, hy, rfl⟩ := List.mem_map.1 hx
  cases y with
  | ok a => cases he
  | error e' =>
    obtain rfl : e = e' := List.mem_singleton.1 he
    exact hy

theorem both_eq_ok_iff {x : Checked ε α} {y : Checked ε β} {p : α × β} :
    both x y = .ok p ↔ x = .ok p.1 ∧ y = .ok p.2 := by
  cases x <;> cases y <;> simp [both, Prod.ext_iff]

theorem mem_errors_both {x : Checked ε α} {y : Checked ε β} {e : ε}
    (h : e ∈ (both x y).errors) : e ∈ x.errors ∨ e ∈ y.errors := by
  cases x with
  | ok a => exact Or.inr (by cases y <;> exact h)
  | error es =>
    cases y with
    | ok b => exact Or.inl h
    | error fs => exact List.mem_append.1 h

theorem bind_eq_ok_iff {x : Checked ε α} {k : α → Checked ε β} {b : β} :
    (x >>= k) = .ok b ↔ ∃ a, x = .ok a ∧ k a = .ok b := by
  cases x <;> simp [bind, Except.bind]

theorem mem_errors_bind {x : Checked ε α} {k : α → Checked ε β} {e : ε}
    (h : e ∈ errors (x >>= k)) : e ∈ x.errors ∨ ∃ a, x = .ok a ∧ e ∈ (k a).errors := by
  cases x with
  | ok a => exact Or.inr ⟨a, rfl, h⟩
  | error es => exact Or.inl h

/-! A failure without an error stands for another failure. -/

theorem silent_mem_of_all {xs : List (Checked ε α)} (h : all xs = .error []) : .error [] ∈ xs := by
  unfold all at h
  split at h
  · cases h
  · next hall =>
    obtain ⟨x, hx, hfailed⟩ : ∃ x ∈ xs, x.succeeds = false := by simpa using hall
    have hnone := List.flatMap_eq_nil_iff.1 (Except.error.inj h) x hx
    cases x with
    | ok a => cases hfailed
    | error es =>
      obtain rfl : es = [] := hnone
      exact hx

theorem each_ne_silent (xs : List (Except ε α)) : each xs ≠ .error [] := by
  intro h
  obtain ⟨x, -, hx⟩ := List.mem_map.1 (silent_mem_of_all h)
  cases x <;> cases hx

theorem silent_of_both {x : Checked ε α} {y : Checked ε β} (h : both x y = .error []) :
    x = .error [] ∨ y = .error [] := by
  cases x with
  | ok a =>
    cases y with
    | ok b => cases h
    | error fs => exact Or.inr (congrArg _ (Except.error.inj h))
  | error es =>
    refine Or.inl (congrArg _ ?_)
    cases y with
    | ok b => exact Except.error.inj h
    | error fs => exact (List.append_eq_nil_iff.1 (Except.error.inj h)).1

theorem bind_eq_error_iff {x : Checked ε α} {k : α → Checked ε β} {es : List ε} :
    (x >>= k) = .error es ↔ x = .error es ∨ ∃ a, x = .ok a ∧ k a = .error es := by
  cases x <;> simp [bind, Except.bind]

end Checked

/-- The nodes along the cycle that a problem reports. -/
def Problem.cycle? : Problem → Option (List NodeId)
  | cycle path => some path
  | _ => none

/-- An error of the node `id` that does not report a cycle. -/
def Diagnostic.Plain (id : NodeId) (d : Diagnostic) : Prop :=
  d.node = id ∧ d.problem.cycle? = none

namespace Fragment

/-! ## Inputs and parameters -/

theorem resolveInput_congr {node : NodeId} {joints : List Joint}
    {lookup lookup' : NodeId → Option Outcome}
    (h : ∀ j ∈ joints,
      (lookup j.source.node).map Checked.value? = (lookup' j.source.node).map Checked.value?)
    (input : String) :
    resolveInput node joints lookup input = resolveInput node joints lookup' input := by
  unfold resolveInput
  split
  · rfl
  · next j hj =>
    have hsame := h j (List.mem_of_find?_eq_some hj)
    -- A success is seen as a whole, a failure only as such.
    cases hl : lookup j.source.node with
    | none =>
      cases hl' : lookup' j.source.node with
      | none => rfl
      | some o => simp [hl, hl'] at hsame
    | some o =>
      cases hl' : lookup' j.source.node with
      | none => simp [hl, hl'] at hsame
      | some o' =>
        cases o <;> cases o' <;> simp_all [Checked.value?]

/-- A resolved input is fed by a node that has succeeded and exposes the output. -/
theorem resolveInput_eq_ok_iff {node : NodeId} {joints : List Joint}
    {lookup : NodeId → Option Outcome} {input : String} {r : String × Variable} :
    resolveInput node joints lookup input = .ok r ↔
      ∃ j source, (joints.find? fun j => j.dest.input = input) = some j ∧
        lookup j.source.node = some (.ok source) ∧
        source.output? j.source.output = some r.2 ∧ r.1 = inputPlaceholder input := by
  unfold resolveInput
  constructor
  · intro h
    split at h
    · cases h
    · next j hj =>
      split at h
      · next source hsource =>
        split at h
        · next v hv =>
          cases h
          exact ⟨j, source, hj, hsource, hv, rfl⟩
        · cases h
      · cases h
      · cases h
  · rintro ⟨j, source, hj, hsource, hv, hr⟩
    rw [hj]
    simp only [hsource, hv, ← hr]

theorem mem_errors_resolveInput {node : NodeId} {joints : List Joint}
    {lookup : NodeId → Option Outcome} {input : String} {d : Diagnostic}
    (h : d ∈ (resolveInput node joints lookup input).errors) : d.Plain node := by
  unfold resolveInput at h
  split at h
  · rw [List.mem_singleton.1 h]
    exact ⟨rfl, rfl⟩
  · split at h
    · split at h
      · simp [Checked.errors] at h
      · rw [List.mem_singleton.1 h]
        exact ⟨rfl, rfl⟩
    · simp [Checked.errors] at h
    · rw [List.mem_singleton.1 h]
      exact ⟨rfl, rfl⟩

theorem exists_failed_source_of_resolveInput {node : NodeId} {joints : List Joint}
    {lookup : NodeId → Option Outcome} {input : String}
    (h : resolveInput node joints lookup input = .error []) :
    ∃ j errors, (joints.find? fun j => j.dest.input = input) = some j ∧
      lookup j.source.node = some (.error errors) := by
  unfold resolveInput at h
  split at h
  · cases h
  · next j hj =>
    split at h
    · split at h <;> cases h
    · next errors hfailed => exact ⟨j, errors, hj, hfailed⟩
    · cases h

theorem resolveParam_error {node : Node} {param : Param} {d : Diagnostic}
    (h : resolveParam node param = .error d) : d.Plain node.id := by
  unfold resolveParam at h
  split at h
  · cases h
    exact ⟨rfl, rfl⟩
  · split at h
    · cases h
    · cases h
      exact ⟨rfl, rfl⟩

theorem chooseOverload_eq_ok_iff {node : NodeId} {type : NodeType}
    {inputs : List (String × Variable)} {chosen : Overload × ValueType} :
    chooseOverload node type inputs = .ok chosen ↔
      type.overload? (inputs.map fun i => i.2.type) = some chosen := by
  unfold chooseOverload
  split <;> simp_all

theorem mem_errors_chooseOverload {node : NodeId} {type : NodeType}
    {inputs : List (String × Variable)} {d : Diagnostic}
    (h : d ∈ (chooseOverload node type inputs).errors) : d.Plain node := by
  unfold chooseOverload at h
  split at h
  · simp [Checked.errors] at h
  · rw [List.mem_singleton.1 h]
    exact ⟨rfl, rfl⟩

theorem chooseOverload_ne_silent (node : NodeId) (type : NodeType)
    (inputs : List (String × Variable)) : chooseOverload node type inputs ≠ .error [] := by
  unfold chooseOverload
  split <;> simp

/-! ## Compiling a node -/

/-- The fragment made from resolved inputs, a chosen overload and literals. -/
def make (node : NodeId) (type : NodeType) (dependencies : List NodeId)
    (inputs : List (String × Variable)) (overload : Overload) (result : ValueType)
    (params : List (String × String)) : Fragment where
  dependencies := dependencies
  globals := type.globals
  code := Template.fill (table node inputs params) overload.code
  outputs := Variable.outputs ⟨resultName node, result⟩

/-- A node compiles when its inputs are resolved, an overload takes them and its parameters are
bound; then its fragment is made from these. -/
theorem compile_eq_ok_iff {node : Node} {type : NodeType} {joints : List Joint}
    {dependencies : List NodeId} {lookup : NodeId → Option Outcome} {f : Fragment} :
    compile node type joints dependencies lookup = .ok f ↔
      ∃ inputs overload result params,
        type.inputs.entries.map (resolveInput node.id joints lookup) = inputs.map .ok ∧
        type.overload? (inputs.map fun i => i.2.type) = some (overload, result) ∧
        type.params.entries.map (resolveParam node) = params.map .ok ∧
        f = make node.id type dependencies inputs overload result params := by
  unfold compile
  rw [Checked.bind_eq_ok_iff]
  constructor
  · rintro ⟨⟨⟨inputs, overload, result⟩, params⟩, hboth, hf⟩
    obtain ⟨hchosen, hparams⟩ := Checked.both_eq_ok_iff.1 hboth
    obtain ⟨inputs', hinputs, hchosen⟩ := Checked.bind_eq_ok_iff.1 hchosen
    obtain ⟨chosen, hchoose, hpure⟩ := Checked.bind_eq_ok_iff.1 hchosen
    cases hpure
    cases hf
    exact ⟨inputs, overload, result, params, Checked.all_eq_ok_iff.1 hinputs,
      chooseOverload_eq_ok_iff.1 hchoose, Checked.each_eq_ok_iff.1 hparams, rfl⟩
  · rintro ⟨inputs, overload, result, params, hinputs, hchoose, hparams, rfl⟩
    refine ⟨((inputs, overload, result), params), Checked.both_eq_ok_iff.2 ⟨?_, ?_⟩, rfl⟩
    · refine Checked.bind_eq_ok_iff.2 ⟨inputs, Checked.all_eq_ok_iff.2 hinputs, ?_⟩
      exact Checked.bind_eq_ok_iff.2
        ⟨(overload, result), chooseOverload_eq_ok_iff.2 hchoose, rfl⟩
    · exact Checked.each_eq_ok_iff.2 hparams

/-- Compiling a node depends only on what a lookup shows of the sources of its joints. -/
theorem compile_congr {node : Node} {type : NodeType} {joints : List Joint}
    {dependencies : List NodeId} {lookup lookup' : NodeId → Option Outcome}
    (h : ∀ j ∈ joints,
      (lookup j.source.node).map Checked.value? = (lookup' j.source.node).map Checked.value?) :
    compile node type joints dependencies lookup =
      compile node type joints dependencies lookup' := by
  have hinputs : type.inputs.entries.map (resolveInput node.id joints lookup) =
      type.inputs.entries.map (resolveInput node.id joints lookup') :=
    List.map_congr_left fun input _ => resolveInput_congr h input
  simp only [compile, hinputs]

/-- Every declared input of a node that compiles is fed by a node that has succeeded. -/
theorem exists_source_of_compile {node : Node} {type : NodeType} {joints : List Joint}
    {dependencies : List NodeId} {lookup : NodeId → Option Outcome} {f : Fragment}
    (h : compile node type joints dependencies lookup = .ok f) {input : String}
    (hinput : input ∈ type.inputs.entries) :
    ∃ j source, (joints.find? fun j => j.dest.input = input) = some j ∧
      lookup j.source.node = some (.ok source) := by
  obtain ⟨inputs, overload, result, params, hinputs, -, -, -⟩ := compile_eq_ok_iff.1 h
  have hmem : resolveInput node.id joints lookup input ∈ inputs.map .ok :=
    hinputs ▸ List.mem_map_of_mem hinput
  obtain ⟨r, -, hr⟩ := List.mem_map.1 hmem
  obtain ⟨j, source, hj, hsource, -, -⟩ := resolveInput_eq_ok_iff.1 hr.symm
  exact ⟨j, source, hj, hsource⟩

/-- A node that fails without an error passes on the failure of a node that it reads. -/
theorem exists_failed_source_of_compile {node : Node} {type : NodeType} {joints : List Joint}
    {dependencies : List NodeId} {lookup : NodeId → Option Outcome}
    (h : compile node type joints dependencies lookup = .error []) :
    ∃ input ∈ type.inputs.entries, ∃ j errors,
      (joints.find? fun j => j.dest.input = input) = some j ∧
        lookup j.source.node = some (.error errors) := by
  unfold compile at h
  rcases Checked.bind_eq_error_iff.1 h with h | ⟨_, -, h⟩
  · rcases Checked.silent_of_both h with h | h
    · rcases Checked.bind_eq_error_iff.1 h with h | ⟨inputs, -, h⟩
      · obtain ⟨input, hinput, hfailed⟩ := List.mem_map.1 (Checked.silent_mem_of_all h)
        obtain ⟨j, errors, hj⟩ := exists_failed_source_of_resolveInput hfailed
        exact ⟨input, hinput, j, errors, hj⟩
      · rcases Checked.bind_eq_error_iff.1 h with h | ⟨_, -, h⟩
        · exact absurd h (chooseOverload_ne_silent _ _ _)
        · cases h
    · exact absurd h (Checked.each_ne_silent _)
  · cases h

theorem dependencies_of_compile {node : Node} {type : NodeType} {joints : List Joint}
    {dependencies : List NodeId} {lookup : NodeId → Option Outcome} {f : Fragment}
    (h : compile node type joints dependencies lookup = .ok f) : f.dependencies = dependencies := by
  obtain ⟨inputs, overload, result, params, -, -, -, rfl⟩ := compile_eq_ok_iff.1 h
  rfl

/-- A node that compiles exposes its whole result. -/
theorem output?_all_of_compile {node : Node} {type : NodeType} {joints : List Joint}
    {dependencies : List NodeId} {lookup : NodeId → Option Outcome} {f : Fragment}
    (h : compile node type joints dependencies lookup = .ok f) :
    ∃ result, f.output? .all = some result := by
  obtain ⟨inputs, overload, result, params, -, -, -, rfl⟩ := compile_eq_ok_iff.1 h
  exact ⟨_, rfl⟩

/-- Each error of a node is one of an input, of the choice of an overload or of a parameter. -/
theorem mem_errors_compile_cases {node : Node} {type : NodeType} {joints : List Joint}
    {dependencies : List NodeId} {lookup : NodeId → Option Outcome} {d : Diagnostic}
    (h : d ∈ Checked.errors (compile node type joints dependencies lookup)) :
    (∃ input ∈ type.inputs.entries,
      d ∈ Checked.errors (resolveInput node.id joints lookup input)) ∨
    (∃ inputs, d ∈ Checked.errors (chooseOverload node.id type inputs)) ∨
    ∃ param ∈ type.params.entries, resolveParam node param = .error d := by
  unfold compile at h
  rcases Checked.mem_errors_bind h with h | ⟨_, -, h⟩
  · rcases Checked.mem_errors_both h with h | h
    · rcases Checked.mem_errors_bind h with h | ⟨inputs, -, h⟩
      · obtain ⟨x, hx, hd⟩ := Checked.mem_errors_all h
        obtain ⟨input, hinput, rfl⟩ := List.mem_map.1 hx
        exact Or.inl ⟨input, hinput, hd⟩
      · rcases Checked.mem_errors_bind h with h | ⟨_, -, h⟩
        · exact Or.inr (Or.inl ⟨inputs, h⟩)
        · simp [pure, Except.pure, Checked.errors] at h
    · obtain ⟨param, hparam, herror⟩ := List.mem_map.1 (Checked.mem_errors_each h)
      exact Or.inr (Or.inr ⟨param, hparam, herror⟩)
  · simp [pure, Except.pure, Checked.errors] at h

theorem mem_errors_compile {node : Node} {type : NodeType} {joints : List Joint}
    {dependencies : List NodeId} {lookup : NodeId → Option Outcome} {d : Diagnostic}
    (h : d ∈ Checked.errors (compile node type joints dependencies lookup)) :
    d.Plain node.id := by
  rcases mem_errors_compile_cases h with ⟨input, -, hd⟩ | ⟨inputs, hd⟩ | ⟨param, -, hd⟩
  · exact mem_errors_resolveInput hd
  · exact mem_errors_chooseOverload hd
  · exact resolveParam_error hd

end Fragment

end ShaderNodes
