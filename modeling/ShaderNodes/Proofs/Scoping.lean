import Mathlib
import ShaderNodes.Proofs.FragmentOrder
import ShaderNodes.Proofs.WellWritten

/-!
# Programs are well scoped

With well-written types the body of a program is a list of declarations. Since the nodes stand in
order, each of them reads only variables that have been declared before it, and since outputs carry
the types of results, it takes channels only of colors.

* `Statement.ScopedBy`: a declaration reads only what stands in front of it;
* `Walk.exists_statement`: the fragment of a node is a declaration of its result;
* `bundled_preview_well_scoped`: the form of a program, and what its declarations read.
-/

namespace ShaderNodes

open Relation Catalogue.Bundled
open Template (Table)

/-! ## The declaration of a node -/

/-- A line that declares the result of a node. -/
structure Statement where
  node : NodeId
  type : ValueType
  /-- What stands behind the equals sign. -/
  right : String

namespace Statement

/-- The declared variable. -/
def declared (s : Statement) : Variable := ⟨Fragment.resultName s.node, s.type⟩

def line (s : Statement) : String :=
  typeName s.type ++ " " ++ s.declared.name ++ " = " ++ s.right

/-- Behind the equals sign the statement reads only variables that are declared in front of it, and
takes channels only of colors among them: if no digit follows a point, then the whole name of a
color stands before it. -/
structure ScopedBy (front : List Statement) (s : Statement) : Prop where
  reads : ∀ n, (Fragment.resultName n).toList <:+: s.right.toList → ∃ d ∈ front, d.node = n
  channels : ∀ before c after, s.right.toList = before ++ '.' :: c :: after → c.isDigit = false →
    ∃ d ∈ front, d.type = .color ∧ ∃ rest, before = rest ++ d.declared.name.toList ∧
      ∀ last, rest.getLast? = some last → isWordChar last = false

end Statement

namespace Walk

/-- What can be put in for an operand of a node: text without variables, or an output of a node in
front that has succeeded. -/
inductive Operand (w : Walk) (n : NodeId) : List Char → Prop
  | inert {value : List Char} (h : Inert value) : Operand w n value
  | output {m : NodeId} {f : Fragment} {o : Output} {v : Variable} (huses : w.Uses n m)
    (hf : w.fragment? m = some f) (hv : f.output? o = some v) : Operand w n v.name.toList

variable {types : Catalogue} {g : Graph} {n : NodeId} {f : Fragment}

/-- How a node that has succeeded has been compiled. -/
theorem exists_made (h : (walk types g).fragment? n = some f) :
    ∃ node type inputs overload result params, g.Typed types n node type ∧
      type.inputs.entries.map
        (Fragment.resolveInput n (g.jointsInto n) (walk types g).outcome?) = inputs.map .ok ∧
      type.overload? (inputs.map fun i => i.2.type) = some (overload, result) ∧
      type.params.entries.map (Fragment.resolveParam node) = params.map .ok ∧
      f = Fragment.make n type (g.dependencies type n) inputs overload result params := by
  obtain ⟨-, node, type, htyped, hcompile⟩ := of_outcome?_ok (fragment?_eq_some_iff.1 h)
  obtain ⟨inputs, overload, result, params, hmade⟩ := Fragment.compile_eq_ok_iff.1 hcompile
  rw [htyped.id_eq] at hmade
  exact ⟨node, type, inputs, overload, result, params, htyped, hmade⟩

/-- The outputs of a node that has succeeded are those of its variable. -/
theorem exists_lookup (h : (walk types g).fragment? n = some f) {o : Output} {v : Variable}
    (hv : f.output? o = some v) :
    ∃ type, f.outputs = Variable.outputs ⟨Fragment.resultName n, type⟩ ∧
      (Variable.outputs ⟨Fragment.resultName n, type⟩).lookup o = some v := by
  obtain ⟨_, _, _, _, result, _, -, -, -, -, rfl⟩ := exists_made h
  exact ⟨result, rfl, hv⟩

theorem Operand.hash_not_mem {value : List Char} (h : (walk types g).Operand n value) :
    '#' ∉ value := by
  cases h with
  | inert h => exact h.hash
  | output _ hf hv =>
    obtain ⟨type, -, hlookup⟩ := exists_lookup hf hv
    exact Fragment.hash_not_mem_output hlookup

theorem operand_of_resolveInput (h : (walk types g).fragment? n = some f) {input : String}
    {r : String × Variable}
    (hr : Fragment.resolveInput n (g.jointsInto n) (walk types g).outcome? input = .ok r) :
    (walk types g).Operand n r.2.name.toList := by
  obtain ⟨j, source, hj, hsource, hv, -⟩ := Fragment.resolveInput_eq_ok_iff.1 hr
  have hsource := fragment?_eq_some_iff.2 hsource
  obtain ⟨node, type, -, hdeps⟩ := known_of_fragment? h
  obtain ⟨hmem, hdest⟩ := Graph.mem_jointsInto.1 (List.mem_of_find?_eq_some hj)
  have hdep : j.source.node ∈ f.dependencies := by
    rw [hdeps]
    exact Graph.mem_dependencies.2 ⟨j, hmem, rfl, hdest⟩
  exact .output ⟨⟨f, h, hdep⟩, source, hsource⟩ hsource hv

end Walk

theorem Fragment.exists_of_resolveParam {node : Node} {param : Param} {r : String × String}
    (h : resolveParam node param = .ok r) :
    ∃ v : Value, r = (paramPlaceholder param.name, v.code) := by
  unfold resolveParam at h
  split at h
  · cases h
  · next v _ =>
    split at h
    · exact ⟨v, (Except.ok.inj h).symm⟩
    · cases h

theorem NodeType.mem_code_of_overload? {t : NodeType} {inputs : List ValueType} {o : Overload}
    {result : ValueType} (h : t.overload? inputs = some (o, result)) :
    o ∈ t.code ∧ o.result? = some result := by
  obtain ⟨o', ho', hfound⟩ := List.exists_of_findSome?_eq_some h
  split at hfound
  · next result' hresult =>
    split at hfound
    · cases hfound
      exact ⟨ho', hresult⟩
    · cases hfound
  · cases hfound

/-- A list of successes is labelled like the list that it comes from. -/
theorem map_eq_of_map_eq_ok {α β γ ε : Type} {f : α → Except ε β} {xs : List α} {ys : List β}
    (h : xs.map f = ys.map .ok) {p : β → γ} {q : α → γ} (hf : ∀ x y, f x = .ok y → p y = q x) :
    ys.map p = xs.map q := by
  induction xs generalizing ys with
  | nil =>
    obtain rfl := List.map_eq_nil_iff.1 h.symm
    rfl
  | cons x xs ih =>
    cases ys with
    | nil => cases h
    | cons y ys =>
      obtain ⟨hx, hxs⟩ := List.cons.inj h
      rw [List.map_cons, List.map_cons, hf x y hx, ih hxs]

namespace Walk

variable {types : Catalogue} {g : Graph} {n : NodeId} {f : Fragment}

/-- The table of a node has values for the operands of its type. -/
theorem exists_fills (hwritten : ∀ t ∈ types.entries, t.WellWritten)
    (h : (walk types g).fragment? n = some f) :
    ∃ type ∈ types.entries, ∃ overload ∈ type.code, ∃ result table,
      overload.result? = some result ∧
      Fills type n ((walk types g).Operand n) table ∧
      f.code = Template.fill table overload.code ∧
      f.outputs = Variable.outputs ⟨Fragment.resultName n, result⟩ := by
  obtain ⟨node, type, inputs, overload, result, params, htyped, hinputs, hoverload, hparams, rfl⟩ :=
    exists_made h
  have htype := (Roster.mem_of_get? htyped.2).1
  obtain ⟨ho, hresult⟩ := NodeType.mem_code_of_overload? hoverload
  have hinput {i : String × Variable} (hi : i ∈ inputs) : ∃ input,
      Fragment.resolveInput n (g.jointsInto n) (walk types g).outcome? input = .ok i := by
    obtain ⟨input, -, hr⟩ := List.mem_map.1 (hinputs ▸ List.mem_map_of_mem hi)
    exact ⟨input, hr⟩
  have hparam {i : String × String} (hi : i ∈ params) : ∃ (param : Param) (v : Value),
      i = (Fragment.paramPlaceholder param.name, v.code) := by
    obtain ⟨param, -, hr⟩ := List.mem_map.1 (hparams ▸ List.mem_map_of_mem hi)
    exact ⟨param, Fragment.exists_of_resolveParam hr⟩
  refine ⟨type, htype, overload, ho, result, Fragment.table n inputs params, hresult, ?_, rfl, rfl⟩
  refine .of_values (hwritten type htype) ?_ (fun entry hentry => ?_) (fun entry hentry => ?_)
    fun value hvalue => hvalue.hash_not_mem
  · rw [List.map_append, List.map_map]
    refine congrArg₂ _ (map_eq_of_map_eq_ok hinputs fun input r hr => ?_)
      (map_eq_of_map_eq_ok hparams fun param r hr => ?_)
    · obtain ⟨_, _, -, -, -, hkey⟩ := Fragment.resolveInput_eq_ok_iff.1 hr
      exact congrArg (fun key => key.toList.tail) hkey
    · obtain ⟨v, rfl⟩ := Fragment.exists_of_resolveParam hr
      rfl
  · rcases List.mem_append.1 hentry with hentry | hentry
    · obtain ⟨i, hi, rfl⟩ := List.mem_map.1 hentry
      obtain ⟨input, hr⟩ := hinput hi
      obtain ⟨_, _, -, -, -, hkey⟩ := Fragment.resolveInput_eq_ok_iff.1 hr
      simp [Table.name, hkey, Fragment.inputPlaceholder]
    · obtain ⟨param, v, rfl⟩ := hparam hentry
      simp [Table.name, Fragment.paramPlaceholder]
  · rcases List.mem_append.1 hentry with hentry | hentry
    · obtain ⟨i, hi, rfl⟩ := List.mem_map.1 hentry
      obtain ⟨input, hr⟩ := hinput hi
      exact operand_of_resolveInput h hr
    · obtain ⟨param, v, rfl⟩ := hparam hentry
      exact .inert v.inert_code

/-- The code of the node is the statement, which declares its result. -/
structure IsStatement (w : Walk) (n : NodeId) (f : Fragment) (s : Statement) : Prop where
  fragment : w.fragment? n = some f
  node : s.node = n
  code : f.code = [s.line]
  outputs : f.outputs = Variable.outputs s.declared
  woven : Woven (w.Operand n) (" = ".toList ++ s.right.toList)

/-- The fragment of a node of a well-written type is a declaration of its result. -/
theorem exists_statement (hwritten : ∀ t ∈ types.entries, t.WellWritten)
    (h : (walk types g).fragment? n = some f) : ∃ s, (walk types g).IsStatement n f s := by
  obtain ⟨type, htype, overload, ho, result, table, hresult, hfills, hcode, houtputs⟩ :=
    exists_fills hwritten h
  obtain ⟨line, -, hlines, hdeclares⟩ := (hwritten type htype).code overload ho
  obtain ⟨right, hline, hwoven⟩ := hfills.longestFirst.apply_eq (hdeclares result hresult)
  refine ⟨⟨n, result, right⟩, h, rfl, ?_, houtputs, hwoven⟩
  rw [hcode, hlines]
  exact congrArg (fun line => [line]) hline

end Walk

/-! ## What a declaration reads -/

namespace Walk

variable {types : Catalogue} {g : Graph} {n : NodeId} {right : List Char}

/-- A variable that is read is the result of a node in front. -/
theorem uses_of_read (h : Woven ((walk types g).Operand n) (" = ".toList ++ right)) {m : NodeId}
    (hread : (Fragment.resultName m).toList <:+: right) : (walk types g).Uses n m := by
  obtain ⟨a, b, rfl⟩ := hread
  have hsplit : " = ".toList ++ (a ++ (Fragment.resultName m).toList ++ b) =
      (" = ".toList ++ a ++ m.stem.toList) ++ '_' :: ("result".toList ++ b) := by
    simp [Fragment.toList_resultName]
  -- The underscore belongs to a value, and what stands in front of it ends with both stems.
  obtain ⟨front, value, back, u, w, hvalue, hu, hbefore, -, -⟩ :=
    h.exists_operand (by decide) hsplit
  cases hvalue with
  | inert hinert => exact absurd (hu ▸ List.mem_append_right _ List.mem_cons_self) hinert.underscore
  | @output i f o v huses hf hv =>
    obtain ⟨type, -, hlookup⟩ := exists_lookup hf hv
    obtain rfl := Fragment.eq_stem_of_underscore hlookup hu
    have hm : m.stem.toList <:+ front ++ i.stem.toList := hbefore ▸ List.suffix_append _ _
    obtain rfl : m = i := NodeId.eq_of_stem_suffix hm (List.suffix_append _ _)
    exact huses

/-- A channel is taken of the result of a node in front, which is a color. -/
theorem uses_of_point (h : Woven ((walk types g).Operand n) (" = ".toList ++ right))
    {before after : List Char} {c : Char} (hright : right = before ++ '.' :: c :: after)
    (hc : c.isDigit = false) :
    ∃ m f rest, (walk types g).Uses n m ∧ (walk types g).fragment? m = some f ∧
      f.outputs = Variable.outputs ⟨Fragment.resultName m, .color⟩ ∧
      before = rest ++ (Fragment.resultName m).toList ∧
      ∀ last, rest.getLast? = some last → isWordChar last = false := by
  have hsplit : " = ".toList ++ right = (" = ".toList ++ before) ++ '.' :: (c :: after) := by
    rw [hright, List.append_assoc]
  obtain ⟨front, value, back, u, w, hvalue, hu, hbefore, hafter, hends⟩ :=
    h.exists_operand (by decide) hsplit
  cases hvalue with
  | inert hinert =>
    obtain ⟨d, rest, rfl, hd⟩ := hinert.point u w hu
    obtain ⟨rfl, -⟩ := List.cons.inj hafter
    rw [hd] at hc
    cases hc
  | @output m f o v huses hf hv =>
    obtain ⟨type, houtputs, hlookup⟩ := exists_lookup hf hv
    obtain ⟨rfl, rfl⟩ := Fragment.eq_resultName_of_point hlookup hu
    have hword : (Fragment.resultName m).toList.all isWordChar = true :=
      List.all_eq_true.2 fun _ => Fragment.isWordChar_of_mem_resultName
    obtain ⟨rest, hrest, hlast⟩ := hends.exists_rest (by decide) hword hbefore
    exact ⟨m, f, rest, huses, hf, houtputs, hrest, hlast⟩

namespace IsStatement

variable {f : Fragment} {s : Statement}

/-- A declaration is well scoped once all nodes in front have been declared. -/
theorem scopedBy (h : (walk types g).IsStatement n f s) {front : List Statement}
    (hfront : ∀ m, (walk types g).Uses n m → ∃ d ∈ front, ∃ f, (walk types g).IsStatement m f d) :
    s.ScopedBy front := by
  refine ⟨fun m hread => ?_, fun before c after hright hc => ?_⟩
  · obtain ⟨d, hd, _, hstatement⟩ := hfront m (uses_of_read h.woven hread)
    exact ⟨d, hd, hstatement.node⟩
  · obtain ⟨m, f, rest, huses, hf, houtputs, hbefore, hlast⟩ := uses_of_point h.woven hright hc
    obtain ⟨d, hd, f', hstatement⟩ := hfront m huses
    obtain rfl : f = f' := Option.some.inj (hf.symm.trans hstatement.fragment)
    have hdeclared : d.declared = ⟨Fragment.resultName m, .color⟩ := by
      have hsame := hstatement.outputs.symm.trans houtputs
      exact congrArg Prod.snd (List.cons.inj hsame).1
    refine ⟨d, hd, congrArg Variable.type hdeclared, rest, ?_, hlast⟩
    rw [hdeclared]
    exact hbefore

theorem hash_not_mem_line (h : (walk types g).IsStatement n f s) : '#' ∉ s.line.toList := by
  have hright : '#' ∉ " = ".toList ++ s.right.toList := by
    intro hmem
    obtain ⟨before, after, hsplit⟩ := List.append_of_mem hmem
    obtain ⟨_, value, _, u, w, hvalue, hu, -⟩ := h.woven.exists_operand (by decide) hsplit
    exact hvalue.hash_not_mem (hu ▸ List.mem_append_right _ List.mem_cons_self)
  have htype : '#' ∉ (typeName s.type ++ " ").toList := by
    cases s.type <;> decide
  have hname : '#' ∉ s.declared.name.toList := fun hmem =>
    absurd (Fragment.isWordChar_of_mem_resultName hmem) (by decide)
  have hline : s.line.toList = (typeName s.type ++ " ").toList ++
      (s.declared.name.toList ++ (" = ".toList ++ s.right.toList)) := by
    simp [Statement.line]
  rw [hline]
  exact List.not_mem_append htype (List.not_mem_append hname hright)

theorem output?_all (h : (walk types g).IsStatement n f s) : f.output? .all = some s.declared := by
  unfold Fragment.output?
  rw [h.outputs]
  rfl

end IsStatement

end Walk

/-! ## Programs -/

namespace Walk

/-- The code of nodes is the list of their declarations. -/
theorem flatMap_code_eq {w : Walk} {order : List NodeId} {statement : NodeId → Statement}
    (h : ∀ m ∈ order, ∃ f, w.IsStatement m f (statement m)) :
    (order.filterMap w.fragment?).flatMap Fragment.code =
      (order.map statement).map Statement.line := by
  induction order with
  | nil => rfl
  | cons m order ih =>
    obtain ⟨f, hf⟩ := h m List.mem_cons_self
    have hrest := ih fun k hk => h k (List.mem_cons_of_mem _ hk)
    rw [List.filterMap_cons_some hf.fragment, List.flatMap_cons, hf.code, hrest]
    rfl

theorem map_statement {w : Walk} {order : List NodeId} {statement : NodeId → Statement}
    (h : ∀ m ∈ order, ∃ f, w.IsStatement m f (statement m)) {β : Type} (k : NodeId → β) :
    (order.map statement).map (fun s => k s.node) = order.map k := by
  rw [List.map_map]
  refine List.map_congr_left fun m hm => ?_
  obtain ⟨f, hf⟩ := h m hm
  exact congrArg k hf.node

/-- In order, every declaration is well scoped. -/
theorem IsOrder.scopedBy {types : Catalogue} {g : Graph} {n : NodeId} {order : List NodeId}
    (horder : (walk types g).IsOrder n order) {statement : NodeId → Statement}
    (h : ∀ m ∈ order, ∃ f, (walk types g).IsStatement m f (statement m))
    {front back : List Statement} {s : Statement}
    (hsplit : order.map statement = front ++ s :: back) : s.ScopedBy front := by
  obtain ⟨before, rest, rfl, rfl, hrest⟩ := List.map_eq_append_iff.1 hsplit
  obtain ⟨m, after, rfl, rfl, -⟩ := List.map_eq_cons_iff.1 hrest
  obtain ⟨f, hf⟩ := h m (by simp)
  refine hf.scopedBy fun d hd => ?_
  have hmem := horder.before before m after rfl d hd
  exact ⟨statement d, List.mem_map_of_mem hmem, h d (List.mem_append_left _ hmem)⟩

end Walk

/-- **Programs over the bundled catalogue are well scoped.** The body is one declaration for each
node that has a part in the program, followed by the statement for the screen. A declaration starts
with the type of the result and the variable of the node, no variable is declared twice, and behind
the equals sign stand only variables that have been declared before; channels are taken only of
colors. No placeholder is left over. The last declaration is that of the node itself, and the screen
gets its color, or its value as a shade of gray. -/
theorem bundled_preview_well_scoped (env : Envelope) (g : Graph) (n : NodeId) (p : Program)
    (h : (n, .ok p) ∈ (g.compile .bundled env).value) :
    ∃ (fragments : List Fragment) (body : List Statement) (sink : String),
      p.lines = [env.version, env.precision]
        ++ (fragments.flatMap fun f => f.globals.entries).eraseDups ++ [env.entryPoint]
        ++ (body.map Statement.line ++ [sink]).map (fun line => env.indent ++ line)
        ++ ["\x7d"] ∧
      body.map (fun s => (walk .bundled g).fragment? s.node) = fragments.map some ∧
      (∀ m, m ∈ body.map Statement.node ↔ ReflTransGen (walk .bundled g).Uses n m) ∧
      (∀ s ∈ body, ∃ f, (walk .bundled g).fragment? s.node = some f ∧
        f.output? .all = some s.declared) ∧
      (body.map fun s => s.declared.name).Nodup ∧
      (∀ front s back, body = front ++ s :: back → s.ScopedBy front) ∧
      (∀ s ∈ body, '#' ∉ s.line.toList) ∧
      ∃ front s, body = front ++ [s] ∧ s.node = n ∧ sink = match s.type with
        | .scalar => env.sink ++ " = vec4(" ++ s.declared.name ++ ", " ++ s.declared.name ++ ", "
          ++ s.declared.name ++ ", 1.0);"
        | .color => env.sink ++ " = vec4(" ++ s.declared.name ++ ".rgb, 1.0);" := by
  obtain ⟨-, f, result, hf, hresult, rfl⟩ := Graph.ok_mem_compile_iff.1 h
  have horder := Walk.isOrder_order hf
  have hexists : ∀ m, ∃ s, m ∈ (walk .bundled g).order n →
      ∃ f, (walk .bundled g).IsStatement m f s := by
    intro m
    by_cases hm : m ∈ (walk .bundled g).order n
    · obtain ⟨fm, hfm⟩ := horder.exists_fragment hf hm
      obtain ⟨s, hs⟩ := Walk.exists_statement Catalogue.wellWritten_bundled hfm
      exact ⟨s, fun _ => ⟨fm, hs⟩⟩
    · exact ⟨⟨m, .scalar, ""⟩, fun hm' => absurd hm' hm⟩
  choose statement hstatement using hexists
  generalize (walk .bundled g).order n = order at horder hstatement ⊢
  refine ⟨order.filterMap (walk .bundled g).fragment?, order.map statement,
    Program.sinkStatement env result, ?_, ?_, ?_, ?_, ?_, ?_, ?_, ?_⟩
  · rw [← Walk.flatMap_code_eq hstatement, ← firstOccurrences_eq_eraseDups]
    rfl
  · rw [← horder.map_fragment? hf]
    exact Walk.map_statement hstatement _
  · have hnodes : (order.map statement).map Statement.node = order :=
      (Walk.map_statement hstatement id).trans (List.map_id order)
    rw [hnodes]
    exact horder.mem_iff
  · intro s hs
    obtain ⟨m, hm, rfl⟩ := List.mem_map.1 hs
    obtain ⟨fm, hfm⟩ := hstatement m hm
    rw [hfm.node]
    exact ⟨fm, hfm.fragment, hfm.output?_all⟩
  · have hnames : (order.map statement).map (fun s => s.declared.name) =
        order.map Fragment.resultName := Walk.map_statement hstatement Fragment.resultName
    rw [hnames]
    exact horder.nodup.map Fragment.resultName_injective
  · exact fun front s back hsplit => horder.scopedBy hstatement hsplit
  · intro s hs
    obtain ⟨m, hm, rfl⟩ := List.mem_map.1 hs
    obtain ⟨fm, hfm⟩ := hstatement m hm
    exact hfm.hash_not_mem_line
  · obtain ⟨front, rfl⟩ := List.getLast?_eq_some_iff.1 horder.last
    obtain ⟨fn, hfn⟩ := hstatement n (by simp)
    obtain rfl : f = fn := Option.some.inj (hf.symm.trans hfn.fragment)
    obtain rfl : result = (statement n).declared :=
      Option.some.inj (hresult.symm.trans hfn.output?_all)
    exact ⟨front.map statement, statement n, by simp, hfn.node, rfl⟩

namespace Sample

/-- The red channel of the position, multiplied by the time. -/
def tinted : Graph :=
  ⟨.ofList
    [⟨⟨3⟩, ⟨"Math", "Multiply"⟩, .origin, .empty⟩, ⟨⟨2⟩, ⟨"Global", "Time"⟩, .origin, .empty⟩,
      ⟨⟨1⟩, ⟨"Global", "Position"⟩, .origin, .empty⟩],
    .ofList [⟨⟨⟨3⟩, "A"⟩, ⟨⟨1⟩, .red⟩⟩, ⟨⟨⟨3⟩, "B"⟩, ⟨⟨2⟩, .all⟩⟩]⟩

end Sample

theorem bundled_preview_well_scoped_tinted :
    ∃ p, (⟨3⟩, .ok p) ∈ (Sample.tinted.compile .bundled .customary).value ∧
      ∃ body : List Statement,
        (∀ m, m ∈ body.map Statement.node ↔
          ReflTransGen (walk .bundled Sample.tinted).Uses ⟨3⟩ m) ∧
        (body.map fun s => s.declared.name).Nodup ∧
        ∀ front s back, body = front ++ s :: back → s.ScopedBy front := by
  obtain ⟨p, hp⟩ : ∃ p, (⟨3⟩, .ok p) ∈ (Sample.tinted.compile .bundled .customary).value :=
    Graph.exists_ok_mem_compile _ _ (by decide_cbv) (by decide_cbv)
  obtain ⟨_, body, _, -, -, hnodes, -, hnames, hscoped, -, -⟩ :=
    bundled_preview_well_scoped .customary Sample.tinted ⟨3⟩ p hp
  exact ⟨p, hp, body, hnodes, hnames, hscoped⟩

end ShaderNodes
