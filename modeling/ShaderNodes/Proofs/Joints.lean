import Mathlib.Data.List.Induction
import ShaderNodes.Emit.Walk
import ShaderNodes.Proofs.Roster

/-!
# What lies in front of a node

A node is fed by the sources of all joints into it, whether or not its type declares the inputs that
they lead to; it reads only those that lead to declared inputs. The walk follows the former, the
code of a node depends on the latter.

* `firstOccurrences_eq_eraseDups`: the first occurrences are what remains when later duplicates are
  dropped;
* `Graph.Feeds`, `Graph.Reads`: the two ways of lying in front of a node;
* `Graph.mem_dependencies`: the dependencies of a node are the nodes that feed it.
-/

namespace ShaderNodes

/-! ## First occurrences -/

section FirstOccurrences

variable {α : Type} [DecidableEq α]

theorem firstOccurrences_concat (xs : List α) (x : α) :
    firstOccurrences (xs ++ [x]) =
      if x ∈ firstOccurrences xs then firstOccurrences xs else firstOccurrences xs ++ [x] := by
  unfold firstOccurrences
  rw [List.foldl_append]
  rfl

theorem firstOccurrences_eq_eraseDups (xs : List α) : firstOccurrences xs = xs.eraseDups := by
  induction xs using List.reverseRecOn with
  | nil => rfl
  | append_singleton xs x ih =>
    rw [firstOccurrences_concat, ih, List.eraseDups_append]
    by_cases h : x ∈ xs
    · simp [h, List.removeAll]
    · simp [h, List.removeAll, List.eraseDups_cons]

theorem mem_firstOccurrences {xs : List α} {x : α} : x ∈ firstOccurrences xs ↔ x ∈ xs := by
  rw [firstOccurrences_eq_eraseDups, List.mem_eraseDups]

theorem firstOccurrences_nodup (xs : List α) : (firstOccurrences xs).Nodup := by
  induction xs using List.reverseRecOn with
  | nil => exact List.nodup_nil
  | append_singleton xs x ih =>
    rw [firstOccurrences_concat]
    split
    · exact ih
    · next h =>
      refine List.nodup_append.2 ⟨ih, by simp, fun a ha b hb => ?_⟩
      rw [List.mem_singleton.1 hb]
      exact fun he => h (he ▸ ha)

end FirstOccurrences

namespace Graph

/-! ## Nodes with their types -/

/-- `node` is placed under the number `id`, and `type` is its type in the catalogue. -/
def Typed (types : Catalogue) (g : Graph) (id : NodeId) (node : Node) (type : NodeType) : Prop :=
  g.nodes.get? id = some node ∧ types.get? node.type = some type

/-- The node is placed and its type is in the catalogue. -/
def Known (types : Catalogue) (g : Graph) (id : NodeId) : Prop :=
  ∃ node type, g.Typed types id node type

theorem Typed.id_eq {types : Catalogue} {g : Graph} {id : NodeId} {node : Node} {type : NodeType}
    (h : g.Typed types id node type) : node.id = id :=
  (Roster.mem_of_get? h.1).2

theorem Typed.unique {types : Catalogue} {g : Graph} {id : NodeId} {node node' : Node}
    {type type' : NodeType} (h : g.Typed types id node type) (h' : g.Typed types id node' type') :
    node = node' ∧ type = type' := by
  obtain rfl : node = node' := Option.some.inj (h.1.symm.trans h'.1)
  exact ⟨rfl, Option.some.inj (h.2.symm.trans h'.2)⟩

theorem typed_iff {types : Catalogue} {g : Graph} {id : NodeId} {type : NodeType} :
    ((g.nodes.get? id).bind fun node => types.get? node.type) = some type ↔
      ∃ node, g.Typed types id node type :=
  Option.bind_eq_some_iff

instance (types : Catalogue) (g : Graph) (id : NodeId) : Decidable (g.Known types id) :=
  decidable_of_iff (((g.nodes.get? id).bind fun node => types.get? node.type).isSome = true) <| by
    rw [Option.isSome_iff_exists, Known, exists_comm]
    exact exists_congr fun _ => typed_iff

/-! ## Joints into a node -/

/-- A joint leads from `m` into `n`. -/
def Feeds (g : Graph) (m n : NodeId) : Prop :=
  ∃ j ∈ g.joints.entries, j.source.node = m ∧ j.dest.node = n

instance (g : Graph) (m n : NodeId) : Decidable (g.Feeds m n) :=
  inferInstanceAs (Decidable (∃ j ∈ g.joints.entries, j.source.node = m ∧ j.dest.node = n))

/-- A joint leads from `m` into an input of `n` that the type of `n` declares. -/
def Reads (types : Catalogue) (g : Graph) (n m : NodeId) : Prop :=
  ∃ node type, g.Typed types n node type ∧
    ∃ j ∈ g.joints.entries, j.source.node = m ∧ j.dest.node = n ∧
      j.dest.input ∈ type.inputs.entries

instance (types : Catalogue) (g : Graph) (n m : NodeId) : Decidable (g.Reads types n m) :=
  decidable_of_iff (((g.nodes.get? n).bind fun node => types.get? node.type).any fun type =>
      decide (∃ j ∈ g.joints.entries, j.source.node = m ∧ j.dest.node = n ∧
        j.dest.input ∈ type.inputs.entries)) <| by
    rw [Option.any_eq_true, Reads, exists_comm]
    refine exists_congr fun type => ?_
    rw [typed_iff, exists_and_right, decide_eq_true_iff]

theorem Reads.feeds {types : Catalogue} {g : Graph} {n m : NodeId} (h : g.Reads types n m) :
    g.Feeds m n := by
  obtain ⟨node, type, -, j, hj, hsource, hdest, -⟩ := h
  exact ⟨j, hj, hsource, hdest⟩

theorem mem_jointsInto {g : Graph} {n : NodeId} {j : Joint} :
    j ∈ g.jointsInto n ↔ j ∈ g.joints.entries ∧ j.dest.node = n := by
  simp [jointsInto]

/-- The joint into an input of a node is the one that is kept under that inlet. -/
theorem find?_jointsInto (g : Graph) (n : NodeId) (input : String) :
    ((g.jointsInto n).find? fun j => j.dest.input = input) = g.joints.get? ⟨n, input⟩ := by
  unfold jointsInto Roster.get?
  rw [List.find?_filter]
  congr 1
  funext j
  rw [show key j = j.dest from rfl]
  cases j.dest
  simp

/-- The nodes in front of a node of the given type, in the order in which they are visited. -/
def dependencies (g : Graph) (type : NodeType) (n : NodeId) : List NodeId :=
  dependenciesOf type (g.jointsInto n)

theorem dependencies_nodup (g : Graph) (type : NodeType) (n : NodeId) :
    (g.dependencies type n).Nodup :=
  firstOccurrences_nodup _

theorem mem_dependencies {g : Graph} {type : NodeType} {n m : NodeId} :
    m ∈ g.dependencies type n ↔ g.Feeds m n := by
  unfold dependencies dependenciesOf
  simp only [mem_firstOccurrences, List.mem_map, List.mem_append, List.mem_filterMap]
  constructor
  · rintro ⟨j, ⟨input, -, hfound⟩ | hj, rfl⟩
    · obtain ⟨hj, hdest⟩ := mem_jointsInto.1 (List.mem_of_find?_eq_some hfound)
      exact ⟨j, hj, rfl, hdest⟩
    · obtain ⟨hj, hdest⟩ := mem_jointsInto.1 hj
      exact ⟨j, hj, rfl, hdest⟩
  · rintro ⟨j, hj, rfl, hdest⟩
    exact ⟨j, Or.inr (mem_jointsInto.2 ⟨hj, hdest⟩), rfl⟩

end Graph

end ShaderNodes
