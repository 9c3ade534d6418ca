import Mathlib
import ShaderNodes.Proofs.Documents

/-!
# Opening a saved graph again

Every graph that was loaded can be saved, but the saved text can be loaded again only if all values
bound to parameters are finite. A number may be written so large that it is infinite among the
32-bit numbers; it is saved as `null`, and `null` is not read as a number. Places never are
infinite, and names of types always come back, so nothing else stands in the way.

* `HingesOn`: a reading that succeeds or is refused for one reason, depending on a condition;
* `Graph.Finite`, `Graph.hinges_echo`: what the reading of a saved graph depends on;
* `saved_graph_reopens_iff`: when a graph that was loaded can be opened again.
-/

namespace ShaderNodes

open Json Json.Reading

/-! ## Readings with one reason to fail -/

section hinges

variable {α β : Type} {x : Reading α} {P Q : Prop} {e : Failure}

/-- The reading succeeds if `P` holds, and is refused for the reason `e` otherwise. -/
structure HingesOn (x : Reading α) (P : Prop) (e : Failure) : Prop where
  ok : P → ∃ a, x = pure a
  refused : ¬ P → x = throw e

namespace HingesOn

theorem of_eq_pure {a : α} (h : x = pure a) : HingesOn x True e :=
  ⟨fun _ => ⟨a, h⟩, fun hfalse => absurd trivial hfalse⟩

theorem congr (h : HingesOn x P e) (hiff : P ↔ Q) : HingesOn x Q e :=
  ⟨fun hq => h.ok (hiff.2 hq), fun hq => h.refused (mt hiff.1 hq)⟩

theorem bind {f : α → Reading β} (hx : HingesOn x P e) (hf : ∀ a, HingesOn (f a) Q e) :
    HingesOn (x >>= f) (P ∧ Q) e where
  ok := by
    rintro ⟨hp, hq⟩
    obtain ⟨a, rfl⟩ := hx.ok hp
    rw [pure_bind]
    exact (hf a).ok hq
  refused hpq := by
    by_cases hp : P
    · obtain ⟨a, rfl⟩ := hx.ok hp
      rw [pure_bind]
      exact (hf a).refused fun hq => hpq ⟨hp, hq⟩
    · rw [hx.refused hp]
      rfl

theorem map (hx : HingesOn x P e) (g : α → β) : HingesOn (g <$> x) P e := by
  rw [map_eq_pure_bind]
  exact (hx.bind fun a => of_eq_pure rfl).congr (and_iff_left trivial)

/-- Elements are read one after the other, so all of them have to be readable. -/
theorem mapM {f : α → Reading β} {P : α → Prop} {as : List α}
    (h : ∀ a ∈ as, HingesOn (f a) (P a) e) : HingesOn (as.mapM f) (∀ a ∈ as, P a) e := by
  induction as with
  | nil => exact (of_eq_pure rfl).congr (by simp)
  | cons a as ih =>
    rw [List.forall_mem_cons] at h
    rw [List.mapM_cons]
    refine (h.1.bind fun b => (ih h.2).bind fun bs => of_eq_pure rfl).congr ?_
    rw [List.forall_mem_cons, and_true]

end HingesOn

end hinges

/-! ## Saved graphs -/

/-- What is said of a number that was saved as `null`. -/
def nullNumber : Failure := .mismatch (.wrongKind .null "f32")

theorem Codec.hinges_single (x : Single) :
    HingesOn (single.echo x) (x.isFinite = true) nullNumber where
  ok hx := exists_echo_single hx
  refused hx := echo_binary_of_not_finite _ _ (Bool.eq_false_iff.2 hx)

theorem Value.hinges_echo (enclosing : Nat) (v : Value) :
    HingesOn ((codec enclosing).echo v) (∀ x ∈ v.numbers, x.isFinite = true) nullNumber := by
  cases v with
  | scalar x =>
    rw [echo_scalar]
    exact ((Codec.hinges_single x).map _).congr (by simp [numbers])
  | color c =>
    rw [echo_color]
    refine HingesOn.congr ((Codec.hinges_single c.r).bind fun _ => (Codec.hinges_single c.g).bind
      fun _ => (Codec.hinges_single c.b).bind fun _ => (Codec.hinges_single c.a).bind
      fun _ => .of_eq_pure rfl) ?_
    simp [numbers, Color.channels]

/-- All numbers bound to parameters are finite. -/
def Node.Finite (n : Node) : Prop :=
  ∀ b ∈ n.params.entries, ∀ x ∈ b.value.numbers, x.isFinite = true

instance (n : Node) : Decidable n.Finite :=
  inferInstanceAs (Decidable (∀ b ∈ n.params.entries, ∀ x ∈ b.value.numbers, x.isFinite = true))

/-- The type has a well-formed name, and the place is finite. -/
structure Node.Placed (n : Node) : Prop where
  type : n.type.WellFormed
  x : n.offset.x.isFinite = true
  y : n.offset.y.isFinite = true

theorem Node.hinges_echo {n : Node} (hn : n.Placed) :
    HingesOn (codec.echo n) n.Finite nullNumber := by
  obtain ⟨x, hx⟩ := Codec.exists_echo_double hn.x
  obtain ⟨y, hy⟩ := Codec.exists_echo_double hn.y
  have hoffset : Point.codec.echo n.offset = pure ⟨x, y⟩ := by
    rw [Point.echo_codec_eq, hx, pure_bind, hy, pure_bind]
  have hparams : HingesOn (Binding.rosterCodec.echo n.params) n.Finite nullNumber := by
    rw [Binding.rosterCodec, Codec.echo_namedRoster]
    exact (HingesOn.mapM fun b _ => (b.value.hinges_echo 4).map _).map _
  rw [echo_codec_eq hn.type, hoffset, pure_bind]
  exact (hparams.bind fun params => .of_eq_pure rfl).congr (and_iff_left trivial)

/-- All numbers bound to parameters of nodes are finite. -/
def Graph.Finite (g : Graph) : Prop := ∀ n ∈ g.nodes.entries, n.Finite

instance (g : Graph) : Decidable g.Finite :=
  inferInstanceAs (Decidable (∀ n ∈ g.nodes.entries, n.Finite))

theorem Graph.hinges_echo {g : Graph} (hg : ∀ n ∈ g.nodes.entries, n.Placed) :
    HingesOn (codec.echo g) g.Finite nullNumber := by
  rw [echo_codec_eq, Codec.echo_roster]
  have hnodes := (HingesOn.mapM fun n hn => Node.hinges_echo (hg n hn)).map
    (Roster.ofList : List Node → Roster Node)
  exact (hnodes.bind fun nodes => .of_eq_pure rfl).congr (and_iff_left trivial)

theorem Graph.exists_load_save {g : Graph} (hg : ∀ n ∈ g.nodes.entries, n.Placed) (h : g.Finite) :
    ∃ g', load g.save = pure g' := by
  obtain ⟨g', hg'⟩ := (hinges_echo hg).ok h
  exact ⟨g', by rw [load_save_eq, hg']; rfl⟩

theorem Graph.load_save_refused {g : Graph} (hg : ∀ n ∈ g.nodes.entries, n.Placed)
    (h : ¬ g.Finite) : load g.save = throw (.refused .graph nullNumber) := by
  rw [load_save_eq, (hinges_echo hg).refused h]
  rfl

/-! ## Loaded graphs -/

theorem Codec.number?_of_readNumber {n : Numeral} {y : Number} (h : Yields (readNumber n) y) :
    n.number? = some y := by
  unfold readNumber at h
  split at h
  case h_1 x hx => rw [hx, yields_pure.1 h]
  case h_2 => exact absurd h not_yields_throw

theorem Codec.isFinite_of_readable {x : Double} (h : double.Readable x) : x.isFinite = true := by
  obtain ⟨j, hj⟩ := h
  unfold double binary at hj
  dsimp only at hj
  split at hj
  case h_1 n =>
    obtain ⟨y, hy, hx⟩ := yields_bind.1 hj
    rw [← yields_pure.1 hx]
    exact Numeral.isFinite_toBinary (number?_of_readNumber hy)
  case h_2 => exact absurd hj not_yields_wrongKind

theorem Point.isFinite_of_readable {p : Point} (h : codec.Readable p) :
    p.x.isFinite = true ∧ p.y.isFinite = true := by
  obtain ⟨row, ⟨hx, hy, -⟩, rfl⟩ := Codec.readable_record h
  exact ⟨Codec.isFinite_of_readable (Fields.readable_required hx),
    Codec.isFinite_of_readable (Fields.readable_required hy)⟩

theorem Node.placed_of_readable {n : Node} (h : codec.Readable n) : n.Placed := by
  obtain ⟨row, ⟨-, htype, hoffset, -⟩, rfl⟩ := Codec.readable_record h
  have hfinite : row.2.2.1.x.isFinite = true ∧ row.2.2.1.y.isFinite = true := by
    obtain hoffset | hoffset := hoffset
    · exact Point.isFinite_of_readable hoffset
    · rw [← Option.some.inj hoffset]
      decide
  exact ⟨TypeId.wellFormed_of_readable (Fields.readable_required htype), hfinite.1, hfinite.2⟩

theorem Graph.placed_of_readable {g : Graph} (h : codec.Readable g) :
    ∀ n ∈ g.nodes.entries, n.Placed := by
  obtain ⟨row, ⟨hnodes | hnodes, -⟩, rfl⟩ := Codec.readable_record h
  · exact fun n hn => Node.placed_of_readable (Codec.readable_roster hnodes n hn)
  · show ∀ n ∈ row.1.entries, n.Placed
    rw [← Option.some.inj hnodes]
    rintro n ⟨⟩

/-- A graph that was loaded can be saved and opened again exactly if all numbers bound to parameters
are finite; otherwise the saved text is refused for a number that is `null`. -/
theorem saved_graph_reopens_iff {text : String} {g : Graph} (h : Yields (Graph.load text) g) :
    ((∃ g', Yields (Graph.load g.save) g') ↔ g.Finite) ∧
      (¬ g.Finite → Graph.load g.save = throw (.refused .graph nullNumber)) := by
  have hg := Graph.placed_of_readable (readable_of_loadText h)
  refine ⟨⟨fun ⟨g', hg'⟩ => ?_, fun hfinite => ?_⟩, Graph.load_save_refused hg⟩
  · by_contra hfinite
    rw [Graph.load_save_refused hg hfinite] at hg'
    exact not_yields_throw hg'
  · obtain ⟨g', hg'⟩ := Graph.exists_load_save hg hfinite
    exact ⟨g', by rw [hg', yields_pure]⟩

namespace Sample

/-- The document of a graph with one constant. -/
def constantDocument (value : Numeral) : Json :=
  .object (.ofList [("nodes", .array (.ofList [.object (.ofList [
    ("id", .number (.ofNat 1)),
    ("type", .string "Constant/Scalar"),
    ("params", .object (.ofList [("Value", .object (.ofList [
      ("type", .string "scalar"),
      ("value", .number value)]))]))])]))])

def constant (value : Single) : Graph where
  nodes := .ofList [
    ⟨⟨1⟩, ⟨"Constant", "Scalar"⟩, .origin, .ofList [⟨"Value", .scalar value⟩]⟩]
  joints := .empty

theorem load_constantDocument (value : Numeral) (hvalue : value.Proper) {g : Graph}
    (h : (Graph.codec.read (constantDocument value)).run.value.toOption = some g) :
    Yields (Graph.load (constantDocument value).compact) g := by
  have hcomplete : (constantDocument value).Complete := by
    simp [constantDocument, hvalue, Numeral.proper_ofNat]
  rw [Graph.load, loadText, yields_adapt, compact, Codec.parse_document _ hcomplete]
  exact yields_of_toOption h

/-- The constant `3e38`, which is less than the largest 32-bit number. -/
def large : Graph := constant (.ofBits .single 0x7f61b1e6)

/-- The constant `1e39`, which is more. -/
def infinite : Graph := constant (.ofBits .single 0x7f800000)

def infiniteText : String :=
  "\x7b\"nodes\":[\x7b\"id\":1,\"type\":\"Constant/Scalar\",\"params\":"
    ++ "\x7b\"Value\":\x7b\"type\":\"scalar\",\"value\":1e39\x7d\x7d\x7d]\x7d"

end Sample

theorem saved_graph_reopens_iff_large :
    Sample.large.Finite ∧ ∃ g', Yields (Graph.load Sample.large.save) g' := by
  have hload : Yields (Graph.load _) Sample.large :=
    Sample.load_constantDocument ⟨false, [3], [], some (.bare, [3, 8])⟩
      ⟨by simp, by simp, by simp⟩ (by decide +kernel)
  have hfinite : Sample.large.Finite := by decide
  exact ⟨hfinite, (saved_graph_reopens_iff hload).1.2 hfinite⟩

/-- A number above all 32-bit numbers is loaded as infinite, and the graph is not opened again. -/
theorem infinite_value_cannot_be_reopened :
    Yields (Graph.load Sample.infiniteText) Sample.infinite ∧
      Graph.load Sample.infinite.save = throw (.refused .graph nullNumber) := by
  have htext : Sample.infiniteText =
      (Sample.constantDocument ⟨false, [1], [], some (.bare, [3, 9])⟩).compact := by decide +kernel
  have hload : Yields (Graph.load Sample.infiniteText) Sample.infinite := by
    rw [htext]
    exact Sample.load_constantDocument _ ⟨by simp, by simp, by simp⟩ (by decide +kernel)
  have hplaced := Graph.placed_of_readable (readable_of_loadText hload)
  exact ⟨hload, Graph.load_save_refused hplaced (by decide)⟩

end ShaderNodes
