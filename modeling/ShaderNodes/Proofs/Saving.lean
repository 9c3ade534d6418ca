import Mathlib
import ShaderNodes.Proofs.Documents

/-!
# Loading undoes saving

A saved graph comes back as it was, with its nodes, joints and bound parameters in the same order,
if the names of its types are well formed and its numbers come back from their own texts. A written
catalogue comes back as it was if the names of its types are well formed, and loading it reports
exactly the problems that it has; a catalogue that was loaded has nothing but well-formed names.

* `Graph.Restorable`, `load_saved_graph`: graphs;
* `Catalogue.WellNamed`, `written_catalogue_loads_back`: catalogues.
-/

namespace ShaderNodes

open Json Json.Reading

/-! ## Graphs -/

/-- A finite number comes back if its numeral is rounded to it. -/
theorem Codec.restores_binary {f : Format} {style : NumeralStyle} {wanted : String} {x : Binary f}
    (hf : f.Common) (hx : x.isFinite)
    (h : (style.numeral x).number?.map (·.toBinary f) = some x) :
    (binary f style wanted).Restores x := by
  obtain ⟨n, hn, hnx⟩ := Option.map_eq_some_iff.1 h
  rw [restores_iff (complete_binary hf style wanted), echo_binary_of_finite style wanted hx,
    readNumber, hn, map_pure, hnx]

/-- The names of types are well formed, and numbers come back from their own texts. -/
structure Graph.Restorable (g : Graph) : Prop where
  types : ∀ n ∈ g.nodes.entries, n.type.WellFormed
  offsets : ∀ n ∈ g.nodes.entries,
    Codec.double.Restores n.offset.x ∧ Codec.double.Restores n.offset.y
  values : ∀ n ∈ g.nodes.entries, ∀ b ∈ n.params.entries, ∀ x ∈ b.value.numbers,
    Codec.single.Restores x

theorem Codec.echo_single_eq {x : Single} (h : single.Restores x) : single.echo x = pure x :=
  (restores_iff (complete_binary Format.common_single _ _) x).1 h

theorem Codec.echo_double_eq {x : Double} (h : double.Restores x) : double.echo x = pure x :=
  (restores_iff (complete_binary Format.common_double _ _) x).1 h

theorem Graph.Restorable.echo_node {g : Graph} (h : g.Restorable) {n : Node}
    (hn : n ∈ g.nodes.entries) : Node.codec.echo n = pure n := by
  have hoffset : Point.codec.echo n.offset = pure n.offset := by
    rw [Point.echo_codec_eq, Codec.echo_double_eq (h.offsets n hn).1, pure_bind,
      Codec.echo_double_eq (h.offsets n hn).2, pure_bind]
  have hparams : Binding.rosterCodec.echo n.params = pure n.params :=
    Binding.echo_rosterCodec fun b hb x hx => Codec.echo_single_eq (h.values n hn b hb x hx)
  rw [Node.echo_codec_eq (h.types n hn), hoffset, pure_bind, hparams, pure_bind]

/-- A restorable graph comes back as it was: nothing is lost, reordered or reported. -/
theorem load_saved_graph (g : Graph) (h : g.Restorable) : Graph.load g.save = pure g := by
  have hnodes : Node.codec.roster.echo g.nodes = pure g.nodes :=
    Codec.echo_roster_of fun n hn => h.echo_node hn
  rw [Graph.load_save_eq, Graph.echo_codec_eq, hnodes, pure_bind]
  rfl

namespace Sample

/-- The 32-bit number nearest to one tenth. -/
def tenth : Single := .ofBits .single 0x3dcccccd

/-- A place with a coordinate that needs seventeen digits. -/
def place : Point := ⟨.ofBits .double 0x3fd3333333333334, .ofBits .double 0x8000000000000000⟩

/-- A node with names that have to be escaped. -/
def quoted : Node :=
  ⟨⟨9⟩, ⟨"Größe", "\"Quoted\"\n"⟩, place, .ofList [
    ⟨"β/\\\x07", .color ⟨tenth, .zero, tenth.neg, tenth⟩⟩, ⟨"", .scalar tenth⟩]⟩

def nameless : Node := ⟨⟨2⟩, .unknown, .origin, .empty⟩

/-- Nodes out of order, and a joint to a node that is not there. -/
def escaped : Graph where
  nodes := .ofList [quoted, nameless]
  joints := .ofList [⟨⟨⟨9⟩, "入力\t"⟩, ⟨⟨2⟩, .red⟩⟩, ⟨⟨⟨4⟩, "X"⟩, ⟨⟨9⟩, .all⟩⟩]

theorem restores_singles : ∀ x ∈ [tenth, .zero, tenth.neg], Codec.single.Restores x := by
  have hx : ∀ x ∈ [tenth, .zero, tenth.neg], x.isFinite = true ∧
      (singleStyle.numeral x).number?.map (·.toBinary .single) = some x := by decide +kernel
  exact fun x hmem => Codec.restores_binary Format.common_single (hx x hmem).1 (hx x hmem).2

theorem restores_doubles : ∀ x ∈ [place.x, place.y, .zero], Codec.double.Restores x := by
  have hx : ∀ x ∈ [place.x, place.y, .zero], x.isFinite = true ∧
      (doubleStyle.numeral x).number?.map (·.toBinary .double) = some x := by decide +kernel
  exact fun x hmem => Codec.restores_binary Format.common_double (hx x hmem).1 (hx x hmem).2

theorem restorable_escaped : escaped.Restorable := by
  have hnodes : escaped.nodes.entries = [quoted, nameless] := rfl
  have hvalues : ∀ b ∈ quoted.params.entries, ∀ x ∈ b.value.numbers,
      x ∈ [tenth, .zero, tenth.neg] := by decide
  have hquoted : quoted.type.WellFormed := ⟨by decide, by decide, by decide, by decide⟩
  have hplace : Codec.double.Restores place.x ∧ Codec.double.Restores place.y :=
    ⟨restores_doubles _ (by decide), restores_doubles _ (by decide)⟩
  have horigin : Codec.double.Restores Binary.zero := restores_doubles _ (by decide)
  refine ⟨?_, ?_, ?_⟩ <;> rw [hnodes, List.forall_mem_cons, List.forall_mem_singleton]
  · exact ⟨hquoted, TypeId.wellFormed_unknown⟩
  · exact ⟨hplace, horigin, horigin⟩
  · exact ⟨fun b hb x hx => restores_singles x (hvalues b hb x hx), fun b hb => nomatch hb⟩

end Sample

theorem load_saved_graph_escaped :
    Sample.escaped.Restorable ∧ Graph.load Sample.escaped.save = pure Sample.escaped :=
  ⟨Sample.restorable_escaped, load_saved_graph Sample.escaped Sample.restorable_escaped⟩

/-! ## Catalogues -/

theorem NodeType.wellFormed_of_readable {t : NodeType} (h : codec.Readable t) :
    t.id.WellFormed := by
  obtain ⟨row, ⟨hid, -⟩, rfl⟩ := Codec.readable_record h
  exact TypeId.wellFormed_of_readable (Fields.readable_required hid)

namespace Catalogue

/-- All names of types are well formed. -/
def WellNamed (c : Catalogue) : Prop := ∀ t ∈ c.entries, t.id.WellFormed

def written (c : Catalogue) (l : Layout) : String := String.ofList ((codec.write c).chars l)

theorem complete_codec : codec.Complete := by
  apply Codec.complete_record
  exact ⟨NodeType.complete_codec.roster, trivial⟩

theorem echo_codec {c : Catalogue} (h : c.WellNamed) : codec.echo c = pure c := by
  have htypes : NodeType.codec.roster.echo c = pure c :=
    Codec.echo_roster_of fun t ht => NodeType.echo_codec (h t ht)
  rw [codec, Codec.echo_record (by decide)]
  simp [Fields.echo, htypes]

theorem wellNamed_of_readable {c : Catalogue} (h : codec.Readable c) : c.WellNamed := by
  obtain ⟨row, ⟨htypes | htypes, -⟩, rfl⟩ := Codec.readable_record h
  · exact fun t ht => NodeType.wellFormed_of_readable (Codec.readable_roster htypes t ht)
  · show WellNamed row.1
    rw [← Option.some.inj htypes]
    rintro t ⟨⟩

/-- A catalogue that was loaded is well named and has no problems. -/
theorem wellNamed_of_load {source : String} {c : Catalogue} (h : Yields (load source) c) :
    c.WellNamed ∧ c.check = .ok () := by
  obtain ⟨c', hc', h⟩ := yields_bind.1 h
  obtain ⟨⟨⟩, hcheck, h⟩ := yields_bind.1 h
  obtain rfl := yields_pure.1 h
  exact ⟨wellNamed_of_readable (readable_of_loadText hc'), hcheck⟩

/-- Loading a written catalogue comes down to checking it. -/
theorem load_written {c : Catalogue} (h : c.WellNamed) (l : Layout) :
    load (c.written l) = (do
      ExceptT.mk (pure c.check)
      pure c) := by
  have htext : loadText .catalogue codec (c.written l) = pure c := by
    rw [written, loadText_chars .catalogue complete_codec, echo_codec h]
    rfl
  rw [load, htext, pure_bind]

end Catalogue

/-- A written catalogue comes back as it was, in every layout, and is refused for its own problems
only. Loaded catalogues can always be written and loaded again. -/
theorem written_catalogue_loads_back :
    (∀ (c : Catalogue), c.WellNamed → ∀ l : Layout,
      Catalogue.codec.parse (c.written l) = pure c ∧
      (c.check = .ok () → Catalogue.load (c.written l) = pure c) ∧
      (∀ e, c.check = .error e → Catalogue.load (c.written l) = throw e)) ∧
    (∀ (source : String) (c : Catalogue), Yields (Catalogue.load source) c →
      ∀ l : Layout, Catalogue.load (c.written l) = pure c) := by
  have hload {c : Catalogue} (h : c.WellNamed) (hcheck : c.check = .ok ()) (l : Layout) :
      Catalogue.load (c.written l) = pure c := by
    rw [Catalogue.load_written h l, hcheck]
    rfl
  refine ⟨fun c h l => ⟨?_, fun hcheck => hload h hcheck l, fun e hcheck => ?_⟩,
    fun source c hc l => ?_⟩
  · rw [Catalogue.written, Codec.parse_chars Catalogue.complete_codec, Catalogue.echo_codec h]
  · rw [Catalogue.load_written h l, hcheck]
    rfl
  · obtain ⟨h, hcheck⟩ := Catalogue.wellNamed_of_load hc
    exact hload h hcheck l

namespace Sample

/-- A catalogue whose only type uses every field. -/
def mixing : Catalogue := .ofList [{
  id := ⟨"Färben", "Mix 50%"⟩
  hidden := true
  params := .ofList [⟨"Stärke", .scalar⟩]
  inputs := .ofList ["A", "\"B\""]
  outputs := .ofList [.all, .alpha]
  globals := .ofList ["uniform float t;\n"]
  code := [⟨[.color, .color, .color], ["#output = mix(#A, #B, 0.5);", ""]⟩] }]

/-- A catalogue with a type that has the reserved name. -/
def reserved : Catalogue := .ofList [.new .unknown]

theorem wellNamed_mixing : mixing.WellNamed :=
  List.forall_mem_singleton.2 ⟨by decide, by decide, by decide, by decide⟩

theorem wellNamed_reserved : reserved.WellNamed :=
  List.forall_mem_singleton.2 TypeId.wellFormed_unknown

end Sample

theorem written_catalogue_loads_back_mixing :
    Sample.mixing.check = .ok () ∧
      Catalogue.load (Sample.mixing.written .compact) = pure Sample.mixing ∧
      Catalogue.load (Sample.mixing.written (.lines 0)) = pure Sample.mixing ∧
      Catalogue.load (Sample.reserved.written (.lines 0)) =
        throw (.invalidCatalogue [.reservedId]) := by
  obtain ⟨hwritten, hloaded⟩ := written_catalogue_loads_back
  have hcheck : Sample.mixing.check = .ok () := rfl
  have hcompact := (hwritten Sample.mixing Sample.wellNamed_mixing .compact).2.1 hcheck
  refine ⟨hcheck, hcompact, hloaded _ _ (hcompact ▸ yields_pure.2 rfl) (.lines 0), ?_⟩
  exact (hwritten Sample.reserved Sample.wellNamed_reserved (.lines 0)).2.2 _ rfl

end ShaderNodes
