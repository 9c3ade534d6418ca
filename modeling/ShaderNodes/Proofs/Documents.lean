import Mathlib
import ShaderNodes.Proofs.Readings
import ShaderNodes.Proofs.WrittenNumbers

/-!
# Saved documents

What comes back of values, node types, nodes and joints that were written as documents. Names of
types come back if they are well formed. Numbers come back if they are read from their own text to
the same bits, which is asked of each of them on its own. Everything else comes back always.

* `Codec.Restores`: values that come back from their own text;
* `TypeId.WellFormed`, `TypeId.echo_codec`, `TypeId.wellFormed_of_readable`: names of types;
* `Value.echo_codec`, `NodeType.echo_codec`, `Node.echo_codec_eq`, `Graph.echo_codec_eq`: what comes
  back of values, node types, nodes and graphs.
-/

namespace ShaderNodes

open Json Json.Reading

/-- The value comes back from its own text. -/
def Codec.Restores {α : Type} (c : Codec α) (a : α) : Prop := c.parse (c.write a).compact = pure a

theorem Codec.restores_iff {α : Type} {c : Codec α} (hc : c.Complete) (a : α) :
    c.Restores a ↔ c.echo a = pure a := by
  rw [Restores, compact, parse_chars hc]

theorem loadText_chars {α : Type} (kind : FileKind) {c : Codec α} (hc : c.Complete) (l : Layout)
    (a : α) : loadText kind c (String.ofList ((c.write a).chars l)) =
      (c.echo a).adapt (.refused kind) := by
  rw [loadText, Codec.parse_chars hc]

/-! ## Names of types -/

namespace TypeId

/-- Both parts of the name are there, and neither holds a slash. -/
structure WellFormed (t : TypeId) : Prop where
  category : t.category ≠ ""
  name : t.name ≠ ""
  category_slash : '/' ∉ t.category.toList
  name_slash : '/' ∉ t.name.toList

theorem wellFormed_unknown : unknown.WellFormed where
  category := by decide
  name := by decide
  category_slash := by decide
  name_slash := by decide

theorem toList_text (t : TypeId) : t.text.toList = t.category.toList ++ '/' :: t.name.toList := by
  simp [text]

/-- The written form of a well-formed name is read as that name. -/
theorem parse?_text {t : TypeId} (ht : t.WellFormed) : parse? t.text = some t := by
  have hcategory := decide_ne_of_not_mem ht.category_slash
  unfold parse?
  dsimp only
  rw [toList_text, List.takeWhile_append_of_pos hcategory, List.dropWhile_append_of_pos hcategory]
  simp [ht.category, ht.name, ht.name_slash]

/-- Names that are read are well formed. -/
theorem wellFormed_of_parse? {s : String} {t : TypeId} (h : parse? s = some t) : t.WellFormed := by
  unfold parse? at h
  dsimp only at h
  split at h
  case h_1 => cases h
  case h_2 c name hname =>
    split_ifs at h with hrefused
    simp only [Bool.or_eq_true, not_or, Bool.not_eq_true, List.isEmpty_eq_false_iff] at hrefused
    obtain ⟨⟨hcategory, hname⟩, hslash⟩ := hrefused
    cases h
    refine ⟨by simpa using hcategory, by simpa using hname, ?_, by simpa using hslash⟩
    rw [String.toList_ofList]
    intro hmem
    simpa using List.mem_takeWhile_imp hmem

theorem complete_codec : codec.Complete := fun t => ⟨t.text, rfl⟩

theorem echo_codec {t : TypeId} (ht : t.WellFormed) : codec.echo t = pure t := by
  show Reading.lift (ofText t.text) = pure t
  rw [ofText, parse?_text ht]
  rfl

theorem wellFormed_of_readable {t : TypeId} (h : codec.Readable t) : t.WellFormed := by
  obtain ⟨j, hj⟩ := h
  obtain ⟨s, -, hs⟩ := yields_bind.1 hj
  rw [yields_lift, ofText] at hs
  split at hs
  case h_1 t' ht => exact hs ▸ wellFormed_of_parse? ht
  case h_2 => exact hs ▸ wellFormed_unknown

end TypeId

/-! ## Values -/

theorem ValueType.complete_codec : codec.Complete := Codec.complete_choice _ _

theorem ValueType.echo_codec (t : ValueType) : codec.echo t = pure t :=
  Codec.echo_choice (by cases t <;> rfl)

theorem ValueType.echo_tagCodec (t : ValueType) : tagCodec.echo t = pure t :=
  Codec.echo_choice (by cases t <;> rfl)

theorem Output.complete_codec : codec.Complete := Codec.complete_choice _ _

theorem Output.echo_codec (o : Output) : codec.echo o = pure o :=
  Codec.echo_choice (by cases o <;> rfl)

namespace Value

/-- The numbers in a value. -/
def numbers : Value → List Single
  | scalar x => [x]
  | color c => c.channels

/-- A written value is read by its tag. -/
theorem readMembers_pair (room : Nat) (type : ValueType) (content : Json) :
    readMembers room .nothing (.ofList [("type", .string type.tag), ("value", content)]) =
      readContent type content := by
  have htag : ValueType.tagCodec.read (.string type.tag) = pure type := type.echo_tagCodec
  have hfirst : Progress.tag (.string type.tag) .nothing = pure (.tagged type) := by
    show ValueType.tagCodec.read (.string type.tag) >>= (pure ∘ Progress.tagged) = _
    rw [htag, pure_bind]
    rfl
  have hsecond : Progress.content room content (.tagged type) =
      .done <$> readContent type content := (map_eq_pure_bind _ _).symm
  calc readMembers room .nothing (.ofList [("type", .string type.tag), ("value", content)])
      = Progress.tag (.string type.tag) .nothing >>= fun p =>
          p.content room content >>= Progress.finish := rfl
    _ = readContent type content := by
      rw [hfirst, pure_bind, hsecond, bind_map_left]
      exact bind_pure _

theorem echo_scalar (enclosing : Nat) (x : Single) :
    (codec enclosing).echo (.scalar x) = Value.scalar <$> Codec.single.echo x :=
  readMembers_pair _ .scalar _

theorem readChannel_cons (n : Nat) (j : Json) (tail : Items) :
    Color.readChannel n (.cons j tail) = (fun x => (x, tail)) <$> Codec.single.read j :=
  (map_eq_pure_bind _ _).symm

theorem echo_color (enclosing : Nat) (c : Color) :
    (codec enclosing).echo (.color c) = (do
      let r ← Codec.single.echo c.r
      let g ← Codec.single.echo c.g
      let b ← Codec.single.echo c.b
      let a ← Codec.single.echo c.a
      pure (.color ⟨r, g, b, a⟩)) := by
  refine (readMembers_pair _ .color _).trans ?_
  have hitems : Items.ofList (c.channels.map Codec.single.write) =
      .cons (Codec.single.write c.r) (.cons (Codec.single.write c.g)
        (.cons (Codec.single.write c.b) (.cons (Codec.single.write c.a) (.nil .closed)))) := rfl
  simp only [readContent, Color.read, Color.readChannels, hitems, readChannel_cons, bind_map_left,
    bind_assoc, pure_bind, map_bind, Codec.echo]
  rfl

theorem complete_codec (enclosing : Nat) : (codec enclosing).Complete := by
  have hsingle : Codec.single.Complete := Codec.complete_binary Format.common_single _ _
  intro v
  refine complete_object.2 fun m hm => ?_
  simp only [List.mem_cons, List.not_mem_nil, or_false] at hm
  obtain rfl | rfl := hm
  · exact ⟨_, rfl⟩
  · cases v with
    | scalar x => exact hsingle x
    | color c =>
      refine complete_array.2 fun j hj => ?_
      obtain ⟨x, -, rfl⟩ := List.mem_map.1 hj
      exact hsingle x

theorem echo_codec (enclosing : Nat) {v : Value}
    (h : ∀ x ∈ v.numbers, Codec.single.echo x = pure x) : (codec enclosing).echo v = pure v := by
  cases v with
  | scalar x => rw [echo_scalar, h x (by simp [numbers]), map_pure]
  | color c =>
    simp only [numbers, Color.channels, List.forall_mem_cons] at h
    rw [echo_color, h.1, h.2.1, h.2.2.1, h.2.2.2.1]
    simp only [pure_bind]

end Value

/-! ## Node types -/

theorem Param.complete_codec : codec.Complete := by
  apply Codec.complete_record
  exact ⟨Codec.complete_text, ValueType.complete_codec, trivial⟩

theorem Param.echo_codec (p : Param) : codec.echo p = pure p := by
  rw [codec, Codec.echo_record (by decide)]
  simp [Fields.echo, Codec.echo_text, ValueType.echo_codec]

theorem Overload.complete_codec : codec.Complete := by
  apply Codec.complete_record
  exact ⟨ValueType.complete_codec.list _, Codec.complete_text.list _, trivial⟩

theorem Overload.echo_codec (o : Overload) : codec.echo o = pure o := by
  have hsignature : ValueType.codec.sequence.echo o.signature = pure o.signature :=
    Codec.echo_sequence_of fun t _ => t.echo_codec
  have hcode : Codec.text.sequence.echo o.code = pure o.code :=
    Codec.echo_sequence_of fun s _ => Codec.echo_text s
  rw [codec, Codec.echo_record (by decide)]
  simp [Fields.echo, hsignature, hcode]

theorem NodeType.complete_codec : codec.Complete := by
  apply Codec.complete_record
  exact ⟨TypeId.complete_codec, Codec.complete_bool, Param.complete_codec.roster,
    Codec.complete_text.set, Output.complete_codec.set, Codec.complete_text.set,
    Overload.complete_codec.list _, trivial⟩

theorem NodeType.echo_codec {t : NodeType} (ht : t.id.WellFormed) : codec.echo t = pure t := by
  have hparams : Param.codec.roster.echo t.params = pure t.params :=
    Codec.echo_roster_of fun p _ => p.echo_codec
  have htexts (r : Roster String) : Codec.text.set.echo r = pure r :=
    Codec.echo_set_of fun s _ => Codec.echo_text s
  have houtputs : Output.codec.set.echo t.outputs = pure t.outputs :=
    Codec.echo_set_of fun o _ => o.echo_codec
  have hcode : Overload.codec.sequence.echo t.code = pure t.code :=
    Codec.echo_sequence_of fun o _ => o.echo_codec
  rw [codec, Codec.echo_record (by decide)]
  simp [Fields.echo, TypeId.echo_codec ht, Codec.echo_bool, hparams, htexts, houtputs, hcode]

/-! ## Nodes and joints -/

theorem NodeId.complete_codec : codec.Complete := Codec.complete_word.map _ _

theorem NodeId.echo_codec (n : NodeId) : codec.echo n = pure n := by
  rw [codec, Codec.echo_map, Codec.echo_word, map_pure]

theorem Point.complete_codec : codec.Complete := by
  apply Codec.complete_record
  exact ⟨Codec.complete_binary Format.common_double _ _, Codec.complete_binary
    Format.common_double _ _, trivial⟩

theorem Point.echo_codec_eq (p : Point) : codec.echo p = (do
    let x ← Codec.double.echo p.x
    let y ← Codec.double.echo p.y
    pure ⟨x, y⟩) := by
  rw [codec, Codec.echo_record (by decide)]
  simp [Fields.echo]

theorem Binding.complete_rosterCodec : rosterCodec.Complete :=
  (Value.complete_codec 4).namedRoster _ _ _

theorem Binding.echo_rosterCodec {r : Roster Binding}
    (h : ∀ b ∈ r.entries, ∀ x ∈ b.value.numbers, Codec.single.echo x = pure x) :
    rosterCodec.echo r = pure r := by
  have hentries : (r.entries.mapM fun b => mk b.param <$> (Value.codec 4).echo b.value) =
      pure r.entries := by
    refine Codec.mapM_eq_pure fun b hb => ?_
    rw [Value.echo_codec 4 (h b hb), map_pure]
  rw [rosterCodec, Codec.echo_namedRoster, hentries, map_pure, Roster.ofList_entries]

theorem Node.complete_codec : codec.Complete := by
  apply Codec.complete_record
  exact ⟨NodeId.complete_codec, TypeId.complete_codec, Point.complete_codec,
    Binding.complete_rosterCodec, trivial⟩

/-- Only the place and the values of a node with a well-formed type may change. -/
theorem Node.echo_codec_eq {n : Node} (hn : n.type.WellFormed) : codec.echo n = (do
    let offset ← Point.codec.echo n.offset
    let params ← Binding.rosterCodec.echo n.params
    pure { n with offset, params }) := by
  rw [codec, Codec.echo_record (by decide)]
  simp [Fields.echo, NodeId.echo_codec, TypeId.echo_codec hn]

theorem Joint.complete_codec : codec.Complete := by
  apply Codec.complete_record
  exact ⟨NodeId.complete_codec, Output.complete_codec, NodeId.complete_codec, Codec.complete_text,
    trivial⟩

theorem Joint.echo_codec (j : Joint) : codec.echo j = pure j := by
  rw [codec, Codec.echo_record (by decide)]
  simp [Fields.echo, NodeId.echo_codec, Output.echo_codec, Codec.echo_text]

theorem Graph.complete_codec : codec.Complete := by
  apply Codec.complete_record
  exact ⟨Node.complete_codec.roster, Joint.complete_codec.roster, trivial⟩

theorem Graph.echo_codec_eq (g : Graph) : codec.echo g = (do
    let nodes ← Node.codec.roster.echo g.nodes
    pure { g with nodes }) := by
  have hjoints : Joint.codec.roster.echo g.joints = pure g.joints :=
    Codec.echo_roster_of fun j _ => j.echo_codec
  rw [codec, Codec.echo_record (by decide)]
  simp [Fields.echo, hjoints]

/-- What is loaded from a saved graph. -/
theorem Graph.load_save_eq (g : Graph) : load g.save = (codec.echo g).adapt (.refused .graph) :=
  loadText_chars .graph complete_codec (.lines 0) g

end ShaderNodes
