import Mathlib
import ShaderNodes.Proofs.Documents
import ShaderNodes.Proofs.Histories

/-!
# New nodes and joints that were there before

A new node gets a number that no node has. Joints are not looked at: a graph may be loaded with
joints that lead to or from nodes that it does not have, and a new node may get the number of one of
them. That is the only way in which a new node is connected from the start. Edits never leave a
joint without its ends, so such a joint has been there ever since the graph was loaded.

* `Session`: a canvas that is edited and into which graphs are loaded;
* `Session.Anchored`: joints without an end stem from the graph that was loaded last;
* `placed_node_connected_only_by_loaded_joints`: the joints that touch a new node.
-/

namespace ShaderNodes

/-- The joint leads to the node or comes from it. -/
def Joint.Touches (j : Joint) (n : NodeId) : Prop := j.source.node = n ∨ j.dest.node = n

instance (j : Joint) (n : NodeId) : Decidable (j.Touches n) :=
  inferInstanceAs (Decidable (j.source.node = n ∨ j.dest.node = n))

/-- All joints lead between nodes of the graph. -/
def Graph.Closed (g : Graph) : Prop :=
  ∀ j ∈ g.joints.entries, ∀ n, j.Touches n → n ∈ g.nodes.keys

namespace Canvas

/-- A new node gets a number above all others. -/
theorem lt_of_nextId {c : Canvas} {id n : NodeId} (h : c.nextId = .ok id)
    (hn : n ∈ c.graph.nodes.keys) : n.val < id.val := by
  have hmem : n.val.toNat ∈ c.graph.nodes.keys.map fun id => id.val.toNat := List.mem_map_of_mem hn
  unfold nextId at h
  split at h
  case h_1 hnone =>
    rw [List.max?_eq_none_iff.1 hnone] at hmem
    cases hmem
  case h_2 m hm =>
    split at h
    case isTrue hsize =>
      cases h
      have hle := (List.max?_eq_some_iff.1 hm).2 _ hmem
      rw [UInt32.lt_iff_toNat_lt, UInt32.toNat_ofNat_of_lt' hsize]
      omega
    case isFalse => cases h

theorem nextId_not_mem {c : Canvas} {id : NodeId} (h : c.nextId = .ok id) :
    id ∉ c.graph.nodes.keys := by
  intro hmem
  exact UInt32.lt_irrefl _ (lt_of_nextId h hmem)

theorem add_eq_ok {c : Canvas} {type : TypeId} {offset : Point} {e : Edited NodeId}
    (h : c.add type offset = .ok e) :
    c.nextId = .ok e.result ∧ e.canvas.graph.joints = c.graph.joints := by
  unfold add at h
  split at h
  · cases h
  · cases hid : c.nextId with
    | error _ => rw [hid] at h; cases h
    | ok id =>
      rw [hid] at h
      cases h
      exact ⟨rfl, rfl⟩

end Canvas

/-! ## Sessions -/

/-- An edit, or the loading of a text. -/
inductive Act
  | edit (e : Edit)
  | load (text : String)

/-- A canvas, with the graph that was loaded last. -/
structure Session where
  canvas : Canvas
  loaded : Graph

namespace Session

/-- A new canvas; nothing has been loaded. -/
def start (types : Catalogue) : Session := ⟨.new types, .empty⟩

/-- The session after an edit or after a text has been loaded. What fails changes nothing. -/
def act (s : Session) : Act → Session
  | .edit e => { s with canvas := (s.canvas.edit? e).getD s.canvas }
  | .load text =>
    match (Graph.load text).run.value with
    | .ok g => ⟨(s.canvas.load g).canvas, g⟩
    | .error _ => s

/-- The session after one act after the other. -/
def after (s : Session) (acts : List Act) : Session := acts.foldl act s

/-- A joint without one of its ends stems from the graph that was loaded last, where that end was
not there either. -/
def Anchored (s : Session) : Prop :=
  ∀ j ∈ s.canvas.graph.joints.entries, ∀ n, j.Touches n → n ∉ s.canvas.graph.nodes.keys →
    j ∈ s.loaded.joints.entries ∧ n ∉ s.loaded.nodes.keys

theorem anchored_start (types : Catalogue) : (start types).Anchored := by
  rintro j ⟨⟩

/-- No edit takes away an end of a joint that it keeps. -/
theorem Anchored.change {c c' : Canvas} {g : Graph} (h : (⟨c, g⟩ : Session).Anchored)
    (hchange : c.Change c') : (⟨c', g⟩ : Session).Anchored := by
  intro j hj n htouch hn
  cases hchange with
  -- Joints stay as they are, and no node goes.
  | place _ _ => exact h j hj n htouch fun hmem => hn (Roster.mem_keys_put.2 (.inl hmem))
  | bind _ _ _ => exact h j hj n htouch fun hmem => hn (Roster.mem_keys_put.2 (.inl hmem))
  | move _ _ => exact h j hj n htouch fun hmem => hn (Roster.mem_keys_put.2 (.inl hmem))
  | connect hsource hdest =>
    obtain rfl | ⟨hj, -⟩ := Roster.mem_put.1 hj
    · obtain rfl | rfl := htouch
      · exact absurd hsource hn
      · exact absurd hdest hn
    · exact h j hj n htouch hn
  | disconnect _ => exact h j (Roster.mem_erase.1 hj).1 n htouch hn
  | @delete deleted _ =>
    -- Joints that touch the deleted node go with it.
    obtain ⟨hj, hother⟩ := List.mem_filter.1 hj
    simp only [Bool.and_eq_true, decide_eq_true_eq] at hother
    have hne : n ≠ deleted.id := by
      obtain rfl | rfl := htouch
      · exact hother.1
      · exact hother.2
    refine h j hj n htouch fun hmem => hn ?_
    obtain ⟨m, hm, rfl⟩ := List.mem_map.1 hmem
    exact Roster.key_mem_keys (Roster.mem_erase.2 ⟨hm, hne⟩)

theorem Anchored.act {s : Session} (h : s.Anchored) (a : Act) : (s.act a).Anchored := by
  cases a with
  | edit e =>
    obtain heq | hchange := s.canvas.edit_cases e
    · rw [Session.act, heq]
      exact h
    · exact h.change hchange
  | load text =>
    cases hload : (Graph.load text).run.value with
    | ok g =>
      simp only [Session.act, hload]
      exact fun j hj n _ hn => ⟨hj, hn⟩
    | error _ =>
      simp only [Session.act, hload]
      exact h

theorem Anchored.after {s : Session} (h : s.Anchored) (acts : List Act) :
    (s.after acts).Anchored := by
  induction acts generalizing s with
  | nil => exact h
  | cons a acts ih => exact ih (h.act a)

end Session

/-- After every history of edits and of loaded texts, the joints that touch a new node stem from the
graph that was loaded last, and led to or from a node that this graph did not have. So a new node
starts unconnected, unless the graph was loaded with joints that have lost their ends. -/
theorem placed_node_connected_only_by_loaded_joints (types : Catalogue) (acts : List Act)
    (type : TypeId) (offset : Point) (e : Edited NodeId)
    (h : ((Session.start types).after acts).canvas.add type offset = .ok e) :
    (∀ j ∈ e.canvas.graph.joints.entries, j.Touches e.result →
      j ∈ ((Session.start types).after acts).loaded.joints.entries ∧
        e.result ∉ ((Session.start types).after acts).loaded.nodes.keys) ∧
    (((Session.start types).after acts).loaded.Closed →
      ∀ j ∈ e.canvas.graph.joints.entries, ¬ j.Touches e.result) := by
  obtain ⟨hid, hjoints⟩ := Canvas.add_eq_ok h
  have hanchored := (Session.anchored_start types).after acts
  have hloaded (j : Joint) (hj : j ∈ e.canvas.graph.joints.entries) (htouch : j.Touches e.result) :=
    hanchored j (hjoints ▸ hj) e.result htouch (Canvas.nextId_not_mem hid)
  refine ⟨hloaded, fun hclosed j hj htouch => ?_⟩
  obtain ⟨hmem, habsent⟩ := hloaded j hj htouch
  exact habsent (hclosed j hmem e.result htouch)

namespace Sample

def clocks : Catalogue := .ofList [.new ⟨"Global", "Time"⟩]

/-- Two nodes are joined, and one of them is deleted. -/
def parted : List Act := [
  .edit (.add ⟨"Global", "Time"⟩ .origin),
  .edit (.add ⟨"Global", "Time"⟩ .origin),
  .edit (.connect ⟨⟨1⟩, .all⟩ ⟨⟨2⟩, "X"⟩),
  .edit (.delete ⟨2⟩)]

/-- A graph with a joint but no nodes. -/
def loose : Graph := ⟨.empty, .ofList [⟨⟨⟨2⟩, "X"⟩, ⟨⟨1⟩, .all⟩⟩]⟩

def looseText : String :=
  "\x7b\"joints\":[\x7b\"sourceNode\":1,\"sourceOutput\":\"All\",\"destNode\":2,"
    ++ "\"destInput\":\"X\"\x7d]\x7d"

theorem load_looseText : (Graph.load looseText).run.value = .ok loose := by
  have htext : looseText = (Json.object (.ofList [("joints",
      Joint.codec.roster.write loose.joints)])).compact := by decide +kernel
  have hcomplete : (Json.object (.ofList [("joints",
      Joint.codec.roster.write loose.joints)])).Complete := by
    simpa using Joint.complete_codec.roster loose.joints
  rw [htext, Graph.load, loadText, Json.compact, Codec.parse_document _ hcomplete]
  exact yields_of_toOption (by decide +kernel)

end Sample

/-- The number of a deleted node is given again, and nothing touches the new node. -/
theorem placed_node_connected_only_by_loaded_joints_parted :
    ∃ e, ((Session.start Sample.clocks).after Sample.parted).canvas.add
        ⟨"Global", "Time"⟩ .origin = .ok e ∧
      e.result = ⟨2⟩ ∧ ∀ j ∈ e.canvas.graph.joints.entries, ¬ j.Touches e.result := by
  have hplaced : (((Session.start Sample.clocks).after Sample.parted).canvas.add
      ⟨"Global", "Time"⟩ .origin).toOption.map Edited.result = some ⟨2⟩ := by decide +kernel
  obtain ⟨e, he, hresult⟩ := Canvas.exists_of_toOption hplaced
  have hclosed : Graph.empty.Closed := by rintro j ⟨⟩
  exact ⟨e, he, hresult,
    (placed_node_connected_only_by_loaded_joints _ _ _ _ e he).2 hclosed⟩

/-- A loaded joint without ends is taken over by the first node that is placed. -/
theorem placed_node_takes_over_loose_joint :
    ∃ e, ((Session.start Sample.clocks).after [.load Sample.looseText]).canvas.add
        ⟨"Global", "Time"⟩ .origin = .ok e ∧
      ∃ j ∈ e.canvas.graph.joints.entries, j.source.node = e.result := by
  have hsession : (Session.start Sample.clocks).after [.load Sample.looseText] =
      ⟨⟨Sample.clocks, Sample.loose⟩, Sample.loose⟩ := by
    simp only [Session.after, List.foldl, Session.act, Sample.load_looseText]
    rfl
  have hplaced : ((⟨Sample.clocks, Sample.loose⟩ : Canvas).add
      ⟨"Global", "Time"⟩ .origin).toOption.map Edited.result = some ⟨1⟩ := by decide +kernel
  obtain ⟨e, he, hresult⟩ := Canvas.exists_of_toOption hplaced
  have hjoints := (Canvas.add_eq_ok he).2
  refine ⟨e, by rwa [hsession], ⟨⟨⟨2⟩, "X"⟩, ⟨⟨1⟩, .all⟩⟩, ?_, hresult.symm⟩
  rw [hjoints]
  decide

end ShaderNodes
