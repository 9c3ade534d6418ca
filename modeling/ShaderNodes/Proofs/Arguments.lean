import Mathlib
import ShaderNodes.Command
import ShaderNodes.Proofs.Numerals

/-!
# The grammar of arguments

Arguments are read two at a time. What is accepted is a concatenation of pairs of a flag and a
value, where the value may be any text, even that of a flag, unless the flag asks for the number of
a node. What is refused goes on behind such pairs with an argument that no flag is written as, with
a flag at the very end, or with a number that cannot be read.

Both readers, that of numbers and that of arguments, are treated alike: every text splits into a
part that is read and a rest that is empty or offends, the part that is read only moves the reader
on, and a rest that offends is refused for the reason that its first characters or arguments give.

* `NodeId.parse_eq_ok_iff`, `NodeId.parse_eq_error_iff`: texts of numbers;
* `Command.exists_spelled`: how arguments split;
* `arguments_follow_grammar`: what is accepted, what is read, and why the others are refused.
-/

namespace ShaderNodes

/-! ## Numbers of nodes -/

namespace NodeId

/-- What is left of a text without a plus sign in front. -/
def unsigned : List Char → List Char
  | '+' :: cs => cs
  | cs => cs

/-- The text writes the number: digits that make it up, behind a plus sign if there is one. -/
def Writes (s : String) (id : NodeId) : Prop :=
  ∃ ds : List (Fin 10), ds ≠ [] ∧ unsigned s.toList = ds.map digitChar ∧
    ofDigits ds = id.val.toNat

/-- Why a text writes no number. Of several reasons the first one from the left counts: digits that
are read before it make up a number that still fits. -/
inductive Refuses (s : String) : NodeIdError → Prop
  | empty (h : s = "") : Refuses s .empty
  | sign (h : s = "+") : Refuses s .invalidDigit
  | digit {ds : List (Fin 10)} {c : Char} {rest : List Char}
      (h : unsigned s.toList = ds.map digitChar ++ c :: rest) (hc : c.isDigit = false)
      (hds : ofDigits ds < UInt32.size) : Refuses s .invalidDigit
  | large {ds : List (Fin 10)} {d : Fin 10} {rest : List Char}
      (h : unsigned s.toList = ds.map digitChar ++ digitChar d :: rest)
      (hds : ofDigits ds < UInt32.size) (hd : UInt32.size ≤ ofDigits (ds ++ [d])) :
      Refuses s .tooLarge

theorem ofDigits_concat (ds : List (Fin 10)) (d : Fin 10) :
    ofDigits (ds ++ [d]) = ofDigits ds * 10 + d.val := by
  rw [ofDigits_append, List.length_singleton, pow_one]
  congr 1
  simp [ofDigits]

theorem parseDigits_digit (n : Nat) (d : Fin 10) (cs : List Char) :
    parseDigits n (digitChar d :: cs) =
      if n * 10 + d.val < UInt32.size then parseDigits (n * 10 + d.val) cs
      else .error .tooLarge := by
  simp only [parseDigits, isDigit_digitChar, toNat_digitChar, Bool.not_true, Bool.false_eq_true,
    if_false]

/-- Digits that fit only move the reader on. -/
theorem parseDigits_append {ds : List (Fin 10)} (h : ofDigits ds < UInt32.size) (cs : List Char) :
    parseDigits 0 (ds.map digitChar ++ cs) = parseDigits (ofDigits ds) cs := by
  induction ds using List.reverseRecOn generalizing cs with
  | nil => rfl
  | append_singleton ds d ih =>
    rw [ofDigits_concat] at h
    rw [List.map_append, List.append_assoc, ih (by omega), List.map_singleton,
      List.singleton_append, parseDigits_digit, if_pos h, ofDigits_concat]

/-- Every text splits into digits that fit and a rest, which is empty or goes on with what does not
belong there. -/
theorem exists_digits (cs : List Char) : ∃ (ds : List (Fin 10)) (rest : List Char),
    cs = ds.map digitChar ++ rest ∧ ofDigits ds < UInt32.size ∧
      (rest = [] ∨ (∃ c tail, rest = c :: tail ∧ c.isDigit = false) ∨
        ∃ d tail, rest = digitChar d :: tail ∧ UInt32.size ≤ ofDigits (ds ++ [d])) := by
  -- From the end: one more character only matters if all those in front of it could be read.
  induction cs using List.reverseRecOn with
  | nil => exact ⟨[], [], rfl, by decide, .inl rfl⟩
  | append_singleton cs c ih =>
    obtain ⟨ds, rest, rfl, hds, rfl | ⟨b, tail, rfl, hb⟩ | ⟨d, tail, rfl, hd⟩⟩ := ih
    · cases hc : c.isDigit with
      | false => exact ⟨ds, [c], by simp, hds, .inr (.inl ⟨c, [], rfl, hc⟩)⟩
      | true =>
        obtain ⟨d, rfl⟩ := exists_digitChar hc
        by_cases hfits : ofDigits (ds ++ [d]) < UInt32.size
        · exact ⟨ds ++ [d], [], by simp, hfits, .inl rfl⟩
        · exact ⟨ds, [digitChar d], by simp, hds, .inr (.inr ⟨d, [], rfl, by omega⟩)⟩
    · exact ⟨ds, b :: (tail ++ [c]), by simp, hds, .inr (.inl ⟨b, _, rfl, hb⟩)⟩
    · exact ⟨ds, digitChar d :: (tail ++ [c]), by simp, hds, .inr (.inr ⟨d, _, rfl, hd⟩)⟩

theorem unsigned_eq_nil_iff {s : String} : unsigned s.toList = [] ↔ s = "" ∨ s = "+" := by
  constructor
  · intro h
    unfold unsigned at h
    split at h
    · next cs hs =>
      subst h
      exact .inr (String.toList_injective hs)
    · exact .inl (by simpa using h)
  · rintro (rfl | rfl) <;> rfl

theorem parse_of_ne {s : String} (hs : s ≠ "") (hsign : s ≠ "+") :
    parse s = parseDigits 0 (unsigned s.toList) := by
  have hempty : s.toList ≠ [] := by simpa using hs
  have hplus : s.toList ≠ ['+'] := by
    intro h
    exact hsign (String.toList_injective h)
  unfold parse
  split
  · contradiction
  · contradiction
  · next cs _ h => rw [h]; rfl
  · next h₁ h₂ h₃ =>
    unfold unsigned
    split
    · next cs h => exact absurd h (h₃ cs)
    · rfl

theorem parse_of_writes {s : String} {id : NodeId} (h : Writes s id) : parse s = .ok id := by
  obtain ⟨ds, hnil, hds, hid⟩ := h
  have hfits : ofDigits ds < UInt32.size := hid ▸ id.val.toNat_lt
  have hs : ¬ (s = "" ∨ s = "+") := by
    intro hs
    rw [unsigned_eq_nil_iff.2 hs] at hds
    exact hnil (List.map_eq_nil_iff.1 hds.symm)
  rw [parse_of_ne (hs ∘ .inl) (hs ∘ .inr), hds, ← List.append_nil (ds.map digitChar),
    parseDigits_append hfits, parseDigits, hid, UInt32.ofNat_toNat]

theorem parse_of_refuses {s : String} {reason : NodeIdError} (h : Refuses s reason) :
    parse s = .error reason := by
  by_cases hs : s = ""
  · subst hs
    cases h with
    | empty => rfl
    | sign h => simp at h
    | digit h => simp [unsigned] at h
    | large h => simp [unsigned] at h
  by_cases hsign : s = "+"
  · subst hsign
    cases h with
    | empty h => simp at h
    | sign => rfl
    | digit h => simp [unsigned] at h
    | large h => simp [unsigned] at h
  rw [parse_of_ne hs hsign]
  cases h with
  | empty h => contradiction
  | sign h => contradiction
  | digit h hc hds => rw [h, parseDigits_append hds]; simp [parseDigits, hc]
  | large h hds hd =>
    rw [ofDigits_concat] at hd
    rw [h, parseDigits_append hds, parseDigits_digit, if_neg (by omega)]

/-- Every text writes a number or is refused. -/
theorem writes_or_refuses (s : String) : (∃ id, Writes s id) ∨ ∃ reason, Refuses s reason := by
  by_cases hs : s = ""
  · exact .inr ⟨_, .empty hs⟩
  by_cases hsign : s = "+"
  · exact .inr ⟨_, .sign hsign⟩
  obtain ⟨ds, rest, h, hds, rfl | ⟨c, tail, rfl, hc⟩ | ⟨d, tail, rfl, hd⟩⟩ :=
    exists_digits (unsigned s.toList)
  · refine .inl ⟨⟨UInt32.ofNat (ofDigits ds)⟩, ds, ?_, by simpa using h, ?_⟩
    · rintro rfl
      exact (unsigned_eq_nil_iff.1 h).elim hs hsign
    · exact (UInt32.toNat_ofNat_of_lt hds).symm
  · exact .inr ⟨_, .digit h hc hds⟩
  · exact .inr ⟨_, .large h hds hd⟩

theorem parse_eq_ok_iff {s : String} {id : NodeId} : parse s = .ok id ↔ Writes s id := by
  refine ⟨fun h => ?_, parse_of_writes⟩
  obtain ⟨id', hw⟩ | ⟨reason, hr⟩ := writes_or_refuses s
  · rw [parse_of_writes hw] at h
    cases h
    exact hw
  · rw [parse_of_refuses hr] at h
    cases h

theorem Writes.unique {s : String} {id id' : NodeId} (h : Writes s id) (h' : Writes s id') :
    id = id' := by
  rw [← parse_eq_ok_iff] at h h'
  exact Except.ok.inj (h.symm.trans h')

theorem parse_eq_error_iff {s : String} {reason : NodeIdError} :
    parse s = .error reason ↔ Refuses s reason := by
  refine ⟨fun h => ?_, parse_of_refuses⟩
  obtain ⟨id', hw⟩ | ⟨reason, hr⟩ := writes_or_refuses s
  · rw [parse_of_writes hw] at h
    cases h
  · rw [parse_of_refuses hr] at h
    cases h
    exact hr

end NodeId

/-! ## Pairs of a flag and its value -/

namespace Flag

theorem ofText?_eq_none_iff {s : String} : ofText? s = none ↔ ∀ f : Flag, f.text ≠ s := by
  simp only [ofText?, List.find?_eq_none, decide_eq_true_eq]
  constructor
  · intro h f
    exact h f (by cases f <;> decide)
  · intro h f _
    exact h f

theorem ofText?_text (f : Flag) : ofText? f.text = some f := by
  cases f <;> decide

/-- The flag takes the value: any text, but behind `--node` only the number of a node. -/
def Takes (flag : Flag) (value : String) : Prop := flag = node → ∃ id, NodeId.Writes value id

end Flag

namespace Command

/-- The arguments that spell out flags with their values. -/
def spelled (pairs : List (Flag × String)) : List String := pairs.flatMap fun p => [p.1.text, p.2]

/-- The value in the last pair with the given flag. -/
def lastValue? (flag : Flag) (pairs : List (Flag × String)) : Option String :=
  (pairs.filter fun p => p.1 = flag).getLast?.map Prod.snd

/-- The command holds what the last pair with each flag says, and nothing for the other flags. -/
structure Holds (c : Command) (pairs : List (Flag × String)) : Prop where
  graph : c.graph = lastValue? .graph pairs
  node : Option.Rel NodeId.Writes (lastValue? .node pairs) c.node
  catalogue : c.catalogue = lastValue? .catalogue pairs
  config : c.config = lastValue? .config pairs

/-- Why arguments cannot be read from here on. -/
inductive Offends : List String → UsageError → Prop
  | unknown {arg : String} (h : ∀ f : Flag, f.text ≠ arg) (rest : List String) :
      Offends (arg :: rest) (.unknownArgument arg)
  | missing (flag : Flag) : Offends [flag.text] (.missingValue flag)
  | number {value : String} {reason : NodeIdError} (h : NodeId.Refuses value reason)
      (rest : List String) :
      Offends (Flag.node.text :: value :: rest) (.invalidNode value reason)

theorem lastValue?_concat (flag : Flag) (pairs : List (Flag × String)) (p : Flag × String) :
    lastValue? flag (pairs ++ [p]) = if p.1 = flag then some p.2 else lastValue? flag pairs := by
  unfold lastValue?
  rw [List.filter_append]
  by_cases h : p.1 = flag
  · simp [h]
  · simp [h]

theorem parseOnto_pair (c : Command) (flag : Flag) (value : String) (rest : List String) :
    c.parseOnto (flag.text :: value :: rest) = c.set flag value >>= (parseOnto · rest) := by
  cases h : c.set flag value with
  | ok c' => simp only [parseOnto, flag.ofText?_text, h]; rfl
  | error e => simp only [parseOnto, flag.ofText?_text, h]; rfl

/-- A pair that its flag takes puts the value in its place. -/
theorem exists_set {c : Command} {pairs : List (Flag × String)} (hc : c.Holds pairs) {flag : Flag}
    {value : String} (h : flag.Takes value) :
    ∃ c', c.set flag value = .ok c' ∧ c'.Holds (pairs ++ [(flag, value)]) := by
  obtain ⟨hgraph, hnode, hcatalogue, hconfig⟩ := hc
  cases flag with
  | graph => exact ⟨_, rfl, by constructor <;> simp [lastValue?_concat, *]⟩
  | node =>
    obtain ⟨id, hid⟩ := h rfl
    refine ⟨{ c with node := some id }, ?_, ?_⟩
    · simp only [set, NodeId.parse_eq_ok_iff.2 hid]
    · constructor <;> simp [lastValue?_concat, *]
  | catalogue => exact ⟨_, rfl, by constructor <;> simp [lastValue?_concat, *]⟩
  | config => exact ⟨_, rfl, by constructor <;> simp [lastValue?_concat, *]⟩

/-- Pairs that can be read only move the reader on. -/
theorem exists_parse_append {pairs : List (Flag × String)} (h : ∀ p ∈ pairs, p.1.Takes p.2) :
    ∃ c : Command, c.Holds pairs ∧
      ∀ rest, parse (spelled pairs ++ rest) = c.parseOnto rest := by
  -- From the end, since the last pair with a flag counts.
  induction pairs using List.reverseRecOn with
  | nil => exact ⟨blank, ⟨rfl, .none, rfl, rfl⟩, fun rest => rfl⟩
  | append_singleton pairs p ih =>
    obtain ⟨c, hc, hparse⟩ := ih fun q hq => h q (by simp [hq])
    obtain ⟨c', hset, hc'⟩ := exists_set hc (h p (by simp))
    refine ⟨c', hc', fun rest => ?_⟩
    have hsplit : spelled (pairs ++ [p]) ++ rest = spelled pairs ++ (p.1.text :: p.2 :: rest) := by
      simp [spelled]
    rw [hsplit, hparse, parseOnto_pair, hset]
    rfl

theorem parseOnto_of_offends {rest : List String} {e : UsageError} (h : Offends rest e)
    (c : Command) : c.parseOnto rest = .error e := by
  cases h with
  | unknown h rest =>
    have hnone := Flag.ofText?_eq_none_iff.2 h
    cases rest with
    | nil => simp only [parseOnto, hnone]
    | cons value rest => simp only [parseOnto, hnone]
  | missing flag => simp only [parseOnto, flag.ofText?_text]
  | number h rest =>
    rw [parseOnto_pair, set, NodeId.parse_eq_error_iff.2 h]
    rfl

theorem parse_of_offends {pairs : List (Flag × String)} (h : ∀ p ∈ pairs, p.1.Takes p.2)
    {rest : List String} {e : UsageError} (he : Offends rest e) :
    parse (spelled pairs ++ rest) = .error e := by
  obtain ⟨c, -, hparse⟩ := exists_parse_append h
  rw [hparse, parseOnto_of_offends he]

theorem exists_parse_spelled {pairs : List (Flag × String)} (h : ∀ p ∈ pairs, p.1.Takes p.2) :
    ∃ c : Command, c.Holds pairs ∧ parse (spelled pairs) = .ok c := by
  obtain ⟨c, hc, hparse⟩ := exists_parse_append h
  refine ⟨c, hc, ?_⟩
  rw [← List.append_nil (spelled pairs), hparse, parseOnto]

/-- All arguments split into pairs that can be read and a rest, which is empty or cannot be read on
from its start. -/
theorem exists_spelled (args : List String) :
    ∃ (pairs : List (Flag × String)) (rest : List String),
      args = spelled pairs ++ rest ∧ (∀ p ∈ pairs, p.1.Takes p.2) ∧
        (rest = [] ∨ ∃ e, Offends rest e) := by
  induction args using List.twoStepInduction with
  | nil => exact ⟨[], [], rfl, by simp, .inl rfl⟩
  | singleton arg =>
    refine ⟨[], [arg], rfl, by simp, .inr ?_⟩
    by_cases h : ∃ f : Flag, f.text = arg
    · obtain ⟨f, rfl⟩ := h
      exact ⟨_, .missing f⟩
    · exact ⟨_, .unknown (by simpa using h) []⟩
  | cons_cons arg value args ih =>
    by_cases h : ∃ f : Flag, f.text = arg
    · obtain ⟨f, rfl⟩ := h
      by_cases hvalue : f.Takes value
      · obtain ⟨pairs, rest, rfl, hpairs, hrest⟩ := ih
        refine ⟨(f, value) :: pairs, rest, by simp [spelled], ?_, hrest⟩
        intro p hp
        obtain rfl | hp := List.mem_cons.1 hp
        · exact hvalue
        · exact hpairs p hp
      · -- Only the number of a node can be refused.
        obtain ⟨rfl, hnone⟩ : f = .node ∧ ¬ ∃ id, NodeId.Writes value id := by
          simpa [Flag.Takes] using hvalue
        obtain ⟨reason, hreason⟩ := (NodeId.writes_or_refuses value).resolve_left hnone
        exact ⟨[], _, rfl, by simp, .inr ⟨_, .number hreason args⟩⟩
    · exact ⟨[], _, rfl, by simp, .inr ⟨_, .unknown (by simpa using h) (value :: args)⟩⟩

theorem Holds.unique {c c' : Command} {pairs : List (Flag × String)} (h : c.Holds pairs)
    (h' : c'.Holds pairs) : c = c' := by
  obtain ⟨graph, node, catalogue, config⟩ := c
  obtain ⟨graph', node', catalogue', config'⟩ := c'
  obtain ⟨rfl, hnode, rfl, rfl⟩ := h
  obtain ⟨rfl, hnode', rfl, rfl⟩ := h'
  dsimp only at hnode hnode'
  generalize lastValue? .node pairs = value at hnode hnode'
  cases hnode with
  | none =>
    cases hnode'
    rfl
  | some hid =>
    cases hnode' with
    | some hid' => rw [hid.unique hid']

end Command

/-- Arguments are accepted exactly when they spell out pairs of a flag and a value that it takes. The
last pair with a flag counts. Arguments that are refused begin with such pairs, and what comes right
behind them is the reason. -/
theorem arguments_follow_grammar (args : List String) :
    ((∃ c, Command.parse args = .ok c) ↔
      ∃ pairs, args = Command.spelled pairs ∧ ∀ p ∈ pairs, p.1.Takes p.2) ∧
    (∀ c, Command.parse args = .ok c ↔
      ∃ pairs, args = Command.spelled pairs ∧ (∀ p ∈ pairs, p.1.Takes p.2) ∧ c.Holds pairs) ∧
    (∀ e, Command.parse args = .error e ↔
      ∃ pairs rest, args = Command.spelled pairs ++ rest ∧ (∀ p ∈ pairs, p.1.Takes p.2) ∧
        Command.Offends rest e) := by
  have hok (c : Command) : Command.parse args = .ok c ↔
      ∃ pairs, args = Command.spelled pairs ∧ (∀ p ∈ pairs, p.1.Takes p.2) ∧ c.Holds pairs := by
    constructor
    · intro h
      obtain ⟨pairs, rest, rfl, hpairs, rfl | ⟨e, he⟩⟩ := Command.exists_spelled args
      · obtain ⟨c', hholds, hc'⟩ := Command.exists_parse_spelled hpairs
        rw [List.append_nil, hc'] at h
        cases h
        exact ⟨pairs, List.append_nil _, hpairs, hholds⟩
      · rw [Command.parse_of_offends hpairs he] at h
        cases h
    · rintro ⟨pairs, rfl, hpairs, hc⟩
      obtain ⟨c', hholds, hc'⟩ := Command.exists_parse_spelled hpairs
      rw [hc', hc.unique hholds]
  refine ⟨⟨?_, ?_⟩, hok, fun e => ⟨?_, ?_⟩⟩
  · rintro ⟨c, h⟩
    obtain ⟨pairs, hargs, hpairs, -⟩ := (hok c).1 h
    exact ⟨pairs, hargs, hpairs⟩
  · rintro ⟨pairs, rfl, hpairs⟩
    obtain ⟨c, -, hc⟩ := Command.exists_parse_spelled hpairs
    exact ⟨c, hc⟩
  · intro h
    obtain ⟨pairs, rest, rfl, hpairs, rfl | ⟨e', he'⟩⟩ := Command.exists_spelled args
    · obtain ⟨c, -, hc⟩ := Command.exists_parse_spelled hpairs
      rw [List.append_nil, hc] at h
      cases h
    · rw [Command.parse_of_offends hpairs he'] at h
      cases h
      exact ⟨pairs, rest, rfl, hpairs, he'⟩
  · rintro ⟨pairs, rest, rfl, hpairs, he⟩
    exact Command.parse_of_offends hpairs he

-- A flag in the place of a value is a value, and the last number counts.
example : Command.parse ["--node", "1", "--graph", "--node", "--node", "+007"] =
    .ok ⟨some "--node", some ⟨7⟩, none, none⟩ := by decide

end ShaderNodes
