import Mathlib
import ShaderNodes.Json.Render
import ShaderNodes.Json.Scan

/-!
# Reading written numbers and texts

A numeral is read from its characters, provided that no number goes on behind them. A text is read
up to its closing quotation mark, whatever characters it is made of: each of them is written in a
way that stands for that character alone.

* `Numeral.Proper`: numerals that can be read from their characters;
* `Json.Stops`, `Json.scanNumber_chars`: numbers;
* `Json.quotedFrom_toList`: texts.
-/

namespace ShaderNodes

/-- A numeral that can be told from its characters: there is a whole part, which does not start with
a needless zero, and an exponent has digits. -/
structure Numeral.Proper (n : Numeral) : Prop where
  whole : n.whole ≠ []
  zero : n.whole.head? = some 0 → n.whole.length = 1
  exponent : ∀ mark ds, n.exponent = some (mark, ds) → ds ≠ []

namespace Json

/-! ## Numbers -/

theorem digitValue?_digitChar (d : Fin 10) : digitValue? (digitChar d) = some d := by
  revert d
  decide

theorem digitRun_append (ds : List (Fin 10)) {cs : List Char}
    (h : ∀ c ∈ cs.head?, digitValue? c = none) :
    digitRun (ds.map digitChar ++ cs) = (ds, cs) := by
  induction ds with
  | nil =>
    cases cs with
    | nil => rfl
    | cons c cs => simp [digitRun, h c rfl]
  | cons d ds ih => simp [digitRun, digitValue?_digitChar, ih]

/-- No number goes on at the start of the text. -/
def Stops (cs : List Char) : Prop := ∀ c ∈ cs.head?, digitValue? c = none ∧ c ∉ ['.', 'e', 'E']

theorem stops_cons {c : Char} {cs : List Char} (h : digitValue? c = none ∧ c ∉ ['.', 'e', 'E']) :
    Stops (c :: cs) := by
  rintro _ ⟨⟩
  exact h

theorem Stops.not_digit {cs : List Char} (h : Stops cs) : ∀ c ∈ cs.head?, digitValue? c = none :=
  fun c hc => (h c hc).1

/-- The characters of a fraction with its point, if there is one. -/
def fractionChars (ds : List (Fin 10)) : List Char :=
  if ds.isEmpty then [] else '.' :: ds.map digitChar

/-- The characters of an exponent, if there is one. -/
def exponentChars : Option (ExponentMark × List (Fin 10)) → List Char
  | none => []
  | some (mark, ds) => 'e' :: (mark.chars ++ ds.map digitChar)

theorem numeralChars_eq (n : Numeral) :
    n.chars = (if n.negative then ['-'] else []) ++
      (n.whole.map digitChar ++ (fractionChars n.fraction ++ exponentChars n.exponent)) := by
  unfold Numeral.chars
  rw [List.append_assoc, List.append_assoc]
  rfl

theorem scanExponent_mark (n : Numeral) (mark : ExponentMark) {ds : List (Fin 10)} (hds : ds ≠ [])
    {rest : List Char} (hrest : Stops rest) :
    scanExponent n ('e' :: (mark.chars ++ ds.map digitChar ++ rest)) =
      (.number { n with exponent := some (mark, ds) }, some rest) := by
  obtain ⟨d, ds, rfl⟩ := List.exists_cons_of_ne_nil hds
  have hrun := digitRun_append (d :: ds) hrest.not_digit
  have hplus : ∀ d, digitChar d ≠ '+' := by decide
  have hminus : ∀ d, digitChar d ≠ '-' := by decide
  cases mark with
  | bare =>
    simp only [List.map_cons, List.cons_append] at hrun
    simp [scanExponent, ExponentMark.chars, hrun, hplus d, hminus d]
  | plus => simp [scanExponent, ExponentMark.chars, -List.map_cons, hrun]
  | minus => simp [scanExponent, ExponentMark.chars, -List.map_cons, hrun]

theorem scanExponent_chars (n : Numeral) (e : Option (ExponentMark × List (Fin 10)))
    (hn : n.exponent = none) (he : ∀ mark ds, e = some (mark, ds) → ds ≠ []) {rest : List Char}
    (hrest : Stops rest) :
    scanExponent n (exponentChars e ++ rest) = (.number { n with exponent := e }, some rest) := by
  cases e with
  | none =>
    have hsame : { n with exponent := none } = n := by rw [← hn]
    rw [hsame, exponentChars, List.nil_append]
    cases rest with
    | nil => rfl
    | cons c cs =>
      have hc : ¬ (c = 'e' ∨ c = 'E') := fun hc => (hrest c rfl).2 (by simpa using Or.inr hc)
      simp [scanExponent, hc]
  | some e => exact scanExponent_mark n e.1 (he e.1 e.2 rfl) hrest

/-- Behind the whole part and the fraction of a numeral there is neither a digit nor a point. -/
theorem head_exponentChars (e : Option (ExponentMark × List (Fin 10))) {rest : List Char}
    (hrest : Stops rest) {c : Char} (hc : c ∈ (exponentChars e ++ rest).head?) :
    digitValue? c = none ∧ c ≠ '.' := by
  cases e with
  | none => exact ⟨(hrest c hc).1, fun h => (hrest c hc).2 (by simp [h])⟩
  | some e =>
    obtain rfl : 'e' = c := Option.some.inj hc
    decide

theorem scanFraction_chars (n : Numeral) (hn : n.exponent = none) (hn' : n.fraction = [])
    (fs : List (Fin 10)) (e : Option (ExponentMark × List (Fin 10)))
    (he : ∀ mark ds, e = some (mark, ds) → ds ≠ []) {rest : List Char} (hrest : Stops rest) :
    scanFraction n (fractionChars fs ++ (exponentChars e ++ rest)) =
      (.number { n with fraction := fs, exponent := e }, some rest) := by
  cases fs with
  | nil =>
    have hsame : { n with fraction := [], exponent := e } = { n with exponent := e } := by
      rw [← hn']
    rw [hsame, ← scanExponent_chars n e hn he hrest]
    unfold fractionChars scanFraction
    split
    · next cs heq =>
      have hpoint : '.' ∈ (exponentChars e ++ rest).head? := by
        simpa using congrArg List.head? heq
      exact absurd rfl (head_exponentChars e hrest hpoint).2
    · rfl
  | cons d fs =>
    have hrun : digitRun ((d :: fs).map digitChar ++ (exponentChars e ++ rest)) =
        (d :: fs, exponentChars e ++ rest) :=
      digitRun_append (d :: fs) fun c hc => (head_exponentChars e hrest hc).1
    have hexp := scanExponent_chars { n with fraction := d :: fs } e hn he hrest
    simp only [fractionChars, List.isEmpty_cons, Bool.false_eq_true, if_false, List.cons_append,
      scanFraction, hrun, hexp]

theorem head_fractionChars (fs : List (Fin 10)) (e : Option (ExponentMark × List (Fin 10)))
    {rest : List Char} (hrest : Stops rest) {c : Char}
    (hc : c ∈ (fractionChars fs ++ (exponentChars e ++ rest)).head?) : digitValue? c = none := by
  cases fs with
  | nil => exact (head_exponentChars e hrest hc).1
  | cons d fs =>
    obtain rfl : '.' = c := Option.some.inj hc
    decide

theorem scanNumber_chars {n : Numeral} (hn : n.Proper) {rest : List Char} (hrest : Stops rest) :
    scanNumber n.negative (n.whole.map digitChar ++
      (fractionChars n.fraction ++ (exponentChars n.exponent ++ rest))) =
        (.number n, some rest) := by
  have hrun : digitRun (n.whole.map digitChar ++
      (fractionChars n.fraction ++ (exponentChars n.exponent ++ rest))) =
        (n.whole, fractionChars n.fraction ++ (exponentChars n.exponent ++ rest)) :=
    digitRun_append n.whole fun c hc => head_fractionChars _ _ hrest hc
  have hfraction := scanFraction_chars ⟨n.negative, n.whole, [], none⟩ rfl rfl n.fraction n.exponent
    hn.exponent hrest
  have hzero : ¬ (n.whole.head? = some 0 ∧ n.whole.length ≠ 1) := fun h => h.2 (hn.zero h.1)
  unfold scanNumber
  rw [hrun]
  split
  · next heq => exact absurd (Prod.mk.inj heq).1 hn.whole
  · next heq =>
    obtain ⟨rfl, rfl⟩ := Prod.mk.inj heq
    rw [if_neg hzero, hfraction]

/-! ## Texts -/

theorem quotedFrom_escape {done cs rest : List Char} {c : Char} (h : escape cs = .char c rest) :
    quotedFrom done none ('\\' :: cs) = quotedFrom (c :: done) none rest := by
  rw [quotedFrom]
  split
  · next heq =>
    rw [h] at heq
    cases heq
    rfl
  · next heq => rw [h] at heq; cases heq
  · next heq => rw [h] at heq; cases heq

theorem quotedFrom_plain {done cs : List Char} {c : Char} (hquote : c ≠ '"') (hslash : c ≠ '\\')
    (hcontrol : ¬ c.toNat < 0x20) :
    quotedFrom done none (c :: cs) = quotedFrom (c :: done) none cs := by
  rw [quotedFrom, if_neg hcontrol]
  · exact fun h => hquote h
  · exact fun h => hslash h

/-- Control characters have two hexadecimal digits behind two zeros. -/
theorem hexValue?_written {n : Nat} (h : n < 0x20) :
    ((if n < 0x10 then ['0'] else []) ++ hexDigits n).map hexValue? =
      [some (n / 16), some (n % 16)] := by
  revert n
  decide

theorem escape_control {c : Char} (h : c.toNat < 0x20) (cs : List Char) :
    escape ('u' :: '0' :: '0' ::
      ((if c.toNat < 0x10 then ['0'] else []) ++ hexDigits c.toNat ++ cs)) = .char c cs := by
  have hvalues := hexValue?_written h
  obtain ⟨a, ds, hds, ha, hvalues⟩ := List.map_eq_cons_iff.1 hvalues
  obtain ⟨b, ds', rfl, hb, hnil⟩ := List.map_eq_cons_iff.1 hvalues
  obtain rfl := List.map_eq_nil_iff.1 hnil
  have hzero : hexValue? '0' = some 0 := by decide
  have hnumber : ((0 * 16 + 0) * 16 + c.toNat / 16) * 16 + c.toNat % 16 = c.toNat := by omega
  have hhigh : ¬ (0xD800 ≤ c.toNat ∧ c.toNat ≤ 0xDBFF) := by omega
  have hlow : ¬ (0xDC00 ≤ c.toNat ∧ c.toNat ≤ 0xDFFF) := by omega
  rw [hds]
  simp only [escape, List.cons_append, List.nil_append, hex4, hzero, ha, hb, hnumber, if_neg hhigh,
    if_neg hlow, Char.ofNat_toNat]

theorem quotedFrom_writtenChar (done : List Char) (c : Char) (cs : List Char) :
    quotedFrom done none (writtenChar c ++ cs) = quotedFrom (c :: done) none cs := by
  unfold writtenChar
  split
  · next h =>
    refine quotedFrom_escape ?_
    rcases (by simpa using h : c = '"' ∨ c = '\\') with rfl | rfl <;> rfl
  next hplain =>
  split
  · next h => subst h; exact quotedFrom_escape rfl
  split
  · next h => subst h; exact quotedFrom_escape rfl
  split
  · next h => subst h; exact quotedFrom_escape rfl
  split
  · next h => subst h; exact quotedFrom_escape rfl
  split
  · next h => subst h; exact quotedFrom_escape rfl
  split
  · next h => exact quotedFrom_escape (escape_control h cs)
  · next h =>
    simp only [Bool.or_eq_true, decide_eq_true_eq, not_or] at hplain
    exact quotedFrom_plain hplain.1 hplain.2 h

/-- A written text is read up to its closing quotation mark. -/
theorem quotedFrom_written (done cs rest : List Char) :
    quotedFrom done none (cs.flatMap writtenChar ++ '"' :: rest) =
      (.of (String.ofList (done.reverse ++ cs)), some rest) := by
  induction cs generalizing done with
  | nil =>
    rw [List.flatMap_nil, List.nil_append, quotedFrom, List.append_nil]
    rfl
  | cons c cs ih =>
    rw [List.flatMap_cons, List.append_assoc, quotedFrom_writtenChar, ih, List.reverse_cons,
      List.append_assoc]
    rfl

theorem quotedFrom_toList (s : String) (rest : List Char) :
    quotedFrom [] none (s.toList.flatMap writtenChar ++ '"' :: rest) = (.of s, some rest) := by
  rw [quotedFrom_written, List.reverse_nil, List.nil_append, String.ofList_toList]

end Json

end ShaderNodes
