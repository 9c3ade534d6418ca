import ShaderNodes.Json.Basic

/-!
# Reading JSON text

Turns a text into a document. Scanning goes on as long as the text is JSON in the lax sense that is
good enough for parts nobody reads; a stricter verdict on texts and numbers is kept in the document.
Every step leaves a shorter text, which is why scanning ends.
-/

namespace ShaderNodes

namespace Json

/-! ## Blanks -/

/-- The blanks between the parts of a document. -/
def isBlank (c : Char) : Bool := c = ' ' || c = '\t' || c = '\n' || c = '\r'

/-- Drops the blanks in front. -/
def skipBlank (cs : List Char) : List Char := cs.dropWhile isBlank

theorem length_skipBlank_le (cs : List Char) : (skipBlank cs).length ≤ cs.length :=
  (List.dropWhile_sublist isBlank).length_le

/-! ## Texts -/

/-- The value of a hexadecimal digit. -/
def hexValue? (c : Char) : Option Nat :=
  if '0' ≤ c ∧ c ≤ '9' then some (c.toNat - '0'.toNat)
  else if 'a' ≤ c ∧ c ≤ 'f' then some (c.toNat - 'a'.toNat + 10)
  else if 'A' ≤ c ∧ c ≤ 'F' then some (c.toNat - 'A'.toNat + 10)
  else none

/-- Reads four hexadecimal digits. The text ends too early when it has less than four bytes left. -/
def hex4 : List Char → Except Cause (Nat × List Char)
  | a :: b :: c :: d :: rest =>
    match hexValue? a, hexValue? b, hexValue? c, hexValue? d with
    | some a, some b, some c, some d => .ok (((a * 16 + b) * 16 + c) * 16 + d, rest)
    | _, _, _, _ => .error .malformed
  | cs => .error (if (cs.map Char.utf8Size).foldr (· + ·) 0 < 4 then .ended else .malformed)

/-- Reads the second half of a character that is escaped by two units, the first of which is
`high`. -/
def lowHalf (high : Nat) : List Char → Except Cause (Char × List Char)
  | '\\' :: 'u' :: cs => do
    let (low, rest) ← hex4 cs
    if 0xDC00 ≤ low ∧ low ≤ 0xDFFF then
      pure (Char.ofNat (0x10000 + (high - 0xD800) * 0x400 + (low - 0xDC00)), rest)
    else throw .malformed
  | [] | ['\\'] => .error .ended
  | _ => .error .malformed

/-- What follows a backslash. -/
inductive Escape
  /-- A character, and the text behind it. -/
  | char (c : Char) (rest : List Char)
  /-- Half a character, harmless for whoever passes over the text. -/
  | half (c : Cause) (rest : List Char)
  /-- Nothing that could be read. -/
  | cut (c : Cause)

/-- The character meant by a letter behind a backslash. -/
def shortEscape? : Char → Option Char
  | '"' => some '"'
  | '\\' => some '\\'
  | '/' => some '/'
  | 'b' => some '\x08'
  | 'f' => some '\x0c'
  | 'n' => some '\n'
  | 'r' => some '\r'
  | 't' => some '\t'
  | _ => none

/-- Reads what follows a backslash. -/
def escape : List Char → Escape
  | [] => .cut .ended
  | 'u' :: cs =>
    match hex4 cs with
    | .error c => .cut c
    | .ok (n, rest) =>
      if 0xD800 ≤ n ∧ n ≤ 0xDBFF then
        match lowHalf n rest with
        | .ok (c, rest) => .char c rest
        | .error c => .half c rest
      else if 0xDC00 ≤ n ∧ n ≤ 0xDFFF then .half .malformed rest
      else .char (Char.ofNat n) rest
  | c :: cs =>
    match shortEscape? c with
    | some d => .char d cs
    | none => .cut .malformed

theorem hex4_length {cs rest : List Char} {n : Nat} (h : hex4 cs = .ok (n, rest)) :
    rest.length < cs.length := by
  unfold hex4 at h
  split at h
  · split at h
    · cases h
      simp only [List.length_cons]
      omega
    · cases h
  · cases h

theorem lowHalf_length {high : Nat} {cs rest : List Char} {c : Char}
    (h : lowHalf high cs = .ok (c, rest)) : rest.length < cs.length := by
  unfold lowHalf at h
  split at h
  · next ds =>
    cases hx : hex4 ds with
    | error e => rw [hx] at h; cases h
    | ok p =>
      obtain ⟨n, r⟩ := p
      rw [hx] at h
      have hr := hex4_length hx
      simp only [bind, Except.bind] at h
      split at h
      · have hrest : r = rest := congrArg Prod.snd (Except.ok.inj h)
        subst hrest
        simp only [List.length_cons]
        omega
      · cases h
  · cases h
  · cases h
  · cases h

theorem escape_char_length {cs rest : List Char} {c : Char} (h : escape cs = .char c rest) :
    rest.length < cs.length := by
  unfold escape at h
  split at h
  · cases h
  · next ds =>
    split at h
    · cases h
    · next n r hx =>
      have hr := hex4_length hx
      split at h
      · split at h
        · next d r' hl =>
          have hl' := lowHalf_length hl
          cases h
          simp only [List.length_cons]
          omega
        · cases h
      · split at h
        · cases h
        · cases h
          simp only [List.length_cons]
          omega
  · split at h
    · cases h
      simp
    · cases h

theorem escape_half_length {cs rest : List Char} {c : Cause} (h : escape cs = .half c rest) :
    rest.length < cs.length := by
  unfold escape at h
  split at h
  · cases h
  · next ds =>
    split at h
    · cases h
    · next n r hx =>
      have hr := hex4_length hx
      split at h
      · split at h
        · cases h
        · cases h
          simp only [List.length_cons]
          omega
      · split at h
        · cases h
          simp only [List.length_cons]
          omega
        · cases h
  · split at h <;> cases h

/-- Reads a text behind its opening quotation mark. `done` holds the characters read so far, the
last one first, and `flaw` the first flaw among them. -/
def quotedFrom (done : List Char) (flaw : Option Cause) :
    List Char → Quoted × Option (List Char)
  | [] => (⟨.error (flaw.getD .ended), .error .ended⟩, none)
  | '"' :: rest =>
    (⟨match flaw with
      | none => .ok (String.ofList done.reverse)
      | some c => .error c, .ok ()⟩, some rest)
  | '\\' :: cs =>
    match h : escape cs with
    | .char c rest =>
      have := escape_char_length h
      quotedFrom (c :: done) flaw rest
    | .half c rest =>
      have := escape_half_length h
      quotedFrom done (flaw <|> some c) rest
    | .cut c => (⟨.error (flaw.getD c), .error c⟩, none)
  | c :: cs =>
    if c.toNat < 0x20 then (⟨.error (flaw.getD .malformed), .error .malformed⟩, none)
    else quotedFrom (c :: done) flaw cs
termination_by cs => cs.length
decreasing_by all_goals simp only [List.length_cons]; omega

theorem quotedFrom_length (done : List Char) (flaw : Option Cause) (cs : List Char)
    {q : Quoted} {rest : List Char} (h : quotedFrom done flaw cs = (q, some rest)) :
    rest.length < cs.length := by
  fun_induction quotedFrom done flaw cs with
  | case1 => simp at h
  | case2 => simp_all
  | case3 _ _ _ _ _ he _ ih =>
    have := escape_char_length he
    have := ih h
    simp only [List.length_cons]
    omega
  | case4 _ _ _ _ _ he _ ih =>
    have := escape_half_length he
    have := ih h
    simp only [List.length_cons]
    omega
  | case5 => simp at h
  | case6 => simp at h
  | case7 _ _ _ _ _ _ _ ih =>
    have := ih h
    simp only [List.length_cons]
    omega

/-! ## Numbers and words -/

/-- The value of a decimal digit. -/
def digitValue? (c : Char) : Option (Fin 10) :=
  if '0' ≤ c ∧ c ≤ '9' then some (Fin.ofNat 10 (c.toNat - '0'.toNat)) else none

/-- Reads the decimal digits in front. -/
def digitRun : List Char → List (Fin 10) × List Char
  | [] => ([], [])
  | c :: cs =>
    match digitValue? c with
    | some d => let (ds, rest) := digitRun cs; (d :: ds, rest)
    | none => ([], c :: cs)

theorem digitRun_length (cs : List Char) : (digitRun cs).2.length ≤ cs.length := by
  fun_induction digitRun cs with
  | case1 => simp
  | case2 c cs d hd ds rest hrun ih =>
    rw [hrun] at ih
    simp only [List.length_cons] at *
    omega
  | case3 => simp

/-- What to say of a number that lacks digits before `rest`. -/
def digitsMissing (rest : List Char) : Scalar :=
  .broken (if rest.isEmpty then .ended else .malformed) .malformed

/-- Reads the exponent of a number, if there is one. -/
def scanExponent (sofar : Numeral) : List Char → Scalar × Option (List Char)
  | [] => (.number sofar, some [])
  | c :: cs =>
    if c = 'e' ∨ c = 'E' then
      let (mark, cs) : ExponentMark × List Char :=
        match cs with
        | '+' :: cs => (.plus, cs)
        | '-' :: cs => (.minus, cs)
        | cs => (.bare, cs)
      match digitRun cs with
      | ([], rest) => (digitsMissing rest, none)
      | (ds, rest) => (.number { sofar with exponent := some (mark, ds) }, some rest)
    else (.number sofar, some (c :: cs))

/-- Reads the fraction of a number, if there is one, and what follows it. -/
def scanFraction (sofar : Numeral) : List Char → Scalar × Option (List Char)
  | '.' :: cs =>
    match digitRun cs with
    | ([], rest) => (digitsMissing rest, none)
    | (ds, rest) => scanExponent { sofar with fraction := ds } rest
  | cs => scanExponent sofar cs

/-- Reads a number behind its sign. A whole part of several digits does not start with zero. -/
def scanNumber (negative : Bool) (cs : List Char) : Scalar × Option (List Char) :=
  match digitRun cs with
  | ([], rest) => (digitsMissing rest, none)
  | (ds, rest) =>
    if ds.head? = some 0 ∧ ds.length ≠ 1 then (.broken .malformed .malformed, none)
    else scanFraction ⟨negative, ds, [], none⟩ rest

/-- Reads the rest of a word. -/
def scanWord (s : Scalar) : List Char → List Char → Scalar × Option (List Char)
  | [], cs => (s, some cs)
  | _ :: _, [] => (.broken .ended .ended, none)
  | w :: ws, c :: cs =>
    if c = w then scanWord s ws cs else (.broken .malformed .malformed, none)

/-- Reads a value without parts that starts with `c`. -/
def scanScalar (c : Char) (cs : List Char) : Scalar × Option (List Char) :=
  if c = '"' then let (q, rest) := quotedFrom [] none cs; (.string q, rest)
  else if c = 'n' then scanWord .null "ull".toList cs
  else if c = 't' then scanWord (.bool true) "rue".toList cs
  else if c = 'f' then scanWord (.bool false) "alse".toList cs
  else if c = '-' then scanNumber true cs
  else if (digitValue? c).isSome then scanNumber false (c :: cs)
  else (.stray, none)

theorem scanExponent_length {n : Numeral} {cs rest : List Char} {s : Scalar}
    (h : scanExponent n cs = (s, some rest)) : rest.length ≤ cs.length := by
  unfold scanExponent at h
  split at h
  · cases h; simp
  · next c cs =>
    split at h
    · split at h
      next mark ds hm =>
      have hds : ds.length ≤ cs.length := by
        split at hm <;> cases hm <;> simp
      split at h
      · cases h
      · next fs r hr =>
        have hl := digitRun_length ds
        rw [hr] at hl
        cases h
        simp only [List.length_cons]
        exact Nat.le_succ_of_le (Nat.le_trans hl hds)
    · cases h; simp

theorem scanFraction_length {n : Numeral} {cs rest : List Char} {s : Scalar}
    (h : scanFraction n cs = (s, some rest)) : rest.length ≤ cs.length := by
  unfold scanFraction at h
  split at h
  · next ds =>
    split at h
    · cases h
    · next fs r hr =>
      have hl := digitRun_length ds
      rw [hr] at hl
      have := scanExponent_length h
      simp only [List.length_cons]
      exact Nat.le_succ_of_le (Nat.le_trans this hl)
  · exact scanExponent_length h

theorem scanNumber_length {negative : Bool} {cs rest : List Char} {s : Scalar}
    (h : scanNumber negative cs = (s, some rest)) : rest.length < cs.length := by
  unfold scanNumber at h
  split at h
  · cases h
  · next ds r hne hr =>
    split at h
    · cases h
    · have hf := scanFraction_length h
      refine Nat.lt_of_le_of_lt hf ?_
      cases cs with
      | nil => simp_all [digitRun]
      | cons c cs =>
        unfold digitRun at hr
        split at hr
        · next d hd =>
          have hl := digitRun_length cs
          cases hr
          simp only [List.length_cons]
          omega
        · cases hr
          exact (hne rfl).elim

theorem scanWord_length {s s' : Scalar} {ws cs rest : List Char}
    (h : scanWord s ws cs = (s', some rest)) : rest.length ≤ cs.length := by
  fun_induction scanWord s ws cs with
  | case1 => cases h; simp
  | case2 => cases h
  | case3 ws c cs ih =>
    have := ih h
    simp only [List.length_cons]
    omega
  | case4 => cases h

theorem scanScalar_length {c : Char} {cs rest : List Char} {s : Scalar}
    (h : scanScalar c cs = (s, some rest)) : rest.length ≤ cs.length := by
  unfold scanScalar at h
  split at h
  · simp only [Prod.mk.injEq] at h
    exact Nat.le_of_lt (quotedFrom_length [] none cs (q := (quotedFrom [] none cs).1)
      (Prod.ext rfl h.2))
  split at h
  · exact scanWord_length h
  split at h
  · exact scanWord_length h
  split at h
  · exact scanWord_length h
  split at h
  · exact Nat.le_of_lt (scanNumber_length h)
  split at h
  · exact Nat.le_of_lt_succ (scanNumber_length h)
  · cases h

/-! ## Values -/

/-- What is left of a text, when it can be read on. -/
abbrev Rest (cs : List Char) := Option { rest : List Char // rest.length < cs.length }

/-- What is left of the end of a text is left of the text. -/
def Rest.widen {cs ds : List Char} (h : cs.length ≤ ds.length) (r : Rest cs) : Rest ds :=
  r.map fun rest => ⟨rest.1, Nat.lt_of_lt_of_le rest.2 h⟩

mutual

/-- Reads a value. -/
def scanValue (cs : List Char) : Json × Rest cs :=
  match h : skipBlank cs with
  | [] => (.scalar .absent, none)
  | c :: ds =>
    have hlen : ds.length < cs.length := by
      have := length_skipBlank_le cs
      rw [h] at this
      exact this
    if c = '[' then
      let (items, rest) := scanArray ds
      (.array items, rest.widen (Nat.le_of_lt hlen))
    else if c = '{' then
      let (members, rest) := scanObject ds
      (.object members, rest.widen (Nat.le_of_lt hlen))
    else
      match hs : scanScalar c ds with
      | (s, none) => (.scalar s, none)
      | (s, some rest) =>
        (.scalar s, some ⟨rest, Nat.lt_of_le_of_lt (scanScalar_length hs) hlen⟩)
termination_by (cs.length, 0)

/-- Reads an array behind its opening bracket. -/
def scanArray (cs : List Char) : Items × Rest cs :=
  match h : skipBlank cs with
  | [] => (.nil (.cut .ended), none)
  | c :: ds =>
    if c = ']' then
      (.nil .closed, some ⟨ds, by have := length_skipBlank_le cs; rw [h] at this; exact this⟩)
    else scanItems cs
termination_by (cs.length, 2)

/-- Reads the elements of an array from the start of one. -/
def scanItems (cs : List Char) : Items × Rest cs :=
  match scanValue cs with
  | (j, none) => (.cons j (.nil (.cut .ended)), none)
  | (j, some ⟨ds, hd⟩) =>
    match h : skipBlank ds with
    | [] => (.cons j (.nil (.cut .ended)), none)
    | c :: es =>
      have hlen : es.length < cs.length := by
        have := length_skipBlank_le ds
        rw [h] at this
        exact Nat.lt_trans this hd
      if c = ']' then (.cons j (.nil .closed), some ⟨es, hlen⟩)
      else if c = ',' then
        match skipBlank es with
        | [] => (.cons j (.nil (.dangling .ended)), none)
        | c :: _ =>
          if c = ']' then (.cons j (.nil (.dangling .malformed)), none)
          else
            let (tail, rest) := scanItems es
            (.cons j tail, rest.widen (Nat.le_of_lt hlen))
      else (.cons j (.nil (.cut .malformed)), none)
termination_by (cs.length, 1)

/-- Reads an object behind its opening brace. -/
def scanObject (cs : List Char) : Members × Rest cs :=
  match h : skipBlank cs with
  | [] => (.nil (.cut .ended), none)
  | c :: ds =>
    have hlen : ds.length < cs.length := by
      have := length_skipBlank_le cs
      rw [h] at this
      exact this
    if c = '}' then (.nil .closed, some ⟨ds, hlen⟩)
    else if c = '"' then
      let (members, rest) := scanMembers ds
      (members, rest.widen (Nat.le_of_lt hlen))
    else (.nil (.cut .malformed), none)
termination_by (cs.length, 0)

/-- Reads the members of an object from behind the opening quotation mark of a name. -/
def scanMembers (cs : List Char) : Members × Rest cs :=
  match hq : quotedFrom [] none cs with
  | (name, none) => (.cons name (.scalar .absent) (.nil (.cut .ended)), none)
  | (name, some ds) =>
    match hc : skipBlank ds with
    | [] => (.cons name (.scalar .absent) (.nil (.cut .ended)), none)
    | c :: es =>
      have hes : es.length < cs.length := by
        have := length_skipBlank_le ds
        rw [hc] at this
        exact Nat.lt_trans this (quotedFrom_length [] none cs hq)
      if c = ':' then
        match scanValue es with
        | (j, none) => (.cons name j (.nil (.cut .ended)), none)
        | (j, some ⟨fs, hf⟩) =>
          match h : skipBlank fs with
          | [] => (.cons name j (.nil (.cut .ended)), none)
          | c :: gs =>
            have hgs : gs.length < cs.length := by
              have := length_skipBlank_le fs
              rw [h] at this
              exact Nat.lt_trans this (Nat.lt_trans hf hes)
            if c = '}' then (.cons name j (.nil .closed), some ⟨gs, hgs⟩)
            else if c = ',' then
              match hn : skipBlank gs with
              | [] => (.cons name j (.nil (.dangling .ended)), none)
              | c :: ks =>
                have hks : ks.length < cs.length := by
                  have := length_skipBlank_le gs
                  rw [hn] at this
                  exact Nat.lt_trans this hgs
                if c = '"' then
                  let (tail, rest) := scanMembers ks
                  (.cons name j tail, rest.widen (Nat.le_of_lt hks))
                else (.cons name j (.nil (.dangling .malformed)), none)
            else (.cons name j (.nil (.cut .malformed)), none)
      else (.cons name (.scalar .stray) (.nil (.cut .ended)), none)
termination_by (cs.length, 0)

end

/-- A document, and what follows it when it is complete. -/
structure Scanned where
  /-- The document. -/
  document : Json
  /-- The text behind it. -/
  rest : Option (List Char)

/-- Reads a whole text. -/
def scan (text : String) : Scanned :=
  let (j, rest) := scanValue text.toList
  ⟨j, rest.map Subtype.val⟩

/-- The verdict on what follows the document: nothing but blanks may. -/
def Scanned.finish (s : Scanned) : Except Cause Unit :=
  match s.rest with
  | some rest => if rest.all isBlank then .ok () else .error .malformed
  | none => .error .malformed

end Json

end ShaderNodes
