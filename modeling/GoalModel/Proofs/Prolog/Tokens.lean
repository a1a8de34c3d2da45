import GoalModel.Identifier
import GoalModel.Proofs.Number.ReadBack

/-! # Tokens

How the text of a program is cut into tokens, following the lexical rules of Prolog. A token
never looks back, so that a piece of text can be cut by itself if what follows is no
continuation of it (`Breaks`); `Spells` says that a piece consists of certain tokens wherever
it stands.

Where a parenthesis or a numeral follows without a blank makes a difference: a name with a
parenthesis right behind it is applied to arguments, and a minus with a numeral right behind it
can be its sign. -/

namespace GoalModel.Prolog

inductive Numeral where
  | integer (value : Int)
  | float (value : Number)
  deriving DecidableEq, Repr

def Numeral.negated : Numeral → Numeral
  | .integer value => .integer (-value)
  | .float .nan => .float .nan
  | .float (.ranked negative rank) => .float (.ranked (!negative) rank)

inductive Token where
  /-- A name or variable made of letters, digits and underscores. -/
  | word (text : String)
  | symbol (text : String)
  /-- A word or symbol together with the parenthesis right behind it. -/
  | applied (name : String)
  | numeral (value : Numeral)
  /-- A numeral together with the minus right before it. -/
  | negative (value : Numeral)
  | opening
  | closing
  | comma
  /-- The point at the end of a clause. -/
  | stop
  | other (c : Char)
  deriving DecidableEq, Repr

/-! ## Cutting -/

def isSymbolic (c : Char) : Bool := "+-*/\\^<>=~:.?@#&$".toList.contains c

/-- The exponent of a literal, or zero, and the rest of the text. -/
def takeExponent : List Char → Int × List Char
  | 'e' :: cs =>
    let signed := Number.takeSign cs
    let digits := signed.2.takeWhile Char.isDigit
    let value : Int := Text.decimalValue digits
    if digits.isEmpty then (0, 'e' :: cs)
    else (if signed.1 then -value else value, signed.2.dropWhile Char.isDigit)
  | cs => (0, cs)

/-- One of the two words that stand for a number without digits, and the rest of the text. -/
def takeDigitless? (cs : List Char) : Option (Numeral × List Char) :=
  let word := cs.takeWhile Identifier.isPart
  let rest := cs.dropWhile Identifier.isPart
  if rest.head? = some '(' then none
  else if word = ['i', 'n', 'f'] then some (.float (.infinity false), rest)
  else if word = ['N', 'a', 'N'] then some (.float .nan, rest)
  else none

/-- A numeral without a sign, and the rest of the text. -/
def takeNumeral? (cs : List Char) : Option (Numeral × List Char) :=
  let whole := cs.takeWhile Char.isDigit
  let rest := cs.dropWhile Char.isDigit
  let fraction := (rest.drop 1).takeWhile Char.isDigit
  if whole.isEmpty then takeDigitless? cs
  else if rest.head? = some '.' ∧ fraction ≠ [] then
    let exponent := takeExponent ((rest.drop 1).dropWhile Char.isDigit)
    some (.float (.ofLiteral false whole fraction exponent.1), exponent.2)
  else some (.integer (Text.decimalValue whole), rest)

/-- A name applied to arguments, or else the given token. -/
def takeApplied (name : List Char) (rest : List Char) (otherwise : Token × List Char) :
    Token × List Char :=
  if rest.head? = some '(' then (.applied (String.ofList name), rest.drop 1) else otherwise

def takeWord (cs : List Char) : Token × List Char :=
  let word := cs.takeWhile Identifier.isPart
  let rest := cs.dropWhile Identifier.isPart
  takeApplied word rest (.word (String.ofList word), rest)

def takeSymbol (cs : List Char) : Token × List Char :=
  let symbol := cs.takeWhile isSymbolic
  let rest := cs.dropWhile isSymbolic
  let plain : Token × List Char := (.symbol (String.ofList symbol), rest)
  takeApplied symbol rest <|
    if symbol = ['.'] ∧ (rest = [] ∨ rest.head? = some ' ' ∨ rest.head? = some '\n') then
      (.stop, rest)
    else if symbol = ['-'] then
      ((takeNumeral? rest).map fun (value, rest) => (.negative value, rest)).getD plain
    else plain

/-- The token at the front of a text, if it is no blank, and the rest. -/
def takeToken (c : Char) (cs : List Char) : Option Token × List Char :=
  if c = ' ' ∨ c = '\n' then (none, cs)
  else if c = '(' then (some .opening, cs)
  else if c = ')' then (some .closing, cs)
  else if c = ',' then (some .comma, cs)
  else if c = ';' then (some (.symbol ";"), cs)
  else if c = '!' then (some (.word "!"), cs)
  else if isSymbolic c then (takeSymbol (c :: cs)).map some id
  else if Identifier.isPart c then
    (((takeNumeral? (c :: cs)).map fun (value, rest) => (Token.numeral value, rest)).getD
      (takeWord (c :: cs))).map some id
  else (some (.other c), cs)

/-! ## Every token takes something -/

theorem length_dropWhile_add {p : Char → Bool} (cs : List Char) :
    (cs.takeWhile p).length + (cs.dropWhile p).length = cs.length := by
  rw [← List.length_append, List.takeWhile_append_dropWhile]

theorem length_dropWhile_le {p : Char → Bool} (cs : List Char) :
    (cs.dropWhile p).length ≤ cs.length := by
  have h := length_dropWhile_add (p := p) cs
  omega

theorem length_dropWhile_lt {p : Char → Bool} {cs : List Char} (h : cs.takeWhile p ≠ []) :
    (cs.dropWhile p).length < cs.length := by
  have hsum := length_dropWhile_add (p := p) cs
  have hpos := List.length_pos_iff.mpr h
  omega

theorem length_takeSign_le (cs : List Char) : (Number.takeSign cs).2.length ≤ cs.length := by
  unfold Number.takeSign
  split <;> simp

theorem length_takeExponent_le (cs : List Char) : (takeExponent cs).2.length ≤ cs.length := by
  unfold takeExponent
  split
  · next cs =>
    dsimp only
    split
    · exact Nat.le_refl _
    · have hsign := length_takeSign_le cs
      have hrest := length_dropWhile_le (p := Char.isDigit) (Number.takeSign cs).2
      exact Nat.le_succ_of_le (hrest.trans hsign)
  · exact Nat.le_refl _

theorem length_takeDigitless?_lt {cs rest : List Char} {value : Numeral}
    (h : takeDigitless? cs = some (value, rest)) : rest.length < cs.length := by
  unfold takeDigitless? at h
  dsimp only at h
  split at h
  · cases h
  · split at h
    · next hword =>
      cases h
      exact length_dropWhile_lt (by simp [hword])
    · split at h
      · next hword =>
        cases h
        exact length_dropWhile_lt (by simp [hword])
      · cases h

theorem length_takeNumeral?_lt {cs rest : List Char} {value : Numeral}
    (h : takeNumeral? cs = some (value, rest)) : rest.length < cs.length := by
  unfold takeNumeral? at h
  dsimp only at h
  split at h
  · exact length_takeDigitless?_lt h
  · next hwhole =>
    have hlt := length_dropWhile_lt (by simpa using hwhole)
    split at h
    · cases h
      have hexponent := length_takeExponent_le
        (((cs.dropWhile Char.isDigit).drop 1).dropWhile Char.isDigit)
      have hfraction := length_dropWhile_le (p := Char.isDigit)
        ((cs.dropWhile Char.isDigit).drop 1)
      have hdrop := List.length_drop (i := 1) (l := cs.dropWhile Char.isDigit)
      omega
    · cases h
      exact hlt

theorem length_takeApplied_le {name rest : List Char} {otherwise : Token × List Char} {n : Nat}
    (hrest : rest.length ≤ n) (hotherwise : otherwise.2.length ≤ n) :
    (takeApplied name rest otherwise).2.length ≤ n := by
  unfold takeApplied
  split
  · exact (List.drop_sublist 1 rest).length_le.trans hrest
  · exact hotherwise

theorem length_takeWord_le {c : Char} {cs : List Char} (hc : Identifier.isPart c) :
    (takeWord (c :: cs)).2.length ≤ cs.length := by
  have hrest : ((c :: cs).dropWhile Identifier.isPart).length ≤ cs.length := by
    rw [List.dropWhile_cons_of_pos hc]
    exact length_dropWhile_le cs
  exact length_takeApplied_le hrest hrest

theorem length_takeSymbol_le {c : Char} {cs : List Char} (hc : isSymbolic c) :
    (takeSymbol (c :: cs)).2.length ≤ cs.length := by
  have hrest : ((c :: cs).dropWhile isSymbolic).length ≤ cs.length := by
    rw [List.dropWhile_cons_of_pos hc]
    exact length_dropWhile_le cs
  refine length_takeApplied_le hrest ?_
  split
  · exact hrest
  split
  · cases hnumeral : takeNumeral? ((c :: cs).dropWhile isSymbolic) with
    | none => exact hrest
    | some taken => exact (length_takeNumeral?_lt hnumeral).le.trans hrest
  · exact hrest

theorem length_takeToken_le (c : Char) (cs : List Char) :
    (takeToken c cs).2.length ≤ cs.length := by
  unfold takeToken
  repeat' split
  all_goals try exact Nat.le_refl _
  · next hc => exact length_takeSymbol_le hc
  · next hc =>
    cases hnumeral : takeNumeral? (c :: cs) with
    | none => exact length_takeWord_le hc
    | some taken => exact Nat.le_of_lt_succ (length_takeNumeral?_lt hnumeral)

def tokens : List Char → List Token
  | [] => []
  | c :: cs => (takeToken c cs).1.toList ++ tokens (takeToken c cs).2
termination_by cs => cs.length
decreasing_by exact Nat.lt_succ_of_le (length_takeToken_le c cs)

/-! ## Pieces of text -/

/-- The characters of a text are tried one by one, not all the characters that there are. -/
instance (priority := high) decidableForallMem {p : Char → Prop} [DecidablePred p]
    (cs : List Char) : Decidable (∀ c ∈ cs, p c) :=
  List.decidableBAll p cs

/-- What may follow a token without becoming a part of it. -/
def Breaks : List Char → Prop
  | [] => True
  | c :: cs => c ∈ [' ', ',', ')', '+', '-', '*', '/'] ∨ (c = '.' ∧ cs = [])

/-- A piece of text consists of certain tokens, wherever it stands. -/
def Spells (piece : List Char) (ts : List Token) : Prop :=
  ∀ rest, Breaks rest → tokens (piece ++ rest) = ts ++ tokens rest

theorem tokens_cons {c : Char} {cs rest : List Char} {t : Option Token}
    (h : takeToken c cs = (t, rest)) : tokens (c :: cs) = t.toList ++ tokens rest := by
  rw [tokens, h]

theorem tokens_blank (cs : List Char) : tokens (' ' :: cs) = tokens cs := tokens_cons rfl

theorem tokens_opening (cs : List Char) : tokens ('(' :: cs) = .opening :: tokens cs :=
  tokens_cons rfl

theorem tokens_closing (cs : List Char) : tokens (')' :: cs) = .closing :: tokens cs :=
  tokens_cons rfl

theorem tokens_comma (cs : List Char) : tokens (',' :: cs) = .comma :: tokens cs :=
  tokens_cons rfl

/-- A run of characters ends where the text goes on with another kind. -/
theorem span_append {p : Char → Bool} {run rest : List Char} (hrun : ∀ c ∈ run, p c)
    (hrest : ∀ c ∈ rest.head?, ¬p c) :
    (run ++ rest).takeWhile p = run ∧ (run ++ rest).dropWhile p = rest := by
  have hspan : rest.takeWhile p = [] ∧ rest.dropWhile p = rest := by
    cases rest with
    | nil => exact ⟨rfl, rfl⟩
    | cons c cs =>
      have hc := hrest c rfl
      exact ⟨List.takeWhile_cons_of_neg hc, List.dropWhile_cons_of_neg hc⟩
  rw [List.takeWhile_append_of_pos hrun, List.dropWhile_append_of_pos hrun, hspan.1, hspan.2,
    List.append_nil]
  exact ⟨rfl, rfl⟩

theorem Breaks.mem_of_head? {rest : List Char} (h : Breaks rest) {c : Char}
    (hc : c ∈ rest.head?) : c ∈ [' ', ',', ')', '+', '-', '*', '/', '.'] := by
  cases rest with
  | nil => cases hc
  | cons d ds =>
    obtain rfl : d = c := by simpa using hc
    rcases h with hd | ⟨rfl, -⟩
    · exact List.mem_append_left ['.'] hd
    · decide

theorem Breaks.head?_ne {rest : List Char} (h : Breaks rest) {c : Char}
    (hc : c ∉ [' ', ',', ')', '+', '-', '*', '/', '.']) : rest.head? ≠ some c :=
  fun hhead => hc (h.mem_of_head? hhead)

theorem Breaks.not_isPart {rest : List Char} (h : Breaks rest) :
    ∀ c ∈ rest.head?, ¬Identifier.isPart c := by
  intro c hc
  have hall : ∀ c ∈ [' ', ',', ')', '+', '-', '*', '/', '.'], ¬Identifier.isPart c := by decide
  exact hall c (h.mem_of_head? hc)

theorem Breaks.not_isDigit {rest : List Char} (h : Breaks rest) :
    ∀ c ∈ rest.head?, ¬c.isDigit := by
  intro c hc
  have hall : ∀ c ∈ [' ', ',', ')', '+', '-', '*', '/', '.'], ¬c.isDigit := by decide
  exact hall c (h.mem_of_head? hc)

/-! ### Words -/

theorem not_isPart_of_isSymbolic {c : Char} (hc : isSymbolic c) : ¬Identifier.isPart c := by
  have hall : ∀ d ∈ "+-*/\\^<>=~:.?@#&$".toList, ¬Identifier.isPart d := by decide
  exact hall c (List.contains_iff_mem.mp hc)

theorem isPart_of_isDigit {c : Char} (hc : c.isDigit) : Identifier.isPart c := by
  have hdigit : '0' ≤ c ∧ c ≤ '9' := Char.isDigit_iff_toNat.mp hc
  simp [Identifier.isPart, hdigit]

theorem takeToken_of_isPart {c : Char} {cs : List Char} (hc : Identifier.isPart c) :
    takeToken c cs =
      (((takeNumeral? (c :: cs)).map fun (value, rest) => (Token.numeral value, rest)).getD
        (takeWord (c :: cs))).map some id := by
  have hne {d : Char} (hd : Identifier.isPart d = false) : c ≠ d := by
    rintro rfl
    exact absurd hc (by simp [hd])
  have hsymbolic : ¬isSymbolic c := fun hsymbolic => not_isPart_of_isSymbolic hsymbolic hc
  have hblank : c ≠ ' ' ∧ c ≠ '\n' := ⟨hne (by decide), hne (by decide)⟩
  have hsolo : c ≠ '(' ∧ c ≠ ')' ∧ c ≠ ',' ∧ c ≠ ';' ∧ c ≠ '!' :=
    ⟨hne (by decide), hne (by decide), hne (by decide), hne (by decide), hne (by decide)⟩
  obtain ⟨hopening, hclosing, hcomma, hsemicolon, hcut⟩ := hsolo
  rw [takeToken, if_neg (not_or.mpr hblank), if_neg hopening, if_neg hclosing, if_neg hcomma,
    if_neg hsemicolon, if_neg hcut, if_neg hsymbolic, if_pos hc]

theorem not_isDigit_of_isStart {c : Char} (hc : Identifier.isStart c) : ¬c.isDigit := by
  have hstart := of_decide_eq_true hc
  rw [Char.isDigit_iff_toNat]
  rcases hstart with h | h | rfl
  · have hlow : 'A'.toNat ≤ c.toNat := h.1
    exact fun hdigit => absurd (hlow.trans hdigit.2) (by decide)
  · have hlow : 'a'.toNat ≤ c.toNat := h.1
    exact fun hdigit => absurd (hlow.trans hdigit.2) (by decide)
  · decide

theorem takeNumeral?_of_not_isDigit {c : Char} {cs : List Char} (hc : ¬c.isDigit) :
    takeNumeral? (c :: cs) = takeDigitless? (c :: cs) := by
  rw [takeNumeral?, List.takeWhile_cons_of_neg hc, if_pos List.isEmpty_nil]

section Word
variable {w : String} (hw : Identifier.isValid w)
include hw

/-- The characters of an identifier, the first of which is no digit. -/
theorem exists_toList_eq : ∃ c cs, w.toList = c :: cs ∧ Identifier.isStart c ∧
    ∀ d ∈ c :: cs, Identifier.isPart d := by
  unfold Identifier.isValid at hw
  cases htext : w.toList with
  | nil => simp [htext] at hw
  | cons c cs =>
    simp only [htext, Bool.and_eq_true, List.all_eq_true] at hw
    refine ⟨c, cs, rfl, hw.1, List.forall_mem_cons.mpr ⟨?_, hw.2⟩⟩
    simp [Identifier.isPart, hw.1]

/-- An identifier does not start a numeral unless it is one of two words. -/
theorem takeNumeral?_word {rest : List Char} (hrest : ∀ c ∈ rest.head?, ¬Identifier.isPart c)
    (hnumeral : rest.head? = some '(' ∨ w ≠ "inf" ∧ w ≠ "NaN") :
    takeNumeral? (w.toList ++ rest) = none := by
  obtain ⟨c, cs, htext, hstart, hpart⟩ := exists_toList_eq hw
  have hdigitless : takeNumeral? (w.toList ++ rest) = takeDigitless? (w.toList ++ rest) := by
    rw [htext, List.cons_append]
    exact takeNumeral?_of_not_isDigit (not_isDigit_of_isStart hstart)
  have hspan := span_append (htext ▸ hpart) hrest
  rw [hdigitless, takeDigitless?, hspan.1, hspan.2]
  split
  · rfl
  · next hopening =>
    obtain ⟨hinf, hnan⟩ := hnumeral.resolve_left hopening
    have hne (v : List Char) (hv : w ≠ String.ofList v) : w.toList ≠ v := by
      rintro rfl
      exact hv String.ofList_toList.symm
    rw [if_neg (hne ['i', 'n', 'f'] hinf), if_neg (hne ['N', 'a', 'N'] hnan)]

theorem spells_word (hinf : w ≠ "inf") (hnan : w ≠ "NaN") : Spells w.toList [.word w] := by
  intro rest hrest
  obtain ⟨c, cs, htext, hstart, hpart⟩ := exists_toList_eq hw
  have hnone := takeNumeral?_word hw hrest.not_isPart (.inr ⟨hinf, hnan⟩)
  have hspan := span_append (htext ▸ hpart) hrest.not_isPart
  have hopening := hrest.head?_ne (by decide : '(' ∉ _)
  have htoken : takeWord (w.toList ++ rest) = (.word w, rest) := by
    rw [takeWord, hspan.1, hspan.2, takeApplied, if_neg hopening, String.ofList_toList]
  rw [htext, List.cons_append] at hnone htoken ⊢
  refine tokens_cons (t := some (.word w)) ?_
  rw [takeToken_of_isPart (hpart c List.mem_cons_self), hnone, htoken]
  rfl

theorem tokens_applied (rest : List Char) :
    tokens (w.toList ++ '(' :: rest) = .applied w :: tokens rest := by
  obtain ⟨c, cs, htext, hstart, hpart⟩ := exists_toList_eq hw
  have hrest : ∀ c ∈ ('(' :: rest).head?, ¬Identifier.isPart c := by
    rintro _ ⟨⟩
    decide
  have hnone := takeNumeral?_word hw hrest (.inl rfl)
  have hspan := span_append (htext ▸ hpart) hrest
  have htoken : takeWord (w.toList ++ '(' :: rest) = (.applied w, rest) := by
    rw [takeWord, hspan.1, hspan.2, takeApplied, if_pos List.head?_cons, String.ofList_toList]
    rfl
  rw [htext, List.cons_append] at hnone htoken ⊢
  refine tokens_cons (t := some (.applied w)) ?_
  rw [takeToken_of_isPart (hpart c List.mem_cons_self), hnone, htoken]
  rfl

end Word

/-! ### Symbols -/

theorem takeToken_of_isSymbolic {c : Char} {cs : List Char} (hc : isSymbolic c) :
    takeToken c cs = (takeSymbol (c :: cs)).map some id := by
  have hall : ∀ d ∈ "+-*/\\^<>=~:.?@#&$".toList,
      d ≠ ' ' ∧ d ≠ '\n' ∧ d ≠ '(' ∧ d ≠ ')' ∧ d ≠ ',' ∧ d ≠ ';' ∧ d ≠ '!' := by decide
  obtain ⟨hspace, hline, hopening, hclosing, hcomma, hsemicolon, hcut⟩ :=
    hall c (List.contains_iff_mem.mp hc)
  rw [takeToken, if_neg (not_or.mpr ⟨hspace, hline⟩), if_neg hopening, if_neg hclosing,
    if_neg hcomma, if_neg hsemicolon, if_neg hcut, if_pos hc]

theorem takeNumeral?_blank (cs : List Char) : takeNumeral? (' ' :: cs) = none := rfl

section Symbol
variable {s : String} (hne : s.toList ≠ []) (hs : ∀ c ∈ s.toList, isSymbolic c)
include hne hs

theorem tokens_symbol {rest rest' : List Char} {t : Token}
    (h : takeSymbol (s.toList ++ rest) = (t, rest')) :
    tokens (s.toList ++ rest) = t :: tokens rest' := by
  obtain ⟨c, cs, htext⟩ := List.exists_cons_of_ne_nil hne
  have hc : isSymbolic c := hs c (htext ▸ List.mem_cons_self)
  rw [htext, List.cons_append] at h ⊢
  refine tokens_cons (t := some t) ?_
  rw [takeToken_of_isSymbolic hc, h]
  rfl

/-- A symbol before a blank. -/
theorem tokens_symbol_blank (hstop : s ≠ ".") (cs : List Char) :
    tokens (s.toList ++ ' ' :: cs) = .symbol s :: tokens cs := by
  have hrest : ∀ c ∈ (' ' :: cs).head?, ¬isSymbolic c := by
    rintro _ ⟨⟩
    decide
  have hspan := span_append hs hrest
  have hpoint : s.toList ≠ ['.'] := fun h => hstop (String.toList_injective h)
  have hsymbol : takeSymbol (s.toList ++ ' ' :: cs) = (.symbol s, ' ' :: cs) := by
    rw [takeSymbol, hspan.1, hspan.2, takeApplied, if_neg (by simp), if_neg (by simp [hpoint]),
      takeNumeral?_blank, String.ofList_toList]
    split <;> rfl
  rw [tokens_symbol hne hs hsymbol, tokens_blank]

/-- A symbol before a parenthesis. -/
theorem tokens_applied_symbol (rest : List Char) :
    tokens (s.toList ++ '(' :: rest) = .applied s :: tokens rest := by
  have hrest : ∀ c ∈ ('(' :: rest).head?, ¬isSymbolic c := by
    rintro _ ⟨⟩
    decide
  have hspan := span_append hs hrest
  have hsymbol : takeSymbol (s.toList ++ '(' :: rest) = (.applied s, rest) := by
    rw [takeSymbol, hspan.1, hspan.2, takeApplied, if_pos List.head?_cons, String.ofList_toList]
    rfl
  exact tokens_symbol hne hs hsymbol

end Symbol

/-! ### Numerals -/

theorem exists_head_of_takeNumeral? {cs rest : List Char} {value : Numeral}
    (h : takeNumeral? cs = some (value, rest)) :
    ∃ c ds, cs = c :: ds ∧ Identifier.isPart c := by
  cases cs with
  | nil => cases h
  | cons c ds =>
    refine ⟨c, ds, rfl, ?_⟩
    by_contra hpart
    have hword : (c :: ds).takeWhile Identifier.isPart = [] := List.takeWhile_cons_of_neg hpart
    have hdigit : ¬c.isDigit := fun hdigit => hpart (isPart_of_isDigit hdigit)
    rw [takeNumeral?_of_not_isDigit hdigit, takeDigitless?, hword] at h
    split at h <;> cases h

theorem tokens_numeral {cs rest : List Char} {value : Numeral}
    (h : takeNumeral? cs = some (value, rest)) : tokens cs = .numeral value :: tokens rest := by
  obtain ⟨c, ds, rfl, hc⟩ := exists_head_of_takeNumeral? h
  refine tokens_cons (t := some (.numeral value)) ?_
  rw [takeToken_of_isPart hc, h]
  rfl

theorem tokens_negative {cs rest : List Char} {value : Numeral}
    (h : takeNumeral? cs = some (value, rest)) :
    tokens ('-' :: cs) = .negative value :: tokens rest := by
  obtain ⟨c, ds, rfl, hc⟩ := exists_head_of_takeNumeral? h
  have hopening : (c :: ds).head? ≠ some '(' := by
    rintro ⟨⟩
    exact absurd hc (by decide)
  have hrest : ∀ d ∈ (c :: ds).head?, ¬isSymbolic d := by
    rintro _ ⟨⟩
    exact fun hsymbolic => not_isPart_of_isSymbolic hsymbolic hc
  have hrun : ∀ d ∈ "-".toList, isSymbolic d := by decide
  have hspan := span_append hrun hrest
  have hminus : "-".toList = ['-'] := by decide
  change tokens ("-".toList ++ c :: ds) = _
  refine tokens_symbol (by decide) hrun ?_
  rw [takeSymbol, hspan.1, hspan.2, takeApplied, if_neg hopening, hminus,
    if_neg (fun hstop => absurd hstop.1 (by decide)), if_pos rfl, h]
  rfl

theorem takeSign_of_isDigit {c : Char} {cs : List Char} (hc : c.isDigit) :
    Number.takeSign (c :: cs) = (false, c :: cs) := by
  unfold Number.takeSign
  split
  · next heq =>
    cases heq
    exact absurd hc (by decide)
  · next heq =>
    cases heq
    exact absurd hc (by decide)
  · rfl

section Literal
variable {l : Literal} {rest : List Char} (hrest : Breaks rest)
include hrest

theorem takeExponent_exponentText (e : Option Int) :
    takeExponent (Literal.exponentText e ++ rest) = (e.getD 0, rest) := by
  cases e with
  | none =>
    have hhead := hrest.head?_ne (by decide : 'e' ∉ _)
    unfold Literal.exponentText takeExponent
    split
    · next heq =>
      rw [List.nil_append] at heq
      exact absurd (congrArg List.head? heq) hhead
    · rfl
  | some e =>
    have hdigits : ∀ c ∈ Nat.toDigits 10 e.natAbs, c.isDigit :=
      fun c hc => Nat.isDigit_of_mem_toDigits (by decide) (by decide) hc
    have hspan := span_append hdigits hrest.not_isDigit
    have hsign : Number.takeSign ((if e < 0 then ['-'] else []) ++
        (Nat.toDigits 10 e.natAbs ++ rest)) =
          (decide (e < 0), Nat.toDigits 10 e.natAbs ++ rest) := by
      by_cases he : e < 0
      · rw [if_pos he, decide_eq_true he]
        rfl
      · have hne : Nat.toDigits 10 e.natAbs ≠ [] := Nat.toDigits_ne_nil
        obtain ⟨c, cs, heq⟩ := List.exists_cons_of_ne_nil hne
        have hc := hdigits c (heq ▸ List.mem_cons_self)
        rw [if_neg he, decide_eq_false he, heq]
        exact takeSign_of_isDigit hc
    have hvalue : Text.decimalValue (Nat.toDigits 10 e.natAbs) = e.natAbs := by
      rw [Decimal.decimalValue_eq, Nat.ofDigitChars_ten_toDigits]
    have hne : ¬(Nat.toDigits 10 e.natAbs).isEmpty := by
      rw [List.isEmpty_iff]
      exact Nat.toDigits_ne_nil
    rw [Literal.exponentText, List.cons_append, List.append_assoc, takeExponent]
    simp only [hsign, hspan.1, hspan.2, hvalue, if_neg hne]
    refine Prod.ext ?_ rfl
    rw [Option.getD_some]
    split
    · next he =>
      have he := of_decide_eq_true he
      omega
    · next he =>
      have he := of_decide_eq_false (Bool.not_eq_true _ ▸ he)
      omega

theorem takeNumeral?_literal (hl : l.Proper) :
    takeNumeral? (l.text ++ rest) = some (.float l.number, rest) := by
  have hpoint : ∀ c ∈ ('.' :: (l.fraction ++ (Literal.exponentText l.exponent ++ rest))).head?,
      ¬c.isDigit := by
    rintro _ ⟨⟩
    decide
  have hafter : ∀ c ∈ (Literal.exponentText l.exponent ++ rest).head?, ¬c.isDigit := by
    cases l.exponent with
    | none => exact hrest.not_isDigit
    | some e =>
      rintro _ ⟨⟩
      decide
  have hwhole := span_append hl.whole.2 hpoint
  have hfraction := span_append hl.fraction.2 hafter
  have htext : l.text ++ rest =
      l.whole ++ '.' :: (l.fraction ++ (Literal.exponentText l.exponent ++ rest)) := by
    simp [Literal.text]
  have hne : ¬l.whole.isEmpty := by
    rw [List.isEmpty_iff]
    exact hl.whole.1
  rw [takeNumeral?, htext, hwhole.1, hwhole.2, if_neg hne, List.drop_one, List.tail_cons,
    hfraction.1, hfraction.2, if_pos ⟨rfl, hl.fraction.1⟩, takeExponent_exponentText hrest]
  rfl

/-- Digits with no fraction behind them are an integer. -/
theorem takeNumeral?_digits (run : List Char) (hne : run ≠ []) (hrun : ∀ c ∈ run, c.isDigit) :
    takeNumeral? (run ++ rest) = some (.integer (Text.decimalValue run), rest) := by
  have hspan := span_append hrun hrest.not_isDigit
  have hwhole : ¬run.isEmpty := by
    rw [List.isEmpty_iff]
    exact hne
  have hfraction : ¬(rest.head? = some '.' ∧ (rest.drop 1).takeWhile Char.isDigit ≠ []) := by
    rintro ⟨hpoint, hfraction⟩
    cases rest with
    | nil => cases hpoint
    | cons c cs =>
      obtain rfl : c = '.' := by simpa using hpoint
      rcases hrest with hmem | ⟨-, rfl⟩
      · exact absurd hmem (by decide)
      · exact hfraction rfl
  rw [takeNumeral?, hspan.1, hspan.2, if_neg hwhole, if_neg hfraction]

theorem takeDigitless?_append (run : List Char) (hrun : ∀ c ∈ run, Identifier.isPart c) :
    takeDigitless? (run ++ rest) =
      if run = ['i', 'n', 'f'] then some (.float (.infinity false), rest)
      else if run = ['N', 'a', 'N'] then some (.float .nan, rest)
      else none := by
  have hspan := span_append hrun hrest.not_isPart
  rw [takeDigitless?, hspan.1, hspan.2, if_neg (hrest.head?_ne (by decide))]

/-- The text of a magnitude is a numeral. -/
theorem takeNumeral?_magnitude (r : Fin (Number.infinityRank + 1)) :
    takeNumeral? (((Number.ranked false r).write .program).toList ++ rest) =
      some (.float (.ranked false r), rest) := by
  by_cases hr : r.val = Number.infinityRank
  · have htext : ((Number.ranked false r).write .program).toList = ['i', 'n', 'f'] := by
      rw [Number.write, if_pos hr]
      exact String.toList_ofList
    have hinfinity : Number.ranked false r = .infinity false := by
      rw [Number.infinity]
      exact congrArg _ (Fin.ext hr)
    rw [htext, hinfinity]
    refine (takeNumeral?_of_not_isDigit (by decide)).trans ?_
    exact takeDigitless?_append hrest ['i', 'n', 'f'] (by decide)
  · have hfinite := Nat.lt_of_le_of_ne (Nat.le_of_lt_succ r.isLt) hr
    obtain ⟨l, hl, hnumber, htext⟩ := Number.exists_literal hfinite
    have htext : ((Number.ranked false r).write .program).toList = l.text := by
      rw [Number.write, if_neg hr, htext]
      exact String.toList_ofList
    rw [htext, takeNumeral?_literal hrest hl, hnumber]

end Literal

/-- The token that a number is written as. -/
def numberToken : Number → Token
  | .nan => .numeral (.float .nan)
  | .ranked true rank => .negative (.float (.ranked false rank))
  | .ranked false rank => .numeral (.float (.ranked false rank))

theorem spells_number (x : Number) : Spells (x.write .program).toList [numberToken x] := by
  intro rest hrest
  match x with
  | .nan =>
    have hnumeral : takeNumeral? ("NaN".toList ++ rest) = some (.float .nan, rest) := by
      refine (takeNumeral?_of_not_isDigit (by decide)).trans ?_
      exact takeDigitless?_append hrest "NaN".toList (by decide)
    exact tokens_numeral hnumeral
  | .ranked false r => exact tokens_numeral (takeNumeral?_magnitude hrest r)
  | .ranked true r =>
    have htext : ((Number.ranked true r).write .program).toList =
        '-' :: ((Number.ranked false r).write .program).toList := by
      simp [Number.write]
    rw [htext]
    exact tokens_negative (takeNumeral?_magnitude hrest r)

end GoalModel.Prolog
