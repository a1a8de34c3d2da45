import GoalModel.Formula
import GoalModel.Proofs.Prolog.Tokens

/-! # Terms read from tokens

Tokens are put together as the priorities of the operators say: a stack keeps what is still open
(`Frame`), and before an operator, a comma or a parenthesis the operators that bind more closely
take their right operands (`settle`).

`Forms` says that tokens are a term of some priority, wherever there is room for one. The lemmas
about it follow the ways to write a term: an operator and its operands, a name and its
arguments, parentheses. -/

namespace GoalModel.Prolog

/-! ## Operators -/

inductive UnarySign where
  | minus
  /-- Negation as failure. -/
  | negation
  deriving DecidableEq, Repr

inductive BinarySign where
  /-- Between the head and the body of a rule. -/
  | neck
  /-- Evaluation. -/
  | is
  | operator (op : BinaryOperator)
  deriving DecidableEq, Repr

/-- How loosely an operator binds, and how loosely its operands may bind. -/
structure Level where
  left : Nat
  own : Nat
  right : Nat
  deriving DecidableEq, Repr

def UnarySign.ofText? : String → Option UnarySign
  | "-" => some .minus
  | "\\+" => some .negation
  | _ => none

/-- How loosely an operator in front of its operand binds; the operand may be of this kind
again. -/
def UnarySign.priority : UnarySign → Nat
  | .minus => 200
  | .negation => 900

def BinarySign.ofText? : String → Option BinarySign
  | ":-" => some .neck
  | "is" => some .is
  | ";" => some (.operator .or)
  | ">" => some (.operator .gt)
  | ">=" => some (.operator .gte)
  | "<" => some (.operator .lt)
  | "=<" => some (.operator .lte)
  | "=:=" => some (.operator .eq)
  | "=\\=" => some (.operator .neq)
  | "+" => some (.operator .plus)
  | "-" => some (.operator .minus)
  | "*" => some (.operator .multiply)
  | "/" => some (.operator .divide)
  | _ => none

def BinarySign.level : BinarySign → Level
  | .neck => ⟨1199, 1200, 1199⟩
  | .operator .or => ⟨1099, 1100, 1100⟩
  | .operator .and => ⟨999, 1000, 1000⟩
  | .operator .plus | .operator .minus => ⟨500, 500, 499⟩
  | .operator .multiply | .operator .divide => ⟨400, 400, 399⟩
  | _ => ⟨699, 700, 699⟩

/-! ## Reading -/

/-- A term as it is read. -/
inductive Tree where
  | word (name : String)
  | numeral (value : Numeral)
  | compound (functor : String) (arguments : List Tree)
  | unary (sign : UnarySign) (operand : Tree)
  | binary (sign : BinarySign) (left right : Tree)
  deriving Repr

/-- A name applied to arguments; operators can be written in this way too. -/
def Tree.applied (name : String) (arguments : List Tree) : Tree :=
  match UnarySign.ofText? name, arguments with
  | some sign, [operand] => .unary sign operand
  | _, _ => .compound name arguments

/-- What is open while a term is read. -/
inductive Frame where
  | opening
  /-- The arguments before the one that is being read. -/
  | call (name : String) (before : List Tree)
  | unary (sign : UnarySign)
  | binary (sign : BinarySign) (left : Tree)
  deriving Repr

/-- How loosely the next operand may bind. -/
def room : List Frame → Nat
  | [] => 1200
  | .opening :: _ => 1200
  | .call _ _ :: _ => 999
  | .unary sign :: _ => sign.priority
  | .binary sign _ :: _ => sign.level.right

/-- The open operators that do not bind more loosely than the limit take their operand. -/
def settle (limit : Nat) : List Frame → Tree → List Frame × Tree
  | .unary sign :: frames, t =>
    if sign.priority ≤ limit then settle limit frames (.unary sign t)
    else (.unary sign :: frames, t)
  | .binary sign left :: frames, t =>
    if sign.level.own ≤ limit then settle limit frames (.binary sign left t)
    else (.binary sign left :: frames, t)
  | frames, t => (frames, t)

inductive State where
  /-- An operand comes next. -/
  | operand (frames : List Frame)
  /-- An operand has been read. -/
  | complete (frames : List Frame) (t : Tree)
  deriving Repr

/-- An operator behind an operand. -/
def openBinary (sign : BinarySign) (frames : List Frame) (t : Tree) : Option (List Frame) :=
  let settled := settle sign.level.left frames t
  if sign.level.own ≤ room settled.1 then some (.binary sign settled.2 :: settled.1) else none

/-- A comma behind an operand ends an argument, or it is a conjunction. -/
def stepComma (frames : List Frame) (t : Tree) : Option State :=
  match settle 999 frames t with
  | (.call name before :: frames, t) => some (.operand (.call name (before ++ [t]) :: frames))
  | _ => (openBinary (.operator .and) frames t).map .operand

/-- A closing parenthesis behind an operand. -/
def stepClosing (frames : List Frame) (t : Tree) : Option State :=
  match settle 1200 frames t with
  | (.opening :: frames, t) => some (.complete frames t)
  | (.call name before :: frames, t) => some (.complete frames (.applied name (before ++ [t])))
  | _ => none

def step : State → Token → Option State
  | .operand frames, .word name => some (.complete frames (.word name))
  | .operand frames, .numeral value => some (.complete frames (.numeral value))
  | .operand frames, .negative value => some (.complete frames (.numeral value.negated))
  | .operand frames, .opening => some (.operand (.opening :: frames))
  | .operand frames, .applied name => some (.operand (.call name [] :: frames))
  | .operand frames, .symbol text => do
    let sign ← UnarySign.ofText? text
    if sign.priority ≤ room frames then some (.operand (.unary sign :: frames)) else none
  | .complete frames t, .word text => do
    return .operand (← openBinary (← BinarySign.ofText? text) frames t)
  | .complete frames t, .symbol text => do
    return .operand (← openBinary (← BinarySign.ofText? text) frames t)
  | .complete frames t, .applied text => do
    return .operand (.opening :: (← openBinary (← BinarySign.ofText? text) frames t))
  | .complete frames t, .negative value => do
    return .complete (← openBinary (.operator .minus) frames t) (.numeral value)
  | .complete frames t, .comma => stepComma frames t
  | .complete frames t, .closing => stepClosing frames t
  | _, _ => none

def readTerm? (ts : List Token) : Option Tree := do
  match ← ts.foldlM step (.operand []) with
  | .complete frames t =>
    match settle 1200 frames t with
    | ([], t) => some t
    | _ => none
  | .operand _ => none

/-- Reads a term that is written alone. -/
def readText? (text : String) : Option Tree := readTerm? (tokens text.toList)

/-- Reads a clause with the point at its end. -/
def readClause? (text : String) : Option Tree :=
  let ts := tokens text.toList
  if ts.getLast? = some .stop then readTerm? ts.dropLast else none

/-! ## Terms of some priority -/

/-- Where there is room for a term of the priority, the tokens are read as the term. Operators
in it may still be open, but whatever settles a term of the priority settles them. -/
def Forms (ts : List Token) (t : Tree) (p : Nat) : Prop :=
  ∀ frames, p ≤ room frames → ∃ frames' t',
    ts.foldlM step (.operand frames) = some (.complete frames' t') ∧
      ∀ limit, p ≤ limit → settle limit frames' t' = settle limit frames t

theorem forms_word (name : String) : Forms [.word name] (.word name) 0 :=
  fun frames _ => ⟨frames, .word name, rfl, fun _ _ => rfl⟩

theorem forms_numeral (value : Numeral) : Forms [.numeral value] (.numeral value) 0 :=
  fun frames _ => ⟨frames, .numeral value, rfl, fun _ _ => rfl⟩

theorem forms_negative (value : Numeral) : Forms [.negative value] (.numeral value.negated) 0 :=
  fun frames _ => ⟨frames, .numeral value.negated, rfl, fun _ _ => rfl⟩

section
variable {ts ls rs : List Token} {t l r : Tree} {p lp rp : Nat}

theorem readTerm?_of_forms (h : Forms ts t p) (hp : p ≤ 1200) : readTerm? ts = some t := by
  obtain ⟨frames, t', hrun, hsettle⟩ := h [] hp
  have hsettled : settle 1200 frames t' = ([], t) := hsettle 1200 hp
  simp [readTerm?, hrun, hsettled]

theorem forms_group (h : Forms ts t p) (hp : p ≤ 1200) :
    Forms (.opening :: (ts ++ [.closing])) t 0 := by
  intro frames _
  obtain ⟨frames', t', hrun, hsettle⟩ := h (.opening :: frames) hp
  have hclosing : stepClosing frames' t' = some (.complete frames t) := by
    rw [stepClosing, hsettle 1200 hp]
    rfl
  refine ⟨frames, t, ?_, fun _ _ => rfl⟩
  simp [List.foldlM_cons, List.foldlM_append, hrun, step, hclosing]

/-! ### Arguments -/

/-- Terms between commas. An argument binds more closely than a comma. -/
inductive FormsArguments : List Token → List Tree → Prop
  | last {ts : List Token} {t : Tree} {p : Nat} : Forms ts t p → p ≤ 999 → FormsArguments ts [t]
  | cons {ts rest : List Token} {t : Tree} {p : Nat} {args : List Tree} : Forms ts t p →
    p ≤ 999 → FormsArguments rest args → FormsArguments (ts ++ .comma :: rest) (t :: args)

theorem FormsArguments.closing {args : List Tree} (h : FormsArguments ts args) (name : String)
    (frames : List Frame) (before : List Tree) :
    (ts ++ [Token.closing]).foldlM step (.operand (.call name before :: frames)) =
      some (.complete frames (.applied name (before ++ args))) := by
  -- The arguments read so far are in the frame, so the induction is over those to come.
  induction h generalizing before with
  | @last ts t p hforms hp =>
    obtain ⟨frames', t', hrun, hsettle⟩ := hforms (.call name before :: frames) hp
    have hclosing : stepClosing frames' t' =
        some (.complete frames (.applied name (before ++ [t]))) := by
      rw [stepClosing, hsettle 1200 (hp.trans (by decide))]
      rfl
    simp [List.foldlM_append, hrun, step, hclosing]
  | @cons ts rest t p args hforms hp _ ih =>
    obtain ⟨frames', t', hrun, hsettle⟩ := hforms (.call name before :: frames) hp
    have hcomma : stepComma frames' t' =
        some (.operand (.call name (before ++ [t]) :: frames)) := by
      rw [stepComma, hsettle 999 hp]
      rfl
    have hrest := ih (before ++ [t])
    rw [List.append_assoc, List.singleton_append] at hrest
    rw [List.append_assoc, List.cons_append, List.foldlM_append, hrun]
    simpa [List.foldlM_cons, step, hcomma] using hrest

theorem forms_applied {args : List Tree} (h : FormsArguments ts args) (name : String) :
    Forms (.applied name :: (ts ++ [.closing])) (.applied name args) 0 :=
  fun frames _ => ⟨frames, .applied name args, h.closing name frames [], fun _ _ => rfl⟩

/-! ### Operators -/

theorem forms_unary {sign : UnarySign} {text : String} (htext : UnarySign.ofText? text = some sign)
    (h : Forms ts t p) (hp : p ≤ sign.priority) :
    Forms (.symbol text :: ts) (.unary sign t) sign.priority := by
  intro frames hroom
  obtain ⟨frames', t', hrun, hsettle⟩ := h (.unary sign :: frames) hp
  refine ⟨frames', t', ?_, fun limit hlimit => ?_⟩
  · simp [List.foldlM_cons, step, htext, hroom, hrun]
  · rw [hsettle limit (hp.trans hlimit), settle, if_pos hlimit]

namespace BinarySign

/-- Only arithmetic operators associate to the left. -/
theorem left_lt_or (sign : BinarySign) :
    sign.level.left < sign.level.own ∨ sign.level.own ≤ 500 := by
  rcases sign with _ | _ | op
  · decide
  · decide
  · cases op <;> decide

/-- Only the connectives associate to the right. -/
theorem right_lt_or (sign : BinarySign) :
    sign.level.right < sign.level.own ∨ 1000 ≤ sign.level.own := by
  rcases sign with _ | _ | op
  · decide
  · decide
  · cases op <;> decide

theorem level_le (sign : BinarySign) : sign.level.left ≤ sign.level.own ∧
    sign.level.right ≤ sign.level.own ∧ 400 ≤ sign.level.own := by
  rcases sign with _ | _ | op
  · decide
  · decide
  · cases op <;> decide

end BinarySign

/-- Where there is room for an operator, no open operator waits for its left operand. -/
theorem settle_left {sign : BinarySign} {frames : List Frame} (h : sign.level.own ≤ room frames)
    (t : Tree) : settle sign.level.left frames t = (frames, t) := by
  have hlevel := sign.level_le
  cases frames with
  | nil => rfl
  | cons frame frames =>
    cases frame with
    | opening => rfl
    | call name before => rfl
    | unary other =>
      have hlt : sign.level.left < other.priority := by
        have hor := sign.left_lt_or
        have hpriority : sign.level.own ≤ other.priority := h
        cases other <;> simp only [UnarySign.priority] at hpriority ⊢ <;> omega
      rw [settle, if_neg (Nat.not_le.mpr hlt)]
    | binary other left =>
      have hlt : sign.level.left < other.level.own := by
        have hor := sign.left_lt_or
        have hother := other.right_lt_or
        have hle := other.level_le
        have hright : sign.level.own ≤ other.level.right := h
        omega
      rw [settle, if_neg (Nat.not_le.mpr hlt)]

/-- The tokens that a binary operator can be. -/
inductive IsSign : Token → BinarySign → Prop
  | word {text : String} {sign : BinarySign} : BinarySign.ofText? text = some sign →
    IsSign (.word text) sign
  | symbol {text : String} {sign : BinarySign} : BinarySign.ofText? text = some sign →
    IsSign (.symbol text) sign
  | comma : IsSign .comma (.operator .and)

theorem step_sign {sign : BinarySign} {token : Token} (htoken : IsSign token sign)
    {frames frames' : List Frame} {t' : Tree} (hroom : sign.level.own ≤ room frames)
    (hsettle : settle sign.level.left frames' t' = (frames, t)) :
    step (.complete frames' t') token = some (.operand (.binary sign t :: frames)) := by
  have hopen : openBinary sign frames' t' = some (.binary sign t :: frames) := by
    rw [openBinary, hsettle]
    exact if_pos hroom
  cases htoken with
  | word htext => simp [step, htext, hopen]
  | symbol htext => simp [step, htext, hopen]
  | comma =>
    have hcall (name : String) (before : List Tree) (rest : List Frame) :
        frames ≠ .call name before :: rest := by
      rintro rfl
      have hroom : 1000 ≤ 999 := hroom
      exact absurd hroom (by decide)
    have hsettle : settle 999 frames' t' = (frames, t) := hsettle
    rw [step, stepComma, hsettle]
    split
    · next heq =>
      cases heq
      exact absurd rfl (hcall _ _ _)
    · rw [hopen]
      rfl

theorem forms_binary {sign : BinarySign} {token : Token} (htoken : IsSign token sign)
    (hl : Forms ls l lp) (hlp : lp ≤ sign.level.left) (hr : Forms rs r rp)
    (hrp : rp ≤ sign.level.right) :
    Forms (ls ++ token :: rs) (.binary sign l r) sign.level.own := by
  intro frames hroom
  obtain ⟨hleft, hright, _⟩ := sign.level_le
  obtain ⟨framesl, l', hrunl, hsettlel⟩ := hl frames (hlp.trans (hleft.trans hroom))
  obtain ⟨framesr, r', hrunr, hsettler⟩ := hr (.binary sign l :: frames) hrp
  have hstep := step_sign htoken hroom ((hsettlel _ hlp).trans (settle_left hroom l))
  refine ⟨framesr, r', ?_, fun limit hlimit => ?_⟩
  · simp [List.foldlM_append, List.foldlM_cons, hrunl, hstep, hrunr]
  · rw [hsettler limit (hrp.trans (hright.trans hlimit)), settle, if_pos hlimit]

/-- Behind an operand, a parenthesis right behind an operator makes no difference. -/
theorem foldlM_applied (text : String) (rest : List Token) (frames : List Frame) (t : Tree) :
    (Token.applied text :: rest).foldlM step (.complete frames t) =
      (Token.symbol text :: Token.opening :: rest).foldlM step (.complete frames t) := by
  cases hsign : BinarySign.ofText? text with
  | none => simp [List.foldlM_cons, step, hsign]
  | some sign =>
    cases hopen : openBinary sign frames t <;>
      simp [List.foldlM_cons, step, hsign, hopen]

/-- An operator before an operand in parentheses. -/
theorem forms_tight {sign : BinarySign} {text : String}
    (htext : BinarySign.ofText? text = some sign) (hl : Forms ls l lp)
    (hlp : lp ≤ sign.level.left) (hr : Forms rs r rp) (hrp : rp ≤ 1200) :
    Forms (ls ++ .applied text :: (rs ++ [.closing])) (.binary sign l r) sign.level.own := by
  intro frames hroom
  obtain ⟨hleft, _, _⟩ := sign.level_le
  obtain ⟨framesl, l', hrunl, _⟩ := hl frames (hlp.trans (hleft.trans hroom))
  obtain ⟨frames', t', hrun, hsettle⟩ :=
    forms_binary (.symbol htext) hl hlp (forms_group hr hrp) (Nat.zero_le _) frames hroom
  refine ⟨frames', t', ?_, hsettle⟩
  rw [List.foldlM_append, hrunl] at hrun ⊢
  exact (foldlM_applied ..).trans hrun

end

end GoalModel.Prolog
