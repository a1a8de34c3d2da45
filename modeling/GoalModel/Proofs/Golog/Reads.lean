import GoalModel.Golog.Term
import GoalModel.Proofs.Prolog.Reader

/-! # Written terms read back

The terms of a program know how they are written but not how they are read. `Term.Reads` says
which tree the text of a term is read as, and how loosely it binds. There is one lemma for each
way in which the translation writes terms, so that the tree of a rendered formula is found along
its structure; parentheses disappear, and what they keep apart is kept apart by the tree. -/

namespace GoalModel.Golog

open Prolog

/-- The text of a term is read as the tree, with the priority of its outermost operator. -/
def Term.Reads (term : Term) (tree : Tree) (p : Nat) : Prop :=
  ∃ ts, Spells term.text.toList ts ∧ Forms ts tree p

theorem Term.Reads.readText? {term : Term} {tree : Tree} {p : Nat} (h : term.Reads tree p)
    (hp : p ≤ 1200) : readText? term.text = some tree := by
  obtain ⟨ts, hspells, hforms⟩ := h
  have htokens : tokens term.text.toList = ts := by
    have hall := hspells [] trivial
    rw [List.append_nil] at hall
    rw [hall, tokens, List.append_nil]
  rw [Prolog.readText?, htokens]
  exact readTerm?_of_forms hforms hp

/-! ## Pieces in a row -/

section
variable {as bs : List Char} {ts us : List Token}

theorem breaks_cons {c : Char} {cs : List Char} (hc : c ∈ [' ', ',', ')', '+', '-', '*', '/']) :
    Breaks (c :: cs) := .inl hc

/-- Nothing that follows an opening parenthesis becomes a part of it. -/
theorem spells_opened {token : Token}
    (ha : ∀ rest, tokens (as ++ '(' :: rest) = token :: tokens rest) (hb : Spells bs ts) :
    Spells (as ++ '(' :: (bs ++ [')'])) (token :: (ts ++ [.closing])) := by
  intro rest _
  have hclosing : Breaks (')' :: rest) := breaks_cons (by decide)
  rw [List.append_assoc, List.cons_append, ha, List.append_assoc, List.singleton_append,
    hb _ hclosing, tokens_closing]
  simp

end

/-! ## Operators between blanks -/

/-- An operator is one token, whatever follows it, and ends the token before it. -/
structure Operator.Separates (op : Operator) (token : Token) : Prop where
  tokens : ∀ cs, tokens (op.text.toList ++ cs) = token :: tokens cs
  breaks : ∀ cs, Breaks (op.text.toList ++ cs)

namespace Operator

theorem separates_conjunction : conjunction.Separates .comma where
  tokens cs := by
    have htext : conjunction.text.toList ++ cs = ' ' :: ',' :: ' ' :: cs := rfl
    rw [htext, tokens_blank, tokens_comma, tokens_blank]
  breaks _ := breaks_cons (by decide)

theorem separates_listing : listing.Separates .comma where
  tokens cs := by
    have htext : listing.text.toList ++ cs = ',' :: ' ' :: cs := rfl
    rw [htext, tokens_comma, tokens_blank]
  breaks _ := breaks_cons (by decide)

theorem separates_disjunction : disjunction.Separates (.symbol ";") where
  tokens cs := by
    have htext : disjunction.text.toList ++ cs = ' ' :: ';' :: ' ' :: cs := rfl
    rw [htext, tokens_blank, tokens_cons (t := some (.symbol ";")) rfl, tokens_blank]
    rfl
  breaks _ := breaks_cons (by decide)

theorem separates_is : (spaced "is").Separates (.word "is") where
  tokens cs := by
    have htext : (spaced "is").text.toList ++ cs = ' ' :: ("is".toList ++ ' ' :: cs) := rfl
    have hblank : Breaks (' ' :: cs) := breaks_cons (by decide)
    rw [htext, tokens_blank, spells_word (by decide) (by decide) (by decide) _ hblank,
      tokens_blank]
    rfl
  breaks _ := breaks_cons (by decide)

theorem separates_spaced {symbol : String} (hne : symbol.toList ≠ [])
    (hsymbol : ∀ c ∈ symbol.toList, isSymbolic c) (hstop : symbol ≠ ".") :
    (spaced symbol).Separates (.symbol symbol) where
  tokens cs := by
    have htext : (spaced symbol).text.toList ++ cs = ' ' :: (symbol.toList ++ ' ' :: cs) := by
      simp [spaced, text]
    rw [htext, tokens_blank, tokens_symbol_blank hne hsymbol hstop]
  breaks cs := by
    have htext : (spaced symbol).text.toList ++ cs = ' ' :: (symbol.toList ++ ' ' :: cs) := by
      simp [spaced, text]
    rw [htext]
    exact breaks_cons (by decide)

end Operator

namespace Term.Reads

variable {t l r : Term} {tree lt rt : Tree} {p lp rp : Nat}

/-! ## Terms without operators -/

theorem word {w : String} (hw : Identifier.isValid w) (hinf : w ≠ "inf") (hnan : w ≠ "NaN") :
    (word w).Reads (.word w) 0 :=
  ⟨_, spells_word hw hinf hnan, forms_word w⟩

/-- A truth value as a number. -/
theorem digit (value : Bool) : (Term.word (if value then "1" else "0")).Reads
    (.numeral (.integer (if value then 1 else 0))) 0 := by
  refine ⟨[.numeral (.integer (if value then 1 else 0))], fun rest hrest => ?_, forms_numeral _⟩
  cases value with
  | false => exact tokens_numeral (takeNumeral?_digits hrest ['0'] (by simp) (by decide))
  | true => exact tokens_numeral (takeNumeral?_digits hrest ['1'] (by simp) (by decide))

theorem number (x : Number) : (Term.number x).Reads (.numeral (.float x)) 0 := by
  refine ⟨_, spells_number x, ?_⟩
  match x with
  | .nan => exact forms_numeral _
  | .ranked false _ => exact forms_numeral _
  | .ranked true _ => exact forms_negative _

theorem group (h : t.Reads tree p) (hp : p ≤ 1200) : (Term.group t).Reads tree 0 := by
  obtain ⟨ts, hspells, hforms⟩ := h
  refine ⟨.opening :: (ts ++ [.closing]), ?_, forms_group hforms hp⟩
  have htext : (Term.group t).text.toList = [] ++ '(' :: (t.text.toList ++ [')']) := by
    simp [Term.text]
  rw [htext]
  exact spells_opened tokens_opening hspells

/-! ## Arguments -/

theorem breaks_gap (gap : Gap) (cs : List Char) : Breaks (gap.text.toList ++ cs) := by
  cases gap <;> exact breaks_cons (by decide)

theorem tokens_gap (gap : Gap) (cs : List Char) :
    tokens (gap.text.toList ++ cs) = .comma :: tokens cs := by
  cases gap with
  | tight => exact tokens_comma cs
  | spaced =>
    have htext : Gap.spaced.text.toList ++ cs = ',' :: ' ' :: cs := rfl
    rw [htext, tokens_comma, tokens_blank]

/-- The arguments of a compound term are read one by one. -/
theorem arguments (gap : Gap) {args : List Term} {trees : List Tree} (hne : args ≠ [])
    (h : List.Forall₂ (fun a tree => ∃ p ≤ 999, Reads a tree p) args trees) :
    ∃ ts, Spells (String.intercalate gap.text (texts args)).toList ts ∧
      FormsArguments ts trees := by
  induction h with
  | nil => exact absurd rfl hne
  | @cons a tree args trees ha hrest ih =>
    obtain ⟨p, hp, ts, hspells, hforms⟩ := ha
    cases hrest with
    | nil =>
      refine ⟨ts, ?_, .last hforms hp⟩
      have htext : String.intercalate gap.text (texts [a]) = a.text := rfl
      rw [htext]
      exact hspells
    | @cons b tree' args trees hnext hrest =>
      obtain ⟨us, hus, hforms'⟩ := ih (List.cons_ne_nil _ _)
      refine ⟨ts ++ .comma :: us, fun rest hbreaks => ?_, .cons hforms hp hforms'⟩
      have htext : (String.intercalate gap.text (texts (a :: b :: args))).toList =
          a.text.toList ++ (gap.text.toList ++
            (String.intercalate gap.text (texts (b :: args))).toList) := by
        simp [String.toList_intercalate, texts]
      rw [htext, List.append_assoc, List.append_assoc, hspells _ (breaks_gap gap _), tokens_gap,
        hus rest hbreaks]
      simp

/-- A name with its arguments. -/
theorem applied {name : String} (gap : Gap) {args : List Term} {trees : List Tree}
    (hname : Identifier.isValid name) (hne : args ≠ [])
    (h : List.Forall₂ (fun a tree => ∃ p ≤ 999, Reads a tree p) args trees) :
    (compound name gap args).Reads (.applied name trees) 0 := by
  obtain ⟨ts, hspells, hforms⟩ := arguments gap hne h
  refine ⟨.applied name :: (ts ++ [.closing]), ?_, forms_applied hforms name⟩
  have htext : (compound name gap args).text.toList = name.toList ++
      '(' :: ((String.intercalate gap.text (texts args)).toList ++ [')']) := by
    simp [Term.text]
  rw [htext]
  exact spells_opened (tokens_applied hname) hspells

/-! ## Operators -/

/-- The minus of an operand in parentheses. -/
theorem minus (h : t.Reads tree p) (hp : p ≤ 999) :
    (Term.unary (.tight "-") (.group t)).Reads (.unary .minus tree) 0 := by
  obtain ⟨ts, hspells, hforms⟩ := h
  refine ⟨.applied "-" :: (ts ++ [.closing]), ?_, forms_applied (.last hforms hp) "-"⟩
  have htext : (Term.unary (.tight "-") (.group t)).text.toList =
      "-".toList ++ '(' :: (t.text.toList ++ [')']) := by
    simp [Term.text, Operator.text, Operator.tight]
  rw [htext]
  exact spells_opened (tokens_applied_symbol (s := "-") (by decide) (by decide)) hspells

theorem negation (h : t.Reads tree p) (hp : p ≤ 1200) :
    (Term.unary .negation (.group t)).Reads (.unary .negation tree) 900 := by
  obtain ⟨ts, hspells, hforms⟩ := h.group hp
  refine ⟨.symbol "\\+" :: ts, fun rest hrest => ?_, forms_unary rfl hforms (Nat.zero_le _)⟩
  have htext : (Term.unary .negation (.group t)).text.toList =
      "\\+".toList ++ ' ' :: (Term.group t).text.toList := by
    simp [Term.text, Operator.text, Operator.negation]
  rw [htext, List.append_assoc, List.cons_append,
    tokens_symbol_blank (by decide) (by decide) (by decide), hspells rest hrest]
  rfl

/-- An operator that is set apart from its operands. -/
theorem binary {op : Operator} {token : Token} {sign : BinarySign} (hop : op.Separates token)
    (htoken : IsSign token sign) (hl : l.Reads lt lp) (hlp : lp ≤ sign.level.left)
    (hr : r.Reads rt rp) (hrp : rp ≤ sign.level.right) :
    (Term.binary op l r).Reads (.binary sign lt rt) sign.level.own := by
  obtain ⟨ls, hls, hlforms⟩ := hl
  obtain ⟨rs, hrs, hrforms⟩ := hr
  refine ⟨ls ++ token :: rs, fun rest hrest => ?_, forms_binary htoken hlforms hlp hrforms hrp⟩
  have htext : (Term.binary op l r).text.toList =
      l.text.toList ++ (op.text.toList ++ r.text.toList) := by
    simp [Term.text]
  rw [htext, List.append_assoc, List.append_assoc, hls _ (hop.breaks _), hop.tokens,
    hrs rest hrest]
  simp

/-- An operator between a term and a term in parentheses. -/
theorem tight {symbol : String} {sign : BinarySign} (hne : symbol.toList ≠ [])
    (hsymbol : ∀ c ∈ symbol.toList, isSymbolic c)
    (hbreaks : ∀ cs, Breaks (symbol.toList ++ cs))
    (hsign : BinarySign.ofText? symbol = some sign) (hl : l.Reads lt lp)
    (hlp : lp ≤ sign.level.left) (hr : r.Reads rt rp) (hrp : rp ≤ 1200) :
    (Term.binary (.tight symbol) l (.group r)).Reads (.binary sign lt rt) sign.level.own := by
  obtain ⟨ls, hls, hlforms⟩ := hl
  obtain ⟨rs, hrs, hrforms⟩ := hr
  refine ⟨ls ++ .applied symbol :: (rs ++ [.closing]), fun rest hrest => ?_,
    forms_tight hsign hlforms hlp hrforms hrp⟩
  have htext : (Term.binary (.tight symbol) l (.group r)).text.toList =
      l.text.toList ++ (symbol.toList ++ '(' :: (r.text.toList ++ [')'])) := by
    simp [Term.text, Operator.text, Operator.tight]
  have hright := spells_opened (tokens_applied_symbol hne hsymbol) hrs rest hrest
  rw [htext, List.append_assoc, hls, hright]
  · simp
  · rw [List.append_assoc]
    exact hbreaks _

end Term.Reads

/-! ## Clauses -/

theorem tokens_stop : tokens ['.'] = [.stop] := by
  have hstop : tokens ['.'] = [.stop] ++ tokens [] := tokens_cons (t := some .stop) rfl
  rw [hstop, tokens, List.append_nil]

theorem Clause.readClause?_rule {head body : Term} {ht bt : Tree} {hp bp : Nat}
    (hhead : head.Reads ht hp) (hhp : hp ≤ 1199) (hbody : body.Reads bt bp) (hbp : bp ≤ 1199) :
    readClause? (rule head body).text = some (.binary .neck ht bt) := by
  have hneck : (Operator.spaced ":-").Separates (.symbol ":-") :=
    Operator.separates_spaced (by decide) (by decide) (by decide)
  obtain ⟨ts, hspells, hforms⟩ := Term.Reads.binary hneck (.symbol rfl) hhead hhp hbody hbp
  have htext : (rule head body).text.toList =
      (Term.binary (.spaced ":-") head body).text.toList ++ ['.'] := by
    simp [Clause.text, rule, Term.text, Operator.text, Operator.spaced]
  have hstop : Breaks ['.'] := Or.inr ⟨rfl, rfl⟩
  have htokens : tokens (rule head body).text.toList = ts ++ [.stop] := by
    rw [htext, hspells _ hstop, tokens_stop]
  rw [readClause?, htokens, if_pos List.getLast?_concat, List.dropLast_concat]
  exact readTerm?_of_forms hforms (Nat.le_refl _)

end GoalModel.Golog
