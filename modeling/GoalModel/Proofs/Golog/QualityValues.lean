import GoalModel.Golog.Quality
import GoalModel.Proofs.Golog.Amounts
import GoalModel.Proofs.Loading
import Mathlib.Algebra.Order.Ring.Rat

/-! # Qualities compute their formulas

The general clause of a quality binds what its formula needs and evaluates it, in exact
arithmetic to the value of the formula; a quality that accumulates adds this to its value at the
start (`Document.qualityClauses_compute`).

The sum for a quality that accumulates has no parentheses around its second summand. If the
formula is itself a sum or a difference, the text is therefore read as if the first two summands
stood in parentheses (`RendersQuantity.exists_reads_added`), which makes no difference to the
value as long as nothing is rounded. -/

namespace GoalModel

/-- The value of a finite number. -/
def Number.rational? : Number → Option Rat
  | .nan => none
  | .ranked negative rank =>
    if rank.val < infinityRank then
      let magnitude : Rat := units rank.val / unitsOfOne
      some (if negative then -magnitude else magnitude)
    else none

namespace Golog

open Prolog

/-- Arithmetic without rounding. Numbers that are not finite may have any value. -/
def Arithmetic.exact (special : Number → Rat) : Arithmetic Rat where
  literal
    | .integer value => some value
    | .float x => some (x.rational?.getD (special x))
  negate x := some (-x)
  operate op x y :=
    match op with
    | .plus => some (x + y)
    | .minus => some (x - y)
    | .multiply => some (x * y)
    | .divide => if y = 0 then none else some (x / y)
    | _ => none
  compare op x y :=
    match op with
    | .gt => some (decide (y < x))
    | .gte => some (decide (y ≤ x))
    | .lt => some (decide (x < y))
    | .lte => some (decide (x ≤ y))
    | .eq => some (decide (x = y))
    | .neq => some (decide (x ≠ y))
    | _ => none

theorem Arithmetic.exact_regular (special : Number → Rat) : (exact special).Regular (· = 0) where
  literal numeral := by cases numeral <;> rfl
  negate _ := rfl
  operate op x y hop hy := by
    cases op with
    | plus | minus | multiply => rfl
    | divide =>
      have hy : y ≠ 0 := hy rfl
      simp [exact, hy]
    | _ => cases hop

variable {m : Model}

/-! ## One more summand -/

theorem Term.Reads.of_text {t t' : Term} {tree : Tree} {p : Nat} (h : t'.Reads tree p)
    (htext : t.text = t'.text) : t.Reads tree p := by
  obtain ⟨ts, hspells, hforms⟩ := h
  exact ⟨ts, htext ▸ hspells, hforms⟩

theorem separates_plus : (Operator.spaced "+").Separates (.symbol "+") :=
  Operator.separates_spaced (by decide) (by decide) (by decide)

/-- Without rounding it makes no difference which of two sums is formed first. -/
theorem operate_plus_assoc (special : Number → Rat) {op : BinaryOperator}
    (hop : (BinarySign.operator op).level.own = 500) (v : Rat) (a? b? : Option Rat) :
    ((a?.bind fun a => (Arithmetic.exact special).operate .plus v a).bind fun first =>
        b?.bind fun b => (Arithmetic.exact special).operate op first b) =
      (a?.bind fun a => b?.bind fun b =>
        (Arithmetic.exact special).operate op a b).map (v + ·) := by
  have hsum : op = .plus ∨ op = .minus := by
    cases op <;> simp_all [BinarySign.level]
  cases a? with
  | none => rfl
  | some a =>
    cases b? with
    | none => rfl
    | some b =>
      rcases hsum with rfl | rfl
      · exact congrArg some (add_assoc v a b)
      · exact congrArg some (add_sub_assoc v a b)

/-- What is written behind a summand is added to it. -/
theorem RendersQuantity.exists_reads_added (hn : m.Named) {f : Formula Handle} {q : Quantity}
    (hq : RendersQuantity m f q) {x : String} (hx : (Term.word x).Reads (.word x) 0) :
    ∃ tree, (Term.binary (.spaced "+") (.word x) q.expression).Reads tree 500 ∧
      ∀ (special : Number → Rat) (I : Interpretation Rat) (env : Env Rat) (v : Rat),
        I.toArithmetic = .exact special → env.Binds m I f.leaves → env x = some v →
          evaluate I env tree = (f.amount? I).map (v + ·) := by
  by_cases hsum : expressionPriority f ≤ 400
  · obtain ⟨tree, p, hreads, hp, heval⟩ := hq.exists_reads hn
    have hp : p ≤ 499 := (hp.trans hsum).trans (by decide)
    refine ⟨_, .binary separates_plus (.symbol rfl) hx (Nat.zero_le _) hreads hp,
      fun special I env v hI henv hv => ?_⟩
    rw [evaluate, evaluate, hv, heval I env henv, hI]
    cases f.amount? I <;> rfl
  · cases hq with
    | @arithmetic op symbol left right l r hop hl hr =>
      obtain ⟨lt, lp, hlreads, hlp, hleval⟩ := hl.exists_reads hn
      obtain ⟨rt, rp, hrreads, hrp, hreval⟩ := hr.exists_reads hn
      obtain ⟨hsymbol, hbreaks⟩ := isSymbol_of_arithmetic hop
      have hlp : lp ≤ 500 := hlp.trans (expressionPriority_le _)
      have hrp : rp ≤ 500 := hrp.trans (expressionPriority_le _)
      have hlevel : (BinarySign.operator op).level = ⟨500, 500, 499⟩ := by
        cases op <;> first | rfl | exact absurd (Nat.le_refl _) hsum
      -- As it is read, the sum of the first two summands is the left operand.
      have hfirst := Term.Reads.binary separates_plus (.symbol rfl) hx (Nat.zero_le _)
        (hlreads.group (hlp.trans (by decide))) (Nat.zero_le _)
      have hreads := Term.Reads.tight hsymbol.nonempty hsymbol.symbolic hbreaks hsymbol.sign
        hfirst (by rw [hlevel]; decide) hrreads (hrp.trans (by decide))
      rw [hlevel] at hreads
      refine ⟨_, hreads.of_text ?_, fun special I env v hI henv hv => ?_⟩
      · simp only [Term.text, String.append_assoc]
      · obtain ⟨hleft, hright⟩ := henv.of_arithmetic hop
        have hassoc := operate_plus_assoc special (congrArg Level.own hlevel) v
          (left.amount? I) (right.amount? I)
        rw [← hI] at hassoc
        rw [evaluate, evaluate, evaluate, hv, hleval I env hleft, hreval I env hright,
          Formula.amount?]
        exact hassoc
    | _ => exact absurd (Nat.le_refl _) hsum

/-! ## General clauses -/

theorem reads_valueGoal {name : String} (hname : Identifier.isValid name) :
    (valueGoal name .current).Reads (.compound name [.word "V", .word "S"]) 0 := by
  have hvariable : (Term.word "V").Reads (.word "V") 0 :=
    .word (by decide) (by decide) (by decide)
  exact reads_valueCall hname hvariable .current

/-- A general clause answers once, with what its expression evaluates to after the bindings. -/
theorem evaluationClause_computes (hn : m.Named) {name : String}
    (hname : Identifier.isValid name) {quantity : Quantity} {tree : Tree} {p : Nat}
    (hbindings : ∀ b ∈ quantity.bindings, ∃ leaf, leafBinding? m leaf = some b)
    (hreads : quantity.expression.Reads tree p) (hp : p ≤ 699) :
    ∃ body, readClause? (evaluationClause name quantity).text =
        some (.binary .neck (.compound name [.word "V", .word "S"]) body) ∧
      ∀ {α : Type} [DecidableEq α] (I : Interpretation α) (x : α),
        (∀ env : Env α, env.Satisfies m I quantity.bindings → evaluate I env tree = some x) →
        ∃ env, answers m I body .empty = some [env] ∧ env "V" = some x := by
  have hvariable : (Term.word "V").Reads (.word "V") 0 :=
    .word (by decide) (by decide) (by decide)
  have hevaluation := Term.Reads.binary Operator.separates_is (.word rfl) hvariable
    (Nat.zero_le _) hreads hp
  obtain ⟨p', hp', hbody⟩ := reads_bindings hn hbindings (.word "true") hevaluation
    (by decide)
  refine ⟨_, Clause.readClause?_rule (reads_valueGoal hname) (Nat.zero_le _) hbody
    (hp'.trans (by decide)), fun I x heval => ?_⟩
  obtain ⟨env, _, hgrows, hbound, hanswers⟩ :=
    answers_joined hn I hbindings (Env.faithful_empty m I)
  have hfree : env "V" = none := hgrows.others "V" (by decide)
  refine ⟨env.bind "V" x, ?_, if_pos rfl⟩
  rw [hanswers, answers, heval env hbound]
  simp [Env.unify, hfree]

/-- The expression of a general clause, with or without the value at the start. -/
theorem RendersQuantity.exists_reads_accumulated (hn : m.Named) {f : Formula Handle}
    {quantity whole : Quantity} (hrenders : RendersQuantity m f quantity) {q : Handle}
    (hrole : m.role? q = some .quality) (accumulating : Bool)
    (hwhole : whole = if accumulating then quantity.accumulated (m.nameOf q) else quantity) :
    (∀ b ∈ whole.bindings, ∃ leaf, leafBinding? m leaf = some b) ∧
      ∃ tree p, whole.expression.Reads tree p ∧ p ≤ 500 ∧
        ∀ (special : Number → Rat) (I : Interpretation Rat) (env : Env Rat) (x : Rat),
          I.toArithmetic = .exact special → env.Satisfies m I whole.bindings →
            f.amount? I = some x →
              evaluate I env tree = some (if accumulating then I.value q .initial + x else x) := by
  have hleaf : ∀ b ∈ quantity.bindings, ∃ leaf, leafBinding? m leaf = some b := fun b hb =>
    let ⟨leaf, _, hleaf⟩ := hrenders.mem_bindings_iff.mp hb
    ⟨leaf, hleaf⟩
  cases accumulating with
  | false =>
    subst hwhole
    obtain ⟨tree, p, hreads, hp, heval⟩ := hrenders.exists_reads hn
    refine ⟨hleaf, tree, p, hreads, hp.trans (expressionPriority_le _),
      fun special I env x _ henv hx => ?_⟩
    exact (heval I env (hrenders.binds (fun _ hb => hb) henv)).trans hx
  | true =>
    have hown := leafBinding?_of_quality hrole .initial
    have hvariable : (Quantity.ofBinding _).expression.Reads (.word _) 0 :=
      boundVariable_eq hown ▸ reads_ofBinding hn hown
    obtain ⟨tree, hreads, heval⟩ := hrenders.exists_reads_added hn hvariable
    subst hwhole
    refine ⟨fun b hb => ?_, tree, 500, hreads, Nat.le_refl _,
      fun special I env x hI henv hx => ?_⟩
    · rcases Binding.mem_merge.mp hb with hb | hb
      · exact hleaf b hb
      · exact ⟨_, List.mem_singleton.mp hb ▸ hown⟩
    · have hstart := henv _ _ (Binding.mem_merge.mpr (.inr (List.mem_singleton_self _))) hown
      have hbinds := hrenders.binds (fun _ hb => Binding.mem_merge.mpr (.inl hb)) henv
      rw [heval special I env _ hI hbinds hstart, hx]
      rfl

/-- The general clause of a quality is the last one, and it evaluates the formula as it is. -/
theorem exists_general_of_silent {q : Handle} {data : Quality}
    (hq : m.quality? q = some data) {sink : Diagnostics} {clauses : List Clause}
    (hsilent : (qualityClauses m q).run sink = (clauses, sink)) :
    ∃ quantity, RendersQuantity m data.formula quantity ∧
      clauses.getLast? = some (evaluationClause (m.nameOf q)
        (if accumulates m q then quantity.accumulated (m.nameOf q) else quantity)) := by
  obtain ⟨hclauses, hsink⟩ := Prod.mk.inj ((run_qualityClauses hq sink).symm.trans hsilent)
  have hrenders := (renderQuantity_ensures m _).of_silent (Prod.ext rfl hsink)
  exact ⟨_, hrenders, hclauses ▸ List.getLast?_concat⟩

end Golog

open Golog Prolog

namespace Document

/-- The general clause of a quality whose formula nothing is reported about computes the
formula, and adds the value at the start for a cross-run quality that does not mention its own
previous value. -/
theorem qualityClauses_compute {document : Document} {m : Model}
    (hlink : document.link = .ok m) {q : Handle} {data : Quality} (hq : m.quality? q = some data)
    {sink : Diagnostics} {clauses : List Clause}
    (hsilent : (qualityClauses m q).run sink = (clauses, sink)) :
    ∃ general body, clauses.getLast? = some general ∧
      readClause? general.text =
        some (.binary .neck (.compound (m.nameOf q) [.word "V", .word "S"]) body) ∧
      ∀ (special : Number → Rat) (I : Interpretation Rat), I.toArithmetic = .exact special →
        (∀ d ∈ data.formula.divisors, d.amount? I ≠ some 0) →
          ∃ x env, data.formula.amount? I = some x ∧ answers m I body .empty = some [env] ∧
            env "V" = some (if m.isCrossRun q && !data.formula.referencesPrevious q
              then I.value q .initial + x else x) := by
  have hn := named_of_link hlink
  have hrole := Model.role?_of_quality? hq
  obtain ⟨quantity, hrenders, hgeneral⟩ := exists_general_of_silent hq hsilent
  have hsum : accumulates m q = (m.isCrossRun q && !data.formula.referencesPrevious q) := by
    rw [accumulates, hq, Option.any_some]
  rw [← hsum]
  obtain ⟨hleaves, tree, p, hreads, hp, heval⟩ :=
    hrenders.exists_reads_accumulated hn hrole (accumulates m q) rfl
  obtain ⟨body, hread, hanswers⟩ := evaluationClause_computes hn
    (isValid_nameOf hn (m.index_lt_of_role? hrole)) hleaves hreads (hp.trans (by decide))
  refine ⟨_, body, hgeneral, hread, fun special I hI hdivisors => ?_⟩
  obtain ⟨x, hx⟩ := hrenders.exists_amount? (hI ▸ Arithmetic.exact_regular special)
    fun d hd y hy hzero => hdivisors d hd (hy.trans (congrArg some hzero))
  obtain ⟨env, hrun, hv⟩ := hanswers I _ fun env henv => heval special I env x hI henv hx
  exact ⟨x, env, hx, hrun, hv⟩

/-- A robot that wears out a little on each way. -/
def trip : Document where
  name := "Trip"
  actors := [{
    name := "Robot"
    predicates := []
    stateVariables := ["Way", "Speed"]
    goals := [⟨"Go", [], []⟩]
    tasks := []
    qualities := [⟨"Wear", false,
      .binary .minus (.binary .divide (.atom "Way") (.atom "Speed")) (.bool true)⟩]
    conditions := [] }]
  crossRun := ["Wear"]
  exported := []
  initializations := []

/-- A way of `6` at speed `2`, after a wear of `10`. -/
def tripInterpretation : Interpretation Rat where
  toArithmetic := .exact fun _ => 0
  holds _ _ := false
  value h _ := if h = ⟨0⟩ then 6 else if h = ⟨1⟩ then 2 else 10

theorem trip_computes : trip.link = .ok trip.linked ∧
    ∃ clauses general body env, (qualityClauses trip.linked ⟨3⟩).run .empty = (clauses, .empty) ∧
      clauses.getLast? = some general ∧ readClause? general.text =
        some (.binary .neck (.compound "Wear" [.word "V", .word "S"]) body) ∧
      answers trip.linked tripInterpretation body .empty = some [env] ∧ env "V" = some 12 := by
  have hlink : trip.link = .ok trip.linked := rfl
  have hquality : trip.linked.quality? ⟨3⟩ = some _ := rfl
  have hsilent : (qualityClauses trip.linked ⟨3⟩).run .empty = (_, .empty) := rfl
  have hamount : (Formula.binary .minus (.binary .divide (.atom ⟨0⟩) (.atom ⟨1⟩))
      (.bool true)).amount? tripInterpretation = some 2 := by
    simp [Formula.amount?, tripInterpretation, Arithmetic.exact]
    norm_num
  obtain ⟨general, body, hlast, hread, hcompute⟩ :=
    qualityClauses_compute hlink hquality hsilent
  obtain ⟨x, env, hx, hanswers, hv⟩ := hcompute (fun _ => 0) tripInterpretation rfl (by
    intro d hd
    obtain rfl := List.mem_singleton.mp hd
    exact fun h => absurd (Option.some.inj h) (by decide))
  obtain rfl : x = 2 := Option.some.inj (hx.symm.trans hamount)
  have hsum : tripInterpretation.value ⟨3⟩ .initial + 2 = 12 := by
    simp [tripInterpretation]
    norm_num
  exact ⟨hlink, _, general, body, env, hsilent, hlast, hread, hanswers,
    hv.trans (congrArg some ((if_pos (by decide)).trans hsum))⟩

end Document

end GoalModel
