import GoalModel.Golog.Naming
import GoalModel.Golog.Term

/-! # Reading clauses

What a program says is read off its terms, but only where the written text means the same: a
connective is read if its arguments bind at least as closely as the grammar of operators asks
for (`Term.Joins`). `Derives` is the least set of goals that the clauses prove over the fluents
of a world, and `Term.Holds` reads a guard, where a negation succeeds if its goal is not proved.
Names stand for themselves.

`derives_chain_disjunction` and `holds_chain_listing` read the chains that the translation
writes. -/

namespace GoalModel.Golog

/-! ## Operators -/

/-- How loosely an operator binds. Only the connectives are told apart. -/
def Operator.priority (op : Operator) : Nat :=
  if op.symbol = ";" then 1100
  else if op.symbol = "," then 1000
  else if op.symbol = "\\+" then 900
  else 700

namespace Term

def priority : Term → Nat
  | .unary op _ => op.priority
  | .binary op _ _ => op.priority
  | _ => 0

/-- Written on both sides of an operator that associates to the right, two terms are read as its
arguments. -/
def Joins (op : Operator) (left right : Term) : Prop :=
  left.priority < op.priority ∧ right.priority ≤ op.priority

instance (op : Operator) (left right : Term) : Decidable (Joins op left right) :=
  inferInstanceAs (Decidable (_ ∧ _))

end Term

/-! ## Chains -/

section
variable {P : Term → Prop} {op : Operator} {empty : Term} {terms : List Term}

theorem Term.priority_chain (hempty : empty.priority = 0)
    (hterms : ∀ t ∈ terms, t.priority < op.priority) :
    (chain op empty terms).priority ≤ op.priority := by
  match terms with
  | [] => exact hempty ▸ Nat.zero_le _
  | [t] => exact Nat.le_of_lt (hterms t List.mem_cons_self)
  | _ :: _ :: _ => exact Nat.le_refl _

theorem Term.priority_groupedConjunction (hterms : ∀ t ∈ terms, t.priority = 0) :
    (groupedConjunction terms).priority = 0 := by
  match terms with
  | [] => rfl
  | [t] => exact hterms t List.mem_cons_self
  | _ :: _ :: _ => rfl

theorem Term.chain_cons_cons (t t' : Term) (rest : List Term) :
    chain op empty (t :: t' :: rest) = .binary op t (chain op empty (t' :: rest)) := rfl

/-- A chain is written with its operator between the links. -/
theorem Term.text_chain (hne : terms ≠ []) :
    (chain op empty terms).text = String.intercalate op.text (terms.map Term.text) := by
  induction terms with
  | nil => exact absurd rfl hne
  | cons t rest ih =>
    cases rest with
    | nil => rfl
    | cons t' rest =>
      rw [chain_cons_cons, text, ih (List.cons_ne_nil _ _)]
      exact String.intercalate_cons_cons.symm

/-- What distributes over a conjunction holds of a chain if it holds of every link. -/
theorem Term.forall_chain
    (hop : ∀ left right, Joins op left right → (P (.binary op left right) ↔ P left ∧ P right))
    (hne : terms ≠ []) (hempty : empty.priority = 0)
    (hterms : ∀ t ∈ terms, t.priority < op.priority) :
    P (chain op empty terms) ↔ ∀ t ∈ terms, P t := by
  induction terms with
  | nil => exact absurd rfl hne
  | cons t rest ih =>
    obtain ⟨ht, hrest⟩ := List.forall_mem_cons.mp hterms
    cases rest with
    | nil => simp [chain]
    | cons t' rest =>
      rw [chain_cons_cons, hop _ _ ⟨ht, priority_chain hempty hrest⟩,
        ih (List.cons_ne_nil _ _) hrest]
      exact List.forall_mem_cons.symm

/-- The parts of a chain are its links, if the operator puts parts together and no link has other
parts than itself. -/
theorem Term.parts_chain {parts : Term → List Term}
    (hop : ∀ left right, Joins op left right →
      parts (.binary op left right) = parts left ++ parts right)
    (hne : terms ≠ []) (hempty : empty.priority = 0)
    (hterms : ∀ t ∈ terms, t.priority < op.priority) (hparts : ∀ t ∈ terms, parts t = [t]) :
    parts (chain op empty terms) = terms := by
  induction terms with
  | nil => exact absurd rfl hne
  | cons t rest ih =>
    obtain ⟨ht, hrest⟩ := List.forall_mem_cons.mp hterms
    obtain ⟨hpart, hparts⟩ := List.forall_mem_cons.mp hparts
    cases rest with
    | nil => exact hpart
    | cons t' rest =>
      rw [chain_cons_cons, hop _ _ ⟨ht, priority_chain hempty hrest⟩, hpart,
        ih (List.cons_ne_nil _ _) hrest hparts]
      rfl

/-- What distributes over a disjunction holds of a chain if it holds of some link. -/
theorem Term.exists_chain
    (hop : ∀ left right, Joins op left right → (P (.binary op left right) ↔ P left ∨ P right))
    (hnone : ¬P empty) (hempty : empty.priority = 0)
    (hterms : ∀ t ∈ terms, t.priority < op.priority) :
    P (chain op empty terms) ↔ ∃ t ∈ terms, P t := by
  induction terms with
  | nil => simp [chain, hnone]
  | cons t rest ih =>
    obtain ⟨ht, hrest⟩ := List.forall_mem_cons.mp hterms
    cases rest with
    | nil => simp [chain]
    | cons t' rest =>
      rw [chain_cons_cons, hop _ _ ⟨ht, priority_chain hempty hrest⟩, ih hrest]
      simp only [List.mem_cons, or_and_right, exists_or, exists_eq_left]

end

/-! ## What clauses prove -/

/-- Which predicates hold in which situation. -/
abbrev World := Situation → Handle → Prop

section
variable (m : Model) (clauses : List Clause) (world : World)

/-- What the clauses prove over the fluents of a world. -/
inductive Derives : Term → Prop
  | word {text : String} : text = "true" → Derives (.word text)
  | fluent {p : Handle} {situation : Situation} : p ∈ m.predicates → world situation p →
    Derives (.compound (ended (m.nameOf p) .fluent) .tight [.word situation.text])
  | clause {functor : String} {gap : Gap} {arguments : List Term} {body : Term} :
    .rule (.compound functor gap arguments) body ∈ clauses → Derives body →
    Derives (.compound functor gap arguments)
  | both {op : Operator} {left right : Term} : op.symbol = "," → Term.Joins op left right →
    Derives left → Derives right → Derives (.binary op left right)
  | first {op : Operator} {left right : Term} : op.symbol = ";" → Term.Joins op left right →
    Derives left → Derives (.binary op left right)
  | second {op : Operator} {left right : Term} : op.symbol = ";" → Term.Joins op left right →
    Derives right → Derives (.binary op left right)
  | group {inner : Term} : Derives inner → Derives (.group inner)

end

/-- Whether a guard succeeds where some goals can be proved. -/
def Term.Holds (proved : Term → Prop) : Term → Prop
  | .unary op operand =>
    op.symbol = "\\+" ∧ operand.priority ≤ op.priority ∧ ¬operand.Holds proved
  | .binary op left right =>
    Joins op left right ∧
      (op.symbol = "," ∧ left.Holds proved ∧ right.Holds proved ∨
        op.symbol = ";" ∧ (left.Holds proved ∨ right.Holds proved))
  | .group inner => inner.Holds proved
  | term => proved term

section
variable {m : Model} {clauses : List Clause} {world : World}

theorem not_derives_fail : ¬Derives m clauses world (.word "fail") := by
  intro h
  cases h with
  | word htext => exact absurd htext (by decide)

/-- A goal is a fluent that holds, or the head of a clause whose body is proved. -/
theorem derives_compound {functor : String} {gap : Gap} {arguments : List Term} :
    Derives m clauses world (.compound functor gap arguments) ↔
      (∃ p ∈ m.predicates, ∃ situation : Situation, world situation p ∧
        functor = ended (m.nameOf p) .fluent ∧ gap = .tight ∧
          arguments = [.word situation.text]) ∨
      ∃ body, .rule (.compound functor gap arguments) body ∈ clauses ∧
        Derives m clauses world body := by
  constructor
  · intro h
    cases h with
    | fluent hp hworld => exact .inl ⟨_, hp, _, hworld, rfl, rfl, rfl⟩
    | clause hmem hbody => exact .inr ⟨_, hmem, hbody⟩
  · rintro (⟨p, hp, situation, hworld, rfl, rfl, rfl⟩ | ⟨body, hmem, hbody⟩)
    · exact .fluent hp hworld
    · exact .clause hmem hbody

theorem derives_disjunction {left right : Term} (hjoins : Term.Joins .disjunction left right) :
    Derives m clauses world (.binary .disjunction left right) ↔
      Derives m clauses world left ∨ Derives m clauses world right := by
  constructor
  · intro h
    cases h with
    | both hsymbol => exact absurd hsymbol (by decide)
    | first _ _ h => exact .inl h
    | second _ _ h => exact .inr h
  · rintro (h | h)
    · exact .first rfl hjoins h
    · exact .second rfl hjoins h

theorem derives_conjunction {left right : Term} (hjoins : Term.Joins .conjunction left right) :
    Derives m clauses world (.binary .conjunction left right) ↔
      Derives m clauses world left ∧ Derives m clauses world right := by
  constructor
  · intro h
    cases h with
    | both _ _ hl hr => exact ⟨hl, hr⟩
    | first hsymbol => exact absurd hsymbol (by decide)
    | second hsymbol => exact absurd hsymbol (by decide)
  · rintro ⟨hl, hr⟩
    exact .both rfl hjoins hl hr

theorem derives_group {inner : Term} :
    Derives m clauses world (.group inner) ↔ Derives m clauses world inner := by
  refine ⟨fun h => ?_, .group⟩
  cases h
  assumption

theorem derives_chain_disjunction {terms : List Term} (hterms : ∀ t ∈ terms, t.priority < 1100) :
    Derives m clauses world (.chain .disjunction (.word "fail") terms) ↔
      ∃ t ∈ terms, Derives m clauses world t :=
  Term.exists_chain (fun _ _ => derives_disjunction) not_derives_fail rfl hterms

theorem derives_groupedConjunction {terms : List Term}
    (hterms : ∀ t ∈ terms, t.priority < 1000) :
    Derives m clauses world (.groupedConjunction terms) ↔
      ∀ t ∈ terms, Derives m clauses world t := by
  match terms with
  | [] => simpa [Term.groupedConjunction] using Derives.word rfl
  | [t] => simp [Term.groupedConjunction]
  | t :: t' :: rest =>
    refine derives_group.trans ?_
    exact Term.forall_chain (fun _ _ => derives_conjunction) (List.cons_ne_nil _ _) rfl hterms

/-! ## Guards -/

theorem holds_listing {proved : Term → Prop} {left right : Term}
    (hjoins : Term.Joins .listing left right) :
    (Term.binary .listing left right).Holds proved ↔ left.Holds proved ∧ right.Holds proved := by
  have hsymbol : Operator.listing.symbol ≠ ";" := by decide
  simp only [Term.Holds, hjoins, hsymbol, false_and, or_false, true_and]
  exact and_iff_right rfl

theorem holds_chain_listing {proved : Term → Prop} {terms : List Term} (hne : terms ≠ [])
    (hterms : ∀ t ∈ terms, t.priority < 1000) :
    (Term.chain .listing (.word "true") terms).Holds proved ↔ ∀ t ∈ terms, t.Holds proved :=
  Term.forall_chain (fun _ _ => holds_listing) hne rfl hterms

end

end GoalModel.Golog
