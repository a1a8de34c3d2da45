import GoalModel.Proofs.Golog.Answers
import GoalModel.Proofs.Golog.Names
import GoalModel.Proofs.Golog.Reads
import GoalModel.Proofs.Golog.Rendering

/-! # Values are bound before they are used

A binding is read as a goal for the value of its element, and it succeeds once whatever has been
bound before it, as long as the variables for values have the right ones (`Env.Faithful`); this
is what the names of the variables are for. So a row of bindings leaves one answer
(`answers_joined`), and in that answer the expression of a quantity has the value of its formula
(`RendersQuantity.exists_reads`). -/

namespace GoalModel.Golog

open Prolog Identifier

variable {α : Type} {m : Model}

/-! ## Bindings as they are read -/

theorem applied_of_isValid {name : String} (h : isValid name) (args : List Tree) :
    Tree.applied name args = .compound name args := by
  have hsign : UnarySign.ofText? name = none := by
    unfold UnarySign.ofText?
    split
    · exact absurd h (by decide)
    · exact absurd h (by decide)
    · rfl
  simp only [Tree.applied, hsign]

/-- A binding as it is read. -/
def Binding.tree (b : Binding) : Tree :=
  match b.reading with
  | .state => .compound "val" [.compound b.state [.word b.situation.text], .word b.boundVariable]
  | .value => .compound b.state [.word b.boundVariable, .word b.situation.text]

/-- The binding of a leaf is about its state name and its situation. -/
theorem eq_of_leafBinding? {leaf : Handle × Situation} {b : Binding}
    (hb : leafBinding? m leaf = some b) :
    leaf.1.index < m.elements.length ∧ b.state = stateName m leaf.1 ∧ b.situation = leaf.2 := by
  obtain ⟨reading, hreading, rfl⟩ := Option.map_eq_some_iff.mp hb
  obtain ⟨role, hrole, _⟩ := Option.bind_eq_some_iff.mp hreading
  exact ⟨m.index_lt_of_role? hrole, rfl, rfl⟩

theorem boundVariable_eq {leaf : Handle × Situation} {b : Binding}
    (hb : leafBinding? m leaf = some b) :
    b.boundVariable = bindingVariable (stateName m leaf.1) leaf.2 := by
  obtain ⟨_, hstate, hsituation⟩ := eq_of_leafBinding? hb
  rw [Binding.boundVariable, hstate, hsituation]

theorem reads_situation (s : Situation) : (Term.word s.text).Reads (.word s.text) 0 := by
  cases s <;> exact .word (by decide) (by decide) (by decide)

theorem reads_holdsIn {name : String} (h : isValid name) (s : Situation) :
    (holdsIn name s).Reads (.compound name [.word s.text]) 0 := by
  have happlied := Term.Reads.applied .tight h (List.cons_ne_nil _ _)
    (.cons ⟨0, Nat.zero_le _, reads_situation s⟩ .nil)
  rwa [applied_of_isValid h] at happlied

theorem reads_valueCall {name x : String} (hname : isValid name)
    (hx : (Term.word x).Reads (.word x) 0) (s : Situation) :
    (Term.call name [.word x, .word s.text]).Reads
      (.compound name [.word x, .word s.text]) 0 := by
  have happlied := Term.Reads.applied .spaced hname (List.cons_ne_nil _ _)
    (.cons ⟨0, Nat.zero_le _, hx⟩ (.cons ⟨0, Nat.zero_le _, reads_situation s⟩ .nil))
  rwa [applied_of_isValid hname] at happlied

section
variable (hn : m.Named)
include hn

theorem reads_boundVariable {h : Handle} (hh : h.index < m.elements.length) (s : Situation) :
    (Term.word (bindingVariable (stateName m h) s)).Reads
      (.word (bindingVariable (stateName m h) s)) 0 :=
  .word (isValid_bindingVariable hn hh s) (bindingVariable_ne s (by decide))
    (bindingVariable_ne s (by decide))

theorem Binding.reads {leaf : Handle × Situation} {b : Binding}
    (hb : leafBinding? m leaf = some b) : b.goal.Reads b.tree 0 := by
  obtain ⟨hlt, hstate, hsituation⟩ := eq_of_leafBinding? hb
  obtain ⟨reading, state, situation⟩ := b
  simp only at hstate hsituation
  subst hstate hsituation
  have hname := isValid_stateName hn hlt
  have hvariable := reads_boundVariable hn hlt leaf.2
  cases reading with
  | state =>
    have hval : isValid "val" := by decide
    have happlied := Term.Reads.applied .spaced hval (List.cons_ne_nil _ _)
      (.cons ⟨0, Nat.zero_le _, reads_holdsIn hname leaf.2⟩
        (.cons ⟨0, Nat.zero_le _, hvariable⟩ .nil))
    rwa [applied_of_isValid hval] at happlied
  | value =>
    exact reads_valueCall hname hvariable leaf.2

/-! ## What a binding answers -/

theorem elementOf?_stateName {h : Handle} (hh : h.index < m.elements.length) :
    elementOf? m (stateName m h) = some h := by
  have hmem : h ∈ (List.range m.elements.length).map Handle.mk :=
    List.mem_map.mpr ⟨h.index, List.mem_range.mpr hh, rfl⟩
  cases hfind : elementOf? m (stateName m h) with
  | none =>
    have hnone := List.find?_eq_none.mp hfind h hmem
    simp at hnone
  | some g =>
    have hfound := List.find?_some hfind
    have hname : stateName m g = stateName m h := by simpa using hfound
    obtain ⟨i, hi, rfl⟩ := List.mem_map.mp (List.mem_of_find?_eq_some hfind)
    rw [stateName_inj hn (List.mem_range.mp hi) hh hname]

/-- A binding is that of one leaf only. -/
theorem leaf_unique {leaf leaf' : Handle × Situation} {b : Binding}
    (hb : leafBinding? m leaf = some b) (hb' : leafBinding? m leaf' = some b) : leaf = leaf' := by
  obtain ⟨hlt, hstate, hsituation⟩ := eq_of_leafBinding? hb
  obtain ⟨hlt', hstate', hsituation'⟩ := eq_of_leafBinding? hb'
  exact Prod.ext (stateName_inj hn hlt hlt' (hstate.symm.trans hstate'))
    (hsituation.symm.trans hsituation')

end

theorem ofText?_text (s : Situation) : Situation.ofText? s.text = some s := by
  cases s <;> rfl

theorem answers_tree [DecidableEq α] (hn : m.Named) (I : Interpretation α)
    {leaf : Handle × Situation} {b : Binding} (hb : leafBinding? m leaf = some b) (env : Env α) :
    answers m I b.tree env = some (env.unify b.boundVariable (I.value leaf.1 leaf.2)) := by
  obtain ⟨hlt, hstate, hsituation⟩ := eq_of_leafBinding? hb
  obtain ⟨reading, state, situation⟩ := b
  simp only at hstate hsituation
  subst hstate hsituation
  have hvalue (x : String) : answersValue m I (stateName m leaf.1) x leaf.2.text env =
      some (env.unify x (I.value leaf.1 leaf.2)) := by
    simp [answersValue, elementOf?_stateName hn hlt, ofText?_text]
  cases reading with
  | state => simp [Binding.tree, answers, answersCall, hvalue]
  | value => simp [Binding.tree, answers, answersCall, hvalue]

/-! ## Rows of bindings -/

namespace Env

/-- The variables for values have the right ones, if they are bound at all. -/
def Faithful (m : Model) (I : Interpretation α) (env : Env α) : Prop :=
  ∀ (h : Handle) (s : Situation), h.index < m.elements.length →
    ∀ v, env (bindingVariable (stateName m h) s) = some v → v = I.value h s

/-- The variables of certain bindings have the values that these ask for. -/
def Satisfies (m : Model) (I : Interpretation α) (env : Env α) (bindings : List Binding) : Prop :=
  ∀ leaf, ∀ b ∈ bindings, leafBinding? m leaf = some b →
    env b.boundVariable = some (I.value leaf.1 leaf.2)

/-- What is bound stays bound, and only variables for values are bound newly. -/
structure Grows (env env' : Env α) : Prop where
  keeps : ∀ x v, env x = some v → env' x = some v
  others : ∀ x, ¬['R', '_'] <+: x.toList → env' x = env x

theorem Grows.refl (env : Env α) : env.Grows env := ⟨fun _ _ h => h, fun _ _ => rfl⟩

theorem Grows.trans {env env' env'' : Env α} (h : env.Grows env') (h' : env'.Grows env'') :
    env.Grows env'' :=
  ⟨fun x v hx => h'.keeps x v (h.keeps x v hx),
    fun x hx => (h'.others x hx).trans (h.others x hx)⟩

theorem faithful_empty (m : Model) (I : Interpretation α) : (empty : Env α).Faithful m I := by
  intro _ _ _ _ hv
  cases hv

/-- Asking for a value succeeds once, and leaves the variable with this value. -/
theorem Faithful.exists_unify [DecidableEq α] {I : Interpretation α} {env : Env α}
    (hn : m.Named) (henv : env.Faithful m I) {h : Handle} (hh : h.index < m.elements.length)
    (s : Situation) :
    ∃ env', env.unify (bindingVariable (stateName m h) s) (I.value h s) = [env'] ∧
      env'.Faithful m I ∧ env.Grows env' ∧
      env' (bindingVariable (stateName m h) s) = some (I.value h s) := by
  cases hbound : env (bindingVariable (stateName m h) s) with
  | some v =>
    have hv := henv h s hh v hbound
    subst hv
    exact ⟨env, by simp [unify, hbound], henv, .refl env, hbound⟩
  | none =>
    refine ⟨env.bind (bindingVariable (stateName m h) s) (I.value h s), by simp [unify, hbound],
      fun g s' hg v hv => ?_, ⟨fun x v hx => ?_, fun x hx => ?_⟩, if_pos rfl⟩
    · unfold bind at hv
      split at hv
      · next hname =>
        obtain ⟨rfl, rfl⟩ := bindingVariable_inj hn hg hh hname
        exact (Option.some.inj hv).symm
      · exact henv g s' hg v hv
    · have hne : x ≠ bindingVariable (stateName m h) s := by
        rintro rfl
        rw [hbound] at hx
        cases hx
      exact (if_neg hne).trans hx
    · exact if_neg (bindingVariable_ne s hx).symm

end Env

/-- Goals in a row, as they are read. -/
def joined : List Tree → Tree → Tree
  | [], last => last
  | tree :: trees, last => .binary (.operator .and) tree (joined trees last)

theorem answersAll_singleton (goal : Env α → Option (List (Env α))) (env : Env α) :
    answersAll goal [env] = goal env := by
  simp only [answersAll]
  cases goal env <;> simp

/-- A row of bindings leaves one answer, in which all of them hold. -/
theorem answers_joined [DecidableEq α] (hn : m.Named) (I : Interpretation α)
    {bindings : List Binding} (hbindings : ∀ b ∈ bindings, ∃ leaf, leafBinding? m leaf = some b)
    {env : Env α} (henv : env.Faithful m I) :
    ∃ env' : Env α, env'.Faithful m I ∧ env.Grows env' ∧ env'.Satisfies m I bindings ∧
      ∀ last, answers m I (joined (bindings.map (·.tree)) last) env = answers m I last env' := by
  -- Later bindings may ask for the same variable again: it has the right value, so they pass.
  induction bindings generalizing env with
  | nil =>
    refine ⟨env, henv, .refl env, fun _ _ hb => ?_, fun _ => rfl⟩
    cases hb
  | cons b rest ih =>
    obtain ⟨⟨leaf, hleaf⟩, hrest⟩ := List.forall_mem_cons.mp hbindings
    obtain ⟨hlt, _, _⟩ := eq_of_leafBinding? hleaf
    obtain ⟨env₁, hunify, henv₁, hgrows₁, hbound₁⟩ := henv.exists_unify hn hlt leaf.2
    obtain ⟨env₂, henv₂, hgrows₂, hbound₂, hanswers⟩ := ih hrest henv₁
    have hvariable := boundVariable_eq hleaf
    refine ⟨env₂, henv₂, hgrows₁.trans hgrows₂, fun leaf' b' hb' hleaf' => ?_, fun last => ?_⟩
    · rcases List.mem_cons.mp hb' with rfl | hb'
      · obtain rfl := leaf_unique hn hleaf hleaf'
        exact hvariable ▸ hgrows₂.keeps _ _ hbound₁
      · exact hbound₂ leaf' b' hb' hleaf'
    · rw [List.map_cons, joined, answers, answers_tree hn I hleaf, hvariable, hunify]
      exact (answersAll_singleton _ _).trans (hanswers last)

end GoalModel.Golog
