import GoalModel.Golog.Condition
import GoalModel.Golog.Quality

/-! # Renderings and their reports

A renderer returns a value and adds reports to the sink, both whatever the sink holds
(`Render.Yields`). What stands in a quantity is known for every formula: it binds the leaves of
the formula (`mem_bindings_renderQuantity`). A formula that nothing is reported about is
rendered part by part, without placeholders; `RendersQuantity` and `RendersCondition` are these
renderings, one constructor for each kind of formula (`renderQuantity_ensures`,
`renderCondition_ensures`). -/

namespace GoalModel

/-- The elements whose values are asked for where a formula stands for a number. -/
def Formula.leaves {α : Type} : Formula α → List (α × Golog.Situation)
  | .atom a => [(a, .current)]
  | .unary .previous (.atom a) => [(a, .initial)]
  | .unary .negate operand => operand.leaves
  | .binary op left right =>
    if op.arithmeticSymbol?.isSome then left.leaves ++ right.leaves else []
  | _ => []

theorem Formula.leaves_arithmetic {α : Type} {op : BinaryOperator} {symbol : String}
    (hop : op.arithmeticSymbol? = some symbol) (left right : Formula α) :
    (binary op left right).leaves = left.leaves ++ right.leaves := by
  rw [leaves, hop, Option.isSome_some, if_pos rfl]

namespace Golog

/-! ## What a renderer does to its sink -/

namespace Diagnostics

/-- Reports are added in the order in which they come, and about the same element. -/
theorem foldl_add (sink : Diagnostics) (ds : List Degradation) :
    ds.foldl (fun s d => s.add d.message) sink =
      { sink with entries := sink.entries ++ ds.map fun d => ⟨sink.context, d.message⟩ } := by
  induction ds generalizing sink with
  | nil => simp
  | cons d ds ih =>
    rw [List.foldl_cons, ih, List.map_cons]
    simp [add]

theorem entries_foldl_add (sink : Diagnostics) (ds : List Degradation) :
    (ds.foldl (fun s d => s.add d.message) sink).entries =
      sink.entries ++ ds.map fun d => ⟨sink.context, d.message⟩ := by
  rw [foldl_add]

end Diagnostics

/-- From every sink a rendering returns `a` and reports `ds`. -/
def Render.Yields {α : Type} (render : Render α) (a : α) (ds : List Degradation) : Prop :=
  ∀ sink, render.run sink = (a, ds.foldl (fun s d => s.add d.message) sink)

namespace Render.Yields

variable {α β : Type} {x : Render α} {f : α → Render β} {a : α} {b : β}
  {ds ds' : List Degradation}

theorem of_pure (a : α) : Yields (pure a : Render α) a [] := fun _ => rfl

theorem bind (hx : x.Yields a ds) (hf : (f a).Yields b ds') : (x >>= f).Yields b (ds ++ ds') := by
  intro sink
  have hrun : (x >>= f).run sink = (f (x.run sink).1).run (x.run sink).2 := rfl
  rw [hrun, hx sink, List.foldl_append]
  exact hf _

theorem report_pure (d : Degradation) (a : α) :
    Yields (do report d; return a) a [d] := fun _ => rfl

theorem map (g : α → β) (hx : x.Yields a ds) : Yields (do return g (← x)) (g a) ds := by
  have h := hx.bind (f := fun a => pure (g a)) (of_pure (g a))
  rwa [List.append_nil] at h

theorem map₂ {γ : Type} {y : Render β} (g : α → β → γ) (hx : x.Yields a ds)
    (hy : y.Yields b ds') : Yields (do return g (← x) (← y)) (g a b) (ds ++ ds') :=
  hx.bind (f := fun a => do return g a (← y)) (hy.map (g a))

theorem eq_fst (hx : x.Yields a ds) (sink : Diagnostics) : (x.run sink).1 = a := by
  rw [hx sink]

/-- A sink that is unchanged has received nothing. -/
theorem eq_nil {sink : Diagnostics} (hx : x.Yields a ds) (hsilent : (x.run sink).2 = sink) :
    ds = [] := by
  rw [hx sink] at hsilent
  have hentries := congrArg Diagnostics.entries hsilent
  rw [Diagnostics.entries_foldl_add] at hentries
  exact List.map_eq_nil_iff.mp (List.append_right_eq_self.mp hentries)

end Render.Yields

/-- Unless it reports something, a rendering returns something with a property. -/
def Render.Ensures {α : Type} (render : Render α) (P : α → Prop) : Prop :=
  ∃ a ds, render.Yields a ds ∧ (ds = [] → P a)

namespace Render.Ensures

variable {α β γ : Type} {x : Render α} {y : Render β} {P : α → Prop} {Q : β → Prop}
  {R : γ → Prop}

theorem of_pure {a : α} (h : P a) : Ensures (pure a : Render α) P :=
  ⟨a, [], .of_pure a, fun _ => h⟩

theorem of_report (d : Degradation) (a : α) : Ensures (do report d; return a) P := by
  refine ⟨a, [d], .report_pure d a, fun hnil => ?_⟩
  cases hnil

theorem map (hx : x.Ensures P) {g : α → β} (hg : ∀ a, P a → Q (g a)) :
    Ensures (do return g (← x)) Q := by
  obtain ⟨a, ds, hyields, ha⟩ := hx
  exact ⟨g a, ds, hyields.map g, fun hnil => hg a (ha hnil)⟩

theorem map₂ (hx : x.Ensures P) (hy : y.Ensures Q) {g : α → β → γ}
    (hg : ∀ a b, P a → Q b → R (g a b)) : Ensures (do return g (← x) (← y)) R := by
  obtain ⟨a, ds, hxyields, ha⟩ := hx
  obtain ⟨b, ds', hyyields, hb⟩ := hy
  refine ⟨g a b, ds ++ ds', hxyields.map₂ g hyyields, fun hnil => ?_⟩
  obtain ⟨hds, hds'⟩ := List.append_eq_nil_iff.mp hnil
  exact hg a b (ha hds) (hb hds')

theorem mono (hx : x.Ensures P) {P' : α → Prop} (h : ∀ a, P a → P' a) : x.Ensures P' := by
  obtain ⟨a, ds, hyields, ha⟩ := hx
  exact ⟨a, ds, hyields, fun hnil => h a (ha hnil)⟩

/-- What is returned does not depend on the sink. -/
theorem run_fst (hx : x.Ensures P) (sink sink' : Diagnostics) :
    (x.run sink).1 = (x.run sink').1 := by
  obtain ⟨a, ds, hyields, _⟩ := hx
  rw [hyields.eq_fst, hyields.eq_fst]

theorem of_silent (hx : x.Ensures P) {a : α} {sink : Diagnostics}
    (hsilent : x.run sink = (a, sink)) : P a := by
  obtain ⟨a', ds, hyields, ha⟩ := hx
  have hsink : (x.run sink).2 = sink := by rw [hsilent]
  have hvalue : (x.run sink).1 = a := by rw [hsilent]
  obtain rfl : a' = a := (hyields.eq_fst sink).symm.trans hvalue
  exact ha (hyields.eq_nil hsink)

end Render.Ensures

/-! ## Quantities -/

namespace Binding

variable {b : Binding} {first others : List Binding}

theorem mem_merge : b ∈ merge first others ↔ b ∈ first ∨ b ∈ others := by
  simp only [merge, List.mem_append, List.mem_filter, Bool.not_eq_true', List.contains_eq_mem,
    decide_eq_false_iff_not]
  by_cases hb : b ∈ first <;> simp [hb]

end Binding

variable {m : Model}

/-- The binding that looks an element up, if elements of its role have values. -/
def leafBinding? (m : Model) (leaf : Handle × Situation) : Option Binding :=
  ((m.role? leaf.1).bind Reading.ofRole).map fun reading =>
    ⟨reading, stateName m leaf.1, leaf.2⟩

theorem leafBinding?_of_quality {q : Handle} (hq : m.role? q = some .quality) (s : Situation) :
    leafBinding? m (q, s) = some ⟨.value, m.nameOf q, s⟩ := by
  simp [leafBinding?, hq, Reading.ofRole, stateName]

/-- The quantity that is the value of a binding. -/
def Quantity.ofBinding (b : Binding) : Quantity := ⟨[b], .word b.boundVariable⟩

/-- Formulas rendered as quantities with nothing replaced. -/
inductive RendersQuantity (m : Model) : Formula Handle → Quantity → Prop
  | atom {h : Handle} {b : Binding} : leafBinding? m (h, .current) = some b →
    RendersQuantity m (.atom h) (.ofBinding b)
  | previous {h : Handle} {b : Binding} : leafBinding? m (h, .initial) = some b →
    RendersQuantity m (.unary .previous (.atom h)) (.ofBinding b)
  | number (x : Number) : RendersQuantity m (.number x) ⟨[], .number x⟩
  | bool (value : Bool) :
    RendersQuantity m (.bool value) ⟨[], .word (if value then "1" else "0")⟩
  | negate {operand : Formula Handle} {q : Quantity} : RendersQuantity m operand q →
    RendersQuantity m (.unary .negate operand)
      ⟨q.bindings, .unary (.tight "-") (.group q.expression)⟩
  | arithmetic {op : BinaryOperator} {symbol : String} {left right : Formula Handle}
    {l r : Quantity} : op.arithmeticSymbol? = some symbol → RendersQuantity m left l →
    RendersQuantity m right r → RendersQuantity m (.binary op left right)
      ⟨Binding.merge l.bindings r.bindings,
        .binary (.tight symbol) (.group l.expression) (.group r.expression)⟩

theorem renderValue_ensures (m : Model) (h : Handle) (situation : Situation) :
    (renderValue m h situation).Ensures fun q =>
      ∃ b, leafBinding? m (h, situation) = some b ∧ q = .ofBinding b := by
  unfold renderValue leafBinding?
  cases (m.role? h).bind Reading.ofRole with
  | some reading => exact .of_pure ⟨_, rfl, rfl⟩
  | none => exact .of_report _ _

theorem renderQuantity_ensures (m : Model) (f : Formula Handle) :
    (renderQuantity m f).Ensures (RendersQuantity m f) := by
  induction f with
  | atom h =>
    refine (renderValue_ensures m h .current).mono ?_
    rintro _ ⟨b, hb, rfl⟩
    exact .atom hb
  | number x => exact .of_pure (.number x)
  | bool value => exact .of_pure (.bool value)
  | binary op left right ihl ihr =>
    cases hsymbol : op.arithmeticSymbol? with
    | none =>
      simp only [renderQuantity, hsymbol]
      exact .of_report _ _
    | some symbol =>
      simp only [renderQuantity, hsymbol]
      exact ihl.map₂ ihr fun _ _ => .arithmetic hsymbol
  | unary op operand ih =>
    cases op with
    | not => exact .of_report _ _
    | negate => exact ih.map fun _ => .negate
    | previous =>
      cases operand with
      | atom h =>
        refine (renderValue_ensures m h .initial).mono ?_
        rintro _ ⟨b, hb, rfl⟩
        exact .previous hb
      | _ => exact .of_report _ _

theorem mem_bindings_renderValue {h : Handle} {situation : Situation} {sink : Diagnostics}
    {b : Binding} : b ∈ ((renderValue m h situation).run sink).1.bindings ↔
      ∃ leaf ∈ [(h, situation)], leafBinding? m leaf = some b := by
  simp only [renderValue, leafBinding?, List.mem_singleton, exists_eq_left]
  cases (m.role? h).bind Reading.ofRole with
  | none => exact iff_of_false List.not_mem_nil (by simp)
  | some reading => exact List.mem_singleton.trans (by simp [eq_comm])

/-- What holds of all that a formula can be rendered as for a number, placeholders included, is shown
part by part. Nothing is known about the sink, since each part finds there what others report. -/
theorem renderQuantity_induction {motive : Formula Handle → Quantity → Prop}
    (atom : ∀ h sink, motive (.atom h) ((renderValue m h .current).run sink).1)
    (previous : ∀ h sink,
      motive (.unary .previous (.atom h)) ((renderValue m h .initial).run sink).1)
    (number : ∀ x, motive (.number x) ⟨[], .number x⟩)
    (bool : ∀ value, motive (.bool value) ⟨[], .word (if value then "1" else "0")⟩)
    (placeholder : ∀ f : Formula Handle, f.leaves = [] → motive f .placeholder)
    (negate : ∀ operand q, motive operand q →
      motive (.unary .negate operand) ⟨q.bindings, .unary (.tight "-") (.group q.expression)⟩)
    (arithmetic : ∀ op symbol left right l r, op.arithmeticSymbol? = some symbol →
      motive left l → motive right r → motive (.binary op left right)
        ⟨Binding.merge l.bindings r.bindings,
          .binary (.tight symbol) (.group l.expression) (.group r.expression)⟩)
    (f : Formula Handle) (sink : Diagnostics) : motive f ((renderQuantity m f).run sink).1 := by
  induction f generalizing sink with
  | atom h => exact atom h sink
  | number x => exact number x
  | bool value => exact bool value
  | binary op left right ihl ihr =>
    cases hsymbol : op.arithmeticSymbol? with
    | none =>
      have hleaves : (Formula.binary op left right).leaves = [] := by
        rw [Formula.leaves, hsymbol]
        rfl
      simp only [renderQuantity, hsymbol]
      exact placeholder _ hleaves
    | some symbol =>
      simp only [renderQuantity, hsymbol]
      exact arithmetic op symbol left right _ _ hsymbol (ihl _) (ihr _)
  | unary op operand ih =>
    cases op with
    | not => exact placeholder _ rfl
    | negate => exact negate operand _ (ih sink)
    | previous =>
      cases operand with
      | atom h => exact previous h sink
      | _ => exact placeholder _ rfl

/-- A quantity binds the leaves of its formula, whatever is reported. -/
theorem mem_bindings_renderQuantity {f : Formula Handle} {sink : Diagnostics} {b : Binding} :
    b ∈ ((renderQuantity m f).run sink).1.bindings ↔
      ∃ leaf ∈ f.leaves, leafBinding? m leaf = some b := by
  have hnone {leaves : List (Handle × Situation)} (hleaves : leaves = []) :
      b ∈ [] ↔ ∃ leaf ∈ leaves, leafBinding? m leaf = some b := by
    simp [hleaves]
  apply renderQuantity_induction (motive := fun f q => b ∈ q.bindings ↔
    ∃ leaf ∈ f.leaves, leafBinding? m leaf = some b)
  case atom | previous => exact fun h sink => mem_bindings_renderValue
  case number | bool => exact fun _ => hnone rfl
  case placeholder => exact fun f hleaves => hnone hleaves
  case negate => exact fun operand q ih => ih
  case arithmetic =>
    intro op symbol left right l r hsymbol ihl ihr
    refine Binding.mem_merge.trans ?_
    simp only [Formula.leaves_arithmetic hsymbol, List.mem_append, or_and_right, exists_or]
    exact or_congr ihl ihr

/-! ## Conditions -/

/-- Formulas rendered as conditions with nothing replaced. -/
inductive RendersCondition (m : Model) : Formula Handle → Term → Prop
  | atom {h : Handle} : m.role? h ≠ some .effect →
    RendersCondition m (.atom h) (holdsIn (stateName m h) .current)
  | bool (value : Bool) :
    RendersCondition m (.bool value) (.word (if value then "true" else "fail"))
  | not {operand : Formula Handle} {t : Term} : RendersCondition m operand t →
    RendersCondition m (.unary .not operand) (.unary .negation (.group t))
  | previous (h : Handle) : RendersCondition m (.unary .previous (.atom h))
      (holdsIn (ended (m.nameOf h) .fluent) .initial)
  | and {left right : Formula Handle} {l r : Term} : RendersCondition m left l →
    RendersCondition m right r →
    RendersCondition m (.binary .and left right) (.group (.binary .conjunction l r))
  | or {left right : Formula Handle} {l r : Term} : RendersCondition m left l →
    RendersCondition m right r →
    RendersCondition m (.binary .or left right) (.group (.binary .disjunction l r))
  | compare {op : BinaryOperator} {symbol : String} {left right : Formula Handle}
    {l r : Quantity} : op.comparisonSymbol? = some symbol → RendersQuantity m left l →
    RendersQuantity m right r → RendersCondition m (.binary op left right) (comparison symbol l r)

theorem renderCondition_ensures (m : Model) (f : Formula Handle) :
    (renderCondition m f).Ensures (RendersCondition m f) := by
  induction f with
  | atom h =>
    by_cases heffect : m.role? h = some .effect
    · simp only [renderCondition, renderTruth, heffect]
      exact .of_report _ _
    · simp only [renderCondition, renderTruth]
      exact .of_pure (.atom heffect)
  | number x => exact .of_report _ _
  | bool value => exact .of_pure (.bool value)
  | binary op left right ihl ihr =>
    have hleft := renderQuantity_ensures m left
    have hright := renderQuantity_ensures m right
    cases op with
    | and => exact ihl.map₂ ihr fun _ _ => .and
    | or => exact ihl.map₂ ihr fun _ _ => .or
    | plus | minus | multiply | divide => exact .of_report _ _
    | gt | gte | lt | lte | eq | neq => exact hleft.map₂ hright fun _ _ => .compare rfl
  | unary op operand ih =>
    cases op with
    | not => exact ih.map fun _ => .not
    | negate => exact .of_report _ _
    | previous =>
      cases operand with
      | atom h => exact .of_pure (.previous h)
      | _ => exact .of_report _ _

/-! ## Qualities -/

/-- The clauses of a quality report what the rendering of its formula reports. -/
theorem run_qualityClauses {q : Handle} {data : Quality} (hq : m.quality? q = some data)
    (sink : Diagnostics) :
    let rendered := (renderQuantity m data.formula).run sink
    (qualityClauses m q).run sink =
      ((if accumulates m q || data.formula.referencesPrevious q then
          [initialValueClause (m.nameOf q)] else []) ++
        [evaluationClause (m.nameOf q)
          (if accumulates m q then rendered.1.accumulated (m.nameOf q) else rendered.1)],
        rendered.2) := by
  simp only [qualityClauses, hq]
  rfl

end Golog

end GoalModel
