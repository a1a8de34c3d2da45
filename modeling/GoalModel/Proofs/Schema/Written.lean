import GoalModel.Proofs.Document.RoundTrip
import GoalModel.Proofs.Schema.Documents

/-! # Written documents

The JSON value that a linkable document is written as is one that the schema accepts
(`written_accepted`), also if the document was read from a value that the schema does not accept:
from arrays, with members that no field has, with bounds that are null.

Numbers come from the value that was read, and so they are finite (`ReadsOnly`). Everything else
is for linking to see to. The schema wants all names to be identifiers without a reserved ending:
those of declarations are checked, and all others are the names of declared elements
(`Document.WellFormed`). -/

namespace GoalModel

/-! ## What is read -/

/-- What is read of a value that a text can hold has a property. -/
def ReadsOnly {α : Type} (read : Json → Except ReadError α) (P : α → Prop) : Prop :=
  ∀ v a, v.WellFormed → read v = .ok a → P a

theorem readsOnly_number : ReadsOnly Json.asNumber fun x => x.isFinite = true := by
  intro v x hv h
  cases v <;> cases h
  · exact Number.isFinite_ofInt (Json.wellFormed_int_iff.mp hv)
  · exact Json.wellFormed_float_iff.mp hv

theorem readsOnly_bound : ReadsOnly Json.asBound fun bound => ∀ x ∈ bound, x.isFinite = true := by
  intro v bound hv h x hx
  unfold Json.asBound at h
  split at h
  · cases h
    cases hx
  · obtain ⟨y, hy, rfl⟩ := exists_of_map_eq_ok h
    obtain rfl := Option.some.inj hx
    exact readsOnly_number _ _ hv hy

theorem readsOnly_initialValue :
    ReadsOnly InitialValue.ofJson fun value => value.toJson.WellFormed := by
  intro v x hv h
  cases v <;> cases h
  · exact .bool _
  · exact .float (Number.isFinite_ofInt (Json.wellFormed_int_iff.mp hv))
  · exact hv
  · exact .string _

theorem readsOnly_formula : ReadsOnly Formula.ofJson fun f => f.toJson.WellFormed := by
  intro v f hv h
  have hform := Formula.form_of_ofJson h
  clear h
  induction hform with
  | atom name => exact hv
  | int n =>
    simp only [Json.wellFormed_object_iff, List.forall_mem_singleton, Json.wellFormed_int_iff] at hv
    simp [Formula.toJson, Number.isFinite_ofInt hv.2]
  | float x => exact hv
  | bool b => exact hv
  | binary op _ _ ihl ihr =>
    simp only [Json.wellFormed_object_iff, List.forall_mem_singleton, Json.wellFormed_array_iff,
      List.forall_mem_cons] at hv
    simp [Formula.toJson, ihl hv.2.1, ihr hv.2.2]
  | unary op _ ih =>
    simp only [Json.wellFormed_object_iff, List.forall_mem_singleton] at hv
    simp [Formula.toJson, ih hv.2]

theorem ReadsOnly.list {α : Type} {read : Json → Except ReadError α} {P : α → Prop}
    (h : ReadsOnly read P) : ReadsOnly (Json.asList read) fun as => ∀ a ∈ as, P a := by
  intro v as hv hread a ha
  cases v with
  | array items =>
    obtain ⟨item, hitem, hread⟩ := exists_of_mem_mapM hread ha
    exact h item a (Json.wellFormed_array_iff.mp hv item hitem) hread
  | _ => cases hread

/-! ## Fields that are read -/

/-- The values of the fields of a record are such as a text can hold. -/
def Fields.WellFormed (fields : Fields) : Prop :=
  ∀ place name w, fields.value? place name = some w → w.WellFormed

namespace Fields

variable {α : Type} {record : Record} {fields : Fields} {v : Json} {place : Nat} {name : String}
  {read : Json → Except ReadError α} {P : α → Prop} {a : α}

theorem wellFormed_of_ofJson (hv : v.WellFormed) (h : ofJson record v = .ok fields) :
    fields.WellFormed := by
  intro place name w hw
  cases v <;> cases h
  · exact Json.wellFormed_array_iff.mp hv w (List.mem_of_getElem? hw)
  · exact (Json.wellFormed_object_iff.mp hv).2 (name, w) (mem_of_lookup_eq_some hw)

theorem exists_wellFormed {β : Type} {problems : Fields → List (Option (String × ReadError))}
    {rest : Fields → Except ReadError β} {b : β} (hv : v.WellFormed)
    (h : (do
      let fields ← ofJson record v
      fields.check (problems fields)
      rest fields) = .ok b) : ∃ fields : Fields, fields.WellFormed ∧ rest fields = .ok b := by
  obtain ⟨fields, hfields, hrest⟩ := exists_of_read h
  exact ⟨fields, wellFormed_of_ofJson hv hfields, hrest⟩

variable (hf : fields.WellFormed) (hread : ReadsOnly read P)
include hf hread

theorem of_required
    (h : fields.required record place name (fields.field place name read) = .ok a) : P a := by
  obtain ⟨w, hw, ha⟩ := exists_of_required h
  exact hread w a (hf place name w hw) ha

theorem of_withDefault {default : α} (hdefault : P default)
    (h : withDefault default (fields.field place name read) = .ok a) : P a := by
  rcases exists_of_withDefault h with ⟨_, rfl⟩ | ⟨w, hw, ha⟩
  · exact hdefault
  · exact hread w a (hf place name w hw) ha

end Fields

/-! ## Records that are read -/

section

open Fields

theorem Json.wellFormed_ofNames (names : List String) : (Json.ofNames names).WellFormed :=
  .array (List.forall_mem_map.mpr fun name _ => .string name)

theorem readsOnly_effect : ReadsOnly EffectEntry.ofJson fun entry => entry.toJson.WellFormed := by
  intro v entry hv h
  obtain ⟨fields, hf, h⟩ := exists_wellFormed hv h
  obtain ⟨name, _, h⟩ := exists_of_bind_eq_ok h
  obtain ⟨probability, hprobability, h⟩ := exists_of_bind_eq_ok h
  obtain ⟨satisfying, _, h⟩ := exists_of_bind_eq_ok h
  obtain ⟨turnsTrue, _, h⟩ := exists_of_bind_eq_ok h
  cases h
  have hfinite := of_required hf readsOnly_number hprobability
  simp [EffectEntry.toJson, Json.wellFormed_ofNames, hfinite]

theorem readsOnly_task : ReadsOnly TaskEntry.ofJson fun entry => entry.toJson.WellFormed := by
  intro v entry hv h
  obtain ⟨fields, hf, h⟩ := exists_wellFormed hv h
  obtain ⟨name, _, h⟩ := exists_of_bind_eq_ok h
  obtain ⟨effects, heffects, h⟩ := exists_of_bind_eq_ok h
  cases h
  have hwf := of_withDefault hf readsOnly_effect.list (List.forall_mem_nil _) heffects
  simpa [TaskEntry.toJson] using hwf

theorem readsOnly_quality : ReadsOnly QualityEntry.ofJson fun entry => entry.toJson.WellFormed := by
  intro v entry hv h
  obtain ⟨fields, hf, h⟩ := exists_wellFormed hv h
  obtain ⟨name, _, h⟩ := exists_of_bind_eq_ok h
  obtain ⟨root, _, h⟩ := exists_of_bind_eq_ok h
  obtain ⟨formula, hformula, h⟩ := exists_of_bind_eq_ok h
  cases h
  have hwf := of_required hf readsOnly_formula hformula
  simp [QualityEntry.toJson, hwf]

theorem readsOnly_condition :
    ReadsOnly ConditionEntry.ofJson fun entry => entry.toJson.WellFormed := by
  intro v entry hv h
  obtain ⟨fields, hf, h⟩ := exists_wellFormed hv h
  obtain ⟨name, _, h⟩ := exists_of_bind_eq_ok h
  obtain ⟨formula, hformula, h⟩ := exists_of_bind_eq_ok h
  cases h
  have hwf := of_required hf readsOnly_formula hformula
  simp [ConditionEntry.toJson, hwf]

/-- Nothing in a goal is a number. -/
theorem GoalEntry.wellFormed_toJson (goal : GoalEntry) : goal.toJson.WellFormed := by
  unfold toJson
  cases goal.and.isEmpty <;> cases goal.or.isEmpty <;> simp [Json.wellFormed_ofNames]

theorem readsOnly_actor : ReadsOnly ActorEntry.ofJson fun entry => entry.toJson.WellFormed := by
  intro v entry hv h
  obtain ⟨fields, hf, h⟩ := exists_wellFormed hv h
  obtain ⟨name, _, h⟩ := exists_of_bind_eq_ok h
  obtain ⟨predicates, _, h⟩ := exists_of_bind_eq_ok h
  obtain ⟨stateVariables, _, h⟩ := exists_of_bind_eq_ok h
  obtain ⟨goals, _, h⟩ := exists_of_bind_eq_ok h
  obtain ⟨tasks, htasks, h⟩ := exists_of_bind_eq_ok h
  obtain ⟨qualities, hqualities, h⟩ := exists_of_bind_eq_ok h
  obtain ⟨conditions, hconditions, h⟩ := exists_of_bind_eq_ok h
  cases h
  have htask := of_withDefault hf readsOnly_task.list (List.forall_mem_nil _) htasks
  have hquality := of_withDefault hf readsOnly_quality.list (List.forall_mem_nil _) hqualities
  have hcondition :=
    of_withDefault hf readsOnly_condition.list (List.forall_mem_nil _) hconditions
  simpa [ActorEntry.toJson, Json.wellFormed_ofNames, GoalEntry.wellFormed_toJson] using
    ⟨htask, hquality, hcondition⟩

theorem readsOnly_export : ReadsOnly ExportEntry.ofJson fun entry => entry.toJson.WellFormed := by
  intro v entry hv h
  obtain ⟨fields, hf, h⟩ := exists_wellFormed hv h
  obtain ⟨name, _, h⟩ := exists_of_bind_eq_ok h
  obtain ⟨domain, _, h⟩ := exists_of_bind_eq_ok h
  obtain ⟨min, hmin, h⟩ := exists_of_bind_eq_ok h
  obtain ⟨max, hmax, h⟩ := exists_of_bind_eq_ok h
  cases h
  have habsent : ∀ x ∈ (none : Option Number), x.isFinite = true := nofun
  have hleast := of_withDefault hf readsOnly_bound habsent hmin
  have hgreatest := of_withDefault hf readsOnly_bound habsent hmax
  cases min <;> cases max <;> simp_all [ExportEntry.toJson, Domain.toJson, boundMember]

theorem readsOnly_initial : ReadsOnly InitialEntry.ofJson fun entry => entry.toJson.WellFormed := by
  intro v entry hv h
  obtain ⟨fields, hf, h⟩ := exists_wellFormed hv h
  obtain ⟨name, _, h⟩ := exists_of_bind_eq_ok h
  obtain ⟨value, hvalue, h⟩ := exists_of_bind_eq_ok h
  cases h
  have hwf := of_required hf readsOnly_initialValue hvalue
  simp [InitialEntry.toJson, hwf]

theorem readsOnly_document : ReadsOnly Document.ofJson fun d => d.toJson.WellFormed := by
  intro v document hv h
  obtain ⟨fields, hf, h⟩ := exists_wellFormed hv h
  obtain ⟨name, _, h⟩ := exists_of_bind_eq_ok h
  obtain ⟨actors, hactors, h⟩ := exists_of_bind_eq_ok h
  obtain ⟨crossRun, _, h⟩ := exists_of_bind_eq_ok h
  obtain ⟨exported, hexported, h⟩ := exists_of_bind_eq_ok h
  obtain ⟨initializations, hinitializations, h⟩ := exists_of_bind_eq_ok h
  cases h
  have hactor := of_required hf readsOnly_actor.list hactors
  have hexport := of_withDefault hf readsOnly_export.list (List.forall_mem_nil _) hexported
  have hinitial :=
    of_withDefault hf readsOnly_initial.list (List.forall_mem_nil _) hinitializations
  simpa [Document.toJson, Json.wellFormed_ofNames] using ⟨hactor, hexport, hinitial⟩

end

/-! ## What is accepted -/

theorem Number.le_eq_false_of_lt {x y : Number} (h : x.lt y = true) : y.le x = false := by
  unfold lt at h
  unfold le
  split at h
  · next hx hy =>
    rw [hx, hy]
    simpa using h
  · cases h

theorem Number.lt_eq_false_of_le {x y : Number} (h : x.le y = true) : y.lt x = false := by
  unfold le at h
  unfold lt
  split at h
  · next hx hy =>
    rw [hx, hy]
    simpa using h
  · cases h

section

open Identifier Schema

variable {d : Definition}

theorem Schema.accepts_ofNames {names : List String} (h : ∀ name ∈ names, Declarable name) :
    (listOf .name).Accepts (Json.ofNames names) := by
  refine accepts_listOf.mpr ⟨_, rfl, List.forall_mem_map.mpr fun name hname => ?_⟩
  exact Definition.accepts_name.mpr ⟨name, rfl, h name hname⟩

theorem Schema.accepts_map {α : Type} {xs : List α} {write : α → Json}
    (h : ∀ x ∈ xs, d.Accepts (write x)) : (listOf d).Accepts (.array (xs.map write)) :=
  accepts_listOf.mpr ⟨_, rfl, List.forall_mem_map.mpr h⟩

theorem Formula.accepts_toJson {f : Formula String} (h : ∀ a ∈ f.atoms, Declarable a) :
    Definition.formula.Accepts f.toJson :=
  Definition.accepts_of_form f.form_toJson h

/-- Members that are left out are no members. -/
theorem GoalEntry.accepts_toJson {goal : GoalEntry} (hname : Declarable goal.name)
    (hway : goal.and = [] ∨ goal.or = []) (hand : ∀ name ∈ goal.and, Declarable name)
    (hor : ∀ name ∈ goal.or, Declarable name) : Definition.goal.Accepts goal.toJson := by
  refine Definition.accepts_iff.mpr ((accepts_object (by simp)).mpr ⟨_, rfl, ?_⟩)
  simp only [List.forall_mem_cons, Keyword.accepts_closed, Keyword.accepts_negated,
    Keyword.accepts_required, Keyword.accepts_type]
  refine ⟨?_, ?_, ⟨⟨_, .head _⟩, List.forall_mem_nil _⟩, ⟨_, .head _, rfl⟩, List.forall_mem_nil _⟩
  · simp only [List.cons_append, List.forall_mem_cons, List.forall_mem_append]
    refine ⟨⟨_, rfl, Definition.accepts_name.mpr ⟨_, rfl, hname⟩⟩, ?_, ?_⟩
    · split
      · exact List.forall_mem_nil _
      · exact List.forall_mem_singleton.mpr ⟨_, rfl, accepts_ofNames hand⟩
    · split
      · exact List.forall_mem_nil _
      · exact List.forall_mem_singleton.mpr ⟨_, rfl, accepts_ofNames hor⟩
  · intro h
    have hboth := Keyword.accepts_required.mp (accepts_all.mp h _ (.head _))
    simp only [List.forall_mem_cons] at hboth
    obtain ⟨⟨_, hand⟩, ⟨_, hor⟩, _⟩ := hboth
    rcases hway with hnil | hnil <;> simp [hnil] at hand hor

theorem Schema.accepts_probability {x : Number}
    (h : Number.zero.lt x = true ∧ x.le .one = true) :
    (all [.exclusiveMinimum 0, .maximum 1, .type [.number]]).Accepts (.float x) := by
  have hzero : Number.ofInt 0 = .zero := rfl
  have hone : Number.ofInt 1 = .one := by decide +kernel
  simp only [accepts_all, List.forall_mem_cons, Keyword.accepts_exclusiveMinimum,
    Keyword.accepts_maximum, Keyword.accepts_type, Json.atMost, Json.above, hzero, hone]
  exact ⟨Number.le_eq_false_of_lt h.1, Number.lt_eq_false_of_le h.2, ⟨_, .head _, rfl⟩,
    List.forall_mem_nil _⟩

theorem Schema.accepts_distinctNames {names : List String} (h : ∀ name ∈ names, Declarable name)
    (hdistinct : names.Nodup) :
    (all [.items (.ref .name) 0, .type [.array], .uniqueItems]).Accepts (Json.ofNames names) := by
  obtain ⟨items, hitems, hnames⟩ := accepts_listOf.mp (accepts_ofNames h)
  have hunique : (names.map Json.string).Pairwise fun a b => Json.equal a b = false :=
    List.pairwise_map.mpr (hdistinct.imp fun hne => beq_eq_false_iff_ne.mpr hne)
  simp only [accepts_all, List.forall_mem_cons, hitems, Keyword.accepts_items,
    Keyword.accepts_type, Keyword.accepts_uniqueItems]
  obtain rfl := Json.array.inj hitems
  exact ⟨hnames, ⟨_, .head _, rfl⟩, hunique, List.forall_mem_nil _⟩

theorem EffectEntry.accepts_toJson {effect : EffectEntry} (hname : Declarable effect.name)
    (hprobability : Number.zero.lt effect.probability ∧ effect.probability.le .one)
    (hdistinct : effect.turnsTrue.Nodup) (hturnsTrue : ∀ name ∈ effect.turnsTrue, Declarable name) :
    Definition.effect.Accepts effect.toJson := by
  refine Definition.accepts_iff.mpr (accepts_record.mpr ⟨_, rfl, by simp, ?_⟩)
  simp only [List.forall_mem_cons]
  refine ⟨⟨_, rfl, ?_⟩, ⟨_, rfl, ?_⟩, ⟨_, rfl, ?_⟩, ⟨_, rfl, ?_⟩, List.forall_mem_nil _⟩
  · exact Definition.accepts_name.mpr ⟨_, rfl, hname⟩
  · exact accepts_probability hprobability
  · exact accepts_boolean.mpr ⟨_, rfl⟩
  · exact accepts_distinctNames hturnsTrue hdistinct

theorem TaskEntry.accepts_toJson {task : TaskEntry} (hname : Declarable task.name)
    (heffects : ∀ effect ∈ task.effects, Definition.effect.Accepts effect.toJson) :
    Definition.task.Accepts task.toJson := by
  refine Definition.accepts_iff.mpr (accepts_record.mpr ⟨_, rfl, by simp, ?_⟩)
  simp only [List.forall_mem_cons]
  refine ⟨⟨_, rfl, ?_⟩, ⟨_, rfl, ?_⟩, List.forall_mem_nil _⟩
  · exact Definition.accepts_name.mpr ⟨_, rfl, hname⟩
  · exact accepts_map heffects

theorem QualityEntry.accepts_toJson {quality : QualityEntry} (hname : Declarable quality.name)
    (hatoms : ∀ a ∈ quality.formula.atoms, Declarable a) :
    Definition.quality.Accepts quality.toJson := by
  refine Definition.accepts_iff.mpr (accepts_record.mpr ⟨_, rfl, by simp, ?_⟩)
  simp only [List.forall_mem_cons]
  refine ⟨⟨_, rfl, ?_⟩, ⟨_, rfl, ?_⟩, ⟨_, rfl, ?_⟩, List.forall_mem_nil _⟩
  · exact Definition.accepts_name.mpr ⟨_, rfl, hname⟩
  · exact accepts_boolean.mpr ⟨_, rfl⟩
  · exact Formula.accepts_toJson hatoms

theorem ConditionEntry.accepts_toJson {condition : ConditionEntry}
    (hname : Declarable condition.name) (hatoms : ∀ a ∈ condition.formula.atoms, Declarable a) :
    Definition.condition.Accepts condition.toJson := by
  refine Definition.accepts_iff.mpr (accepts_record.mpr ⟨_, rfl, by simp, ?_⟩)
  simp only [List.forall_mem_cons]
  refine ⟨⟨_, rfl, ?_⟩, ⟨_, rfl, ?_⟩, List.forall_mem_nil _⟩
  · exact Definition.accepts_name.mpr ⟨_, rfl, hname⟩
  · exact Formula.accepts_toJson hatoms

theorem ExportEntry.accepts_toJson {entry : ExportEntry} (hname : Declarable entry.name) :
    Definition.exported.Accepts entry.toJson := by
  have hbound (name : String) (bound : Option Number) :
      ∀ member ∈ boundMember name bound, member.1 = name ∧ number.Accepts member.2 := by
    cases bound with
    | none => exact List.forall_mem_nil _
    | some x =>
      exact List.forall_mem_singleton.mpr ⟨rfl, accepts_number.mpr (.inr ⟨x, rfl⟩)⟩
  refine Definition.accepts_iff.mpr (accepts_record.mpr ⟨_, rfl, by simp, ?_⟩)
  simp only [List.cons_append, List.nil_append, List.forall_mem_cons, List.forall_mem_append]
  refine ⟨⟨_, rfl, ?_⟩, ⟨_, rfl, ?_⟩, fun member hmember => ?_, fun member hmember => ?_⟩
  · exact Definition.accepts_name.mpr ⟨_, rfl, hname⟩
  · refine accepts_all.mpr (List.forall_mem_singleton.mpr (Keyword.accepts_enum.mpr ?_))
    cases entry.domain
    · exact ⟨_, .head _, rfl⟩
    · exact ⟨_, .tail _ (.head _), rfl⟩
  · obtain ⟨hmin, haccepts⟩ := hbound _ _ member hmember
    rw [hmin]
    exact ⟨_, rfl, haccepts⟩
  · obtain ⟨hmax, haccepts⟩ := hbound _ _ member hmember
    rw [hmax]
    exact ⟨_, rfl, haccepts⟩

theorem InitialEntry.accepts_toJson {entry : InitialEntry} (hname : Declarable entry.name) :
    Definition.initialization.Accepts entry.toJson := by
  refine Definition.accepts_iff.mpr (accepts_record.mpr ⟨_, rfl, by simp, ?_⟩)
  simp only [List.forall_mem_cons]
  refine ⟨⟨_, rfl, ?_⟩, ⟨_, rfl, ?_⟩, List.forall_mem_nil _⟩
  · exact Definition.accepts_name.mpr ⟨_, rfl, hname⟩
  · refine accepts_all.mpr (List.forall_mem_singleton.mpr (Keyword.accepts_type.mpr ?_))
    cases entry.value
    · exact ⟨.boolean, .head _, rfl⟩
    · exact ⟨.number, .tail _ (.head _), rfl⟩
    · exact ⟨.string, .tail _ (.tail _ (.head _)), rfl⟩

/-! ## Linkable documents -/

namespace Document

variable {document : Document} {actor : ActorEntry} {name : String}

section WellFormed
variable (hwf : document.WellFormed)
include hwf

theorem declarable_of_declared {role : Role} (h : (name, role) ∈ document.declared) :
    Declarable name :=
  hwf.declarable name (List.mem_map_of_mem h)

theorem declarable_of_stateful (h : document.Stateful name) : Declarable name := by
  obtain ⟨_, hdeclared, _⟩ := h
  exact declarable_of_declared hwf hdeclared

variable (hactor : actor ∈ document.actors)
include hactor

theorem declarable_of_actor (role : Role) (h : (name, role) ∈ actor.declared) : Declarable name :=
  declarable_of_declared hwf (List.mem_flatMap.mpr ⟨actor, hactor, h⟩)

theorem accepts_goal {goal : GoalEntry} (hgoal : goal ∈ actor.goals) :
    Definition.goal.Accepts goal.toJson := by
  have hmem : goal ∈ document.goals := List.mem_flatMap.mpr ⟨actor, hactor, hgoal⟩
  have hdeclared : (goal.name, .goal) ∈ actor.declared := by
    simp only [ActorEntry.declared, List.mem_append, List.mem_map]
    exact .inl (.inl (.inl (.inr ⟨goal, hgoal, rfl⟩)))
  have hchild (child : String) (hchild : child ∈ goal.children) : Declarable child := by
    rcases hwf.children child (List.mem_flatMap.mpr ⟨goal, hmem, hchild⟩) with h | h
    · exact declarable_of_declared hwf h
    · exact declarable_of_declared hwf h
  exact GoalEntry.accepts_toJson (declarable_of_actor hwf hactor _ hdeclared) (hwf.oneWay goal hmem)
    (fun child h => hchild child (List.mem_append_left _ h))
    (fun child h => hchild child (List.mem_append_right _ h))

theorem accepts_task {task : TaskEntry} (htask : task ∈ actor.tasks) :
    Definition.task.Accepts task.toJson := by
  have hdeclared (p : String × Role)
      (hp : p ∈ (task.name, .task) :: task.effects.map (·.name, .effect)) : Declarable p.1 := by
    refine declarable_of_actor hwf hactor p.2 ?_
    simp only [ActorEntry.declared, List.mem_append, List.mem_flatMap]
    exact .inl (.inl (.inr ⟨task, htask, hp⟩))
  refine TaskEntry.accepts_toJson (hdeclared _ (.head _)) fun effect heffect => ?_
  have hmem : effect ∈ document.effects :=
    List.mem_flatMap.mpr ⟨actor, hactor, List.mem_flatMap.mpr ⟨task, htask, heffect⟩⟩
  obtain ⟨hdistinct, hpredicates⟩ := hwf.turnsTrue effect hmem
  exact EffectEntry.accepts_toJson (hdeclared _ (.tail _ (List.mem_map_of_mem heffect)))
    (hwf.probabilities effect hmem) hdistinct
    fun name h => declarable_of_declared hwf (hpredicates name h)

theorem declarable_atoms {f : Formula String} (hf : f ∈ actor.formulas) :
    ∀ a ∈ f.atoms, Declarable a := fun a ha =>
  hwf.declarable a (hwf.atoms f (List.mem_flatMap.mpr ⟨actor, hactor, hf⟩) a ha)

theorem accepts_quality {quality : QualityEntry} (hquality : quality ∈ actor.qualities) :
    Definition.quality.Accepts quality.toJson := by
  have hdeclared : (quality.name, .quality) ∈ actor.declared := by
    simp only [ActorEntry.declared, List.mem_append, List.mem_map]
    exact .inl (.inr ⟨quality, hquality, rfl⟩)
  refine QualityEntry.accepts_toJson (declarable_of_actor hwf hactor _ hdeclared) ?_
  exact declarable_atoms hwf hactor (List.mem_append_left _ (List.mem_map_of_mem hquality))

theorem accepts_condition {condition : ConditionEntry}
    (hcondition : condition ∈ actor.conditions) :
    Definition.condition.Accepts condition.toJson := by
  have hdeclared : (condition.name, .condition) ∈ actor.declared := by
    simp only [ActorEntry.declared, List.mem_append, List.mem_map]
    exact .inr ⟨condition, hcondition, rfl⟩
  refine ConditionEntry.accepts_toJson (declarable_of_actor hwf hactor _ hdeclared) ?_
  exact declarable_atoms hwf hactor (List.mem_append_right _ (List.mem_map_of_mem hcondition))

theorem accepts_actor : Definition.actor.Accepts actor.toJson := by
  have hpredicate (name : String) (h : name ∈ actor.predicates) : Declarable name := by
    refine declarable_of_actor hwf hactor .predicate ?_
    simp only [ActorEntry.declared, List.mem_append, List.mem_map]
    exact .inl (.inl (.inl (.inl (.inl ⟨name, h, rfl⟩))))
  have hvariable (name : String) (h : name ∈ actor.stateVariables) : Declarable name := by
    refine declarable_of_actor hwf hactor .stateVariable ?_
    simp only [ActorEntry.declared, List.mem_append, List.mem_map]
    exact .inl (.inl (.inl (.inl (.inr ⟨name, h, rfl⟩))))
  refine Definition.accepts_iff.mpr (accepts_record.mpr ⟨_, rfl, by simp, ?_⟩)
  simp only [List.forall_mem_cons]
  refine ⟨⟨_, rfl, ?_⟩, ⟨_, rfl, ?_⟩, ⟨_, rfl, ?_⟩, ⟨_, rfl, ?_⟩, ⟨_, rfl, ?_⟩, ⟨_, rfl, ?_⟩,
    ⟨_, rfl, ?_⟩, List.forall_mem_nil _⟩
  · exact accepts_string.mpr ⟨_, rfl⟩
  · exact accepts_ofNames hpredicate
  · exact accepts_ofNames hvariable
  · exact accepts_map fun goal => accepts_goal hwf hactor
  · exact accepts_map fun task => accepts_task hwf hactor
  · exact accepts_map fun quality => accepts_quality hwf hactor
  · exact accepts_map fun condition => accepts_condition hwf hactor

end WellFormed

/-- A linkable document is written as a value that the schema accepts. -/
theorem accepts_toJson (hwf : document.WellFormed) : modelSchema.Accepts document.toJson := by
  refine accepts_record.mpr ⟨_, rfl, by simp, ?_⟩
  simp only [List.forall_mem_cons]
  refine ⟨⟨_, rfl, ?_⟩, ⟨_, rfl, ?_⟩, ⟨_, rfl, ?_⟩, ⟨_, rfl, ?_⟩, ⟨_, rfl, ?_⟩,
    List.forall_mem_nil _⟩
  · exact accepts_string.mpr ⟨_, rfl⟩
  · exact accepts_map fun actor hactor => accepts_actor hwf hactor
  · exact accepts_ofNames fun name h => declarable_of_stateful hwf (hwf.crossRun.2 name h)
  · refine accepts_map fun entry h => ExportEntry.accepts_toJson ?_
    exact declarable_of_stateful hwf (hwf.exported entry h).1
  · refine accepts_map fun entry h => InitialEntry.accepts_toJson ?_
    exact declarable_of_stateful hwf (hwf.initializations entry h)

end Document

end

/-- A document that was read and can be linked is written as a value that satisfies the schema,
whatever it was read from, and that is read as this document again. -/
theorem written_accepted {v : Json} {d : Document} {m : Model} (hv : v.WellFormed)
    (hread : Document.ofJson v = .ok d) (hlink : d.link = .ok m) :
    d.toJson.WellFormed ∧ checkSchema d.toJson = .ok () ∧ Document.ofJson d.toJson = .ok d := by
  have hwf := (Document.link_eq_ok_iff.mp hlink).1
  have haccepts := checkSchema_eq_ok_iff.mpr (Document.accepts_toJson hwf)
  exact ⟨readsOnly_document v d hv hread, haccepts, Document.ofJson_toJson d⟩

/-- A document with an actor as an array, a null bound, and members that no field has. -/
def Json.terse : Json :=
  .object [
    ("actors", .array [.array [.string "Robot", .array [], .array [.string "Heat"],
      .array [.object [("name", .string "rest"), ("note", .null)]]]]),
    ("exported", .array [.object [("domain", .string "continuous"), ("max", .int 1), ("min", .null),
      ("name", .string "Heat")]]),
    ("version", .int 2)]

def Document.terse : Document where
  name := ""
  actors := [{
    name := "Robot"
    predicates := []
    stateVariables := ["Heat"]
    goals := [⟨"rest", [], []⟩]
    tasks := []
    qualities := []
    conditions := [] }]
  crossRun := []
  exported := [⟨"Heat", .continuous, none, some .one⟩]
  initializations := []

theorem terse_written : checkSchema Json.terse ≠ .ok () ∧
    Document.ofJson Json.terse = .ok Document.terse ∧
    Document.terse.link = .ok Document.terse.linked ∧
    Document.terse.toJson.WellFormed ∧ checkSchema Document.terse.toJson = .ok () ∧
    Document.ofJson Document.terse.toJson = .ok Document.terse := by
  have hv : Json.terse.WellFormed := by
    simp [Json.terse, Json.fitsInteger]
  have hread : Document.ofJson Json.terse = .ok Document.terse :=
    eq_ok_of_toOption (by decide +kernel)
  have hlink : Document.terse.link = .ok Document.terse.linked := rfl
  have hrefused : ¬modelSchema.Accepts Json.terse := by decide
  exact ⟨checkSchema_eq_ok_iff.not.mpr hrefused, hread, hlink, written_accepted hv hread hlink⟩

end GoalModel
