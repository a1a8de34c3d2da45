import GoalModel.Proofs.Document.RoundTrip
import GoalModel.Proofs.Linking.LocalRules
import GoalModel.Proofs.Schema.Documents

/-! # Rules that the schema and linking share

The local rules of linking stand in the schema too, in its own terms: patterns, bounds, forbidden
and unique members. The two sides agree on them: what is read of an accepted value keeps the rules
(`Schema.Grants`, carried through lists and records), so that linking reports none of them again
(`nonLocal_of_checkSchema`). -/

namespace GoalModel

/-! ## What the schema grants -/

theorem Number.exists_position {x : Number} (h : x.isFinite = true) :
    ∃ place, x.position = some place := by
  cases x with
  | nan => cases h
  | ranked negative rank => cases negative <;> exact ⟨_, rfl⟩

theorem Number.le_eq_not_lt {x y : Number} (hx : x.isFinite = true) (hy : y.isFinite = true) :
    x.le y = !y.lt x := by
  obtain ⟨a, ha⟩ := exists_position hx
  obtain ⟨b, hb⟩ := exists_position hy
  simp only [le, lt, ha, hb, ← decide_not, Int.not_lt]

theorem Json.eq_map_of_mapM_asString {items : List Json} {names : List String}
    (h : items.mapM Json.asString = .ok names) : items = names.map .string := by
  induction items generalizing names with
  | nil =>
    cases h
    rfl
  | cons item rest ih =>
    rw [List.mapM_cons] at h
    obtain ⟨name, hname, h⟩ := exists_of_bind_eq_ok h
    obtain ⟨others, hothers, h⟩ := exists_of_bind_eq_ok h
    cases h
    rw [List.map_cons, ← ih hothers]
    cases item <;> cases hname
    rfl

/-- What is read of a value that the schema accepts has a property. -/
def Schema.Grants {α : Type} (schema : Schema) (read : Json → Except ReadError α)
    (P : α → Prop) : Prop :=
  ∀ v a, v.WellFormed → schema.Accepts v → read v = .ok a → P a

namespace Schema

variable {α : Type} {read : Json → Except ReadError α} {P : α → Prop} {d : Definition}

theorem grants_ref (h : d.schema.Grants read P) : (ref d).Grants read P :=
  fun v a hv haccepts => h v a hv (Definition.accepts_iff.mp haccepts)

theorem grants_name : (ref .name).Grants Json.asString Identifier.Declarable := by
  intro v name _ haccepts h
  obtain ⟨s, rfl, hs⟩ := Definition.accepts_name.mp haccepts
  cases h
  exact hs

theorem grants_listOf (h : (ref d).Grants read P) :
    (listOf d).Grants (Json.asList read) fun as => ∀ a ∈ as, P a := by
  intro v as hv haccepts hread a ha
  obtain ⟨items, rfl, hitems⟩ := accepts_listOf.mp haccepts
  obtain ⟨item, hitem, hread⟩ := exists_of_mem_mapM hread ha
  exact h item a (Json.wellFormed_array_iff.mp hv item hitem) (hitems item hitem) hread

/-- The schema excludes what is out of bounds, linking requires what is within them. The two
differ only on what is not a number. -/
theorem grants_probability :
    (all [.exclusiveMinimum 0, .maximum 1, .type [.number]]).Grants Json.asNumber
      fun x => isProbability x := by
  intro v x hv haccepts hread
  have hkeywords := accepts_all.mp haccepts
  simp only [List.forall_mem_cons, Keyword.accepts_exclusiveMinimum,
    Keyword.accepts_maximum] at hkeywords
  obtain ⟨hmin, hmax, -⟩ := hkeywords
  cases v with
  | int n =>
    obtain rfl : n = 1 := by
      simp only [Json.atMost, Json.above, decide_eq_false_iff_not] at hmin hmax
      omega
    cases hread
    decide +kernel
  | float y =>
    obtain rfl : y = x := by
      cases hread
      rfl
    have hfinite := Json.wellFormed_float_iff.mp hv
    have hzero : Number.ofInt 0 = .zero := rfl
    have hone : Number.ofInt 1 = .one := by decide +kernel
    rw [Json.atMost, hzero, Number.le_eq_not_lt hfinite rfl, Bool.not_eq_false'] at hmin
    rw [Json.above, hone] at hmax
    rw [isProbability, hmin, Number.le_eq_not_lt hfinite (by decide), hmax]
    rfl
  | _ => cases hread

theorem grants_distinctNames :
    (all [.items (.ref .name) 0, .type [.array], .uniqueItems]).Grants
      (Json.asList Json.asString) List.Nodup := by
  intro v names _ haccepts hread
  obtain ⟨items, rfl, hkeywords⟩ := (accepts_array (by simp)).mp haccepts
  have hdistinct := Keyword.accepts_uniqueItems.mp (hkeywords _ (by simp))
  obtain rfl := Json.eq_map_of_mapM_asString hread
  exact (List.pairwise_map.mp hdistinct).imp fun hne => by
    rintro rfl
    simp [Json.equal, Json.equalScalar] at hne

end Schema

namespace RecordAccepted

variable {α : Type} {names : List String} {properties : List (String × Schema)}
  {members : List (String × Json)} (h : RecordAccepted names properties members)
  {schema : Schema} {record : Record} {place : Nat} {name : String}
  {read : Json → Except ReadError α} {P : α → Prop} {a : α}
  (hschema : properties.lookup name = some schema) (hgrants : schema.Grants read P)
include h hschema hgrants

theorem of_required
    (ha : (Fields.named members).required record place name
      ((Fields.named members).field place name read) = .ok a) : P a := by
  obtain ⟨w, hw, hread⟩ := Fields.exists_of_required ha
  obtain ⟨hwf, haccepts⟩ := h.accepts_value name hschema hw
  exact hgrants w a hwf haccepts hread

theorem of_withDefault {default : α} (hdefault : P default)
    (ha : Fields.withDefault default ((Fields.named members).field place name read) = .ok a) :
    P a := by
  rcases Fields.exists_of_withDefault ha with ⟨_, rfl⟩ | ⟨w, hw, hread⟩
  · exact hdefault
  · obtain ⟨hwf, haccepts⟩ := h.accepts_value name hschema hw
    exact hgrants w a hwf haccepts hread

omit hschema hgrants in
theorem of_list {d : Definition} {as : List α} (hschema : properties.lookup name = some (.listOf d))
    (hgrants : (Schema.ref d).Grants read P)
    (has : Fields.withDefault [] ((Fields.named members).field place name (Json.asList read)) =
      .ok as) : ∀ a ∈ as, P a :=
  h.of_withDefault hschema (Schema.grants_listOf hgrants) (List.forall_mem_nil _) has

end RecordAccepted

theorem Schema.grants_record {α : Type} {names : List String}
    {properties : List (String × Schema)} {read : Json → Except ReadError α} {P : α → Prop}
    (h : ∀ members a, RecordAccepted names properties members → read (.object members) = .ok a →
      P a) : (record names properties).Grants read P := by
  intro v a hv haccepts hread
  obtain ⟨members, rfl, hrequired, hknown⟩ := accepts_record.mp haccepts
  exact h members a ⟨hv, hrequired, hknown⟩ hread

section

open Schema Fields

theorem grants_effect : (ref .effect).Grants EffectEntry.ofJson EffectEntry.KeepsLocalRules := by
  refine grants_ref (grants_record fun members entry h hread => ?_)
  obtain ⟨_, ⟨⟩, hread⟩ := exists_of_read hread
  obtain ⟨name, hname, hread⟩ := exists_of_bind_eq_ok hread
  obtain ⟨probability, hprobability, hread⟩ := exists_of_bind_eq_ok hread
  obtain ⟨satisfying, _, hread⟩ := exists_of_bind_eq_ok hread
  obtain ⟨turnsTrue, hturnsTrue, hread⟩ := exists_of_bind_eq_ok hread
  cases hread
  have hbounds := h.of_required rfl grants_probability hprobability
  exact ⟨h.of_required rfl grants_name hname, hbounds,
    h.of_withDefault rfl grants_distinctNames .nil hturnsTrue⟩

theorem grants_task : (ref .task).Grants TaskEntry.ofJson TaskEntry.KeepsLocalRules := by
  refine grants_ref (grants_record fun members entry h hread => ?_)
  obtain ⟨_, ⟨⟩, hread⟩ := exists_of_read hread
  obtain ⟨name, hname, hread⟩ := exists_of_bind_eq_ok hread
  obtain ⟨effects, heffects, hread⟩ := exists_of_bind_eq_ok hread
  cases hread
  exact ⟨h.of_required rfl grants_name hname, h.of_list rfl grants_effect heffects⟩

/-- The schema forbids that both members are present, linking that both lists have items. -/
theorem grants_goal : (ref .goal).Grants GoalEntry.ofJson GoalEntry.KeepsLocalRules := by
  refine grants_ref fun v entry hv haccepts hread => ?_
  obtain ⟨members, rfl, hkeywords⟩ := (accepts_object (by simp)).mp haccepts
  simp only [List.forall_mem_cons] at hkeywords
  obtain ⟨hclosed, hnegated, hrequired, -⟩ := hkeywords
  have h : RecordAccepted ["name"] _ members :=
    ⟨hv, Keyword.accepts_required.mp hrequired, Keyword.accepts_closed.mp hclosed⟩
  obtain ⟨_, ⟨⟩, hread⟩ := exists_of_read hread
  obtain ⟨name, hname, hread⟩ := exists_of_bind_eq_ok hread
  obtain ⟨and, hand, hread⟩ := exists_of_bind_eq_ok hread
  obtain ⟨or, hor, hread⟩ := exists_of_bind_eq_ok hread
  cases hread
  refine ⟨h.of_required rfl grants_name hname, ?_⟩
  -- were both members there, the schema would forbid the value
  rcases exists_of_withDefault hand with ⟨_, hnil⟩ | ⟨a, ha, _⟩
  · exact .inl hnil
  rcases exists_of_withDefault hor with ⟨_, hnil⟩ | ⟨o, ho, _⟩
  · exact .inr hnil
  refine absurd (accepts_all.mpr ?_) (Keyword.accepts_negated.mp hnegated)
  rw [List.forall_mem_singleton, Keyword.accepts_required, List.forall_mem_cons,
    List.forall_mem_singleton]
  exact ⟨⟨a, mem_of_lookup_eq_some ha⟩, ⟨o, mem_of_lookup_eq_some ho⟩⟩

theorem grants_qualityName :
    (ref .quality).Grants QualityEntry.ofJson fun entry => Identifier.Declarable entry.name := by
  refine grants_ref (grants_record fun members entry h hread => ?_)
  obtain ⟨_, ⟨⟩, hread⟩ := exists_of_read hread
  obtain ⟨name, hname, hread⟩ := exists_of_bind_eq_ok hread
  obtain ⟨root, _, hread⟩ := exists_of_bind_eq_ok hread
  obtain ⟨formula, _, hread⟩ := exists_of_bind_eq_ok hread
  cases hread
  exact h.of_required rfl grants_name hname

theorem grants_conditionName : (ref .condition).Grants ConditionEntry.ofJson
    fun entry => Identifier.Declarable entry.name := by
  refine grants_ref (grants_record fun members entry h hread => ?_)
  obtain ⟨_, ⟨⟩, hread⟩ := exists_of_read hread
  obtain ⟨name, hname, hread⟩ := exists_of_bind_eq_ok hread
  obtain ⟨formula, _, hread⟩ := exists_of_bind_eq_ok hread
  cases hread
  exact h.of_required rfl grants_name hname

theorem grants_actor : (ref .actor).Grants ActorEntry.ofJson ActorEntry.KeepsLocalRules := by
  refine grants_ref (grants_record fun members entry h hread => ?_)
  obtain ⟨_, ⟨⟩, hread⟩ := exists_of_read hread
  obtain ⟨name, _, hread⟩ := exists_of_bind_eq_ok hread
  obtain ⟨predicates, hpredicates, hread⟩ := exists_of_bind_eq_ok hread
  obtain ⟨stateVariables, hstateVariables, hread⟩ := exists_of_bind_eq_ok hread
  obtain ⟨goals, hgoals, hread⟩ := exists_of_bind_eq_ok hread
  obtain ⟨tasks, htasks, hread⟩ := exists_of_bind_eq_ok hread
  obtain ⟨qualities, hqualities, hread⟩ := exists_of_bind_eq_ok hread
  obtain ⟨conditions, hconditions, hread⟩ := exists_of_bind_eq_ok hread
  cases hread
  exact {
    predicates := h.of_list rfl grants_name hpredicates
    stateVariables := h.of_list rfl grants_name hstateVariables
    goals := h.of_list rfl grants_goal hgoals
    tasks := h.of_list rfl grants_task htasks
    qualities := h.of_list rfl grants_qualityName hqualities
    conditions := h.of_list rfl grants_conditionName hconditions }

theorem grants_document :
    modelSchema.Grants Document.ofJson fun d => ∀ actor ∈ d.actors, actor.KeepsLocalRules := by
  refine grants_record fun members document h hread => ?_
  obtain ⟨_, ⟨⟩, hread⟩ := exists_of_read hread
  obtain ⟨name, _, hread⟩ := exists_of_bind_eq_ok hread
  obtain ⟨actors, hactors, hread⟩ := exists_of_bind_eq_ok hread
  obtain ⟨crossRun, _, hread⟩ := exists_of_bind_eq_ok hread
  obtain ⟨exported, _, hread⟩ := exists_of_bind_eq_ok hread
  obtain ⟨initializations, _, hread⟩ := exists_of_bind_eq_ok hread
  cases hread
  exact h.of_required rfl (grants_listOf grants_actor) hactors

end

/-! ## Linking accepted documents -/

/-- **The schema covers the local rules.** Linking a document that was read from an accepted value
never reports a name that cannot be declared, a probability out of bounds, a goal that is refined
in both ways or a predicate that an effect names twice: what it reports is a name declared twice, a
reference, a child with two parents or listed twice, a cross-run element listed twice, several root
qualities, or a minimum above a maximum. -/
theorem nonLocal_of_checkSchema {v : Json} {d : Document} {errors : List LinkError}
    (hv : v.WellFormed) (hschema : checkSchema v = .ok ()) (hread : readDocument v = .ok d)
    (hlink : d.link = .error errors) : ∀ e ∈ errors, e.NonLocal := by
  have hrules := grants_document v d hv (checkSchema_eq_ok_iff.mp hschema)
    (readDocument_eq_ok.mp hread)
  exact Document.nonLocal_of_link hrules hlink

/-- A document with an error of each kind that only linking finds. -/
def Document.tangled : Document where
  name := "tangled"
  actors := [{
    name := "agent"
    predicates := ["Lit", "Lit"]
    stateVariables := []
    goals := [
      ⟨"Read", ["Sit", "Sit"], []⟩,
      ⟨"Rest", [], ["Sit", "Sleep", "Lit"]⟩]
    tasks := [⟨"Sit", [⟨"Sits", .one, true, ["Lit"]⟩]⟩]
    qualities := [⟨"Calm", true, .bool true⟩, ⟨"Quiet", true, .bool true⟩]
    conditions := [] }]
  crossRun := ["Calm", "Calm"]
  exported := [⟨"Quiet", .continuous, some .one, some .zero⟩]
  initializations := []

theorem tangled_nonLocal : Document.tangled.toJson.WellFormed ∧
    checkSchema Document.tangled.toJson = .ok () ∧
    ∃ errors, Document.tangled.link = .error errors ∧ (∀ e ∈ errors, e.NonLocal) ∧ errors = [
      .duplicateName "Lit",
      .repeatedChild "Read" "Sit",
      .severalParents "Sit" "Read" "Rest",
      .unresolved (.goal "Rest") "Sleep",
      .wrongRole (.goal "Rest") "Lit" .predicate .node,
      .severalRootQualities ["Calm", "Quiet"],
      .repeatedCrossRun "Calm",
      .invertedBounds "Quiet" .one .zero] := by
  have hv : Document.tangled.toJson.WellFormed := by
    have hfinite : Number.one.isFinite = true ∧ Number.zero.isFinite = true := by decide
    simpa [Document.tangled, Document.toJson, ActorEntry.toJson, GoalEntry.toJson, TaskEntry.toJson,
      EffectEntry.toJson, QualityEntry.toJson, Formula.toJson, ExportEntry.toJson, Domain.toJson,
      boundMember, Json.ofNames] using hfinite
  have hschema : checkSchema Document.tangled.toJson = .ok () :=
    eq_ok_of_toOption (by decide +kernel)
  have hread := readDocument_eq_ok.mpr (Document.ofJson_toJson Document.tangled)
  have hlink : Document.tangled.link = .error Document.tangled.linkErrors := by
    dsimp only [Document.link]
    rw [if_neg (by decide +kernel)]
  exact ⟨hv, hschema, _, hlink, nonLocal_of_checkSchema hv hschema hread hlink, by decide +kernel⟩

end GoalModel
