import GoalModel.Proofs.Schema.Formulas

/-! # Accepted documents

A value that the schema accepts is read without an error (`accepted_readable`). Part by part, a
schema ensures that a reader succeeds (`Schema.Ensures`): of plain values, lists and formulas the
reader wants no more than the schema has checked, and the fields of a record are found among its
members, because the record has those that are required and none that has no property
(`RecordAccepted`). -/

namespace GoalModel

/-- What the schema accepts can be read. -/
def Schema.Ensures {α : Type} (schema : Schema) (read : Json → Except ReadError α) : Prop :=
  ∀ v : Json, v.WellFormed → schema.Accepts v → ∃ a, read v = .ok a

namespace Schema

variable {α : Type} {read : Json → Except ReadError α} {d : Definition}

theorem ensures_ref (h : d.schema.Ensures read) : (ref d).Ensures read :=
  fun v hv haccepts => h v hv (Definition.accepts_iff.mp haccepts)

/-! ## Plain values and lists -/

theorem ensures_string : string.Ensures Json.asString := by
  intro v _ h
  obtain ⟨s, rfl⟩ := accepts_string.mp h
  exact ⟨s, rfl⟩

theorem ensures_boolean : boolean.Ensures Json.asBool := by
  intro v _ h
  obtain ⟨b, rfl⟩ := accepts_boolean.mp h
  exact ⟨b, rfl⟩

theorem ensures_name : (ref .name).Ensures Json.asString := by
  intro v _ h
  obtain ⟨s, rfl, _⟩ := Definition.accepts_name.mp h
  exact ⟨s, rfl⟩

theorem ensures_formula : (ref .formula).Ensures Formula.ofJson := by
  intro v hv h
  obtain ⟨f, hform, _⟩ := Definition.exists_form_of_accepts hv h
  exact ⟨f, hform.ofJson⟩

theorem ensures_number : number.Ensures Json.asNumber := by
  intro v _ h
  rcases accepts_number.mp h with ⟨n, rfl⟩ | ⟨x, rfl⟩
  · exact ⟨_, rfl⟩
  · exact ⟨x, rfl⟩

theorem ensures_bound : number.Ensures Json.asBound := by
  intro v hv h
  rcases accepts_number.mp h with ⟨n, rfl⟩ | ⟨x, rfl⟩
  · exact ⟨_, rfl⟩
  · exact ⟨some x, rfl⟩

theorem ensures_items {keywords : List Keyword} (htype : .type [.array] ∈ keywords)
    (hitems : .items (.ref d) 0 ∈ keywords) (h : (ref d).Ensures read) :
    (all keywords).Ensures (Json.asList read) := by
  intro v hv haccepts
  obtain ⟨items, rfl, hkeywords⟩ := (accepts_array htype).mp haccepts
  have hitem := Keyword.accepts_items.mp (hkeywords _ hitems)
  exact exists_mapM_eq_ok fun item hmem =>
    h item (Json.wellFormed_array_iff.mp hv item hmem) (hitem item hmem)

theorem ensures_probability :
    (all [.exclusiveMinimum 0, .maximum 1, .type [.number]]).Ensures Json.asNumber := by
  intro v hv h
  refine ensures_number v hv (accepts_all.mpr (List.forall_mem_singleton.mpr ?_))
  exact accepts_all.mp h _ (by simp)

theorem ensures_distinctNames :
    (all [.items (.ref .name) 0, .type [.array], .uniqueItems]).Ensures
      (Json.asList Json.asString) :=
  ensures_items (by simp) (by simp) ensures_name

theorem ensures_listOf (h : (ref d).Ensures read) : (listOf d).Ensures (Json.asList read) :=
  ensures_items (by simp) (by simp) h

theorem ensures_domain : (all [.enum ["discrete", "continuous"]]).Ensures Domain.ofJson := by
  intro v _ h
  obtain ⟨s, hs, rfl⟩ := Keyword.accepts_enum.mp (accepts_all.mp h _ (.head _))
  rcases List.mem_pair.mp hs with rfl | rfl
  · exact ⟨.discrete, rfl⟩
  · exact ⟨.continuous, rfl⟩

theorem ensures_initialValue :
    (all [.type [.boolean, .number, .string]]).Ensures InitialValue.ofJson := by
  intro v _ h
  obtain ⟨t, ht, hholds⟩ := Keyword.accepts_type.mp (accepts_all.mp h _ (.head _))
  simp only [List.mem_cons, List.not_mem_nil, or_false] at ht
  cases v with
  | bool b => exact ⟨.bool b, rfl⟩
  | int n => exact ⟨.number (.ofInt n), rfl⟩
  | float x => exact ⟨.number x, rfl⟩
  | string s => exact ⟨.text s, rfl⟩
  | _ => rcases ht with rfl | rfl | rfl <;> cases hholds

end Schema

/-! ## Records -/

/-- The members of an object, as the schema of a record accepts them. -/
structure RecordAccepted (names : List String) (properties : List (String × Schema))
    (members : List (String × Json)) : Prop where
  wellFormed : (Json.object members).WellFormed
  required : ∀ name ∈ names, ∃ value, (name, value) ∈ members
  known : ∀ member ∈ members,
    ∃ schema, properties.lookup member.1 = some schema ∧ schema.Accepts member.2

namespace RecordAccepted

variable {α : Type} {names : List String} {properties : List (String × Schema)}
  {members : List (String × Json)} (h : RecordAccepted names properties members)
  {schema : Schema} {read : Json → Except ReadError α} (place : Nat) (name : String)
include h

theorem accepts_value {value : Json} (hschema : properties.lookup name = some schema)
    (hvalue : members.lookup name = some value) : value.WellFormed ∧ schema.Accepts value := by
  have hmem := mem_of_lookup_eq_some hvalue
  obtain ⟨schema', hschema', haccepts⟩ := h.known _ hmem
  obtain rfl := Option.some.inj (hschema.symm.trans hschema')
  exact ⟨(Json.wellFormed_object_iff.mp h.wellFormed).2 _ hmem, haccepts⟩

theorem exists_read {value : Json} (hschema : properties.lookup name = some schema)
    (hread : schema.Ensures read) (hvalue : members.lookup name = some value) :
    ∃ a, read value = .ok a := by
  obtain ⟨hwf, haccepts⟩ := h.accepts_value name hschema hvalue
  exact hread value hwf haccepts

theorem exists_field (hschema : properties.lookup name = some schema)
    (hread : schema.Ensures read) :
    ∃ a?, (Fields.named members).field place name read = .ok a? := by
  cases hvalue : (Fields.named members).value? place name with
  | none => exact ⟨none, Fields.field_of_absent hvalue⟩
  | some value =>
    obtain ⟨a, ha⟩ := h.exists_read name hschema hread hvalue
    rw [Fields.field_of_value? hvalue, ha]
    exact ⟨some a, rfl⟩

theorem exists_required (hname : name ∈ names) (hschema : properties.lookup name = some schema)
    (hread : schema.Ensures read) :
    ∃ a, (Fields.named members).field place name read = .ok (some a) := by
  obtain ⟨value, hmem⟩ := h.required name hname
  have hfound : ((Fields.named members).value? place name).isSome = true :=
    List.lookup_isSome_iff.mpr ⟨_, hmem, beq_self_eq_true name⟩
  obtain ⟨value, hvalue⟩ := Option.isSome_iff_exists.mp hfound
  obtain ⟨a, ha⟩ := h.exists_read name hschema hread hvalue
  rw [Fields.field_of_value? hvalue, ha]
  exact ⟨a, rfl⟩

end RecordAccepted

theorem Schema.ensures_object {α : Type} {keywords : List Keyword} {names : List String}
    {properties : List (String × Schema)} {read : Json → Except ReadError α}
    (htype : .type [.object] ∈ keywords) (hclosed : .closed properties ∈ keywords)
    (hrequired : .required names ∈ keywords)
    (h : ∀ members, RecordAccepted names properties members → ∃ a, read (.object members) = .ok a) :
    (all keywords).Ensures read := by
  intro v hv haccepts
  obtain ⟨members, rfl, hkeywords⟩ := (accepts_object htype).mp haccepts
  exact h members {
    wellFormed := hv
    required := Keyword.accepts_required.mp (hkeywords _ hrequired)
    known := Keyword.accepts_closed.mp (hkeywords _ hclosed) }

theorem Schema.ensures_record {α : Type} {names : List String}
    {properties : List (String × Schema)} {read : Json → Except ReadError α}
    (h : ∀ members, RecordAccepted names properties members → ∃ a, read (.object members) = .ok a) :
    (record names properties).Ensures read :=
  ensures_object (by simp) (.head _) (.tail _ (.head _)) h

section

open Schema

theorem GoalEntry.ensures_ofJson : (ref .goal).Ensures GoalEntry.ofJson := by
  refine ensures_ref (ensures_object (by simp) (.head _) (.tail _ (.tail _ (.head _)))
    fun members h => ?_)
  obtain ⟨name, hname⟩ := h.exists_required 0 "name" (by simp) rfl ensures_name
  obtain ⟨and, hand⟩ := h.exists_field 1 "and" rfl (ensures_listOf ensures_name)
  obtain ⟨or, hor⟩ := h.exists_field 2 "or" rfl (ensures_listOf ensures_name)
  refine ⟨⟨name, and.getD [], or.getD []⟩, ?_⟩
  unfold GoalEntry.ofJson
  dsimp only [Fields.ofJson, bind, Except.bind]
  rw [hname, hand, hor]
  rfl

theorem EffectEntry.ensures_ofJson : (ref .effect).Ensures EffectEntry.ofJson := by
  refine ensures_ref (ensures_record fun members h => ?_)
  obtain ⟨name, hname⟩ := h.exists_required 0 "name" (by simp) rfl ensures_name
  obtain ⟨probability, hprobability⟩ :=
    h.exists_required 1 "probability" (by simp) rfl ensures_probability
  obtain ⟨satisfying, hsatisfying⟩ := h.exists_field 2 "satisfying" rfl ensures_boolean
  obtain ⟨turnsTrue, hturnsTrue⟩ := h.exists_field 3 "turnsTrue" rfl ensures_distinctNames
  refine ⟨⟨name, probability, satisfying.getD false, turnsTrue.getD []⟩, ?_⟩
  unfold EffectEntry.ofJson
  dsimp only [Fields.ofJson, bind, Except.bind]
  rw [hname, hprobability, hsatisfying, hturnsTrue]
  rfl

theorem TaskEntry.ensures_ofJson : (ref .task).Ensures TaskEntry.ofJson := by
  refine ensures_ref (ensures_record fun members h => ?_)
  obtain ⟨name, hname⟩ := h.exists_required 0 "name" (by simp) rfl ensures_name
  obtain ⟨effects, heffects⟩ :=
    h.exists_field 1 "effects" rfl (ensures_listOf EffectEntry.ensures_ofJson)
  refine ⟨⟨name, effects.getD []⟩, ?_⟩
  unfold TaskEntry.ofJson
  dsimp only [Fields.ofJson, bind, Except.bind]
  rw [hname, heffects]
  rfl

theorem QualityEntry.ensures_ofJson : (ref .quality).Ensures QualityEntry.ofJson := by
  refine ensures_ref (ensures_record fun members h => ?_)
  obtain ⟨name, hname⟩ := h.exists_required 0 "name" (by simp) rfl ensures_name
  obtain ⟨root, hroot⟩ := h.exists_field 1 "root" rfl ensures_boolean
  obtain ⟨formula, hformula⟩ := h.exists_required 2 "formula" (by simp) rfl ensures_formula
  refine ⟨⟨name, root.getD false, formula⟩, ?_⟩
  unfold QualityEntry.ofJson
  dsimp only [Fields.ofJson, bind, Except.bind]
  rw [hname, hroot, hformula]
  rfl

theorem ConditionEntry.ensures_ofJson : (ref .condition).Ensures ConditionEntry.ofJson := by
  refine ensures_ref (ensures_record fun members h => ?_)
  obtain ⟨name, hname⟩ := h.exists_required 0 "name" (by simp) rfl ensures_name
  obtain ⟨formula, hformula⟩ := h.exists_required 1 "formula" (by simp) rfl ensures_formula
  refine ⟨⟨name, formula⟩, ?_⟩
  unfold ConditionEntry.ofJson
  dsimp only [Fields.ofJson, bind, Except.bind]
  rw [hname, hformula]
  rfl

theorem ActorEntry.ensures_ofJson : (ref .actor).Ensures ActorEntry.ofJson := by
  refine ensures_ref (ensures_record fun members h => ?_)
  obtain ⟨name, hname⟩ := h.exists_field 0 "name" rfl ensures_string
  obtain ⟨predicates, hpredicates⟩ :=
    h.exists_field 1 "predicates" rfl (ensures_listOf ensures_name)
  obtain ⟨stateVariables, hstateVariables⟩ :=
    h.exists_field 2 "variables" rfl (ensures_listOf ensures_name)
  obtain ⟨goals, hgoals⟩ := h.exists_field 3 "goals" rfl (ensures_listOf GoalEntry.ensures_ofJson)
  obtain ⟨tasks, htasks⟩ := h.exists_field 4 "tasks" rfl (ensures_listOf TaskEntry.ensures_ofJson)
  obtain ⟨qualities, hqualities⟩ :=
    h.exists_field 5 "qualities" rfl (ensures_listOf QualityEntry.ensures_ofJson)
  obtain ⟨conditions, hconditions⟩ :=
    h.exists_field 6 "conditions" rfl (ensures_listOf ConditionEntry.ensures_ofJson)
  refine ⟨⟨name.getD "", predicates.getD [], stateVariables.getD [], goals.getD [],
    tasks.getD [], qualities.getD [], conditions.getD []⟩, ?_⟩
  unfold ActorEntry.ofJson
  dsimp only [Fields.ofJson, bind, Except.bind]
  rw [hname, hpredicates, hstateVariables, hgoals, htasks, hqualities, hconditions]
  rfl

theorem ExportEntry.ensures_ofJson : (ref .exported).Ensures ExportEntry.ofJson := by
  refine ensures_ref (ensures_record fun members h => ?_)
  obtain ⟨name, hname⟩ := h.exists_required 0 "name" (by simp) rfl ensures_name
  obtain ⟨domain, hdomain⟩ := h.exists_required 1 "domain" (by simp) rfl ensures_domain
  obtain ⟨min, hmin⟩ := h.exists_field 2 "min" rfl ensures_bound
  obtain ⟨max, hmax⟩ := h.exists_field 3 "max" rfl ensures_bound
  refine ⟨⟨name, domain, min.getD none, max.getD none⟩, ?_⟩
  unfold ExportEntry.ofJson
  dsimp only [Fields.ofJson, bind, Except.bind]
  rw [hname, hdomain, hmin, hmax]
  rfl

theorem InitialEntry.ensures_ofJson : (ref .initialization).Ensures InitialEntry.ofJson := by
  refine ensures_ref (ensures_record fun members h => ?_)
  obtain ⟨name, hname⟩ := h.exists_required 0 "name" (by simp) rfl ensures_name
  obtain ⟨value, hvalue⟩ := h.exists_required 1 "value" (by simp) rfl ensures_initialValue
  refine ⟨⟨name, value⟩, ?_⟩
  unfold InitialEntry.ofJson
  dsimp only [Fields.ofJson, bind, Except.bind]
  rw [hname, hvalue]
  rfl

theorem Document.ensures_ofJson : modelSchema.Ensures Document.ofJson := by
  refine ensures_record fun members h => ?_
  obtain ⟨name, hname⟩ := h.exists_field 0 "name" rfl ensures_string
  obtain ⟨actors, hactors⟩ :=
    h.exists_required 1 "actors" (by simp) rfl (ensures_listOf ActorEntry.ensures_ofJson)
  obtain ⟨crossRun, hcrossRun⟩ := h.exists_field 2 "crossRun" rfl (ensures_listOf ensures_name)
  obtain ⟨exported, hexported⟩ :=
    h.exists_field 3 "exported" rfl (ensures_listOf ExportEntry.ensures_ofJson)
  obtain ⟨initializations, hinitializations⟩ :=
    h.exists_field 4 "initializations" rfl (ensures_listOf InitialEntry.ensures_ofJson)
  refine ⟨⟨name.getD "", actors, crossRun.getD [], exported.getD [], initializations.getD []⟩, ?_⟩
  unfold Document.ofJson
  dsimp only [Fields.ofJson, bind, Except.bind]
  rw [hname, hactors, hcrossRun, hexported, hinitializations]
  rfl

end

/-! ## Whole texts -/

theorem checkSchema_eq_ok_iff {v : Json} : checkSchema v = .ok () ↔ modelSchema.Accepts v := by
  rw [Schema.Accepts, ← schemaViolations_eq]
  unfold checkSchema
  cases schemaViolations v <;> simp

theorem readDocument_eq_ok {v : Json} {d : Document} :
    readDocument v = .ok d ↔ Document.ofJson v = .ok d := by
  unfold readDocument
  cases Document.ofJson v <;> simp

theorem checkSchema_ne_document {v : Json} {e : ReadError} :
    checkSchema v ≠ .error (.document e) := by
  unfold checkSchema
  split <;> simp

theorem Document.validModel_ne_document {d : Document} {e : ReadError} :
    d.validModel ≠ .error (.document e) := by
  unfold validModel
  split
  · simp
  · split <;> simp

/-- A value that satisfies the schema is a document, so a text whose schema is checked is never
refused for its document. -/
theorem accepted_readable :
    (∀ v : Json, v.WellFormed → checkSchema v = .ok () → ∃ d, readDocument v = .ok d) ∧
      ∀ text e, parseModel text true ≠ .error (.document e) := by
  have hreadable (v : Json) (hv : v.WellFormed) (h : checkSchema v = .ok ()) :
      ∃ d, readDocument v = .ok d := by
    obtain ⟨d, hd⟩ := Document.ensures_ofJson v hv (checkSchema_eq_ok_iff.mp h)
    exact ⟨d, readDocument_eq_ok.mpr hd⟩
  refine ⟨hreadable, fun text e h => ?_⟩
  unfold parseModel at h
  split at h
  · cases h
  · next v hread =>
    rw [if_pos rfl] at h
    cases hschema : checkSchema v with
    | error error =>
      rw [hschema] at h
      cases h
      exact checkSchema_ne_document hschema
    | ok =>
      obtain ⟨d, hd⟩ := hreadable v (Json.wellFormed_of_read? hread) hschema
      rw [hschema, hd] at h
      exact Document.validModel_ne_document h

theorem doorText_readable : ∃ v d, Json.read? doorText = some v ∧ checkSchema v = .ok () ∧
    readDocument v = .ok d := by
  obtain ⟨v, _, hread, hschema, _⟩ := exists_of_parseModel parseModel_doorText
  obtain ⟨d, hd⟩ := accepted_readable.1 v (Json.wellFormed_of_read? hread) (hschema rfl)
  exact ⟨v, d, hread, hschema rfl, hd⟩

end GoalModel
