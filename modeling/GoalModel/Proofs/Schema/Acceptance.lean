import GoalModel.Proofs.Linking.WellFormed
import GoalModel.Schema.Model

/-! # Accepted values

A schema accepts a value if there is no violation (`Schema.Accepts`). Checking follows only so
many definitions in a row, and this bound is never noticed: a schema can see a definition's
verdict on the value itself only where it refers to it outside of the keywords that go down
(`Schema.refersTo`), which no definition does, and the values below are less deep
(`Definition.check_eq`). With the bound out of the way, what a schema accepts is a matter of its
keywords, each of which has its lemma here. -/

namespace GoalModel

/-! ## The depth of parts -/

theorem Json.depth_lt_of_mem_items {items : List Json} {item : Json} (h : item ∈ items) :
    item.depth < (Json.array items).depth := by
  have hle : item.depth ≤ depth.depthItems items := by
    induction items with
    | nil => cases h
    | cons first rest ih =>
      rcases List.mem_cons.mp h with rfl | h
      · exact Nat.le_max_left ..
      · exact Nat.le_trans (ih h) (Nat.le_max_right ..)
  exact Nat.lt_succ_of_le hle

theorem Json.depth_lt_of_mem_members {members : List (String × Json)} {member : String × Json}
    (h : member ∈ members) : member.2.depth < (Json.object members).depth := by
  have hle : member.2.depth ≤ depth.depthMembers members := by
    induction members with
    | nil => cases h
    | cons first rest ih =>
      rcases List.mem_cons.mp h with rfl | h
      · exact Nat.le_max_left ..
      · exact Nat.le_trans (ih h) (Nat.le_max_right ..)
  exact Nat.lt_succ_of_le hle

/-! ## References -/

mutual

/-- The definitions that a schema refers to for the whole value, not for a part of it. -/
def Schema.refersTo : Schema → List Definition
  | .never => []
  | .ref definition => [definition]
  | .all keywords => Keyword.allReferTo keywords

def Keyword.allReferTo : List Keyword → List Definition
  | [] => []
  | keyword :: rest => keyword.refersTo ++ Keyword.allReferTo rest

def Keyword.refersTo : Keyword → List Definition
  | .negated schema => schema.refersTo
  | .oneOf schemas => Schema.allReferTo schemas
  | _ => []

def Schema.allReferTo : List Schema → List Definition
  | [] => []
  | schema :: rest => schema.refersTo ++ Schema.allReferTo rest

end

/-- Two verdicts on definitions that agree below a value. -/
def AgreeBelow (r r' : Definition → Json → List Violation) (value : Json) : Prop :=
  ∀ d w, w.depth < value.depth → r d w = r' d w

variable {r r' : Definition → Json → List Violation}

mutual

theorem Schema.violations_congr : ∀ (schema : Schema) (value : Json),
    (∀ d ∈ schema.refersTo, r d value = r' d value) → AgreeBelow r r' value →
    schema.violations r value = schema.violations r' value
  | .never, _, _, _ => rfl
  | .ref d, _, h, _ => h d (List.mem_singleton_self d)
  | .all keywords, value, h, hbelow => Keyword.allViolations_congr keywords value h hbelow

theorem Keyword.allViolations_congr : ∀ (keywords : List Keyword) (value : Json),
    (∀ d ∈ Keyword.allReferTo keywords, r d value = r' d value) → AgreeBelow r r' value →
    Keyword.allViolations r keywords value = Keyword.allViolations r' keywords value
  | [], _, _, _ => rfl
  | keyword :: rest, value, h, hbelow => by
    rw [Keyword.allReferTo, List.forall_mem_append] at h
    rw [Keyword.allViolations, Keyword.allViolations,
      Keyword.violations_congr keyword value h.1 hbelow,
      Keyword.allViolations_congr rest value h.2 hbelow]

theorem Keyword.violations_congr : ∀ (keyword : Keyword) (value : Json),
    (∀ d ∈ keyword.refersTo, r d value = r' d value) → AgreeBelow r r' value →
    keyword.violations r value = keyword.violations r' value
  | .closed properties, value, _, hbelow => by
    cases value with
    | object members =>
      have hmembers : members.flatMap (fun m => propertyViolations r properties m.1 m.2) =
          members.flatMap (fun m => propertyViolations r' properties m.1 m.2) := by
        refine List.flatMap_congr fun member hmember => ?_
        have hlt := Json.depth_lt_of_mem_members hmember
        exact propertyViolations_congr properties member.1 member.2
          (fun d w hw => hbelow d w (Nat.lt_of_le_of_lt hw hlt))
      rw [Keyword.violations, Keyword.violations, hmembers]
    | _ => rfl
  | .enum _, _, _, _ => rfl
  | .exclusiveMinimum _, _, _, _ => rfl
  | .items schema behind, value, _, hbelow => by
    cases value with
    | array items =>
      refine List.flatMap_congr fun item hitem => ?_
      have hlt := Json.depth_lt_of_mem_items (List.mem_of_mem_drop hitem)
      exact Schema.violations_congr schema item (fun d _ => hbelow d item hlt)
        (fun d w hw => hbelow d w (Nat.lt_trans hw hlt))
    | _ => rfl
  | .maximum _, _, _, _ => rfl
  | .minItems _, value, _, _ => by cases value <;> rfl
  | .negated schema, value, h, hbelow => by
    rw [Keyword.violations, Keyword.violations, Schema.violations_congr schema value h hbelow]
  | .oneOf schemas, value, h, hbelow => by
    rw [Keyword.violations, Keyword.violations, acceptedCount_congr schemas value h hbelow]
  | .pattern _, value, _, _ => by cases value <;> rfl
  | .prefixItems schemas, value, _, hbelow => by
    cases value with
    | array items =>
      refine itemViolations_congr schemas items fun item hitem d w hw => ?_
      exact hbelow d w (Nat.lt_of_le_of_lt hw (Json.depth_lt_of_mem_items hitem))
    | _ => rfl
  | .required _, value, _, _ => by cases value <;> rfl
  | .type _, _, _, _ => rfl
  | .uniqueItems, value, _, _ => by cases value <;> rfl

theorem propertyViolations_congr : ∀ (properties : List (String × Schema)) (name : String)
    (value : Json), (∀ d w, w.depth ≤ value.depth → r d w = r' d w) →
    propertyViolations r properties name value = propertyViolations r' properties name value
  | [], _, _, _ => rfl
  | (property, schema) :: rest, name, value, h => by
    rw [propertyViolations, propertyViolations,
      Schema.violations_congr schema value (fun d _ => h d value (Nat.le_refl _))
        (fun d w hw => h d w (Nat.le_of_lt hw)),
      propertyViolations_congr rest name value h]

theorem itemViolations_congr : ∀ (schemas : List Schema) (items : List Json),
    (∀ item ∈ items, ∀ d w, w.depth ≤ item.depth → r d w = r' d w) →
    itemViolations r schemas items = itemViolations r' schemas items
  | [], _, _ => rfl
  | _ :: _, [], _ => rfl
  | schema :: schemas, item :: items, h => by
    obtain ⟨hitem, hitems⟩ := List.forall_mem_cons.mp h
    rw [itemViolations, itemViolations,
      Schema.violations_congr schema item (fun d _ => hitem d item (Nat.le_refl _))
        (fun d w hw => hitem d w (Nat.le_of_lt hw)),
      itemViolations_congr schemas items hitems]

theorem acceptedCount_congr : ∀ (schemas : List Schema) (value : Json),
    (∀ d ∈ Schema.allReferTo schemas, r d value = r' d value) → AgreeBelow r r' value →
    acceptedCount r schemas value = acceptedCount r' schemas value
  | [], _, _, _ => rfl
  | schema :: rest, value, h, hbelow => by
    rw [Schema.allReferTo, List.forall_mem_append] at h
    rw [acceptedCount, acceptedCount, Schema.violations_congr schema value h.1 hbelow,
      acceptedCount_congr rest value h.2 hbelow]

end

/-! ## The bound on levels -/

namespace Definition

variable {d : Definition} {v : Json}

theorem refersTo_schema (d : Definition) : d.schema.refersTo = [] := by
  cases d <;> rfl

/-- Levels beyond the depth of a value make no difference. -/
theorem violations_eq {levels levels' : Nat} (h : v.depth < levels) (h' : v.depth < levels') :
    d.violations levels v = d.violations levels' v := by
  induction levels generalizing d v levels' with
  | zero => cases h
  | succ n ih =>
    obtain ⟨n', rfl⟩ := Nat.exists_eq_add_one_of_ne_zero (Nat.ne_of_gt (Nat.zero_lt_of_lt h'))
    refine Schema.violations_congr d.schema v (fun e he => ?_) (fun e w hw => ?_)
    · rw [refersTo_schema] at he
      cases he
    · exact ih (Nat.lt_of_lt_of_le hw (Nat.le_of_lt_succ h))
        (Nat.lt_of_lt_of_le hw (Nat.le_of_lt_succ h'))

/-- A definition says what its schema says, where definitions below say what they say. -/
theorem check_eq : d.check v = d.schema.violations Definition.check v := by
  refine Schema.violations_congr d.schema v (fun e he => ?_) (fun e w hw => ?_)
  · rw [refersTo_schema] at he
    cases he
  · exact violations_eq hw (Nat.lt_succ_self _)

end Definition

theorem schemaViolations_eq (v : Json) :
    schemaViolations v = modelSchema.violations Definition.check v := by
  refine Schema.violations_congr modelSchema v (fun e he => ?_) (fun e w hw => ?_)
  · cases he
  · exact Definition.violations_eq (Nat.lt_succ_of_lt hw) (Nat.lt_succ_self _)

/-! ## Acceptance -/

def Schema.Accepts (schema : Schema) (v : Json) : Prop :=
  schema.violations Definition.check v = []

def Keyword.Accepts (keyword : Keyword) (v : Json) : Prop :=
  keyword.violations Definition.check v = []

def Definition.Accepts (d : Definition) (v : Json) : Prop := d.check v = []

instance (schema : Schema) (v : Json) : Decidable (schema.Accepts v) :=
  decidable_of_iff (schema.violations Definition.check v).isEmpty List.isEmpty_iff

instance (d : Definition) (v : Json) : Decidable (d.Accepts v) :=
  decidable_of_iff (d.check v).isEmpty List.isEmpty_iff

variable {d : Definition} {v : Json}

theorem Definition.accepts_iff : d.Accepts v ↔ d.schema.Accepts v := by
  rw [Accepts, check_eq]
  rfl

theorem Schema.not_accepts_never : ¬Schema.never.Accepts v := by
  simp [Accepts, violations]

theorem Schema.accepts_ref : (Schema.ref d).Accepts v ↔ d.Accepts v := Iff.rfl

theorem Schema.accepts_all {keywords : List Keyword} :
    (Schema.all keywords).Accepts v ↔ ∀ keyword ∈ keywords, keyword.Accepts v := by
  change Keyword.allViolations Definition.check keywords v = [] ↔ _
  induction keywords with
  | nil => simp [Keyword.allViolations]
  | cons keyword rest ih =>
    rw [Keyword.allViolations, List.append_eq_nil_iff, ih, List.forall_mem_cons]
    rfl

namespace Keyword

variable {items : List Json} {members : List (String × Json)}

theorem propertyViolations_eq_nil_iff {properties : List (String × Schema)} {name : String} :
    propertyViolations Definition.check properties name v = [] ↔
      ∀ schema, properties.lookup name = some schema → schema.Accepts v := by
  induction properties with
  | nil => simp [propertyViolations]
  | cons property rest ih =>
    obtain ⟨property, schema⟩ := property
    rw [propertyViolations, List.lookup_cons]
    by_cases h : property = name
    · subst h
      simp [Schema.Accepts]
    · rw [if_neg h, ih, beq_eq_false_iff_ne.mpr (Ne.symm h)]

theorem accepts_closed {properties : List (String × Schema)} :
    (closed properties).Accepts (.object members) ↔ ∀ member ∈ members,
      ∃ schema, properties.lookup member.1 = some schema ∧ schema.Accepts member.2 := by
  have hknown (name : String) :
      properties.any (·.1 == name) = true ↔ ∃ schema, properties.lookup name = some schema := by
    rw [← Option.isSome_iff_exists, List.lookup_isSome_iff, List.any_eq_true]
    refine exists_congr fun property => and_congr_right fun _ => ?_
    rw [beq_iff_eq, beq_iff_eq, eq_comm]
  simp only [Accepts, violations, List.append_eq_nil_iff, List.flatMap_eq_nil_iff,
    propertyViolations_eq_nil_iff, ite_eq_left_iff, reduceCtorEq, imp_false, not_not,
    List.isEmpty_iff, List.filter_eq_nil_iff, Bool.not_eq_true', Bool.not_eq_false, hknown]
  constructor
  · rintro ⟨haccepts, hproperties⟩ member hmember
    obtain ⟨schema, hschema⟩ := hproperties member hmember
    exact ⟨schema, hschema, haccepts member hmember schema hschema⟩
  · intro h
    refine ⟨fun member hmember schema hschema => ?_, fun member hmember => ?_⟩
    · obtain ⟨schema', hschema', haccepts⟩ := h member hmember
      obtain rfl := Option.some.inj (hschema.symm.trans hschema')
      exact haccepts
    · obtain ⟨schema, hschema, _⟩ := h member hmember
      exact ⟨schema, hschema⟩

theorem accepts_required {names : List String} :
    (required names).Accepts (.object members) ↔
      ∀ name ∈ names, ∃ value, (name, value) ∈ members := by
  simp [Accepts, violations]

theorem accepts_type {types : List JsonType} :
    (type types).Accepts v ↔ ∃ t ∈ types, t.holds v = true := by
  simp [Accepts, violations]

theorem accepts_items {schema : Schema} {behind : Nat} :
    (Keyword.items schema behind).Accepts (.array items) ↔
      ∀ item ∈ items.drop behind, schema.Accepts item := List.flatMap_eq_nil_iff

theorem accepts_minItems {count : Nat} :
    (minItems count).Accepts (.array items) ↔ count ≤ items.length := by
  simp [Accepts, violations]

theorem accepts_prefixItems {schemas : List Schema} :
    (prefixItems schemas).Accepts (.array items) ↔
      ∀ pair ∈ schemas.zip items, pair.1.Accepts pair.2 := by
  change itemViolations Definition.check schemas items = [] ↔ _
  induction schemas generalizing items with
  | nil => simp [itemViolations]
  | cons schema schemas ih =>
    cases items with
    | nil => simp [itemViolations]
    | cons item items =>
      rw [itemViolations, List.append_eq_nil_iff, ih, List.zip_cons_cons, List.forall_mem_cons]
      rfl

theorem accepts_negated {schema : Schema} : (negated schema).Accepts v ↔ ¬schema.Accepts v := by
  simp [Accepts, violations, Schema.Accepts]

/-- Of alternatives that exclude each other, exactly one accepts a value as soon as any does. -/
theorem accepts_oneOf {schemas : List Schema}
    (hexclusive : schemas.Pairwise fun s s' => ¬(s.Accepts v ∧ s'.Accepts v)) :
    (oneOf schemas).Accepts v ↔ ∃ schema ∈ schemas, schema.Accepts v := by
  have hcount : acceptedCount Definition.check schemas v =
      if ∃ schema ∈ schemas, schema.Accepts v then 1 else 0 := by
    induction schemas with
    | nil => simp [acceptedCount]
    | cons schema rest ih =>
      obtain ⟨hfirst, hrest⟩ := List.pairwise_cons.mp hexclusive
      rw [acceptedCount, ih hrest]
      by_cases h : schema.Accepts v
      · have hnone : ¬∃ s ∈ rest, s.Accepts v := by
          rintro ⟨s, hs, haccepts⟩
          exact hfirst s hs ⟨h, haccepts⟩
        rw [if_neg hnone, if_pos (List.isEmpty_iff.mpr h),
          if_pos ⟨schema, List.mem_cons_self .., h⟩]
      · have hsame : (∃ s ∈ schema :: rest, s.Accepts v) ↔ ∃ s ∈ rest, s.Accepts v := by
          simp [h]
        rw [if_neg (fun hnil => h (List.isEmpty_iff.mp hnil)), Nat.zero_add]
        simp only [hsame]
  rw [Accepts, violations, hcount]
  by_cases h : ∃ schema ∈ schemas, schema.Accepts v <;> simp [h]

theorem accepts_pattern {p : Pattern} {s : String} :
    (pattern p).Accepts (.string s) ↔ p.accepts s = true := by
  simp [Accepts, violations]

theorem accepts_enum {values : List String} :
    (enum values).Accepts v ↔ ∃ s ∈ values, v = .string s := by
  cases v <;> simp [Accepts, violations]

theorem accepts_exclusiveMinimum {limit : Int} :
    (exclusiveMinimum limit).Accepts v ↔ v.atMost limit = false := by
  simp [Accepts, violations]

theorem accepts_maximum {limit : Int} :
    (maximum limit).Accepts v ↔ v.above limit = false := by
  simp [Accepts, violations]

theorem accepts_uniqueItems :
    uniqueItems.Accepts (.array items) ↔ items.Pairwise fun a b => Json.equal a b = false := by
  have hdistinct : Json.allDistinct items = true ↔
      items.Pairwise fun a b => Json.equal a b = false := by
    induction items with
    | nil => simp [Json.allDistinct]
    | cons item rest ih => simp [Json.allDistinct, ih]
  rw [← hdistinct]
  simp [Accepts, violations]

end Keyword

/-! ## Values of a type -/

namespace Schema

theorem accepts_string : string.Accepts v ↔ ∃ s, v = .string s := by
  rw [string, accepts_all, List.forall_mem_singleton, Keyword.accepts_type]
  cases v <;> simp [JsonType.holds]

theorem accepts_number : number.Accepts v ↔ (∃ n, v = .int n) ∨ ∃ x, v = .float x := by
  rw [number, accepts_all, List.forall_mem_singleton, Keyword.accepts_type]
  cases v <;> simp [JsonType.holds]

theorem accepts_boolean : boolean.Accepts v ↔ ∃ b, v = .bool b := by
  rw [boolean, accepts_all, List.forall_mem_singleton, Keyword.accepts_type]
  cases v <;> simp [JsonType.holds]

theorem accepts_array {keywords : List Keyword} (htype : .type [.array] ∈ keywords) :
    (all keywords).Accepts v ↔
      ∃ items, v = .array items ∧ ∀ keyword ∈ keywords, keyword.Accepts (.array items) := by
  rw [accepts_all]
  constructor
  · intro h
    have harray := Keyword.accepts_type.mp (h _ htype)
    cases v with
    | array items => exact ⟨items, rfl, h⟩
    | _ => simp [JsonType.holds] at harray
  · rintro ⟨items, rfl, h⟩
    exact h

theorem accepts_object {keywords : List Keyword} (htype : .type [.object] ∈ keywords) :
    (all keywords).Accepts v ↔
      ∃ members, v = .object members ∧ ∀ keyword ∈ keywords, keyword.Accepts (.object members) := by
  rw [accepts_all]
  constructor
  · intro h
    have hobject := Keyword.accepts_type.mp (h _ htype)
    cases v with
    | object members => exact ⟨members, rfl, h⟩
    | _ => simp [JsonType.holds] at hobject
  · rintro ⟨members, rfl, h⟩
    exact h

theorem accepts_listOf :
    (listOf d).Accepts v ↔ ∃ items, v = .array items ∧ ∀ item ∈ items, d.Accepts item := by
  rw [listOf, accepts_array (by simp)]
  simp [Keyword.accepts_items, Keyword.accepts_type, JsonType.holds, accepts_ref]

theorem accepts_record {required : List String} {properties : List (String × Schema)} :
    (record required properties).Accepts v ↔ ∃ members, v = .object members ∧
      (∀ name ∈ required, ∃ value, (name, value) ∈ members) ∧
      ∀ member ∈ members,
        ∃ schema, properties.lookup member.1 = some schema ∧ schema.Accepts member.2 := by
  rw [record, accepts_object (by simp)]
  simp [Keyword.accepts_closed, Keyword.accepts_required, Keyword.accepts_type, JsonType.holds,
    and_comm]

end Schema

/-! ## Names -/

namespace Definition

theorem accepts_name : name.Accepts v ↔ ∃ s, v = .string s ∧ Identifier.Declarable s := by
  rw [accepts_iff, schema, Schema.accepts_all]
  simp only [List.forall_mem_cons, Keyword.accepts_negated, Keyword.accepts_type,
    Schema.accepts_all, List.not_mem_nil, false_imp_iff, implies_true, and_true]
  constructor
  · rintro ⟨hreserved, hpattern, htype⟩
    cases v with
    | string s =>
      rw [Keyword.accepts_pattern] at hreserved hpattern
      have hnone : Identifier.reservedEnding? s = none := by
        simpa [Pattern.accepts] using hreserved
      exact ⟨s, rfl, Identifier.declarable_iff.mpr ⟨hpattern, hnone⟩⟩
    | _ => simp [JsonType.holds] at htype
  · rintro ⟨s, rfl, hs⟩
    obtain ⟨hvalid, hreserved⟩ := Identifier.declarable_iff.mp hs
    simp [Keyword.accepts_pattern, Pattern.accepts, hvalid, hreserved, JsonType.holds]

end Definition

end GoalModel
