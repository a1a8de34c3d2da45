import GoalModel.Proofs.Document.Reading
import GoalModel.Proofs.Json.WellFormed
import GoalModel.Proofs.Schema.Acceptance

/-! # Accepted formulas

The reader and the schema describe formulas apart from each other: one by a tag and what it
expects as payload, the other by a choice of records with one member. Between them stand the
forms of formulas (`Formula.Form`). What is read are exactly the forms
(`Formula.ofJson_eq_ok_iff`). The schema accepts exactly the forms whose atoms are names that may
be declared (`Definition.accepts_of_form`, `Definition.exists_form_of_accepts`), since at most one
alternative of the choice can accept a value (`FormulaTag.exclusive`) and no name comes twice in
an object. -/

namespace GoalModel

/-! ## Records with one member -/

namespace Schema

variable {v : Json} {tag : String} {payload : Schema}

theorem accepts_tagged : (tagged tag payload).Accepts v ↔ ∃ members, v = .object members ∧
    (∃ w, (tag, w) ∈ members) ∧ ∀ member ∈ members, member.1 = tag ∧ payload.Accepts member.2 := by
  simp only [tagged, accepts_record, List.forall_mem_singleton]
  refine exists_congr fun members => and_congr_right fun _ => and_congr_right fun _ => ?_
  refine forall₂_congr fun member _ => ?_
  rw [List.lookup_cons]
  by_cases h : member.1 = tag
  · simp [h]
  · simp [h, beq_eq_false_iff_ne.mpr h]

theorem accepts_tagged_singleton {w : Json} (h : payload.Accepts w) :
    (tagged tag payload).Accepts (.object [(tag, w)]) :=
  accepts_tagged.mpr
    ⟨_, rfl, ⟨w, List.mem_singleton_self _⟩, List.forall_mem_singleton.mpr ⟨rfl, h⟩⟩

/-- Where no name comes twice, a record with one property has one member. -/
theorem eq_singleton_of_accepts_tagged (hv : v.WellFormed) (h : (tagged tag payload).Accepts v) :
    ∃ w, v = .object [(tag, w)] ∧ payload.Accepts w := by
  obtain ⟨members, rfl, ⟨w, hw⟩, hmembers⟩ := accepts_tagged.mp h
  rcases members with _ | ⟨⟨name, w'⟩, _ | ⟨second, rest⟩⟩
  · cases hw
  · obtain ⟨rfl, haccepts⟩ := hmembers (name, w') (.head _)
    exact ⟨w', rfl, haccepts⟩
  · have hfirst : name = tag := (hmembers (name, w') (.head _)).1
    have hsecond := (hmembers second (.tail _ (.head _))).1
    have hnodup := (Json.wellFormed_object_iff.mp hv).1
    rw [List.map_cons, List.nodup_cons, hfirst, List.map_cons, hsecond] at hnodup
    exact absurd (List.mem_cons_self ..) hnodup.1

end Schema

/-! ## Formulas -/

/-- What the schema demands of the payload of a tag. -/
def FormulaTag.payload : FormulaTag → Schema
  | .atom => .ref .name
  | .number => .number
  | .bool => .boolean
  | .binary _ => .ref .operands
  | .unary _ => .ref .formula

/-- An object cannot have two tags. -/
theorem FormulaTag.exclusive (v : Json) :
    (all.map fun tag => Schema.tagged tag.name tag.payload).Pairwise
      fun s s' => ¬(s.Accepts v ∧ s'.Accepts v) := by
  have hne : all.Pairwise fun tag tag' => tag.name ≠ tag'.name := List.pairwise_map.mp nodup_names
  refine List.pairwise_map.mpr (hne.imp fun hne => ?_)
  rintro ⟨h, h'⟩
  obtain ⟨members, rfl, ⟨w, hw⟩, _⟩ := Schema.accepts_tagged.mp h
  obtain ⟨_, hmembers, _, hsame⟩ := Schema.accepts_tagged.mp h'
  cases hmembers
  exact hne (hsame _ hw).1

namespace Definition

variable {v : Json}

theorem schema_formula : formula.schema =
    .all [.oneOf (FormulaTag.all.map fun tag => .tagged tag.name tag.payload)] := rfl

theorem accepts_formula_iff_tagged : formula.Accepts v ↔
    ∃ tag : FormulaTag, (Schema.tagged tag.name tag.payload).Accepts v := by
  rw [accepts_iff, schema_formula, Schema.accepts_all, List.forall_mem_singleton,
    Keyword.accepts_oneOf (FormulaTag.exclusive v)]
  constructor
  · rintro ⟨_, hschema, haccepts⟩
    obtain ⟨tag, _, rfl⟩ := List.mem_map.mp hschema
    exact ⟨tag, haccepts⟩
  · rintro ⟨tag, haccepts⟩
    exact ⟨_, List.mem_map_of_mem tag.mem_all, haccepts⟩

/-- Two operands, each a formula. -/
theorem accepts_operands : operands.Accepts v ↔
    ∃ left right, v = .array [left, right] ∧ formula.Accepts left ∧ formula.Accepts right := by
  rw [accepts_iff, schema, Schema.accepts_array (by simp)]
  simp only [List.forall_mem_cons, Keyword.accepts_items, Keyword.accepts_minItems,
    Keyword.accepts_prefixItems]
  constructor
  · rintro ⟨items, rfl, hbehind, htwo, hprefix, _⟩
    rcases items with _ | ⟨left, _ | ⟨right, _ | ⟨item, rest⟩⟩⟩
    · cases htwo
    · cases Nat.le_of_succ_le_succ htwo
    · exact ⟨left, right, rfl, hprefix (.ref .formula, left) (.head _),
        hprefix (.ref .formula, right) (.tail _ (.head _))⟩
    · exact absurd (hbehind item (.head _)) Schema.not_accepts_never
  · rintro ⟨left, right, rfl, hleft, hright⟩
    refine ⟨_, rfl, fun _ h => absurd h List.not_mem_nil, Nat.le_refl _, ?_, ?_⟩
    · exact List.forall_mem_cons.mpr ⟨hleft, List.forall_mem_singleton.mpr hright⟩
    · simp [Keyword.accepts_type, JsonType.holds]

/-- A form is accepted if its atoms may be declared. -/
theorem accepts_of_form {f : Formula String} (h : Formula.Form v f)
    (hatoms : ∀ a ∈ f.atoms, Identifier.Declarable a) : formula.Accepts v := by
  have htagged (tag : FormulaTag) {w : Json} (hw : tag.payload.Accepts w) :
      formula.Accepts (.object [(tag.name, w)]) :=
    accepts_formula_iff_tagged.mpr ⟨tag, Schema.accepts_tagged_singleton hw⟩
  induction h with
  | atom name => exact htagged .atom (accepts_name.mpr ⟨name, rfl, hatoms name (.head _)⟩)
  | int n => exact htagged .number (Schema.accepts_number.mpr (.inl ⟨n, rfl⟩))
  | float x => exact htagged .number (Schema.accepts_number.mpr (.inr ⟨x, rfl⟩))
  | bool b => exact htagged .bool (Schema.accepts_boolean.mpr ⟨b, rfl⟩)
  | binary op _ _ ihl ihr =>
    obtain ⟨hleft, hright⟩ := List.forall_mem_append.mp hatoms
    exact htagged (.binary op) (accepts_operands.mpr ⟨_, _, rfl, ihl hleft, ihr hright⟩)
  | unary op _ ih => exact htagged (.unary op) (ih hatoms)

/-- What is accepted is a form. -/
theorem exists_form_of_accepts (hv : v.WellFormed) (h : formula.Accepts v) :
    ∃ f, Formula.Form v f ∧ ∀ a ∈ f.atoms, Identifier.Declarable a := by
  -- The operands of an operator stand two levels below it.
  induction hdepth : v.depth using Nat.strong_induction_on generalizing v with
  | _ n ih =>
    obtain ⟨tag, htagged⟩ := accepts_formula_iff_tagged.mp h
    obtain ⟨w, rfl, hw⟩ := Schema.eq_singleton_of_accepts_tagged hv htagged
    have hmem : (tag.name, w) ∈ [(tag.name, w)] := .head _
    have hwf : w.WellFormed := (Json.wellFormed_object_iff.mp hv).2 _ hmem
    have hlt : w.depth < n := hdepth ▸ Json.depth_lt_of_mem_members hmem
    cases tag with
    | atom =>
      obtain ⟨name, rfl, hname⟩ := accepts_name.mp hw
      exact ⟨_, .atom name, List.forall_mem_singleton.mpr hname⟩
    | number =>
      rcases Schema.accepts_number.mp hw with ⟨k, rfl⟩ | ⟨x, rfl⟩
      · exact ⟨_, .int k, fun _ ha => absurd ha List.not_mem_nil⟩
      · exact ⟨_, .float x, fun _ ha => absurd ha List.not_mem_nil⟩
    | bool =>
      obtain ⟨b, rfl⟩ := Schema.accepts_boolean.mp hw
      exact ⟨_, .bool b, fun _ ha => absurd ha List.not_mem_nil⟩
    | binary op =>
      obtain ⟨l, r, rfl, hl, hr⟩ := accepts_operands.mp hw
      have hbelow {operand : Json} (hmem : operand ∈ [l, r]) (haccepts : formula.Accepts operand) :=
        ih _ (Nat.lt_trans (Json.depth_lt_of_mem_items hmem) hlt)
          (Json.wellFormed_array_iff.mp hwf _ hmem) haccepts rfl
      obtain ⟨left, hleft, hleftAtoms⟩ := hbelow (.head _) hl
      obtain ⟨right, hright, hrightAtoms⟩ := hbelow (.tail _ (.head _)) hr
      exact ⟨_, .binary op hleft hright, List.forall_mem_append.mpr ⟨hleftAtoms, hrightAtoms⟩⟩
    | unary op =>
      obtain ⟨operand, hoperand, hatoms⟩ := ih _ hlt hwf hw rfl
      exact ⟨_, .unary op hoperand, hatoms⟩

end Definition

/-- The schema accepts the values that are read as formulas whose atoms may be declared. -/
theorem formula_check_eq_nil_iff {v : Json} (hv : v.WellFormed) : Definition.formula.check v = [] ↔
    ∃ f, Formula.ofJson v = .ok f ∧ ∀ a ∈ f.atoms, Identifier.Declarable a := by
  constructor
  · intro h
    obtain ⟨f, hform, hatoms⟩ := Definition.exists_form_of_accepts hv h
    exact ⟨f, Formula.ofJson_eq_ok_iff.mpr hform, hatoms⟩
  · rintro ⟨f, hf, hatoms⟩
    exact Definition.accepts_of_form (Formula.ofJson_eq_ok_iff.mp hf) hatoms

/-- That it is not open, or at least 3 degrees hot. -/
def Json.heatForm : Json :=
  .object [("or", .array [
    .object [("not", .object [("atom", .string "open")])],
    .object [("gte", .array [.object [("atom", .string "heat")], .object [("number", .int 3)]])]])]

theorem heatForm_accepted : Json.heatForm.WellFormed ∧ Definition.formula.check Json.heatForm = [] ∧
    ∃ f, Formula.ofJson Json.heatForm = .ok f ∧ ∀ a ∈ f.atoms, Identifier.Declarable a := by
  have hv : Json.heatForm.WellFormed := by
    simp [Json.heatForm, Json.fitsInteger]
  have h : Definition.formula.check Json.heatForm = [] := by decide
  exact ⟨hv, h, (formula_check_eq_nil_iff hv).mp h⟩

end GoalModel
