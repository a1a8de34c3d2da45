import GoalModel.Proofs.Document.Reading
import GoalModel.Proofs.Json.Canonical

/-! # Reading from memory

A document is read from a value in memory just as from the value itself: the order of members
does not count, neither for what is read nor for the problem that is reported
(`ReadsMemory`, `readsMemory_document`). -/

namespace GoalModel

/-- Reading a value that a text can hold gives the same result in memory. -/
def ReadsMemory {α : Type} (read : Json → Except ReadError α) : Prop :=
  ∀ v, v.WellFormed → read v.canonical = read v

/-! ## Plain values -/

theorem readsMemory_string : ReadsMemory Json.asString := by
  intro v h
  cases h <;> simp [Json.asString, Found.ofJson, *]

theorem readsMemory_bool : ReadsMemory Json.asBool := by
  intro v h
  cases h <;> simp [Json.asBool, Found.ofJson, *]

theorem readsMemory_number : ReadsMemory Json.asNumber := by
  intro v h
  cases h <;> simp [Json.asNumber, Found.ofJson, *]

theorem readsMemory_bound : ReadsMemory Json.asBound := by
  intro v h
  cases h <;> simp [Json.asBound, Json.asNumber, Found.ofJson, *]

theorem readsMemory_initialValue : ReadsMemory InitialValue.ofJson := by
  intro v h
  cases h <;> simp [InitialValue.ofJson, *]

theorem ReadsMemory.list {α : Type} {read : Json → Except ReadError α} (h : ReadsMemory read) :
    ReadsMemory (Json.asList read) := by
  intro v hv
  cases hv with
  | @array items hitems =>
    rw [Json.canonical_array]
    change (items.map Json.canonical).mapM read = items.mapM read
    induction items with
    | nil => rfl
    | cons item rest ih =>
      obtain ⟨hitem, hrest⟩ := List.forall_mem_cons.mp hitems
      rw [List.map_cons, List.mapM_cons, List.mapM_cons, h item hitem, ih hrest]
  | _ => simp [Json.asList, Found.ofJson, *]

/-! ## Tagged values -/

/-- An object with several members, or none, has as many in memory. -/
theorem Json.canonicalMembers_ne_singleton {members : List (String × Json)}
    (hnodup : (members.map Prod.fst).Nodup) (h : ∀ member, members ≠ [member])
    (member : String × Json) : canonicalMembers [] members ≠ [member] := by
  intro heq
  have hlength := (canonicalMembers_perm [] hnodup).length_eq
  rw [heq, List.nil_append, List.length_map] at hlength
  obtain ⟨only, honly⟩ := List.length_eq_one_iff.mp hlength.symm
  exact h only honly

theorem Json.canonical_singleton (name : String) (value : Json) :
    canonical (.object [(name, value)]) = .object [(name, value.canonical)] := by
  rw [canonical_object, canonicalMembers, canonicalMembers, setMember]

theorem Json.wellFormed_singleton {name : String} {value : Json} :
    WellFormed (.object [(name, value)]) ↔ value.WellFormed := by
  simp

theorem Domain.ofJson_of_ne_singleton {members : List (String × Json)}
    (h : ∀ member, members ≠ [member]) :
    Domain.ofJson (.object members) = .error .notSingleMember := by
  unfold ofJson
  split
  · next heq => cases heq
  · next heq => exact absurd (Json.object.inj heq) (h _)
  · rfl
  · next hother => exact absurd rfl (hother members)

theorem readsMemory_domain : ReadsMemory Domain.ofJson := by
  intro v h
  cases h with
  | @object members hnodup hmembers =>
    by_cases hsingle : ∃ member, members = [member]
    · obtain ⟨⟨name, payload⟩, rfl⟩ := hsingle
      have hpayload := hmembers _ (.head _)
      rw [Json.canonical_singleton]
      cases hpayload <;> simp [Domain.ofJson, Found.ofJson, *]
    · have hne := not_exists.mp hsingle
      rw [Json.canonical_object, Domain.ofJson_of_ne_singleton hne,
        Domain.ofJson_of_ne_singleton (Json.canonicalMembers_ne_singleton hnodup hne)]
  | _ => simp [Domain.ofJson, Found.ofJson, *]

theorem Formula.ofJson_of_ne_singleton {members : List (String × Json)}
    (h : ∀ member, members ≠ [member]) :
    Formula.ofJson (.object members) = .error .notSingleMember := by
  unfold ofJson
  split
  · next heq => exact absurd (Json.object.inj heq) (h _)
  · rfl
  · next heq => cases heq
  · next hother _ => exact absurd rfl (hother members)

theorem readsMemory_formula : ReadsMemory Formula.ofJson := by
  intro v h
  fun_induction Formula.ofJson v with
  | case1 name payload htag => rw [Json.canonical_singleton, Formula.ofJson, htag]
  | case2 name payload htag =>
    have hpayload := readsMemory_string _ (Json.wellFormed_singleton.mp h)
    rw [Json.canonical_singleton, Formula.ofJson, htag, ← hpayload]
  | case3 name payload htag =>
    have hpayload := readsMemory_number _ (Json.wellFormed_singleton.mp h)
    rw [Json.canonical_singleton, Formula.ofJson, htag, ← hpayload]
  | case4 name payload htag =>
    have hpayload := readsMemory_bool _ (Json.wellFormed_singleton.mp h)
    rw [Json.canonical_singleton, Formula.ofJson, htag, ← hpayload]
  | case5 name payload op htag ih =>
    rw [Json.canonical_singleton, Formula.ofJson, htag, ← ih (Json.wellFormed_singleton.mp h)]
  | case6 name op htag =>
    rw [Json.canonical_singleton, Json.canonical_array, List.map_nil, Formula.ofJson, htag]
  | case7 name op htag left ih =>
    have hitems := Json.wellFormed_array_iff.mp (Json.wellFormed_singleton.mp h)
    rw [Json.canonical_singleton, Json.canonical_array, List.map_singleton, Formula.ofJson, htag,
      ← ih (hitems left (.head _))]
  | case8 name op htag left right rest ihl ihr =>
    have hitems := Json.wellFormed_array_iff.mp (Json.wellFormed_singleton.mp h)
    rw [Json.canonical_singleton, Json.canonical_array, List.map_cons, List.map_cons,
      Formula.ofJson, htag, ← ihl (hitems left (.head _)), ← ihr (hitems right (.tail _ (.head _)))]
    simp
  | case9 name op htag payload hnil hsingle hcons =>
    have hpayload := Json.wellFormed_singleton.mp h
    rw [Json.canonical_singleton, Formula.ofJson, htag]
    cases hpayload with
    | @array items =>
      rcases items with _ | ⟨left, _ | ⟨right, rest⟩⟩
      · exact absurd rfl hnil
      · exact absurd rfl (hsingle left)
      · exact absurd rfl (hcons left right rest)
    | _ => simp [Found.ofJson, *]
  | case10 members hmember =>
    have hne (member : String × Json) : members ≠ [member] := hmember member.1 member.2
    have hnodup := (Json.wellFormed_object_iff.mp h).1
    rw [Json.canonical_object,
      Formula.ofJson_of_ne_singleton (Json.canonicalMembers_ne_singleton hnodup hne)]
  | case11 name htag => rw [Json.canonical_string, Formula.ofJson, htag]
  | case12 name tag htag => rw [Json.canonical_string, Formula.ofJson, htag]
  | case13 other hsingle hobject hstring =>
    cases h with
    | object => exact absurd rfl (hobject _)
    | string => exact absurd rfl (hstring _)
    | _ => simp [Formula.ofJson, Found.ofJson, *]

/-! ## Fields -/

namespace Fields

variable {α : Type} {record : Record} {fields : Fields}

def canonical : Fields → Fields
  | .named members => .named (Json.canonicalMembers [] members)
  | .placed items => .placed (items.map Json.canonical)

/-- Fields of a value that a text can hold. -/
def Held : Fields → Prop
  | .named members => (Json.object members).WellFormed
  | .placed items => (Json.array items).WellFormed

theorem value?_canonical (hf : fields.Held) (place : Nat) (name : String) :
    fields.canonical.value? place name = (fields.value? place name).map Json.canonical := by
  cases fields with
  | named members =>
    have hnodup := (Json.wellFormed_object_iff.mp hf).1
    simp only [value?, canonical, Json.lookup_canonicalMembers name hnodup, List.lookup_nil,
      Option.or_none]
  | placed items => simp only [value?, canonical, List.getElem?_map]

theorem wellFormed_of_value? (hf : fields.Held) {place : Nat} {name : String} {value : Json}
    (h : fields.value? place name = some value) : value.WellFormed := by
  cases fields with
  | named members =>
    obtain ⟨before, after, rfl, _⟩ := List.lookup_eq_some_iff.mp h
    exact (Json.wellFormed_object_iff.mp hf).2 (name, value) (List.mem_append_right _ (.head _))
  | placed items => exact Json.wellFormed_array_iff.mp hf value (List.mem_of_getElem? h)

theorem field_canonical (hf : fields.Held) (place : Nat) (name : String)
    {read : Json → Except ReadError α} (hread : ReadsMemory read) :
    fields.canonical.field place name read = fields.field place name read := by
  have hvalue := value?_canonical hf place name
  cases h : fields.value? place name with
  | none =>
    rw [h] at hvalue
    rw [field_of_absent h, field_of_absent hvalue]
  | some value =>
    rw [h] at hvalue
    rw [field_of_value? h, field_of_value? hvalue, hread value (wellFormed_of_value? hf h)]

theorem check_canonical (fields : Fields) (problems : List (Option (String × ReadError))) :
    fields.canonical.check problems = fields.check problems := by
  cases fields <;> simp [check, canonical]

theorem required_canonical (fields : Fields) (record : Record) (place : Nat) (name : String)
    (field : Field α) :
    fields.canonical.required record place name field =
      fields.required record place name field := by
  cases fields <;> rfl

end Fields

/-- A record is read from memory if every field is. -/
theorem readsMemory_record {α : Type} (record : Record) {read : Fields → Except ReadError α}
    (h : ∀ fields : Fields, fields.Held → read fields.canonical = read fields) :
    ReadsMemory fun v => Fields.ofJson record v >>= read := by
  intro v hv
  dsimp only
  cases v with
  | array items =>
    rw [Json.canonical_array]
    exact h (.placed items) hv
  | object members =>
    rw [Json.canonical_object]
    exact h (.named members) hv
  | float value =>
    rw [Json.canonical_float (Json.wellFormed_float_iff.mp hv)]
  | _ => simp

/-! ## Records -/

section

open Fields

theorem readsMemory_goal : ReadsMemory GoalEntry.ofJson :=
  readsMemory_record .goal fun fields hf => by
    simp only [field_canonical hf, check_canonical, required_canonical, readsMemory_string,
      readsMemory_string.list]

theorem readsMemory_effect : ReadsMemory EffectEntry.ofJson :=
  readsMemory_record .effect fun fields hf => by
    simp only [field_canonical hf, check_canonical, required_canonical, readsMemory_string,
      readsMemory_number, readsMemory_bool, readsMemory_string.list]

theorem readsMemory_task : ReadsMemory TaskEntry.ofJson :=
  readsMemory_record .task fun fields hf => by
    simp only [field_canonical hf, check_canonical, required_canonical, readsMemory_string,
      readsMemory_effect.list]

theorem readsMemory_quality : ReadsMemory QualityEntry.ofJson :=
  readsMemory_record .quality fun fields hf => by
    simp only [field_canonical hf, check_canonical, required_canonical, readsMemory_string,
      readsMemory_bool, readsMemory_formula]

theorem readsMemory_condition : ReadsMemory ConditionEntry.ofJson :=
  readsMemory_record .condition fun fields hf => by
    simp only [field_canonical hf, check_canonical, required_canonical, readsMemory_string,
      readsMemory_formula]

theorem readsMemory_actor : ReadsMemory ActorEntry.ofJson :=
  readsMemory_record .actor fun fields hf => by
    simp only [field_canonical hf, check_canonical, readsMemory_string, readsMemory_string.list,
      readsMemory_goal.list, readsMemory_task.list, readsMemory_quality.list,
      readsMemory_condition.list]

theorem readsMemory_export : ReadsMemory ExportEntry.ofJson :=
  readsMemory_record .exported fun fields hf => by
    simp only [field_canonical hf, check_canonical, required_canonical, readsMemory_string,
      readsMemory_domain, readsMemory_bound]

theorem readsMemory_initial : ReadsMemory InitialEntry.ofJson :=
  readsMemory_record .initialization fun fields hf => by
    simp only [field_canonical hf, check_canonical, required_canonical, readsMemory_string,
      readsMemory_initialValue]

theorem readsMemory_document : ReadsMemory Document.ofJson :=
  readsMemory_record .model fun fields hf => by
    simp only [field_canonical hf, check_canonical, required_canonical, readsMemory_string,
      readsMemory_string.list, readsMemory_actor.list, readsMemory_export.list,
      readsMemory_initial.list]

end

end GoalModel
