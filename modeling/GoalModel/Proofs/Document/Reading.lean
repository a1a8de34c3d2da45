import GoalModel.Document.Json
import GoalModel.Proofs.Loading
import Mathlib.Data.List.Nodup

/-! # What is read

Reading a document comes down to three things: a list is read item by item
(`exists_mapM_eq_ok`, `exists_of_mem_mapM`), a field is read from the value that stands under its
name or in its place (`Fields.field_of_value?`, `Fields.exists_of_required`), and a formula is
read from its JSON forms (`Formula.Form`), which are exactly the values that are read as
formulas (`Formula.ofJson_eq_ok_iff`). -/

namespace GoalModel

/-! ## Lists -/

theorem exists_mapM_eq_ok {ε α β : Type} {read : α → Except ε β} {items : List α}
    (h : ∀ item ∈ items, ∃ b, read item = .ok b) : ∃ bs, items.mapM read = .ok bs := by
  induction items with
  | nil => exact ⟨[], rfl⟩
  | cons item rest ih =>
    obtain ⟨b, hb⟩ := h item (.head _)
    obtain ⟨bs, hbs⟩ := ih fun i hi => h i (.tail _ hi)
    refine ⟨b :: bs, ?_⟩
    rw [List.mapM_cons, hb, hbs]
    rfl

theorem exists_of_mem_mapM {ε α β : Type} {read : α → Except ε β} {items : List α} {bs : List β}
    (h : items.mapM read = .ok bs) {b : β} (hb : b ∈ bs) : ∃ item ∈ items, read item = .ok b := by
  induction items generalizing bs with
  | nil =>
    cases h
    cases hb
  | cons item rest ih =>
    rw [List.mapM_cons] at h
    obtain ⟨first, hfirst, h⟩ := exists_of_bind_eq_ok h
    obtain ⟨others, hothers, h⟩ := exists_of_bind_eq_ok h
    cases h
    rcases List.mem_cons.mp hb with rfl | hb
    · exact ⟨item, .head _, hfirst⟩
    · obtain ⟨i, hi, hread⟩ := ih hothers hb
      exact ⟨i, .tail _ hi, hread⟩

/-! ## Fields -/

/-- The value of a field, found by its name or by its place. -/
def Fields.value? (fields : Fields) (place : Nat) (name : String) : Option Json :=
  match fields with
  | .named members => members.lookup name
  | .placed items => items[place]?

theorem Fields.field_of_value? {α : Type} {fields : Fields} {place : Nat} {name : String}
    {read : Json → Except ReadError α} {value : Json} (h : fields.value? place name = some value) :
    fields.field place name read = (read value).map some := by
  cases fields <;> simp only [value?] at h <;> simp only [field, h]

theorem Fields.field_of_absent {α : Type} {fields : Fields} {place : Nat} {name : String}
    {read : Json → Except ReadError α} (h : fields.value? place name = none) :
    fields.field place name read = .ok none := by
  cases fields <;> simp only [value?] at h <;> simp only [field, h]

theorem mem_of_lookup_eq_some {α : Type} {entries : List (String × α)} {name : String} {a : α}
    (h : entries.lookup name = some a) : (name, a) ∈ entries := by
  obtain ⟨before, after, rfl, _⟩ := List.lookup_eq_some_iff.mp h
  exact List.mem_append_right _ (.head _)

/-! ## What fields were read from -/

namespace Fields

variable {α : Type} {record : Record} {fields : Fields} {place : Nat} {name : String}
  {read : Json → Except ReadError α} {a : α}

/-- The fields that a record was read from, where reading begins with a check of the fields. -/
theorem exists_of_read {β : Type} {problems : Fields → List (Option (String × ReadError))}
    {rest : Fields → Except ReadError β} {v : Json} {b : β}
    (h : (do
      let fields ← ofJson record v
      fields.check (problems fields)
      rest fields) = .ok b) : ∃ fields, ofJson record v = .ok fields ∧ rest fields = .ok b := by
  obtain ⟨fields, hfields, h⟩ := exists_of_bind_eq_ok h
  obtain ⟨_, _, h⟩ := exists_of_bind_eq_ok h
  exact ⟨fields, hfields, h⟩

theorem exists_of_field (h : fields.field place name read = .ok (some a)) :
    ∃ w, fields.value? place name = some w ∧ read w = .ok a := by
  cases hw : fields.value? place name with
  | none =>
    rw [field_of_absent hw] at h
    cases h
  | some w =>
    rw [field_of_value? hw] at h
    obtain ⟨_, ha, heq⟩ := exists_of_map_eq_ok h
    cases heq
    exact ⟨w, rfl, ha⟩

theorem exists_of_required
    (h : fields.required record place name (fields.field place name read) = .ok a) :
    ∃ w, fields.value? place name = some w ∧ read w = .ok a := by
  unfold required at h
  split at h
  · next hfield =>
    cases h
    exact exists_of_field hfield
  · split at h <;> cases h
  · cases h

theorem exists_of_withDefault {default : α}
    (h : withDefault default (fields.field place name read) = .ok a) :
    (fields.value? place name = none ∧ a = default) ∨
      ∃ w, fields.value? place name = some w ∧ read w = .ok a := by
  obtain ⟨a?, hfield, rfl⟩ := exists_of_map_eq_ok h
  cases a? with
  | none =>
    refine .inl ⟨?_, rfl⟩
    cases hw : fields.value? place name with
    | none => rfl
    | some w =>
      rw [field_of_value? hw] at hfield
      obtain ⟨_, _, heq⟩ := exists_of_map_eq_ok hfield
      cases heq
  | some a => exact .inr (exists_of_field hfield)

end Fields

/-! ## Tags -/

namespace FormulaTag

theorem mem_all (tag : FormulaTag) : tag ∈ all := by
  cases tag with
  | binary op => cases op <;> decide
  | unary op => cases op <;> decide
  | _ => decide

theorem nodup_names : (all.map name).Nodup := by decide

theorem name_of_ofName? {name : String} {tag : FormulaTag} (h : ofName? name = some tag) :
    tag.name = name := by
  unfold ofName? at h
  exact eq_of_beq (List.find?_some h :)

theorem name_inj {tag tag' : FormulaTag} (h : tag.name = tag'.name) : tag = tag' :=
  List.inj_on_of_nodup_map nodup_names tag.mem_all tag'.mem_all h

theorem ofName?_name (tag : FormulaTag) : ofName? tag.name = some tag := by
  have hfound : (ofName? tag.name).isSome = true :=
    List.find?_isSome.mpr ⟨tag, tag.mem_all, beq_self_eq_true _⟩
  obtain ⟨other, hother⟩ := Option.isSome_iff_exists.mp hfound
  rw [hother, name_inj (name_of_ofName? hother)]

end FormulaTag

/-! ## Forms -/

/-- The JSON forms of a formula. A number has the integers as forms that are rounded to it. -/
inductive Formula.Form : Json → Formula String → Prop where
  | atom (name : String) : Form (.object [(FormulaTag.atom.name, .string name)]) (.atom name)
  | int (n : Int) : Form (.object [(FormulaTag.number.name, .int n)]) (.number (.ofInt n))
  | float (x : Number) : Form (.object [(FormulaTag.number.name, .float x)]) (.number x)
  | bool (b : Bool) : Form (.object [(FormulaTag.bool.name, .bool b)]) (.bool b)
  | binary (op : BinaryOperator) {l r : Json} {left right : Formula String} :
    Form l left → Form r right →
      Form (.object [((FormulaTag.binary op).name, .array [l, r])]) (.binary op left right)
  | unary (op : UnaryOperator) {v : Json} {operand : Formula String} :
    Form v operand → Form (.object [((FormulaTag.unary op).name, v)]) (.unary op operand)

namespace Formula

variable {v : Json} {f : Formula String}

theorem Form.ofJson (h : Form v f) : Formula.ofJson v = .ok f := by
  induction h with
  | atom => simp [Formula.ofJson, FormulaTag.ofName?_name, Json.asString, Except.map]
  | int => simp [Formula.ofJson, FormulaTag.ofName?_name, Json.asNumber, Except.map]
  | float => simp [Formula.ofJson, FormulaTag.ofName?_name, Json.asNumber, Except.map]
  | bool => simp [Formula.ofJson, FormulaTag.ofName?_name, Json.asBool, Except.map]
  | binary op _ _ ihl ihr =>
    simp only [Formula.ofJson, FormulaTag.ofName?_name, ihl, ihr]
    rfl
  | unary op _ ih => simp [Formula.ofJson, FormulaTag.ofName?_name, ih, Except.map]

theorem form_of_ofJson (h : Formula.ofJson v = .ok f) : Form v f := by
  fun_induction Formula.ofJson v generalizing f with
  | case1 => cases h
  | case2 name payload htag =>
    obtain rfl := FormulaTag.name_of_ofName? htag
    cases payload <;> cases h
    exact .atom _
  | case3 name payload htag =>
    obtain rfl := FormulaTag.name_of_ofName? htag
    cases payload <;> cases h
    · exact .int _
    · exact .float _
  | case4 name payload htag =>
    obtain rfl := FormulaTag.name_of_ofName? htag
    cases payload <;> cases h
    exact .bool _
  | case5 name payload op htag ih =>
    obtain rfl := FormulaTag.name_of_ofName? htag
    obtain ⟨operand, hoperand, rfl⟩ := exists_of_map_eq_ok h
    exact .unary op (ih hoperand)
  | case6 => cases h
  | case7 name op htag left ih =>
    obtain ⟨_, _, h⟩ := exists_of_bind_eq_ok h
    cases h
  | case8 name op htag left right rest ihl ihr =>
    obtain rfl := FormulaTag.name_of_ofName? htag
    obtain ⟨l, hl, h⟩ := exists_of_bind_eq_ok h
    obtain ⟨r, hr, h⟩ := exists_of_bind_eq_ok h
    split at h
    · next hrest =>
      cases h
      obtain rfl := List.isEmpty_iff.mp hrest
      exact .binary op (ihl hl) (ihr hr)
    · cases h
  | _ => cases h

/-- What is read as a formula are its forms. -/
theorem ofJson_eq_ok_iff : Formula.ofJson v = .ok f ↔ Form v f := ⟨form_of_ofJson, Form.ofJson⟩

end Formula

theorem Formula.form_toJson (f : Formula String) : Form f.toJson f := by
  induction f with
  | atom name => exact .atom name
  | number x => exact .float x
  | bool b => exact .bool b
  | binary op left right ihl ihr => exact .binary op ihl ihr
  | unary op operand ih => exact .unary op ih

end GoalModel
