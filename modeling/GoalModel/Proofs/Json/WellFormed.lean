import GoalModel.Json.Reader
import GoalModel.Proofs.Number.Stepwise

/-! # Well-formed JSON values

A JSON value that a text holds has each name once in every object, integers of 64 bits and finite
numbers (`Json.WellFormed`, `Json.wellFormed_of_read?`). The reader adds members one by one and
keeps their names in ascending order, so that no name comes twice (`Json.ascending_setMember`). -/

namespace GoalModel

/-! ## Integers as numbers -/

namespace Number

theorem isFinite_ofInt {n : Int} (hn : Json.fitsInteger n = true) : (ofInt n).isFinite = true := by
  have hbound : n.natAbs < 2 ^ 64 := by
    simp only [Json.fitsInteger, decide_eq_true_eq] at hn
    omega
  have hlength : decimalLength n.natAbs ≤ 20 :=
    (decimalLength_le_iff (by decide)).mpr (Nat.lt_trans hbound (by decide))
  have hquotient : rankOfDecimal n.natAbs 0 = rankOfQuotient n.natAbs 1 := by
    simpa using rankOfDecimal_natCast (c := n.natAbs) (n := 0) (by omega)
  exact decide_eq_true (hquotient ▸ rankOfQuotient_one_lt hbound)

end Number

/-! ## Values -/

namespace Json

/-- A value that a text can hold. -/
inductive WellFormed : Json → Prop where
  | null : WellFormed .null
  | bool (value : Bool) : WellFormed (.bool value)
  | int {value : Int} : fitsInteger value = true → WellFormed (.int value)
  | float {value : Number} : value.isFinite = true → WellFormed (.float value)
  | string (value : String) : WellFormed (.string value)
  | array {items : List Json} : (∀ item ∈ items, WellFormed item) → WellFormed (.array items)
  | object {members : List (String × Json)} : (members.map Prod.fst).Nodup →
    (∀ member ∈ members, WellFormed member.2) → WellFormed (.object members)

@[simp] theorem wellFormed_null : WellFormed .null := .null

@[simp] theorem wellFormed_bool (value : Bool) : WellFormed (.bool value) := .bool value

@[simp] theorem wellFormed_int_iff {value : Int} :
    WellFormed (.int value) ↔ fitsInteger value = true := by
  constructor
  · rintro ⟨⟩
    assumption
  · exact .int

@[simp] theorem wellFormed_float_iff {value : Number} :
    WellFormed (.float value) ↔ value.isFinite = true := by
  constructor
  · rintro ⟨⟩
    assumption
  · exact .float

@[simp] theorem wellFormed_string (value : String) : WellFormed (.string value) := .string value

@[simp] theorem wellFormed_array_iff {items : List Json} :
    WellFormed (.array items) ↔ ∀ item ∈ items, item.WellFormed := by
  constructor
  · rintro ⟨⟩
    assumption
  · exact .array

@[simp] theorem wellFormed_object_iff {members : List (String × Json)} :
    WellFormed (.object members) ↔
      (members.map Prod.fst).Nodup ∧ ∀ member ∈ members, member.2.WellFormed := by
  constructor
  · rintro ⟨⟩
    exact ⟨‹_›, ‹_›⟩
  · exact fun h => .object h.1 h.2

/-! ## Members in order -/

/-- Names ascend from member to member. -/
def Ascending (members : List (String × Json)) : Prop := members.Pairwise fun a b => a.1 < b.1

theorem Ascending.nodup {members : List (String × Json)} (h : Ascending members) :
    (members.map Prod.fst).Nodup :=
  List.pairwise_map.mpr (List.Pairwise.imp (fun hlt => Std.ne_of_lt hlt) h)

theorem mem_setMember {name : String} {value : Json} {members : List (String × Json)}
    {member : String × Json} (h : member ∈ setMember name value members) :
    member = (name, value) ∨ member ∈ members := by
  induction members with
  | nil => exact .inl (List.mem_singleton.mp h)
  | cons first rest ih =>
    obtain ⟨other, kept⟩ := first
    unfold setMember at h
    split at h
    · exact (List.mem_cons.mp h).imp_right (List.mem_cons_of_mem _)
    · split at h
      · exact List.mem_cons.mp h
      · rcases List.mem_cons.mp h with rfl | h
        · exact .inr (List.mem_cons_self ..)
        · exact (ih h).imp_right (List.mem_cons_of_mem _)

theorem ascending_setMember {name : String} {value : Json} {members : List (String × Json)}
    (h : Ascending members) : Ascending (setMember name value members) := by
  induction members with
  | nil => exact List.pairwise_singleton ..
  | cons first rest ih =>
    obtain ⟨other, kept⟩ := first
    obtain ⟨hfirst, hrest⟩ := List.pairwise_cons.mp h
    unfold setMember
    split
    · next heq =>
      subst heq
      exact List.pairwise_cons.mpr ⟨hfirst, hrest⟩
    · next hne =>
      split
      · next hlt =>
        refine List.pairwise_cons.mpr ⟨fun member hmember => ?_, h⟩
        rcases List.mem_cons.mp hmember with rfl | hmember
        · exact hlt
        · exact String.lt_trans hlt (hfirst member hmember)
      · next hnot =>
        have hlt : other < name := Std.lt_of_le_of_ne (String.not_lt.mp hnot) (Ne.symm hne)
        refine List.pairwise_cons.mpr ⟨fun member hmember => ?_, ih hrest⟩
        rcases mem_setMember hmember with rfl | hmember
        · exact hlt
        · exact hfirst member hmember

/-! ## Reading -/

theorem wellFormed_of_wholeNumber {negative : Bool} {digits : List Char} {v : Json}
    (h : wholeNumber negative digits = some v) : v.WellFormed := by
  unfold wholeNumber at h
  dsimp only at h
  generalize (if negative = true then _ else _ : Int) = value at h
  split at h
  · next hfits =>
    cases h
    exact .int (Bool.and_eq_true_iff.mp hfits).1
  · obtain ⟨x, hx, rfl⟩ := Option.map_eq_some_iff.mp h
    exact .float (Number.isFinite_of_stepwise? hx)

theorem wellFormed_of_readNumber {cs rest : List Char} {v : Json}
    (h : readNumber cs = some (v, rest)) : v.WellFormed := by
  unfold readNumber at h
  split at h
  dsimp only at h
  split at h
  · cases h
  · obtain ⟨⟨fraction, cs⟩, _, h⟩ := Option.bind_eq_some_iff.mp h
    obtain ⟨⟨exponent, cs⟩, _, h⟩ := Option.bind_eq_some_iff.mp h
    dsimp only at h
    split at h
    · obtain ⟨value, hvalue, h⟩ := Option.bind_eq_some_iff.mp h
      cases h
      exact wellFormed_of_wholeNumber hvalue
    · obtain ⟨x, hx, h⟩ := Option.bind_eq_some_iff.mp h
      cases h
      exact .float (Number.isFinite_of_stepwise? hx)

theorem wellFormed_of_readScalar {cs rest : List Char} {v : Json}
    (h : readScalar cs = some (v, rest)) : v.WellFormed := by
  unfold readScalar at h
  split at h
  · obtain ⟨_, _, h⟩ := Option.map_eq_some_iff.mp h
    cases h
    exact .string _
  · cases h
    exact .bool _
  · cases h
    exact .bool _
  · cases h
    exact .null
  · exact wellFormed_of_readNumber h

/-- What is read within some steps is well-formed, if what was read before is. -/
structure ReadsWellFormed (steps : Nat) : Prop where
  value : ∀ {levels cs v rest}, readValue steps levels cs = some (v, rest) → v.WellFormed
  items : ∀ {levels read cs v rest}, readItems steps levels read cs = some (v, rest) →
    (∀ item ∈ read, item.WellFormed) → v.WellFormed
  members : ∀ {levels read cs v rest}, readMembers steps levels read cs = some (v, rest) →
    Ascending read → (∀ member ∈ read, member.2.WellFormed) → v.WellFormed

namespace ReadsWellFormed

variable {steps levels : Nat} {cs rest : List Char} {v : Json} (ih : ReadsWellFormed steps)
include ih

theorem readValue_succ (h : readValue (steps + 1) levels cs = some (v, rest)) : v.WellFormed := by
  unfold readValue at h
  split at h
  · cases h
  · cases h
  · split at h
    · cases h
      exact .array (fun _ h => absurd h List.not_mem_nil)
    · exact ih.items h (fun _ h => absurd h List.not_mem_nil)
  · split at h
    · cases h
      exact .object List.nodup_nil (fun _ h => absurd h List.not_mem_nil)
    · exact ih.members h .nil (fun _ h => absurd h List.not_mem_nil)
  · exact wellFormed_of_readScalar h

theorem readItems_succ {read : List Json}
    (h : readItems (steps + 1) levels read cs = some (v, rest))
    (hread : ∀ item ∈ read, item.WellFormed) : v.WellFormed := by
  unfold readItems at h
  split at h
  · cases h
  · next item _ hitem =>
    have hitems : ∀ i ∈ item :: read, i.WellFormed :=
      List.forall_mem_cons.mpr ⟨ih.value hitem, hread⟩
    split at h
    · exact ih.items h hitems
    · cases h
      exact .array fun i hi => hitems i (List.mem_reverse.mp hi)
    · cases h

theorem readMembers_succ {read : List (String × Json)}
    (h : readMembers (steps + 1) levels read cs = some (v, rest)) (hascending : Ascending read)
    (hread : ∀ member ∈ read, member.2.WellFormed) : v.WellFormed := by
  unfold readMembers at h
  split at h
  · split at h
    · cases h
    · next name _ _ =>
      split at h
      · split at h
        · cases h
        · next value _ hvalue =>
          have hmembers : ∀ member ∈ setMember name value read, member.2.WellFormed := by
            intro member hmember
            rcases mem_setMember hmember with rfl | hmember
            · exact ih.value hvalue
            · exact hread member hmember
          have hset : Ascending (setMember name value read) := ascending_setMember hascending
          split at h
          · exact ih.members h hset hmembers
          · cases h
            exact .object hset.nodup hmembers
          · cases h
      · cases h
  · cases h

end ReadsWellFormed

theorem readsWellFormed (steps : Nat) : ReadsWellFormed steps := by
  induction steps with
  | zero =>
    exact ⟨fun h => by simp [readValue] at h, fun h => by simp [readItems] at h,
      fun h => by simp [readMembers] at h⟩
  | succ steps ih => exact ⟨ih.readValue_succ, ih.readItems_succ, ih.readMembers_succ⟩

/-- The value in a text is well-formed. -/
theorem wellFormed_of_read? {text : String} {v : Json} (h : read? text = some v) :
    v.WellFormed := by
  unfold read? readWithin? at h
  dsimp only at h
  split at h
  · next hvalue =>
    split at h
    · cases h
      exact (readsWellFormed _).value hvalue
    · cases h
  · cases h

end Json

end GoalModel
