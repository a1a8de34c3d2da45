import GoalModel.Proofs.Json.WellFormed

/-! # JSON values in memory

A value that is kept in memory has the members of each object in ascending order of their names
and only finite numbers: what is written for another number is null (`Json.canonical`). A member
is found under the same name as before (`Json.lookup_canonicalMembers`), and a well-formed value
stays well-formed (`Json.WellFormed.canonical`). -/

namespace GoalModel.Json

mutual

/-- A value as it is kept in memory. -/
def canonical : Json → Json
  | .null => .null
  | .bool value => .bool value
  | .int value => .int value
  | .float value => if value.isFinite then .float value else .null
  | .string value => .string value
  | .array items => .array (canonicalItems items)
  | .object members => .object (canonicalMembers [] members)

def canonicalItems : List Json → List Json
  | [] => []
  | a :: as => canonical a :: canonicalItems as

/-- Adds members, one after the other, to those that are kept already. -/
def canonicalMembers : List (String × Json) → List (String × Json) → List (String × Json)
  | kept, [] => kept
  | kept, (name, a) :: rest => canonicalMembers (setMember name (canonical a) kept) rest

end

@[simp] theorem canonical_null : canonical .null = .null := by rw [canonical]

@[simp] theorem canonical_bool (value : Bool) : canonical (.bool value) = .bool value := by
  rw [canonical]

@[simp] theorem canonical_int (value : Int) : canonical (.int value) = .int value := by
  rw [canonical]

@[simp] theorem canonical_string (value : String) : canonical (.string value) = .string value := by
  rw [canonical]

@[simp] theorem canonical_array (items : List Json) :
    canonical (.array items) = .array (items.map canonical) := by
  rw [canonical]
  congr 1
  induction items with
  | nil => rw [canonicalItems, List.map_nil]
  | cons item rest ih => rw [canonicalItems, ih, List.map_cons]

@[simp] theorem canonical_float {value : Number} (h : value.isFinite = true) :
    canonical (.float value) = .float value := by
  rw [canonical, if_pos h]

@[simp] theorem canonical_object (members : List (String × Json)) :
    canonical (.object members) = .object (canonicalMembers [] members) := by
  rw [canonical]

/-! ## Members -/

theorem lookup_cons_ite (sought : String) (member : String × Json)
    (members : List (String × Json)) : (member :: members).lookup sought =
      if sought = member.1 then some member.2 else members.lookup sought := by
  obtain ⟨name, value⟩ := member
  by_cases h : sought = name
  · simp [h]
  · simp [List.lookup_cons, h, beq_false_of_ne h]

variable {kept members : List (String × Json)}

theorem lookup_setMember (sought name : String) (value : Json) (kept : List (String × Json)) :
    (setMember name value kept).lookup sought =
      if sought = name then some value else kept.lookup sought := by
  induction kept with
  | nil => rw [setMember, lookup_cons_ite]
  | cons first rest ih =>
    obtain ⟨other, old⟩ := first
    unfold setMember
    split
    · next heq =>
      subst heq
      simp only [lookup_cons_ite]
      split <;> rfl
    · next hne =>
      split
      · rw [lookup_cons_ite]
      · rw [lookup_cons_ite, ih, lookup_cons_ite]
        by_cases h : sought = other
        · rw [if_pos h, if_neg (h ▸ Ne.symm hne), if_pos h]
        · rw [if_neg h, if_neg h]

theorem setMember_perm {name : String} (value : Json) (h : name ∉ kept.map Prod.fst) :
    (setMember name value kept).Perm ((name, value) :: kept) := by
  induction kept with
  | nil => exact .refl _
  | cons first rest ih =>
    obtain ⟨hne, hrest⟩ := not_or.mp (List.mem_cons.not.mp h)
    unfold setMember
    rw [if_neg hne]
    split
    · exact .refl _
    · exact ((ih hrest).cons first).trans (.swap ..)

theorem ascending_canonicalMembers (h : Ascending kept) :
    Ascending (canonicalMembers kept members) := by
  induction members generalizing kept with
  | nil => rwa [canonicalMembers]
  | cons member rest ih =>
    rw [canonicalMembers]
    exact ih (ascending_setMember h)

/-- Where no name comes twice, each member is kept, and nothing else. -/
theorem canonicalMembers_perm (kept : List (String × Json))
    (h : ((kept ++ members).map Prod.fst).Nodup) :
    (canonicalMembers kept members).Perm
      (kept ++ members.map fun member => (member.1, member.2.canonical)) := by
  induction members generalizing kept with
  | nil =>
    rw [canonicalMembers, List.map_nil, List.append_nil]
  | cons first rest ih =>
    obtain ⟨name, value⟩ := first
    have hperm : (kept ++ (name, value) :: rest).Perm ((name, value) :: (kept ++ rest)) :=
      List.perm_middle
    have hnodup := (hperm.map Prod.fst).nodup h
    have hname : name ∉ kept.map Prod.fst := fun hmem =>
      (List.nodup_cons.mp hnodup).1 (List.map_append ▸ List.mem_append_left _ hmem)
    have hset := setMember_perm value.canonical hname
    rw [canonicalMembers]
    refine (ih _ (((hset.append_right rest).map Prod.fst).nodup_iff.mpr hnodup)).trans ?_
    exact (hset.append_right _).trans List.perm_middle.symm

theorem lookup_canonicalMembers (name : String) (h : (members.map Prod.fst).Nodup) :
    (canonicalMembers kept members).lookup name =
      ((members.lookup name).map canonical).or (kept.lookup name) := by
  induction members generalizing kept with
  | nil => rw [canonicalMembers, List.lookup_nil, Option.map_none, Option.none_or]
  | cons first rest ih =>
    obtain ⟨hfirst, hrest⟩ := List.nodup_cons.mp h
    rw [canonicalMembers, ih hrest, lookup_setMember, lookup_cons_ite]
    by_cases heq : name = first.1
    · have habsent : rest.lookup name = none :=
        List.lookup_eq_none_iff.mpr fun member hmember => bne_iff_ne.mpr fun hname =>
          hfirst (heq ▸ hname ▸ List.mem_map_of_mem hmember)
      rw [habsent, if_pos heq, if_pos heq, Option.map_none, Option.none_or, Option.map_some,
        Option.some_or]
    · rw [if_neg heq, if_neg heq]

/-! ## Well-formed values -/

theorem WellFormed.canonical {v : Json} (h : v.WellFormed) : v.canonical.WellFormed := by
  induction h with
  | float h =>
    rw [canonical_float h]
    exact .float h
  | array _ ih =>
    rw [canonical_array]
    exact .array (List.forall_mem_map.mpr ih)
  | object hnodup _ ih =>
    rw [canonical_object]
    refine .object (ascending_canonicalMembers .nil).nodup fun member hmember => ?_
    have hperm := canonicalMembers_perm [] hnodup
    obtain ⟨kept, hkept, rfl⟩ := List.mem_map.mp (hperm.mem_iff.mp hmember)
    exact ih kept hkept
  | _ => simp [*]

end GoalModel.Json
