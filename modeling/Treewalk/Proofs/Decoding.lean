import Treewalk.Expr.Codec

/-!
# Named fields in any order

The fields of a constructor are read one member after the other into slots. `Fields.gather` says what comes out without
slots: every field is the name of exactly one member, and its value is what that member spells. Since the names of a
constructor's fields differ (`shape?_nodup`), the two are the same (`Fields.readMembers_eq`). The order of the members
does not matter to `gather`, and neither do members with other names.
-/

namespace Treewalk.Codec

/-- The values of the members called `name`. -/
def occurrences (name : String) (members : List (Option String × Json)) : List Json :=
  members.filterMap fun (n, j) => if n = some name then some j else none

section Occurrences

variable {name : String} {members : List (Option String × Json)}

@[simp]
theorem occurrences_nil : occurrences name [] = [] :=
  rfl

theorem occurrences_cons_self (name : String) (j : Json) (members : List (Option String × Json)) :
    occurrences name ((some name, j) :: members) = j :: occurrences name members := by
  simp [occurrences]

theorem occurrences_cons_of_ne {n : Option String} (h : n ≠ some name) (j : Json)
    (members : List (Option String × Json)) : occurrences name ((n, j) :: members) = occurrences name members := by
  simp [occurrences, h]

theorem mem_occurrences {j : Json} : j ∈ occurrences name members ↔ (some name, j) ∈ members := by
  simp [occurrences]

theorem occurrences_eq_nil (h : ∀ j, (some name, j) ∉ members) : occurrences name members = [] :=
  List.eq_nil_iff_forall_not_mem.2 fun j hj => h j (mem_occurrences.1 hj)

/-- Two members of one name. -/
theorem two_le_length_occurrences {j j' : Json} (h : [(some name, j), (some name, j')].Sublist members) :
    2 ≤ (occurrences name members).length := by
  have hsublist : (occurrences name [(some name, j), (some name, j')]).Sublist (occurrences name members) :=
    h.filterMap _
  simpa [occurrences] using hsublist.length_le

theorem occurrences_perm {ms ms' : List (Option String × Json)} (h : ms.Perm ms') :
    (occurrences name ms).Perm (occurrences name ms') :=
  h.filterMap _

end Occurrences

namespace Fields

/-- Every member has a name. -/
def Named (members : List (Option String × Json)) : Prop :=
  ∀ m ∈ members, m.1 ≠ none

instance (members : List (Option String × Json)) : Decidable (Named members) :=
  inferInstanceAs (Decidable (∀ m ∈ members, m.1 ≠ none))

theorem named_cons {name : String} {j : Json} {members : List (Option String × Json)} :
    Named ((some name, j) :: members) ↔ Named members := by
  simp [Named]

theorem named_perm {ms ms' : List (Option String × Json)} (h : ms.Perm ms') : Named ms ↔ Named ms' := by
  simp only [Named, h.mem_iff]

/-- The value of a field: it has been read, or exactly one member spells it. -/
def fill (part : Part) : Option part.Content → List Json → Option part.Content
  | none, [j] => part.read j
  | some value, [] => some value
  | _, _ => none

/-- The values of the fields that have not been read, if each is the name of exactly one member, with those that have
been read, if no member spells them again. -/
def complete : (fields : Fields) → fields.Slots → List (Option String × Json) → Option fields.Values
  | [], (), _ => some ()
  | (name, part) :: fields, (slot, slots), members => do
    return (← fill part slot (occurrences name members), ← complete fields slots members)

/-- The values of the fields, if each is the name of exactly one member. -/
def gather : (fields : Fields) → List (Option String × Json) → Option fields.Values
  | [], _ => some ()
  | (name, part) :: fields, members => do
    return (← fill part none (occurrences name members), ← gather fields members)

theorem complete_noneRead (fields : Fields) (members : List (Option String × Json)) :
    fields.complete fields.noneRead members = fields.gather members := by
  induction fields with
  | nil => rfl
  | cons field fields ih => rw [noneRead, complete, gather, ih]

theorem complete_nil (fields : Fields) (slots : fields.Slots) : fields.complete slots [] = fields.values? slots := by
  induction fields with
  | nil => rfl
  | cons field fields ih =>
    obtain ⟨slot, slots⟩ := slots
    rw [complete, values?, ih]
    cases slot <;> rfl

/-- A member with a name that no field has is passed over. -/
theorem complete_unknown {fields : Fields} {name : String} (h : name ∉ fields.map (·.1)) (slots : fields.Slots)
    (j : Json) (members : List (Option String × Json)) :
    fields.complete slots ((some name, j) :: members) = fields.complete slots members := by
  induction fields with
  | nil => rfl
  | cons field fields ih =>
    obtain ⟨slot, slots⟩ := slots
    have hne : some name ≠ some field.1 := fun heq => h (by simp [Option.some.inj heq])
    rw [complete, complete, occurrences_cons_of_ne hne, ih fun hmem => h (List.mem_cons_of_mem _ hmem)]

theorem put_of_ne {fields : Fields} {field name : String} {part : Part} (h : field ≠ name)
    (read : (part : Part) → Option part.Content) (slot : Option part.Content) (slots : fields.Slots) :
    put name read ((field, part) :: fields) (slot, slots) =
      (fields.put name read slots).map fun slots => (slot, slots) := by
  rw [put.eq_def]
  simp only
  rw [if_neg h]
  cases fields.put name read slots <;> rfl

/-- One member: it is read into its slot. -/
theorem complete_cons {fields : Fields} (hnodup : (fields.map (·.1)).Nodup) (slots : fields.Slots) (name : String)
    (j : Json) (members : List (Option String × Json)) :
    fields.complete slots ((some name, j) :: members) =
      (fields.put name (fun part => part.read j) slots).bind fun slots => fields.complete slots members := by
  induction fields with
  | nil => rfl
  | cons field fields ih =>
    obtain ⟨slot, slots⟩ := slots
    obtain ⟨field, part⟩ := field
    obtain ⟨hfield, hnodup⟩ := List.nodup_cons.1 hnodup
    by_cases hname : field = name
    · subst hname
      rw [complete, occurrences_cons_self, complete_unknown hfield]
      cases slot with
      | some value => simp [put, fill]
      | none =>
        rw [put, if_pos rfl]
        cases hread : part.read j with
        | none => cases hocc : occurrences field members <;> simp [fill, hread]
        | some value => cases hocc : occurrences field members <;> simp [fill, hread, complete, hocc]
    · have hne : some name ≠ some field := fun heq => hname (Option.some.inj heq).symm
      rw [complete, put_of_ne hname, occurrences_cons_of_ne hne, ih hnodup]
      cases put name (fun part => part.read j) fields slots with
      | none => simp
      | some slots => simp [complete]

/-- Reading the members one after the other. -/
theorem readMembers_complete {fields : Fields} (hnodup : (fields.map (·.1)).Nodup) (slots : fields.Slots)
    (members : List (Option String × Json)) :
    fields.readMembers slots members = if Named members then fields.complete slots members else none := by
  induction members generalizing slots with
  | nil => rw [readMembers, if_pos nofun, complete_nil]
  | cons m members ih =>
    obtain ⟨name, j⟩ := m
    cases name with
    | none => rw [readMembers, if_neg fun h => h _ List.mem_cons_self rfl]
    | some name =>
      rw [readMembers, complete_cons hnodup]
      simp only [named_cons, ih]
      split <;> simp

/-- The members of an object are read as if all at once. -/
theorem readMembers_eq {fields : Fields} (hnodup : (fields.map (·.1)).Nodup) (members : List (Option String × Json)) :
    fields.readMembers fields.noneRead members = if Named members then fields.gather members else none := by
  rw [readMembers_complete hnodup, complete_noneRead]

/-! ## What does not matter -/

section Irrelevant

variable {fields : Fields} {ms ms' : List (Option String × Json)}

/-- Two orders of the same members spell a field equally often; its value is at stake only if that is once. -/
theorem fill_perm {part : Part} {slot : Option part.Content} {js js' : List Json} (h : js.Perm js') :
    fill part slot js = fill part slot js' := by
  match js, js', h with
  | [], js', h => rw [h.nil_eq]
  | [j], js', h => rw [List.singleton_perm.1 h]
  | _ :: _ :: _, [], h => cases h.eq_nil
  | _ :: _ :: _, [_], h => cases h.length_eq
  | _ :: _ :: _, _ :: _ :: _, _ => cases slot <;> rfl

theorem gather_perm (h : ms.Perm ms') : fields.gather ms = fields.gather ms' := by
  induction fields with
  | nil => rfl
  | cons field fields ih => rw [gather, gather, ih, fill_perm (occurrences_perm h)]

theorem gather_unknown {name : String} (h : name ∉ fields.map (·.1)) (j : Json) :
    fields.gather ((some name, j) :: ms) = fields.gather ms := by
  rw [← complete_noneRead, complete_unknown h, complete_noneRead]

/-- Members that are named by the fields spell no other name. -/
theorem occurrences_zip {name : String} (h : name ∉ fields.map (·.1)) (js : List Json) :
    occurrences name ((fields.zip js).map fun (field, j) => (some field.1, j)) = [] := by
  refine occurrences_eq_nil fun j hj => ?_
  obtain ⟨⟨field, k⟩, hmem, heq⟩ := List.mem_map.1 hj
  obtain ⟨hname, -⟩ := Prod.mk.inj heq
  exact h (Option.some.inj hname ▸ List.mem_map_of_mem (List.of_mem_zip hmem).1)

/-- Named members in the declared order are as good as items. -/
theorem gather_zip (hnodup : (fields.map (·.1)).Nodup) {js : List Json} (hlength : js.length = fields.length) :
    fields.gather ((fields.zip js).map fun (field, j) => (some field.1, j)) = fields.readItems js := by
  induction fields generalizing js with
  | nil =>
    cases js with
    | nil => rw [gather, readItems]
    | cons j js => cases hlength
  | cons field fields ih =>
    cases js with
    | nil => cases hlength
    | cons j js =>
      obtain ⟨hfield, hnodup⟩ := List.nodup_cons.1 hnodup
      rw [List.zip_cons_cons, List.map_cons, gather, gather_unknown hfield, ih hnodup (Nat.succ.inj hlength),
        occurrences_cons_self, occurrences_zip hfield, readItems]
      rfl

/-- The order of the members does not matter. -/
theorem readMembers_perm (hnodup : (fields.map (·.1)).Nodup) (h : ms.Perm ms') :
    fields.readMembers fields.noneRead ms = fields.readMembers fields.noneRead ms' := by
  rw [readMembers_eq hnodup, readMembers_eq hnodup, gather_perm h]
  simp only [named_perm h]

/-- Neither do unknown members. -/
theorem readMembers_unknown (hnodup : (fields.map (·.1)).Nodup) {name : String} (hname : name ∉ fields.map (·.1))
    (j : Json) (before after : List (Option String × Json)) :
    fields.readMembers fields.noneRead (before ++ (some name, j) :: after) =
      fields.readMembers fields.noneRead (before ++ after) := by
  rw [readMembers_perm hnodup List.perm_middle, readMembers_eq hnodup, readMembers_eq hnodup, gather_unknown hname]
  simp only [named_cons]

end Irrelevant

end Fields

/-! ## What the schema says -/

/-- The fields of a constructor have different names. -/
theorem shape?_nodup {name : String} {fields : Fields} {build : fields.Values → Expr}
    (h : shape? name = some (.fields fields build)) : (fields.map (·.1)).Nodup := by
  unfold shape? at h
  split at h <;> cases h <;> decide

/-- A constructor with one argument. -/
theorem read_argument {name : String} {part : Part} {build : part.Content → Expr}
    (h : shape? name = some (.single part build)) (j : Json) :
    Part.expr.read (.object [(some name, j)]) = (part.read j).map build := by
  rw [Part.read, h]

end Treewalk.Codec
