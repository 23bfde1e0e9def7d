/-
Members of objects.

The reader sets the members of an object one after the other, so that a repeated name keeps its
first place and takes the last value.  Each name occurs once in what results, and members whose
names are distinct are kept as they are.  A report sets its members in the same way.

Main definitions:
* `Json.setAll` — members set one after the other.

Main results:
* `Json.lookup_setMember` — what is found under a name after a member was set;
* `Json.ofMembers_eq_self` — members with distinct names are kept;
* `Json.nodup_ofMembers`, `Json.mem_of_mem_ofMembers` — each name occurs once, with one of its values;
* `Json.lookup_setAll_map` — **what is found among members that were made from a list**.
-/
import Cohesion.Json.Value

set_option autoImplicit false

namespace Cohesion.Json

/-! ### Setting one member -/

theorem setMember_of_not_mem {name : String} {value : Json} {members : List (String × Json)}
    (h : name ∉ members.map Prod.fst) :
    setMember name value members = members ++ [(name, value)] := by
  induction members with
  | nil => rfl
  | cons m members ih =>
      simp only [List.map_cons, List.mem_cons, not_or] at h
      have hne : (m.1 == name) = false := by simpa using Ne.symm h.1
      rw [setMember, hne, ih h.2]
      rfl

theorem map_fst_setMember (name : String) (value : Json) (members : List (String × Json)) :
    (setMember name value members).map Prod.fst =
      if name ∈ members.map Prod.fst then members.map Prod.fst
      else members.map Prod.fst ++ [name] := by
  induction members with
  | nil => rfl
  | cons m members ih =>
      by_cases h : m.1 = name
      · simp [setMember, h]
      · have hne : (m.1 == name) = false := by simpa using h
        rw [setMember, hne]
        simp only [Bool.false_eq_true, if_false, List.map_cons, ih, List.mem_cons, Ne.symm h,
          false_or]
        split <;> simp

theorem mem_of_mem_setMember {name : String} {value : Json} {members : List (String × Json)}
    {m : String × Json} (h : m ∈ setMember name value members) :
    m = (name, value) ∨ m ∈ members := by
  induction members with
  | nil => exact Or.inl (List.mem_singleton.1 h)
  | cons m' members ih =>
      rw [setMember] at h
      split at h
      · exact (List.mem_cons.1 h).imp_right fun h => List.mem_cons_of_mem _ h
      · rcases List.mem_cons.1 h with rfl | h
        · exact Or.inr List.mem_cons_self
        · exact (ih h).imp_right fun h => List.mem_cons_of_mem _ h

/-- What is found under a name after a member was set. -/
theorem lookup_setMember (name k : String) (value : Json) (members : List (String × Json)) :
    (setMember name value members).lookup k =
      if k = name then some value else members.lookup k := by
  induction members with
  | nil =>
      by_cases h : k = name
      · simp [setMember, h]
      · simp [setMember, List.lookup_cons, h, beq_eq_false_iff_ne.2 h]
  | cons m members ih =>
      obtain ⟨n, v⟩ := m
      by_cases hn : n = name
      · subst hn
        by_cases h : k = n
        · simp [setMember, h]
        · simp [setMember, List.lookup_cons, h, beq_eq_false_iff_ne.2 h]
      · rw [setMember, beq_eq_false_iff_ne.2 hn]
        by_cases hk : k = n
        · subst hk
          simp [hn]
        · simp [List.lookup_cons, beq_eq_false_iff_ne.2 hk, ih]

/-! ### Setting all members -/

/-- Members set one after the other, where some are there already. -/
def setAll (done members : List (String × Json)) : List (String × Json) :=
  members.foldl (fun done (name, value) => setMember name value done) done

theorem setAll_cons (done : List (String × Json)) (m : String × Json)
    (members : List (String × Json)) :
    setAll done (m :: members) = setAll (setMember m.1 m.2 done) members := rfl

theorem ofMembers_eq_setAll (members : List (String × Json)) :
    ofMembers members = setAll [] members := rfl

theorem setAll_eq_append {members : List (String × Json)} : ∀ {done : List (String × Json)},
    ((done ++ members).map Prod.fst).Nodup → setAll done members = done ++ members := by
  induction members with
  | nil => exact fun _ => (List.append_nil _).symm
  | cons m members ih =>
      intro done h
      have hnew : m.1 ∉ done.map Prod.fst := by
        rw [List.map_append, List.map_cons] at h
        exact fun hmem => (List.nodup_append.1 h).2.2 _ hmem _ List.mem_cons_self rfl
      rw [List.append_cons] at h ⊢
      rw [← ih h, setAll_cons, setMember_of_not_mem hnew]

/-- Members with distinct names are kept as they are. -/
theorem ofMembers_eq_self {members : List (String × Json)} (h : (members.map Prod.fst).Nodup) :
    ofMembers members = members := (ofMembers_eq_setAll members).trans (setAll_eq_append h)

theorem nodup_setAll (members : List (String × Json)) : ∀ {done : List (String × Json)},
    (done.map Prod.fst).Nodup → ((setAll done members).map Prod.fst).Nodup := by
  induction members with
  | nil => exact id
  | cons m members ih =>
      intro done hdone
      rw [setAll_cons]
      refine ih ?_
      rw [map_fst_setMember]
      split
      · exact hdone
      · rename_i hnew
        exact List.nodup_append.2 ⟨hdone, List.pairwise_singleton _ _,
          fun a ha b hb hab => hnew (List.mem_singleton.1 hb ▸ hab ▸ ha)⟩

/-- Each name occurs once. -/
theorem nodup_ofMembers (members : List (String × Json)) :
    ((ofMembers members).map Prod.fst).Nodup := by
  rw [ofMembers_eq_setAll]
  exact nodup_setAll members List.nodup_nil

theorem mem_of_mem_setAll {members : List (String × Json)} {m : String × Json} :
    ∀ {done : List (String × Json)}, m ∈ setAll done members → m ∈ done ∨ m ∈ members := by
  induction members with
  | nil => exact Or.inl
  | cons m' members ih =>
      intro done h
      rcases ih h with h | h
      · rcases mem_of_mem_setMember h with rfl | h
        · exact Or.inr List.mem_cons_self
        · exact Or.inl h
      · exact Or.inr (List.mem_cons_of_mem _ h)

/-- A name has one of the values that it was given. -/
theorem mem_of_mem_ofMembers {members : List (String × Json)} {m : String × Json}
    (h : m ∈ ofMembers members) : m ∈ members := by
  rw [ofMembers_eq_setAll] at h
  exact (mem_of_mem_setAll h).resolve_left List.not_mem_nil

theorem lookup_setAll_of_ne {members : List (String × Json)} {k : String}
    (h : ∀ m ∈ members, m.1 ≠ k) :
    ∀ done, (setAll done members).lookup k = done.lookup k := by
  induction members with
  | nil => exact fun _ => rfl
  | cons m members ih =>
      intro done
      rw [setAll_cons, ih (fun m' hm' => h m' (List.mem_cons_of_mem m hm')), lookup_setMember,
        if_neg (h m List.mem_cons_self).symm]

/-- **What is found among members that were made from a list**, where different elements have
different names. -/
theorem lookup_setAll_map {ι : Type} [DecidableEq ι] (f : ι → String × Json)
    (hf : ∀ {i j}, (f i).1 = (f j).1 → i = j) (i : ι) (list : List ι) :
    ∀ done, (setAll done (list.map f)).lookup (f i).1 =
      if i ∈ list then some (f i).2 else done.lookup (f i).1 := by
  induction list with
  | nil => exact fun done => rfl
  | cons j list ih =>
      intro done
      rw [List.map_cons, setAll_cons, ih, lookup_setMember]
      by_cases hi : i ∈ list
      · simp [hi]
      · by_cases hj : i = j
        · simp [hj]
        · have hname : (f i).1 ≠ (f j).1 := fun h => hj (hf h)
          simp [hi, hj, hname]

end Cohesion.Json
