/-
The walk up the superclasses.

The superclass of a unit is looked up in the context of this unit, so what follows a unit on the way
up depends on the unit alone: the superclasses of a unit are a sequence, which ends where no further
superclass is known or else comes back to a unit and repeats itself for ever.  The walk goes along
this sequence and stops at the first unit that it has seen before.  So it ends, after no more units
than there are in the project, and nothing is lost by stopping: whatever is somewhere in the
sequence has been visited.

Main definitions:
* `Resolver.Walks` — what a walk visits, given what it has seen; there is no bound in it;
* `Resolver.ancestor?` — the unit that stands a number of steps up from a unit;
* `Resolver.IsFirstAncestor` — the first unit of the sequence that satisfies a condition;
* `Resolver.SearchesSuperclasses` — what the search for a method comes to.

Main results:
* `Resolver.walks_iff` — the walk ends, and the hierarchy of a unit is what it visits;
* `Resolver.mem_hierarchy_iff` — the hierarchy holds the whole sequence;
* `Resolver.find?_hierarchy_eq_some_iff` — a search in the hierarchy is one in the sequence;
* `Resolver.searchesSuperclasses` — **the search for a method ends and loses no declaration**.
-/
import Cohesion.Proofs.Resolution.Calls

set_option autoImplicit false

namespace Cohesion

namespace Resolver

variable {r : Resolver} {u v : CodeUnit} {seen us : List CodeUnit} {start : Option CodeUnit}

/-! ### Walks -/

/-- What a walk visits from a unit on, given the units that it has seen: it stops where no
superclass is known, and at a unit that it has seen. -/
inductive Walks (r : Resolver) : List CodeUnit → Option CodeUnit → List CodeUnit → Prop where
  /-- There is no unit to visit. -/
  | root {seen : List CodeUnit} : Walks r seen none []
  /-- The unit has been seen. -/
  | again {seen : List CodeUnit} {u : CodeUnit} :
      seen.any (·.same u) = true → Walks r seen (some u) []
  /-- The unit is visited, and the walk goes on from its superclass. -/
  | visit {seen us : List CodeUnit} {u : CodeUnit} : seen.any (·.same u) = false →
      Walks r (u :: seen) (r.parent? u) us → Walks r seen (some u) (u :: us)

/-- A walk visits only one list of units. -/
theorem Walks.unique (h : r.Walks seen start us) {us' : List CodeUnit}
    (h' : r.Walks seen start us') : us = us' := by
  induction h generalizing us' with
  | root =>
      cases h'
      rfl
  | again hseen =>
      cases h' with
      | again => rfl
      | visit hnew => rw [hseen] at hnew; cases hnew
  | visit hnew _ ih =>
      cases h' with
      | again hseen => rw [hseen] at hnew; cases hnew
      | visit _ hrest => rw [ih hrest]

/-- A walk visits no unit that it has seen, and none twice. -/
theorem Walks.pairwise (h : r.Walks seen start us) :
    (∀ v ∈ us, seen.any (·.same v) = false) ∧ us.Pairwise fun v w => v.same w = false := by
  induction h with
  | root => exact ⟨by simp, .nil⟩
  | again => exact ⟨by simp, .nil⟩
  | @visit seen us u hnew _ ih =>
      have hsplit : ∀ v ∈ us, u.same v = false ∧ seen.any (·.same v) = false := fun v hv =>
        Bool.or_eq_false_iff.1 (ih.1 v hv)
      exact ⟨List.forall_mem_cons.2 ⟨hnew, fun v hv => (hsplit v hv).2⟩,
        List.pairwise_cons.2 ⟨fun v hv => (hsplit v hv).1, ih.2⟩⟩

/-- After a visited unit comes one that is visited as well or had been seen. -/
theorem Walks.closed (h : r.Walks seen start us) {w p : CodeUnit} (hw : w ∈ us)
    (hp : r.parent? w = some p) : (∃ v ∈ us, v.same p = true) ∨ seen.any (·.same p) = true := by
  induction h with
  | root => cases hw
  | again => cases hw
  | @visit seen us u hnew hrest ih =>
      rcases List.mem_cons.1 hw with rfl | hw
      · -- the walk goes on from `p`
        rw [hp] at hrest
        cases hrest with
        | again hseen =>
            rcases Bool.or_eq_true_iff.1 hseen with hsame | hseen
            · exact Or.inl ⟨w, List.mem_cons_self, hsame⟩
            · exact Or.inr hseen
        | visit => exact Or.inl ⟨p, by simp, CodeUnit.same_iff.2 rfl⟩
      · rcases ih hw with ⟨v, hv, hsame⟩ | hseen
        · exact Or.inl ⟨v, List.mem_cons_of_mem u hv, hsame⟩
        · rcases Bool.or_eq_true_iff.1 hseen with hsame | hseen
          · exact Or.inl ⟨u, List.mem_cons_self, hsame⟩
          · exact Or.inr hseen

/-- Two resolvers that agree on the superclasses of the units of the first one walk alike. -/
theorem Walks.of_parent?_eq {r' : Resolver} (hparent : ∀ v ∈ r.units, r'.parent? v = r.parent? v)
    (h : r.Walks seen start us) (hstart : ∀ v ∈ start, v ∈ r.units) : r'.Walks seen start us := by
  induction h with
  | root => exact .root
  | again hseen => exact .again hseen
  | @visit seen us u hnew _ ih =>
      have hu := hstart u rfl
      refine .visit hnew ?_
      rw [hparent u hu]
      exact ih fun v hv => mem_of_lookup? hv

/-! ### The hierarchy is a walk -/

/-- The number of units of the project that have not been seen. -/
def unseen (r : Resolver) (seen : List CodeUnit) : Nat :=
  r.units.countP fun v => !seen.any (·.same v)

/-- There are fewer unseen units after a visit. -/
theorem unseen_cons_lt (hu : u ∈ r.units) (hnew : seen.any (·.same u) = false) :
    r.unseen (u :: seen) < r.unseen seen := by
  obtain ⟨front, back, hunits⟩ := List.append_of_mem hu
  have hself : u.same u = true := CodeUnit.same_iff.2 rfl
  have hle : ∀ others : List CodeUnit, others.countP (fun v => !(u :: seen).any (·.same v)) ≤
      others.countP fun v => !seen.any (·.same v) := fun others =>
    List.countP_mono_left fun v _ hv => by
      rw [List.any_cons, Bool.not_or, Bool.and_eq_true] at hv
      exact hv.2
  have hfront := hle front
  have hback := hle back
  rw [unseen, unseen, hunits, List.countP_append, List.countP_append, List.countP_cons_of_neg,
    List.countP_cons_of_pos]
  · omega
  · simp [hnew]
  · simp [hself]

/-- With one step for every unseen unit a climb is a walk to its end. -/
theorem walks_climb (hu : u ∈ r.units) {fuel : Nat} (hfuel : r.unseen seen ≤ fuel) :
    r.Walks seen (some u) (r.climb seen u fuel) := by
  induction fuel generalizing seen u with
  | zero =>
      -- all units have been seen
      have hseen := List.countP_eq_zero.1 (Nat.le_zero.1 hfuel) u hu
      exact .again (by simpa using hseen)
  | succ fuel ih =>
      cases hseen : seen.any (·.same u) with
      | true =>
          rw [climb, if_pos hseen]
          exact .again hseen
      | false =>
          have hless := unseen_cons_lt hu hseen
          rw [climb, if_neg (by simp [hseen])]
          refine .visit hseen ?_
          cases hparent : r.parent? u with
          | none => exact .root
          | some p => exact ih (mem_of_lookup? hparent) (by omega)

/-- The hierarchy of a unit is what the walk from it visits. -/
theorem walks_hierarchy (r : Resolver) (u : CodeUnit) : r.Walks [] (some u) (r.hierarchy u) := by
  have hunseen : r.unseen [u] ≤ r.units.length := List.countP_le_length
  rw [hierarchy, climb, if_neg (by simp)]
  refine .visit rfl ?_
  cases hparent : r.parent? u with
  | none => exact .root
  | some p => exact walks_climb (mem_of_lookup? hparent) hunseen

/-- **The walk from a unit ends, with its hierarchy.** -/
theorem walks_iff : r.Walks [] (some u) us ↔ us = r.hierarchy u :=
  ⟨fun h => h.unique (walks_hierarchy r u), fun h => h ▸ walks_hierarchy r u⟩

theorem pairwise_hierarchy (r : Resolver) (u : CodeUnit) :
    (r.hierarchy u).Pairwise fun v w => v.same w = false :=
  (walks_hierarchy r u).pairwise.2

/-- The unit itself comes first. -/
theorem exists_hierarchy_eq_cons (r : Resolver) (u : CodeUnit) :
    ∃ above, r.hierarchy u = u :: above := by
  rw [hierarchy, climb, if_neg (by simp)]
  exact ⟨_, rfl⟩

theorem mem_hierarchy_self (r : Resolver) (u : CodeUnit) : u ∈ r.hierarchy u := by
  obtain ⟨above, h⟩ := exists_hierarchy_eq_cons r u
  rw [h]
  exact List.mem_cons_self

/-- A listed unit has no more superclasses than there are units, itself included. -/
theorem length_hierarchy_le (hu : u ∈ r.units) : (r.hierarchy u).length ≤ r.units.length :=
  ((CodeUnit.nodup_of_pairwise (pairwise_hierarchy r u)).subperm
    fun _ hv => mem_of_hierarchy hu hv).length_le

/-- Resolvers that agree on the superclasses of the units of one of them have the same hierarchies
there. -/
theorem hierarchy_eq_of_parent?_eq {r' : Resolver}
    (hparent : ∀ v ∈ r.units, r'.parent? v = r.parent? v) (hu : u ∈ r.units) :
    r'.hierarchy u = r.hierarchy u :=
  (walks_iff.1 ((walks_hierarchy r u).of_parent?_eq hparent fun _ hv => Option.some.inj hv ▸ hu)).symm

/-! ### The sequence of the superclasses -/

/-- The unit that stands `n` steps up from a unit: each superclass is looked up in the context of
the unit that has it. -/
def ancestor? (r : Resolver) (u : CodeUnit) : Nat → Option CodeUnit
  | 0 => some u
  | n + 1 => (r.ancestor? u n).bind r.parent?

/-- A unit is the first one of the sequence that satisfies a condition. -/
def IsFirstAncestor (r : Resolver) (u : CodeUnit) (p : CodeUnit → Bool) (v : CodeUnit) : Prop :=
  ∃ n, r.ancestor? u n = some v ∧ p v = true ∧
    ∀ k < n, ∀ w, r.ancestor? u k = some w → p w = false

theorem ancestor?_succ (r : Resolver) (u : CodeUnit) (n : Nat) :
    r.ancestor? u (n + 1) = (r.parent? u).bind (r.ancestor? · n) := by
  induction n with
  | zero => exact (Option.bind_some _ _).trans (Option.bind_fun_some _).symm
  | succ n ih => rw [ancestor?, ih, Option.bind_assoc]; rfl

/-- A walk goes along the sequence. -/
theorem Walks.getElem?_eq (h : r.Walks seen start us) {n : Nat} (hn : n < us.length) :
    us[n]? = start.bind (r.ancestor? · n) := by
  induction h generalizing n with
  | root => cases hn
  | again => cases hn
  | visit _ _ ih =>
      cases n with
      | zero => rfl
      | succ n =>
          rw [List.getElem?_cons_succ, ih (Nat.lt_of_succ_lt_succ hn), Option.bind_some,
            ancestor?_succ]

theorem getElem?_hierarchy {n : Nat} (hn : n < (r.hierarchy u).length) :
    (r.hierarchy u)[n]? = r.ancestor? u n := by
  rw [(walks_hierarchy r u).getElem?_eq hn, Option.bind_some]

section

variable (hunits : r.units.Pairwise fun v w => v.qualified ≠ w.qualified) (hu : u ∈ r.units)

include hunits hu

/-- The whole sequence has been visited when a walk ends. -/
theorem mem_hierarchy_of_ancestor? {n : Nat} (h : r.ancestor? u n = some v) :
    v ∈ r.hierarchy u := by
  induction n generalizing v with
  | zero =>
      cases h
      exact mem_hierarchy_self r u
  | succ n ih =>
      obtain ⟨w, hw, hparent⟩ := Option.bind_eq_some_iff.1 h
      rcases (walks_hierarchy r u).closed (ih hw) hparent with ⟨x, hx, hsame⟩ | hseen
      · -- the unit that was visited in its place is no other unit
        have hname := CodeUnit.same_iff.1 hsame
        rwa [← List.inj_on_of_nodup_map (List.pairwise_map.2 hunits) (mem_of_hierarchy hu hx)
          (mem_of_lookup? hparent) hname]
      · cases hseen

/-- The hierarchy of a unit holds the units of the sequence. -/
theorem mem_hierarchy_iff : v ∈ r.hierarchy u ↔ ∃ n, r.ancestor? u n = some v := by
  constructor
  · intro hv
    obtain ⟨n, hn, hget⟩ := List.getElem_of_mem hv
    exact ⟨n, by rw [← getElem?_hierarchy hn, List.getElem?_eq_getElem hn, hget]⟩
  · rintro ⟨n, h⟩
    exact mem_hierarchy_of_ancestor? hunits hu h

/-- A search in the hierarchy finds what comes first in the sequence. -/
theorem find?_hierarchy_eq_some_iff {p : CodeUnit → Bool} :
    (r.hierarchy u).find? p = some v ↔ r.IsFirstAncestor u p v := by
  rw [List.find?_eq_some_iff_getElem]
  constructor
  · rintro ⟨hv, n, hn, hget, hbefore⟩
    refine ⟨n, by rw [← getElem?_hierarchy hn, List.getElem?_eq_getElem hn, hget], hv, ?_⟩
    intro k hk w hw
    have hlt : k < (r.hierarchy u).length := hk.trans hn
    rw [← getElem?_hierarchy hlt, List.getElem?_eq_getElem hlt, Option.some_inj] at hw
    simpa [hw] using hbefore k hk
  · rintro ⟨n, hget, hv, hbefore⟩
    -- the unit is in the hierarchy, and it cannot stand there before its place in the sequence
    obtain ⟨i, hi, hgeti⟩ := List.getElem_of_mem (mem_hierarchy_of_ancestor? hunits hu hget)
    have hle : n ≤ i := by
      by_contra hlt
      have hfirst := hbefore i (by omega) v
        (by rw [← getElem?_hierarchy hi, List.getElem?_eq_getElem hi, hgeti])
      rw [hv] at hfirst
      cases hfirst
    have hn : n < (r.hierarchy u).length := by omega
    have hgetn := getElem?_hierarchy hn
    rw [hget, List.getElem?_eq_getElem hn, Option.some_inj] at hgetn
    refine ⟨hv, n, hn, hgetn, fun k hk => ?_⟩
    have hlt : k < (r.hierarchy u).length := hk.trans hn
    simpa using hbefore k hk _ (by rw [← getElem?_hierarchy hlt, List.getElem?_eq_getElem hlt])

/-- A search in the hierarchy fails if nothing can be found in the sequence. -/
theorem find?_hierarchy_eq_none_iff {p : CodeUnit → Bool} :
    (r.hierarchy u).find? p = none ↔ ∀ n v, r.ancestor? u n = some v → p v = false := by
  simp only [List.find?_eq_none, mem_hierarchy_iff hunits hu, Bool.not_eq_true,
    forall_exists_index]
  exact forall_comm

end

/-! ### The search for a method -/

/-- What the search for a method that starts at a unit comes to. -/
structure SearchesSuperclasses (r : Resolver) (u : CodeUnit) (method : String) : Prop where
  /-- The walk ends, and the hierarchy is what it visits. -/
  ends : ∀ us, r.Walks [] (some u) us ↔ us = r.hierarchy u
  /-- No unit is visited twice. -/
  once : (r.hierarchy u).Pairwise fun v w => v.same w = false
  /-- No more units are visited than there are. -/
  few : (r.hierarchy u).length ≤ r.units.length
  /-- What is found is the first unit of the sequence that declares the method. -/
  found : ∀ v, r.declaring? u method = some v ↔ r.IsFirstAncestor u (·.declares method) v
  /-- Nothing is found only if no unit of the sequence declares the method. -/
  missed : r.declaring? u method = none ↔
    ∀ n v, r.ancestor? u n = some v → v.declares method = false

/-- **The search for a method ends and loses no declaration**, whatever the superclasses are: they
may lead in circles, and a unit may be its own superclass. -/
theorem searchesSuperclasses (hunits : r.units.Pairwise fun v w => v.qualified ≠ w.qualified)
    (hu : u ∈ r.units) (method : String) : r.SearchesSuperclasses u method where
  ends _ := walks_iff
  once := pairwise_hierarchy r u
  few := length_hierarchy_le hu
  found _ := find?_hierarchy_eq_some_iff hunits hu
  missed := find?_hierarchy_eq_none_iff hunits hu

/-- A unit whose superclasses lead in a circle that does not come back to it.  There are two units
of the simple name `B`; the superclass of `q.A` is the one of its own package. -/
def spiral : List CodeUnit :=
  [{ name := "Start", qualified := "p.Start", package := some "p", superclass := some "A" },
    { name := "B", qualified := "p.B", package := some "p", methods := [{ name := "run" }] },
    { name := "A", qualified := "q.A", package := some "q", superclass := some "B" },
    { name := "B", qualified := "q.B", package := some "q", superclass := some "A"
      methods := [{ name := "run" }] },
    { name := "C", qualified := "q.C", package := some "q", superclass := some "C" }]

/-- A method is found in the circle, and another one is nowhere in the endless sequence. -/
theorem searchesSuperclasses_spiral :
    (declaring? ⟨spiral⟩ spiral[0] "run").map (·.qualified) = some "q.B" ∧
      SearchesSuperclasses ⟨spiral⟩ spiral[0] "run" ∧
      ∀ n v, ancestor? ⟨spiral⟩ spiral[0] n = some v → v.declares "stop" = false := by
  have hsearches := searchesSuperclasses (r := ⟨spiral⟩) (u := spiral[0]) (by decide) (by decide)
  exact ⟨by decide, hsearches "run", (hsearches "stop").missed.1 (by decide)⟩

end Resolver

end Cohesion
