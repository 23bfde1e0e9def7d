/-
Calls between methods.

For each method of a project the labels of what it calls.  A label under which something is
recorded for the first time takes its place at the end; the labels under it are recorded once each.

Main definitions:
* `MethodCalls` — callers and their callees, in the order of their first recording, no caller twice;
* `MethodCalls.declare`, `MethodCalls.record` — a caller, and a callee under a caller;
* `MethodCalls.ofPairs` — a table given as a list.
-/

set_option autoImplicit false

namespace Cohesion

namespace MethodCalls

/-- The callees of a caller in a table changed by `f`; a new caller starts without callees. -/
def adjust (caller : String) (f : List String → List String) :
    List (String × List String) → List (String × List String)
  | [] => [(caller, f [])]
  | (c, callees) :: rest =>
    if c == caller then (c, f callees) :: rest else (c, callees) :: adjust caller f rest

/-- The callers of a changed table. -/
theorem mem_callers_adjust {caller c : String} {f : List String → List String}
    {entries : List (String × List String)} :
    c ∈ (adjust caller f entries).map Prod.fst ↔ c = caller ∨ c ∈ entries.map Prod.fst := by
  induction entries with
  | nil => simp [adjust]
  | cons entry entries ih =>
      by_cases h : entry.1 = caller
      · simp [adjust, h]
      · rw [adjust, if_neg (by simpa using h), List.map_cons, List.map_cons, List.mem_cons, ih,
          List.mem_cons]
        grind

/-- The callers of a changed table stay different. -/
theorem nodup_adjust (caller : String) (f : List String → List String)
    {entries : List (String × List String)} (h : (entries.map Prod.fst).Nodup) :
    ((adjust caller f entries).map Prod.fst).Nodup := by
  induction entries with
  | nil => simp [adjust]
  | cons entry entries ih =>
      rw [List.map_cons, List.nodup_cons] at h
      by_cases hcaller : entry.1 = caller
      · rw [adjust, if_pos (by simpa using hcaller), List.map_cons, List.nodup_cons]
        exact h
      · rw [adjust, if_neg (by simpa using hcaller), List.map_cons, List.nodup_cons,
          mem_callers_adjust]
        exact ⟨fun hmem => hmem.elim hcaller h.1, ih h.2⟩

end MethodCalls

/-- The labels of callers, each once, with the labels of their callees. -/
structure MethodCalls where
  /-- Callers and callees in order. -/
  entries : List (String × List String) := []
  /-- No caller is there twice. -/
  nodup : (entries.map Prod.fst).Nodup := by exact List.nodup_nil
  deriving DecidableEq, Repr

namespace MethodCalls

instance : Inhabited MethodCalls := ⟨{}⟩

/-- A caller, whether it calls anything or not. -/
def declare (m : MethodCalls) (caller : String) : MethodCalls :=
  ⟨adjust caller id m.entries, nodup_adjust _ _ m.nodup⟩

/-- A callee under a caller, once. -/
def record (m : MethodCalls) (caller callee : String) : MethodCalls :=
  ⟨adjust caller (fun callees => if callees.contains callee then callees else callees ++ [callee])
    m.entries, nodup_adjust _ _ m.nodup⟩

/-- A table given as a list: the last callees of a caller count, in its first place. -/
def ofPairs (pairs : List (String × List String)) : MethodCalls :=
  pairs.foldl (fun done (caller, callees) =>
    ⟨adjust caller (fun _ => callees) done.entries, nodup_adjust _ _ done.nodup⟩) {}

end MethodCalls

end Cohesion
