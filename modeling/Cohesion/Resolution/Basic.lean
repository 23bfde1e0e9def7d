/-
Resolution of invocations.

Among the units of a project, an invocation is resolved to the unit that declares the invoked
method: its receiver gives the unit where the search starts, and the search goes up the known
superclasses.

Main definitions:
* `Resolver` — the units among which invocations are resolved;
* `Resolver.lookup?` — a unit by name;
* `Resolver.hierarchy` — a unit and its known superclasses;
* `Resolver.resolve?` — the unit that declares the invoked method;
* `CallGraph.ofUnits`, `MethodCalls.ofUnits` — the calls of all units.
-/
import Cohesion.CallGraph.Basic
import Cohesion.CallGraph.Methods
import Cohesion.Resolution.Receiver

set_option autoImplicit false

namespace Cohesion

/-- The units among which invocations are resolved. -/
structure Resolver where
  /-- The units in their order. -/
  units : List CodeUnit

namespace Resolver

/-- The units with a simple or qualified name. -/
def candidates (r : Resolver) (name : String) : List CodeUnit :=
  r.units.filter fun u => u.name == name || u.qualified == name

/-- A unit by its simple or qualified name, if possible one of the package of `context`. -/
def lookup? (r : Resolver) (name : Option String) (context : CodeUnit) : Option CodeUnit :=
  match name with
  | none => none
  | some name =>
    if name == "" then none
    else
      let units := r.candidates name
      (units.find? (·.package == context.package)).or units.head?

/-- The known superclass of a unit. -/
def parent? (r : Resolver) (u : CodeUnit) : Option CodeUnit := r.lookup? u.superclass u

/-- A unit and its known superclasses, up to the first one that has been seen before, and at most
`fuel` of them. -/
def climb (r : Resolver) (seen : List CodeUnit) (u : CodeUnit) : Nat → List CodeUnit
  | 0 => []
  | fuel + 1 =>
    if seen.any (·.same u) then []
    else u :: match r.parent? u with
      | none => []
      | some p => r.climb (u :: seen) p fuel

/-- A unit and its known superclasses, each once: apart from the unit itself they are all among the
units of the project. -/
def hierarchy (r : Resolver) (u : CodeUnit) : List CodeUnit := r.climb [] u (r.units.length + 1)

/-- The first unit of a hierarchy that declares a method. -/
def declaring? (r : Resolver) (u : CodeUnit) (method : String) : Option CodeUnit :=
  (r.hierarchy u).find? (·.declares method)

/-- The type of a field of a unit or of a superclass; a field without a type does not count. -/
def fieldType? (r : Resolver) (u : CodeUnit) (field : String) : Option String :=
  (r.hierarchy u).findSome? fun owner => (owner.fieldType? field).filter (· != "")

/-- The type of a name in a method: of a parameter or local variable, or else of a field. -/
def variableType? (r : Resolver) (u : CodeUnit) (m : Method) (name : String) : Option String :=
  ((m.typeOf? name).filter (· != "")).or (r.fieldType? u name)

/-- The unit at which the search for the invoked method starts. -/
def start? (r : Resolver) (u : CodeUnit) (m : Method) : Receiver → Option CodeUnit
  | .self => some u
  | .parent => r.parent? u
  | .ownField name => r.lookup? (r.fieldType? u name) u
  | .simple name =>
    match r.variableType? u m name with
    | some type => r.lookup? type u
    | none => r.lookup? name u
  | .qualified name => r.lookup? name u
  | .expression => none

/-- The unit that declares the method invoked in a method of a unit. -/
def resolve? (r : Resolver) (u : CodeUnit) (m : Method) (i : Invocation) : Option CodeUnit :=
  (r.start? u m (.ofText i.receiver)).bind (r.declaring? · i.method)

end Resolver

/-- An invocation and where it stands. -/
structure InvocationSite where
  /-- The unit. -/
  unit : CodeUnit
  /-- The method. -/
  method : Method
  /-- The invocation. -/
  invocation : Invocation
  deriving Repr

/-- All invocations in the methods of a list of units, in order. -/
def invocationSites (units : List CodeUnit) : List InvocationSite :=
  units.flatMap fun u => u.methods.flatMap fun m => m.invocations.map fun i => ⟨u, m, i⟩

/-- The unit that declares the method invoked at a site. -/
def Resolver.target? (r : Resolver) (site : InvocationSite) : Option CodeUnit :=
  r.resolve? site.unit site.method site.invocation

/-- The calls between units: one for each invocation that is resolved; those within a unit are left
out. -/
def CallGraph.ofUnits (units : List CodeUnit) : CallGraph :=
  (invocationSites units).foldl
    (fun g site =>
      match (Resolver.mk units).target? site with
      | none => g
      | some target => g.addCall site.unit target 1)
    { units }

/-- The label of an invoked method: with the unit that declares it, or marked as external. -/
def calleeLabel (target : Option CodeUnit) (method : String) : String :=
  match target with
  | some u => s!"{u.name}.{method}"
  | none => s!"{method} (ext)"

/-- The calls of the methods of a unit recorded in a table. -/
def MethodCalls.recordMethod (r : Resolver) (u : CodeUnit) (calls : MethodCalls) (m : Method) :
    MethodCalls :=
  let label := s!"{u.name}.{m.name}"
  m.invocations.foldl
    (fun calls i => calls.record label (calleeLabel (r.resolve? u m i) i.method))
    (calls.declare label)

/-- The calls between the methods of units. -/
def MethodCalls.ofUnits (units : List CodeUnit) : MethodCalls :=
  units.foldl (fun calls u => u.methods.foldl (MethodCalls.recordMethod ⟨units⟩ u) calls) {}

end Cohesion
