/-
Call graphs in JSON documents.

A document lists the names of the units and, optionally, the calls: each call is an object with a
caller, a callee and a count, or a list of the same two or three things.  Without a count a call
counts once.  A name that is not listed stands for a unit of its own, so that later stages can
refuse the graph.

Main definitions:
* `DocumentError` — why a value is no call document, with `DocumentError.message`;
* `CallDocument` — the names and the calls of a document;
* `CallDocument.ofJson` — the document in a JSON value;
* `CallDocument.graph`, `CallDocument.log` — its call graph, and what is said about it;
* `CallDocument.load` — the document in the bytes of a file.
-/
import Cohesion.CallGraph.Basic
import Cohesion.Json.Reader
import Cohesion.Text.Utf8
import Cohesion.Log

set_option autoImplicit false

namespace Cohesion

/-- Why a JSON value is no call document. -/
inductive DocumentError where
  /-- The value is not an object with a list of units. -/
  | noUnits
  /-- The name of a unit is not a text. -/
  | nameNotText (value : Json)
  /-- A unit is listed twice. -/
  | listedTwice (name : String)
  /-- The calls are not a list. -/
  | callsNotList (value : Json)
  /-- A call is neither an object nor a list of two or three things. -/
  | malformedCall (entry : Json)
  /-- The caller or the callee of a call is not a text. -/
  | callWithoutNames (entry : Json)
  /-- The count of a call is not an integer. -/
  | countNotInteger (entry : Json)
  deriving Repr

/-- The name of a value's kind in messages. -/
def Json.kindName : Json → String
  | .null => "NoneType"
  | .bool _ => "bool"
  | .int _ => "int"
  | .real _ => "float"
  | .str _ => "str"
  | .arr _ => "list"
  | .obj _ => "dict"

/-- The wording of an error. -/
def DocumentError.message : DocumentError → String
  | .noUnits => "expected an object with a 'units' list"
  | .nameNotText value => s!"unit names must be strings, got {value.literal}"
  | .listedTwice name => s!"unit listed twice: {name}"
  | .callsNotList value => s!"'calls' must be a list, got {value.kindName}"
  | .malformedCall entry => s!"malformed call entry {entry.literal}"
  | .callWithoutNames entry => s!"call entry needs caller and callee names: {entry.literal}"
  | .countNotInteger entry => s!"call count must be an integer: {entry.literal}"

/-- A call of a document. -/
structure NamedCall where
  /-- The name of the calling unit. -/
  caller : String
  /-- The name of the called unit. -/
  callee : String
  /-- The number of calls. -/
  count : Int
  deriving DecidableEq, Repr

/-- The names and the calls of a document. -/
structure CallDocument where
  /-- The names of the units, each once. -/
  names : List String
  /-- The calls. -/
  calls : List NamedCall
  deriving DecidableEq, Repr

namespace CallDocument

/-- The names in a list of values, where `seen` are the names before it. -/
def readNames (seen : List String) : List Json → Except DocumentError (List String)
  | [] => .ok []
  | .str name :: rest =>
    if seen.contains name then .error (.listedTwice name)
    else (readNames (name :: seen) rest).map (name :: ·)
  | value :: _ => .error (.nameNotText value)

/-- The caller, the callee and the count of an entry, before they are checked. -/
def entryParts? : Json → Option (Json × Json × Json)
  | .obj members =>
    some ((members.lookup "caller").getD .null, (members.lookup "callee").getD .null,
      (members.lookup "count").getD (.int 1))
  | .arr [caller, callee] => some (caller, callee, .int 1)
  | .arr [caller, callee, count] => some (caller, callee, count)
  | _ => none

/-- The call in an entry. -/
def readCall (entry : Json) : Except DocumentError NamedCall :=
  match entryParts? entry with
  | none => .error (.malformedCall entry)
  | some (.str caller, .str callee, .int count) => .ok ⟨caller, callee, count⟩
  | some (.str _, .str _, _) => .error (.countNotInteger entry)
  | some _ => .error (.callWithoutNames entry)

/-- The document in a JSON value. -/
def ofJson (value : Json) : Except DocumentError CallDocument :=
  match value.member? "units" with
  | some (.arr units) => do
    let names ← readNames [] units
    match (value.member? "calls").getD (.arr []) with
    | .arr entries =>
      let calls ← entries.mapM readCall
      .ok ⟨names, calls⟩
    | other => .error (.callsNotList other)
  | _ => .error .noUnits

/-- The call graph of a document. -/
def graph (d : CallDocument) : CallGraph :=
  d.calls.foldl
    (fun g c => g.addCall (CodeUnit.ofQualified c.caller) (CodeUnit.ofQualified c.callee) c.count)
    { units := d.names.map CodeUnit.ofQualified }

/-- What is said about the calls of a document while they are read. -/
def callsLog (names : List String) (calls : List NamedCall) : List LogLine :=
  calls.flatMap fun c => ([c.caller, c.callee].filter (!names.contains ·)).map fun name =>
    ⟨.debug, "call_graph", s!"Call references unlisted unit {name}"⟩

/-- What is said about a document from `source`. -/
def log (d : CallDocument) (source : String) : List LogLine :=
  callsLog d.names d.calls ++
    [⟨.info, "call_graph",
      s!"Loaded {d.names.length} units and {d.graph.total} calls from {source}"⟩]

/-- The calls of a list of entries up to the first one that is none. -/
def leadingCalls : List Json → List NamedCall
  | [] => []
  | entry :: rest =>
    match readCall entry with
    | .ok call => call :: leadingCalls rest
    | .error _ => []

/-- What is said about a JSON value that turns out to be no call document: the lines about the calls
before the fault. -/
def faultyLog (value : Json) : List LogLine :=
  match value.member? "units", value.member? "calls" with
  | some (.arr units), some (.arr entries) =>
    match readNames [] units with
    | .ok names => callsLog names (leadingCalls entries)
    | .error _ => []
  | _, _ => []

end CallDocument

/-- Why a file holds no call document. -/
inductive LoadError where
  /-- The file is not UTF-8. -/
  | encoding (e : Text.Utf8.DecodeError)
  /-- The text is not JSON, or beyond the limits of the reader. -/
  | json (source : String) (text : List Char) (e : Json.ReadError)
  /-- The JSON value is no call document. -/
  | document (source : String) (value : Json) (e : DocumentError)
  deriving Repr

/-- The wording of an error. -/
def LoadError.message : LoadError → String
  | .encoding e => e.message
  | .json source text e@(.malformed _ _) => s!"{source}: invalid JSON ({e.message text})"
  | .json _ text e => e.message text
  | .document source _ e => s!"{source}: {e.message}"

/-- The fault is in the document itself, not in its encoding or in the limits of the reader. -/
def LoadError.isMalformed : LoadError → Bool
  | .json _ _ (.malformed _ _) => true
  | .document _ _ _ => true
  | _ => false

/-- What is said before the error is met. -/
def LoadError.log : LoadError → List LogLine
  | .document _ value _ => CallDocument.faultyLog value
  | _ => []

/-- The document in the bytes of the file `source`, where `limit` containers may be nested. -/
def CallDocument.load (source : String) (bytes : List UInt8) (limit : Nat := Json.depthLimit) :
    Except LoadError CallDocument :=
  match Text.Utf8.decode bytes with
  | .error e => .error (.encoding e)
  | .ok cs =>
    let text := Text.normalizeNewlines cs
    match Json.parse text limit with
    | .error e => .error (.json source text e)
    | .ok value => (CallDocument.ofJson value).mapError (.document source value)

end Cohesion
