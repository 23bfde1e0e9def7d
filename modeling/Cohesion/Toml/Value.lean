/-
Values of TOML documents.

Main definitions:
* `Toml` — the values;
* `Toml.Table` — tables, with `Toml.Table.set`;
* `Toml.literal`, `Toml.kindName` — the texts of a value and of its kind in messages;
* `Toml.isTruthy` — a value that counts as yes.
-/
import Cohesion.Json.Value
import Cohesion.Toml.Moment

set_option autoImplicit false

namespace Cohesion

/-- A value of a TOML document. -/
inductive Toml where
  /-- A truth value. -/
  | bool (b : Bool)
  /-- An integer. -/
  | int (n : Int)
  /-- A floating-point number. -/
  | real (x : Binary64)
  /-- A text. -/
  | str (s : String)
  /-- A date or a time. -/
  | moment (m : Toml.Moment)
  /-- A list of values. -/
  | arr (items : List Toml)
  /-- A table: keys and values in order. -/
  | table (members : List (String × Toml))
  deriving Repr, Inhabited

namespace Toml

/-- Keys and values in the order in which the keys first appeared. -/
abbrev Table := List (String × Toml)

/-- The table with a key set to a value: in its place if it is there, at the end if not. -/
def Table.set (key : String) (value : Toml) : Table → Table
  | [] => [(key, value)]
  | (k, v) :: rest =>
    if k == key then (key, value) :: rest else (k, v) :: Table.set key value rest

/-- The name of a value's kind in messages. -/
def kindName : Toml → String
  | .bool _ => "bool"
  | .int _ => "int"
  | .real _ => "float"
  | .str _ => "str"
  | .moment (.date _) => "datetime.date"
  | .moment (.time _) => "datetime.time"
  | .moment (.dateTime _ _ _) => "datetime.datetime"
  | .arr _ => "list"
  | .table _ => "dict"

mutual

/-- The text of a value in messages. -/
def literal : Toml → String
  | .bool true => "True"
  | .bool false => "False"
  | .int n => toString n
  | .real x => NumberNotation.plain.write x
  | .str s => Text.quoted s
  | .moment m => m.literal
  | .arr items => "[" ++ ", ".intercalate (literals items) ++ "]"
  | .table members => "\x7b" ++ ", ".intercalate (memberLiterals members) ++ "\x7d"

/-- The texts of a list of values. -/
def literals : List Toml → List String
  | [] => []
  | v :: rest => literal v :: literals rest

/-- The texts of the members of a table. -/
def memberLiterals : List (String × Toml) → List String
  | [] => []
  | (k, v) :: rest => (Text.quoted k ++ ": " ++ literal v) :: memberLiterals rest

end

/-- A value that counts as yes: all but false, zero, and what is empty. -/
def isTruthy : Toml → Bool
  | .bool b => b
  | .int n => n != 0
  | .real x => !x.eq (.zero false)
  | .str s => s != ""
  | .moment _ => true
  | .arr items => !items.isEmpty
  | .table members => !members.isEmpty

end Toml

end Cohesion
