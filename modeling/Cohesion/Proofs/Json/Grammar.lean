/-
Documents of the standard.

By the standard a document is one value with white space around it, and the values are three names,
numbers, strings, lists and objects.  Every value whose numbers are finite is written as such a
document.

Main definitions:
* `Json.Derives`, `Json.IsDocument` — the values and documents of the standard;
* `Json.Sound` — a value that can be written and read: its numbers have the form of all results, the
  names in an object are distinct, and it is not nested too deeply;
* `Json.isFinite` — all numbers of a value are finite.

Main results:
* `Json.derives_writeAt` — **values whose numbers are finite are written by the standard**.
-/
import Cohesion.Proofs.Json.Numbers
import Cohesion.Proofs.Json.Strings

set_option autoImplicit false

namespace Cohesion.Json

/-! ### The standard -/

/-- White space. -/
def IsWhite (cs : List Char) : Prop := ∀ c ∈ cs, c = ' ' ∨ c = '\t' ∨ c = '\n' ∨ c = '\r'

/-- The parts of a document. -/
inductive Part where
  /-- A value. -/
  | value
  /-- The items of a list, with the white space around them. -/
  | items
  /-- The members of an object, with the white space around them. -/
  | members

/-- A text is a part of a document. -/
inductive Derives : Part → List Char → Prop where
  /-- A value with a name. -/
  | name {cs : List Char} (h : cs ∈ ["null".toList, "true".toList, "false".toList]) :
    Derives .value cs
  /-- A number. -/
  | number {cs : List Char} (h : IsNumberText cs) : Derives .value cs
  /-- A string. -/
  | string {cs : List Char} (h : IsStringText cs) : Derives .value cs
  /-- A list without items. -/
  | emptyArray {white : List Char} (h : IsWhite white) : Derives .value ('[' :: white ++ [']'])
  /-- A list. -/
  | array {cs : List Char} (h : Derives .items cs) : Derives .value ('[' :: cs ++ [']'])
  /-- An object without members. -/
  | emptyObject {white : List Char} (h : IsWhite white) :
    Derives .value ('\x7b' :: white ++ ['\x7d'])
  /-- An object. -/
  | object {cs : List Char} (h : Derives .members cs) : Derives .value ('\x7b' :: cs ++ ['\x7d'])
  /-- The last item. -/
  | item {before cs after : List Char} (hbefore : IsWhite before) (h : Derives .value cs)
    (hafter : IsWhite after) : Derives .items (before ++ cs ++ after)
  /-- An item before others. -/
  | items {before cs after rest : List Char} (hbefore : IsWhite before) (h : Derives .value cs)
    (hafter : IsWhite after) (hrest : Derives .items rest) :
    Derives .items (before ++ cs ++ after ++ ',' :: rest)
  /-- The last member. -/
  | member {before name middle before' cs after : List Char} (hbefore : IsWhite before)
    (hname : IsStringText name) (hmiddle : IsWhite middle) (hbefore' : IsWhite before')
    (h : Derives .value cs) (hafter : IsWhite after) :
    Derives .members (before ++ name ++ middle ++ ':' :: (before' ++ cs ++ after))
  /-- A member before others. -/
  | members {before name middle before' cs after rest : List Char} (hbefore : IsWhite before)
    (hname : IsStringText name) (hmiddle : IsWhite middle) (hbefore' : IsWhite before')
    (h : Derives .value cs) (hafter : IsWhite after) (hrest : Derives .members rest) :
    Derives .members
      (before ++ name ++ middle ++ ':' :: (before' ++ cs ++ after) ++ ',' :: rest)

/-- A document is one value with white space around it. -/
inductive IsDocument : List Char → Prop where
  /-- The value stands between white space. -/
  | value {before cs after : List Char} (hbefore : IsWhite before) (h : Derives .value cs)
    (hafter : IsWhite after) : IsDocument (before ++ cs ++ after)

/-! ### Values that can be written and read -/

/-- A value inside a number of containers can be written and read where `limit` containers may be
nested: its floating-point numbers have the form of all results, the names in each object are
distinct, and the nesting is not too deep. -/
inductive Sound (limit : Nat) : Nat → Json → Prop where
  /-- The null value. -/
  | null (depth : Nat) : Sound limit depth .null
  /-- A truth value. -/
  | bool (depth : Nat) (b : Bool) : Sound limit depth (.bool b)
  /-- An integer. -/
  | int (depth : Nat) (n : Int) : Sound limit depth (.int n)
  /-- A floating-point number. -/
  | real (depth : Nat) {x : Binary64} (h : x.Canonical) : Sound limit depth (.real x)
  /-- A text. -/
  | str (depth : Nat) (s : String) : Sound limit depth (.str s)
  /-- A list of values. -/
  | arr {depth : Nat} {items : List Json} (hdepth : depth < limit)
    (h : ∀ v ∈ items, Sound limit (depth + 1) v) : Sound limit depth (.arr items)
  /-- An object. -/
  | obj {depth : Nat} {members : List (String × Json)} (hdepth : depth < limit)
    (hnames : (members.map Prod.fst).Nodup) (h : ∀ m ∈ members, Sound limit (depth + 1) m.2) :
    Sound limit depth (.obj members)

mutual

/-- All floating-point numbers of a value are finite. -/
def isFinite : Json → Bool
  | .real x => x.isFinite
  | .arr items => areFinite items
  | .obj members => haveFinite members
  | _ => true

/-- All floating-point numbers of a list of values are finite. -/
def areFinite : List Json → Bool
  | [] => true
  | v :: rest => isFinite v && areFinite rest

/-- All floating-point numbers of the values of members are finite. -/
def haveFinite : List (String × Json) → Bool
  | [] => true
  | (_, v) :: rest => isFinite v && haveFinite rest

end

/-! ### Written values -/

theorem isWhite_nil : IsWhite [] := nofun

theorem isWhite_lineStart (layout : Layout) (depth : Nat) : IsWhite (layout.lineStart depth) := by
  cases layout with
  | oneLine => exact isWhite_nil
  | indented width =>
      intro c hc
      rcases List.mem_cons.1 hc with rfl | hc
      · exact Or.inr (Or.inr (Or.inl rfl))
      · exact Or.inl (List.eq_of_mem_replicate hc)

theorem isWhite_gap (layout : Layout) : IsWhite layout.gap := by
  cases layout with
  | oneLine => simp [IsWhite, Layout.gap]
  | indented width => exact isWhite_nil

theorem isWhite_append {cs ds : List Char} (hcs : IsWhite cs) (hds : IsWhite ds) :
    IsWhite (cs ++ ds) := fun c hc => (List.mem_append.1 hc).elim (hcs c) (hds c)

theorem isWhite_space : IsWhite [' '] := by simp [IsWhite]

mutual

/-- A value whose numbers are finite is written by the standard. -/
theorem derives_writeAt (layout : Layout) (depth : Nat) {limit level : Nat} : ∀ {v : Json},
    Sound limit level v → v.isFinite = true → Derives .value (writeAt layout depth v)
  | .null, _, _ => .name (by rw [writeAt]; decide)
  | .bool true, _, _ => .name (by rw [writeAt]; decide)
  | .bool false, _, _ => .name (by rw [writeAt]; decide)
  | .int n, _, _ => .number (isNumberText_int n)
  | .real (.finite s k e), .real _ h, _ => .number (isNumberText_real s h)
  | .str s, _, _ => .string (isStringText_writeString s)
  | .arr [], _, _ => .emptyArray isWhite_nil
  | .arr (v :: rest), .arr _ h, hfinite => by
      rw [isFinite, areFinite, Bool.and_eq_true] at hfinite
      have hv := derives_writeAt layout (depth + 1) (h v List.mem_cons_self) hfinite.1
      rw [writeAt]
      exact .array (derives_writeItems layout (depth + 1)
        (fun w hw => h w (List.mem_cons_of_mem v hw)) hfinite.2
        (isWhite_lineStart layout (depth + 1)) hv (isWhite_lineStart layout depth))
  | .obj [], _, _ => .emptyObject isWhite_nil
  | .obj ((n, v) :: rest), .obj _ _ h, hfinite => by
      rw [isFinite, haveFinite, Bool.and_eq_true] at hfinite
      have hv := derives_writeAt layout (depth + 1) (h (n, v) List.mem_cons_self) hfinite.1
      rw [writeAt]
      exact .object (derives_writeMembers layout (depth + 1)
        (fun m hm => h m (List.mem_cons_of_mem (n, v) hm)) hfinite.2
        (isWhite_lineStart layout (depth + 1)) (isStringText_writeString n) hv
        (isWhite_lineStart layout depth))

/-- Items behind a first one are written by the standard. -/
theorem derives_writeItems (layout : Layout) (depth : Nat) {limit level : Nat} :
    ∀ {items : List Json}, (∀ v ∈ items, Sound limit level v) → areFinite items = true →
      ∀ {before cs after : List Char},
        IsWhite before → Derives .value cs → IsWhite after →
          Derives .items (before ++ cs ++ writeItems layout depth items ++ after)
  | [], _, _, _, _, _, hbefore, hcs, hafter => by
      rw [writeItems, List.append_nil]
      exact .item hbefore hcs hafter
  | v :: rest, h, hfinite, before, cs, after, hbefore, hcs, hafter => by
      rw [areFinite, Bool.and_eq_true] at hfinite
      have hv := derives_writeAt layout depth (h v List.mem_cons_self) hfinite.1
      have hrest := derives_writeItems layout depth
        (fun w hw => h w (List.mem_cons_of_mem v hw)) hfinite.2
        (isWhite_append (isWhite_gap layout) (isWhite_lineStart layout depth)) hv hafter
      have hitems := Derives.items hbefore hcs isWhite_nil hrest
      rw [writeItems]
      simpa only [List.append_nil, List.append_assoc, List.cons_append] using hitems

/-- Members behind a first one are written by the standard. -/
theorem derives_writeMembers (layout : Layout) (depth : Nat) {limit level : Nat} :
    ∀ {members : List (String × Json)}, (∀ m ∈ members, Sound limit level m.2) →
      haveFinite members = true → ∀ {before name cs after : List Char}, IsWhite before →
        IsStringText name → Derives .value cs → IsWhite after →
          Derives .members (before ++ name ++ ':' :: ' ' :: cs ++
            writeMembers layout depth members ++ after)
  | [], _, _, _, _, _, _, hbefore, hname, hcs, hafter => by
      have hmember := Derives.member hbefore hname isWhite_nil isWhite_space hcs hafter
      rw [writeMembers]
      simpa only [List.append_nil, List.append_assoc, List.cons_append, List.nil_append]
        using hmember
  | (n, v) :: rest, h, hfinite, before, name, cs, after, hbefore, hname, hcs, hafter => by
      rw [haveFinite, Bool.and_eq_true] at hfinite
      have hv := derives_writeAt layout depth (h (n, v) List.mem_cons_self) hfinite.1
      have hrest := derives_writeMembers layout depth
        (fun m hm => h m (List.mem_cons_of_mem (n, v) hm)) hfinite.2
        (isWhite_append (isWhite_gap layout) (isWhite_lineStart layout depth))
        (isStringText_writeString n) hv hafter
      have hmembers := Derives.members hbefore hname isWhite_nil isWhite_space hcs isWhite_nil hrest
      rw [writeMembers]
      simpa only [List.append_nil, List.append_assoc, List.cons_append, List.nil_append]
        using hmembers

end

end Cohesion.Json
