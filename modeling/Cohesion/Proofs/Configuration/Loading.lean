/-
What is loaded for a path.

The configuration of a path should be a table whatever stands in the file that counts for it: the
table under the key of the program, and the empty table if the file cannot be read, is malformed or
has no such table.  It is, but for files that go astray: the bytes are no text, the reader of
documents gives up because of an integer or of lists and tables, or the value under the key is no
table.  Then loading fails, or gives this value.

Main definitions:
* `Configuration.Means` — the table that a path should be given;
* `Configuration.Astray` — bytes for which nothing is provided.

Main results:
* `Configuration.not_astray` — texts that do not go astray;
* `Configuration.loads_table_iff` — **when the right table is loaded**;
* `Configuration.exists_not_table` — a number under the key is loaded as it is.
-/
import Cohesion.Configuration
import Cohesion.Proofs.Text.Utf8
import Cohesion.Proofs.Toml.Limits

set_option autoImplicit false

namespace Cohesion.Configuration

open Text

/-! ### Tables that should be loaded -/

/-- The table that a file with the given bytes should give. -/
inductive Gives (nesting : Toml.Nesting) (bytes : List UInt8) : Toml.Table → Prop where
  /-- The bytes are those of no text. -/
  | noText (h : ∀ s, bytes ≠ Utf8.encode s) : Gives nesting bytes []
  /-- The text is no document. -/
  | noDocument {s : String} {e : Toml.ReadError} (hs : bytes = Utf8.encode s)
      (h : Toml.parse s.toList nesting = .error e) : Gives nesting bytes []
  /-- The document has no table under the key. -/
  | noTable {s : String} {document : Toml.Table} (hs : bytes = Utf8.encode s)
      (hdocument : Toml.parse s.toList nesting = .ok document)
      (h : ∀ members, section? document ≠ some (.table members)) : Gives nesting bytes []
  /-- The document has a table under the key. -/
  | table {s : String} {document members : Toml.Table} (hs : bytes = Utf8.encode s)
      (hdocument : Toml.parse s.toList nesting = .ok document)
      (h : section? document = some (.table members)) : Gives nesting bytes members

/-- The table that a path should be given, where `read` reads the files. -/
inductive Means (nesting : Toml.Nesting) (t : FileTree)
    (read : Path → Except String (List UInt8)) (start : Path) : Toml.Table → Prop where
  /-- There is no file. -/
  | noFile (h : file? t start = none) : Means nesting t read start []
  /-- The file cannot be read. -/
  | unreadable {file : Path} {reason : String} (hfile : file? t start = some file)
      (h : read file = .error reason) : Means nesting t read start []
  /-- The file can be read. -/
  | file {file : Path} {bytes : List UInt8} {members : Toml.Table}
      (hfile : file? t start = some file) (hread : read file = .ok bytes)
      (h : Gives nesting bytes members) : Means nesting t read start members

/-- Bytes that are not provided for: those of no text; a text that the reader of documents gives up
because of an integer or of lists and tables; and a document with a value under the key that is no
table. -/
inductive Astray (nesting : Toml.Nesting) (bytes : List UInt8) : Prop where
  /-- The bytes are those of no text. -/
  | encoding (h : ∀ s, bytes ≠ Utf8.encode s)
  /-- An integer has too many digits. -/
  | integer {s : String} {digits : Nat} (hs : bytes = Utf8.encode s)
      (h : Toml.parse s.toList nesting = .error (.hugeInteger digits))
  /-- Lists and tables are nested too deeply. -/
  | depth {s : String} (hs : bytes = Utf8.encode s)
      (h : Toml.parse s.toList nesting = .error .tooDeep)
  /-- The value under the key is no table. -/
  | value {s : String} {document : Toml.Table} {value : Toml} (hs : bytes = Utf8.encode s)
      (hdocument : Toml.parse s.toList nesting = .ok document)
      (hvalue : section? document = some value)
      (h : ∀ members, value ≠ .table members)

variable {nesting : Toml.Nesting} {t : FileTree} {read : Path → Except String (List UInt8)}
  {start file : Path} {bytes : List UInt8}

/-! ### Bytes -/

theorem ofBytes_encode_of_ok {s : String} {document : Toml.Table}
    (h : Toml.parse s.toList nesting = .ok document) : ofBytes nesting file (Utf8.encode s) =
      .ok ⟨some file, (section? document).getD (.table []), none⟩ := by
  simp only [ofBytes, Utf8.decode_encode, h]

theorem ofBytes_encode_of_malformed {s : String} {cause : Toml.Cause} {place : Option Text.Place}
    (h : Toml.parse s.toList nesting = .error (.malformed cause place)) :
    ofBytes nesting file (Utf8.encode s) =
      .ok ⟨some file, .table [], some (Toml.ReadError.malformed cause place).message⟩ := by
  simp only [ofBytes, Utf8.decode_encode, h]

/-- Bytes should give only one table. -/
theorem Gives.unique {members members' : Toml.Table} (h : Gives nesting bytes members)
    (h' : Gives nesting bytes members') : members = members' := by
  cases h <;> cases h' <;> grind [Utf8.encode_eq_iff]

/-- Bytes that do not go astray give the table that they should. -/
theorem exists_table (file : Path) (h : ¬Astray nesting bytes) : ∃ members ignored,
    ofBytes nesting file bytes = .ok ⟨some file, .table members, ignored⟩ ∧
      Gives nesting bytes members := by
  by_cases htext : ∃ s, bytes = Utf8.encode s
  · obtain ⟨s, rfl⟩ := htext
    cases hparse : Toml.parse s.toList nesting with
    | error e =>
        cases e with
        | malformed cause place =>
            exact ⟨[], _, ofBytes_encode_of_malformed hparse, .noDocument rfl hparse⟩
        | hugeInteger digits => exact absurd (.integer rfl hparse) h
        | tooDeep => exact absurd (.depth rfl hparse) h
    | ok document =>
        have hbytes : ofBytes nesting file (Utf8.encode s) = _ := ofBytes_encode_of_ok hparse
        cases hsection : section? document with
        | none =>
            rw [hsection] at hbytes
            exact ⟨[], none, hbytes, .noTable rfl hparse (by simp [hsection])⟩
        | some value =>
            by_cases htable : ∃ members, value = .table members
            · obtain ⟨members, rfl⟩ := htable
              rw [hsection] at hbytes
              exact ⟨members, none, hbytes, .table rfl hparse hsection⟩
            · exact absurd (.value rfl hparse hsection fun members heq =>
                htable ⟨members, heq⟩) h
  · exact absurd (.encoding fun s hs => htext ⟨s, hs⟩) h

/-- Bytes that go astray make loading fail, or give a value that is no table. -/
theorem of_astray (file : Path) (h : Astray nesting bytes) :
    (∃ e, ofBytes nesting file bytes = .error e) ∨
      ∃ c, ofBytes nesting file bytes = .ok c ∧ ∀ members, c.value ≠ .table members := by
  cases h with
  | encoding h =>
      obtain ⟨e, he⟩ := Utf8.exists_decode_error_iff.2 h
      exact Or.inl ⟨.encoding e, by simp only [ofBytes, he]⟩
  | @integer _ digits hs h =>
      subst hs
      exact Or.inl ⟨.hugeInteger digits, by simp only [ofBytes, Utf8.decode_encode, h]⟩
  | depth hs h =>
      subst hs
      exact Or.inl ⟨.tooDeep, by simp only [ofBytes, Utf8.decode_encode, h]⟩
  | value hs hdocument hvalue h =>
      subst hs
      refine Or.inr ⟨_, ofBytes_encode_of_ok hdocument, ?_⟩
      rw [hvalue]
      exact h

/-- Texts that do not go astray: without a run of digits that is too long, without too many
openings, and without a value under the key that is no table. -/
theorem not_astray {s : String} (hdigits : ∀ n, ¬Toml.HasLongRun n (Toml.joinLineEnds s.toList))
    (hopenings : nesting.heaviest * Toml.openings (Toml.joinLineEnds s.toList) ≤ nesting.limit)
    (hvalue : ∀ document, Toml.parse s.toList nesting = .ok document →
      ∀ value, section? document = some value → ∃ members, value = .table members) :
    ¬Astray nesting (Utf8.encode s) := by
  have hinj : ∀ {s' : String}, Utf8.encode s = Utf8.encode s' → s' = s := by
    intro s' h
    rw [Utf8.encode_eq_iff] at h
    exact h.symm
  intro h
  cases h with
  | encoding h => exact h s rfl
  | integer hs h =>
      cases hinj hs
      exact hdigits _ (Toml.of_parse_eq_hugeInteger h)
  | depth hs h =>
      cases hinj hs
      exact absurd (Toml.of_parse_eq_tooDeep h) (Nat.not_lt.2 hopenings)
  | value hs hdocument hsection h =>
      cases hinj hs
      obtain ⟨members, heq⟩ := hvalue _ hdocument _ hsection
      exact h members heq

/-! ### Paths -/

theorem loadWith_of_file (hfile : file? t start = some file) (hread : read file = .ok bytes) :
    loadWith nesting t read start = ofBytes nesting file bytes := by
  rw [loadWith, hfile]
  simp only [hread]

/-- The file that counts for a path has bytes, and they are loaded. -/
theorem load_of_file (hfile : file? t start = some file) :
    ∃ bytes, t.read? file = some bytes ∧ load t start nesting = ofBytes nesting file bytes := by
  have hfound : t.isFile file = true := List.find?_some hfile
  obtain ⟨bytes, hbytes⟩ : ∃ bytes, t.read? file = some bytes := by
    unfold FileTree.isFile at hfound
    unfold FileTree.read?
    split at hfound
    · rename_i hentry
      exact ⟨_, rfl⟩
    · cases hfound
  refine ⟨bytes, hbytes, loadWith_of_file hfile ?_⟩
  rw [hbytes]
  rfl

/-- A path should be given only one table. -/
theorem Means.unique {members members' : Toml.Table} (h : Means nesting t read start members)
    (h' : Means nesting t read start members') : members = members' := by
  cases h <;> cases h' <;> grind [Gives.unique]

/-- **When the right table is loaded.**  The table that a path should be given is loaded exactly if
the file that counts for it, when there is one that can be read, does not go astray.  If it does,
loading fails, or it gives a value that is no table. -/
theorem loads_table_iff (nesting : Toml.Nesting) (t : FileTree)
    (read : Path → Except String (List UInt8)) (start : Path) :
    ((∃ c members, loadWith nesting t read start = .ok c ∧ c.value = .table members ∧
        Means nesting t read start members) ↔
      ∀ file bytes, file? t start = some file → read file = .ok bytes → ¬Astray nesting bytes) ∧
      ∀ file bytes, file? t start = some file → read file = .ok bytes → Astray nesting bytes →
        (∃ e, loadWith nesting t read start = .error e) ∨
          ∃ c, loadWith nesting t read start = .ok c ∧ ∀ members, c.value ≠ .table members := by
  have hastray : ∀ file bytes, file? t start = some file → read file = .ok bytes →
      Astray nesting bytes → (∃ e, loadWith nesting t read start = .error e) ∨
        ∃ c, loadWith nesting t read start = .ok c ∧ ∀ members, c.value ≠ .table members := by
    intro file bytes hfile hread h
    rw [loadWith_of_file hfile hread]
    exact of_astray file h
  refine ⟨⟨?_, fun h => ?_⟩, hastray⟩
  · rintro ⟨c, members, hload, hvalue, -⟩ file bytes hfile hread h
    obtain ⟨e, he⟩ | ⟨c', hload', hother⟩ := hastray file bytes hfile hread h
    · rw [hload] at he
      cases he
    · rw [hload] at hload'
      cases hload'
      exact hother members hvalue
  · cases hfile : file? t start with
    | none =>
        have hload : loadWith nesting t read start = .ok ⟨none, .table [], none⟩ := by
          rw [loadWith, hfile]
        exact ⟨_, [], hload, rfl, .noFile hfile⟩
    | some file =>
        cases hread : read file with
        | error reason =>
            have hload : loadWith nesting t read start =
                .ok ⟨some file, .table [], some reason⟩ := by
              rw [loadWith, hfile]
              simp only [hread]
            exact ⟨_, [], hload, rfl, .unreadable hfile hread⟩
        | ok bytes =>
            obtain ⟨members, ignored, hbytes, hgives⟩ :=
              exists_table file (h file bytes hfile hread)
            rw [← loadWith_of_file hfile hread] at hbytes
            exact ⟨_, members, hbytes, rfl, .file hfile hread hgives⟩

/-! ### Small files -/

/-- The place of a configuration file. -/
def smallPath : Path := ⟨"/", [".ccerc"]⟩

/-- A tree with a configuration file of these bytes. -/
def smallTree (bytes : List UInt8) : FileTree :=
  (FileTree.empty ⟨"/", []⟩).put smallPath (.file bytes)

theorem file?_smallTree (bytes : List UInt8) :
    file? (smallTree bytes) ⟨"/", []⟩ = some smallPath := by
  with_unfolding_all rfl

theorem read?_smallTree (bytes : List UInt8) : (smallTree bytes).read? smallPath = some bytes := by
  with_unfolding_all rfl

/-- The file of a small tree is loaded. -/
theorem load_smallTree (bytes : List UInt8) :
    load (smallTree bytes) ⟨"/", []⟩ = ofBytes {} smallPath bytes := by
  obtain ⟨found, hfound, hload⟩ := load_of_file (file?_smallTree bytes)
  rw [read?_smallTree] at hfound
  cases hfound
  exact hload

/-- A file with a table. -/
def tableText : String := "[cce]\nthreshold = 1\n"

/-- A file with a number in place of the table. -/
def numberText : String := "cce = 1\n"

theorem parse_tableText : Toml.parse tableText.toList =
    .ok [("cce", .table [("threshold", .int 1)])] := by
  have htext : tableText.toList = ['[', 'c', 'c', 'e', ']', '\n', 't', 'h', 'r', 'e', 's', 'h',
      'o', 'l', 'd', ' ', '=', ' ', '1', '\n'] := by decide
  rw [htext]
  with_unfolding_all rfl

theorem parse_numberText : Toml.parse numberText.toList = .ok [("cce", .int 1)] := by
  have htext : numberText.toList = ['c', 'c', 'e', ' ', '=', ' ', '1', '\n'] := by decide
  rw [htext]
  with_unfolding_all rfl

theorem not_astray_tableText : ¬Astray {} (Utf8.encode tableText) := by
  refine not_astray ?_ (by decide +kernel) ?_
  · rintro n ⟨hlong, run, hinfix, rfl, -⟩
    have hlength := hinfix.length_le
    have hcount : run.countP Char.isDigit ≤ run.length := List.countP_le_length
    have htwenty : (Toml.joinLineEnds tableText.toList).length = 20 := by decide +kernel
    rw [Toml.digitLimit] at hlong
    omega
  · intro document hdocument value hvalue
    rw [parse_tableText] at hdocument
    cases hdocument
    cases hvalue
    exact ⟨_, rfl⟩

theorem astray_numberText : Astray {} (Utf8.encode numberText) :=
  .value rfl parse_numberText rfl nofun

/-- A table is loaded, and nothing from a file that cannot be read; in place of the number there
should be a table. -/
theorem loads_table_iff_small :
    (∃ c, loadWith {} (smallTree (Utf8.encode tableText)) (fun _ => .ok (Utf8.encode tableText))
        ⟨"/", []⟩ = .ok c ∧ c.value = .table [("threshold", .int 1)]) ∧
      (∃ c, loadWith {} (smallTree (Utf8.encode tableText)) (fun _ => .error "denied")
        ⟨"/", []⟩ = .ok c ∧ c.value = .table []) ∧
      ((∃ e, loadWith {} (smallTree (Utf8.encode numberText)) (fun _ => .ok (Utf8.encode numberText))
          ⟨"/", []⟩ = .error e) ∨
        ∃ c, loadWith {} (smallTree (Utf8.encode numberText))
            (fun _ => .ok (Utf8.encode numberText)) ⟨"/", []⟩ = .ok c ∧
          ∀ members, c.value ≠ .table members) := by
  refine ⟨?_, ?_, ?_⟩
  · obtain ⟨c, members, hload, hvalue, hmeans⟩ :=
      (loads_table_iff {} (smallTree (Utf8.encode tableText)) (fun _ => .ok (Utf8.encode tableText))
        ⟨"/", []⟩).1.2 fun file bytes _ hread => Except.ok.inj hread ▸ not_astray_tableText
    have hmeans' : Means {} (smallTree (Utf8.encode tableText))
        (fun _ => .ok (Utf8.encode tableText)) ⟨"/", []⟩ [("threshold", .int 1)] :=
      .file (file?_smallTree _) rfl (.table rfl parse_tableText rfl)
    rw [hmeans.unique hmeans'] at hvalue
    exact ⟨c, hload, hvalue⟩
  · obtain ⟨c, members, hload, hvalue, hmeans⟩ :=
      (loads_table_iff {} (smallTree (Utf8.encode tableText)) (fun _ => .error "denied")
        ⟨"/", []⟩).1.2 fun _ _ _ => nofun
    have hmeans' : Means {} (smallTree (Utf8.encode tableText)) (fun _ => .error "denied")
        ⟨"/", []⟩ [] := .unreadable (file?_smallTree _) rfl
    rw [hmeans.unique hmeans'] at hvalue
    exact ⟨c, hload, hvalue⟩
  · exact (loads_table_iff {} (smallTree (Utf8.encode numberText))
      (fun _ => .ok (Utf8.encode numberText)) ⟨"/", []⟩).2 smallPath _ (file?_smallTree _) rfl
        astray_numberText

/-- A number under the key is loaded as it is, and a byte that starts no character makes loading
fail. -/
theorem exists_not_table :
    (∃ (t : FileTree) (start : Path) (c : Configuration), load t start = .ok c ∧
        ∀ members, c.value ≠ .table members) ∧
      ∃ (t : FileTree) (start : Path) (e : ConfigurationError), load t start = .error e := by
  constructor
  · refine ⟨smallTree (Utf8.encode numberText), ⟨"/", []⟩, ⟨some smallPath, .int 1, none⟩, ?_,
      nofun⟩
    rw [load_smallTree, ofBytes_encode_of_ok parse_numberText]
    rfl
  · obtain ⟨e, he⟩ : ∃ e, Utf8.decode [0xff] = .error e := ⟨_, rfl⟩
    refine ⟨smallTree [0xff], ⟨"/", []⟩, .encoding e, ?_⟩
    rw [load_smallTree]
    simp only [ofBytes, he]

end Cohesion.Configuration
