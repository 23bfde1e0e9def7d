/-
Reading written documents.

A written document is read back: the reader takes each part of it whole and gives the value that
was written, so long as the text behind it cannot continue a number.  The line starts and gaps of a
layout are white space, the names of an object are distinct, and the fuel of the reader is twice the
length of the text, more than it takes.  Beyond the standard the names of the numbers that are not
finite are read back as well.

Main definitions:
* `Json.Takes` — a reader takes the front of a text and gives a value;
* `Json.Taken` — a value is taken from a text wherever nothing continues a number.

Main results:
* `Json.takes_array`, `Json.takes_object` — a container is taken if its parts are;
* `Json.taken_writeAt` — every written value is taken;
* `Json.parse_write` — **a written document is read back**.
-/
import Cohesion.Proofs.Json.Grammar
import Cohesion.Proofs.Json.Members

set_option autoImplicit false

namespace Cohesion.Json

variable {α : Type}

/-- A reader takes the front of a text and gives a value, wherever the text starts. -/
def Takes (read : Cursor → Except ReadError (α × Cursor)) (front : List Char) (a : α)
    (rest : List Char) : Prop :=
  ∀ p, ∃ q, read ⟨front ++ rest, p⟩ = .ok (a, ⟨rest, q⟩)

/-! ### White space -/

/-- The text goes on with something that is no white space. -/
def Dense (cs : List Char) : Prop := ∀ c ∈ cs.head?, isSpace c = false

theorem takeWhile_isSpace {white rest : List Char} (hwhite : IsWhite white) (hrest : Dense rest) :
    (white ++ rest).takeWhile isSpace = white := by
  induction white with
  | nil =>
      cases rest with
      | nil => rfl
      | cons c rest => simp [hrest c rfl]
  | cons c white ih =>
      have hspace : isSpace c = true := by
        rcases hwhite c List.mem_cons_self with rfl | rfl | rfl | rfl <;> rfl
      rw [List.cons_append, List.takeWhile_cons, hspace, if_pos rfl,
        ih fun d hd => hwhite d (List.mem_cons_of_mem c hd)]

/-- The white space between two parts is skipped. -/
theorem skipSpace_append {white rest : List Char} (hwhite : IsWhite white) (hrest : Dense rest)
    (p : Nat) : Cursor.skipSpace ⟨white ++ rest, p⟩ = ⟨rest, p + white.length⟩ := by
  rw [Cursor.skipSpace, Cursor.advance, takeWhile_isSpace hwhite hrest, List.drop_left]

theorem skipSpace_dense {rest : List Char} (hrest : Dense rest) (p : Nat) :
    Cursor.skipSpace ⟨rest, p⟩ = ⟨rest, p⟩ := skipSpace_append isWhite_nil hrest p

/-! ### Numbers and names -/

/-- The characters with which a value with a name may start. -/
def nameStarts : List Char := ['n', 't', 'f', 'N', 'I', '-']

theorem find?_namedValues {c : Char} (hc : c ∉ nameStarts) (cs : List Char) :
    namedValues.find? (fun (name, _) => name.isPrefixOf (c :: cs)) = none := by
  simp only [nameStarts, List.mem_cons, List.not_mem_nil, or_false, not_or] at hc
  obtain ⟨hn, ht, hf, hN, hI, hminus⟩ := hc
  simp [namedValues, List.isPrefixOf, Ne.symm hn, Ne.symm ht, Ne.symm hf, Ne.symm hN, Ne.symm hI,
    Ne.symm hminus]

theorem find?_namedValues_minus {c : Char} (hc : c ≠ 'I') (cs : List Char) :
    namedValues.find? (fun (name, _) => name.isPrefixOf ('-' :: c :: cs)) = none := by
  simp [namedValues, List.isPrefixOf, Ne.symm hc]

/-- A number starts with a digit, perhaps behind a minus sign. -/
theorem IsNumberText.exists_cons {cs : List Char} (h : IsNumberText cs) :
    ∃ d ds, d.isDigit = true ∧ (cs = d :: ds ∨ cs = '-' :: d :: ds) := by
  obtain ⟨negative, hwhole, -, -⟩ := h
  obtain ⟨d, ds, hcons⟩ := List.exists_cons_of_ne_nil hwhole.ne_nil
  have hd : d.isDigit = true := hwhole.areDigits d (hcons ▸ List.mem_cons_self)
  subst hcons
  cases negative
  · exact ⟨d, _, hd, Or.inl rfl⟩
  · exact ⟨d, _, hd, Or.inr rfl⟩

/-- A digit is no character with which something else starts. -/
theorem ne_of_isDigit {d : Char} (hd : d.isDigit = true) :
    d ∉ nameStarts ∧ isSpace d = false ∧ d ∉ ['"', '[', ']', '\x7b', '\ufeff'] := by
  have hall : ∀ d ∈ ['0', '1', '2', '3', '4', '5', '6', '7', '8', '9'],
      d ∉ nameStarts ∧ isSpace d = false ∧ d ∉ ['"', '[', ']', '\x7b', '\ufeff'] := by
    simp [nameStarts, isSpace]
  exact hall d (mem_digits_of_isDigit hd)

/-- A number that is read is the value at its place. -/
theorem takes_number {cs rest : List Char} {v : Json} (h : IsNumberText cs)
    (hread : readNumber? (cs ++ rest) = some (.ok v, cs.length)) : Takes readScalar cs v rest := by
  intro p
  obtain ⟨d, ds, hd, hcs⟩ := h.exists_cons
  have hfind : namedValues.find? (fun (name, _) => name.isPrefixOf (cs ++ rest)) = none := by
    rcases hcs with rfl | rfl
    · exact find?_namedValues (ne_of_isDigit hd).1 _
    · refine find?_namedValues_minus ?_ _
      rintro rfl
      cases hd
  refine ⟨p + cs.length, ?_⟩
  simp only [readScalar, hfind, hread, Cursor.advance, List.drop_left]

/-- A value with a name is read at its place. -/
theorem takes_name {cs : List Char} {v : Json} (h : (cs, v) ∈ namedValues) (rest : List Char) :
    Takes readScalar cs v rest := by
  intro p
  simp only [namedValues, List.mem_cons, List.not_mem_nil, or_false] at h
  refine ⟨p + cs.length, ?_⟩
  have hfind : namedValues.find? (fun (name, _) => name.isPrefixOf (cs ++ rest)) = some (cs, v) := by
    rcases h with h | h | h | h | h | h <;> cases h <;> rfl
  simp only [readScalar, hfind, Cursor.advance, List.drop_left]

/-! ### Written values -/

/-- A text starts as a value does. -/
def Starts (cs : List Char) : Prop :=
  ∃ c rest, cs = c :: rest ∧ isSpace c = false ∧ c ∉ [']', '\ufeff']

theorem Starts.dense_append {cs : List Char} (h : Starts cs) (rest : List Char) :
    Dense (cs ++ rest) := by
  obtain ⟨c, cs, rfl, hspace, -⟩ := h
  rintro d ⟨⟩
  exact hspace

theorem Starts.length_pos {cs : List Char} (h : Starts cs) : 0 < cs.length := by
  obtain ⟨c, cs, rfl, -⟩ := h
  exact Nat.succ_pos _

theorem starts_cons {c : Char} (hc : c ∈ ['n', 't', 'f', 'N', 'I', '-', '"', '[', '\x7b'])
    (rest : List Char) : Starts (c :: rest) := by
  have hall : ∀ c ∈ ['n', 't', 'f', 'N', 'I', '-', '"', '[', '\x7b'],
      isSpace c = false ∧ c ∉ [']', '\ufeff'] := by simp [isSpace]
  exact ⟨c, rest, rfl, hall c hc⟩

theorem IsNumberText.starts {cs : List Char} (h : IsNumberText cs) : Starts cs := by
  obtain ⟨d, ds, hd, rfl | rfl⟩ := h.exists_cons
  · obtain ⟨-, hspace, hd⟩ := ne_of_isDigit hd
    exact ⟨d, ds, rfl, hspace, fun h => hd (by revert h; simp; tauto)⟩
  · exact starts_cons (by decide) _

theorem starts_writeAt (layout : Layout) (depth : Nat) {limit level : Nat} : ∀ {v : Json},
    Sound limit level v → Starts (writeAt layout depth v)
  | .null, _ => starts_cons (by decide) _
  | .bool true, _ => starts_cons (by decide) _
  | .bool false, _ => starts_cons (by decide) _
  | .int n, _ => (isNumberText_int n).starts
  | .real (.finite s _ _), .real _ h => (isNumberText_real s h).starts
  | .real (.infinite true), _ => starts_cons (by decide) _
  | .real (.infinite false), _ => starts_cons (by decide) _
  | .real .nan, _ => starts_cons (by decide) _
  | .str _, _ => starts_cons (by decide) _
  | .arr [], _ => starts_cons (by decide) _
  | .arr (_ :: _), _ => starts_cons (by decide) _
  | .obj [], _ => starts_cons (by decide) _
  | .obj (_ :: _), _ => starts_cons (by decide) _

/-! ### The parts of a document -/

variable {limit fuel depth : Nat}

/-- What starts neither a string nor a container is taken as one of the other values. -/
theorem takes_scalar {c : Char} {cs rest : List Char} {v : Json} (hc : c ∉ ['"', '[', '\x7b'])
    (h : Takes readScalar (c :: cs) v rest) :
    Takes (readValue limit (fuel + 1) depth) (c :: cs) v rest := by
  intro p
  obtain ⟨q, h⟩ := h p
  simp only [List.mem_cons, List.not_mem_nil, or_false, not_or] at hc
  refine ⟨q, ?_⟩
  rw [← h, List.cons_append, readValue]
  split
  · rename_i heq
    exact absurd (List.cons.inj heq).1 hc.1
  · rename_i heq
    exact absurd (List.cons.inj heq).1 hc.2.1
  · rename_i heq
    exact absurd (List.cons.inj heq).1 hc.2.2
  · rfl

/-- A number that is read is taken. -/
theorem IsNumberText.takes {cs rest : List Char} {v : Json} (h : IsNumberText cs)
    (hread : readNumber? (cs ++ rest) = some (.ok v, cs.length)) :
    Takes (readValue limit (fuel + 1) depth) cs v rest := by
  have hscalar := takes_number h hread
  obtain ⟨d, ds, hd, rfl | rfl⟩ := h.exists_cons
  · refine takes_scalar (fun hmem => (ne_of_isDigit hd).2.2 ?_) hscalar
    revert hmem
    simp
    tauto
  · exact takes_scalar (by decide) hscalar

/-- A text is taken. -/
theorem takes_string (s : String) {rest : List Char} (hfuel : (writeString s).length ≤ fuel) :
    Takes (readValue limit (fuel + 1) depth) (writeString s) (.str s) rest := by
  intro p
  have hlength : (writeString s).length = (s.toList.flatMap writeChar).length + 2 := by
    simp [writeString]
  have hlt : (s.toList.flatMap writeChar).length < fuel := by omega
  have hread := readString_flatMap p s.toList [] rest (p + 1) hlt
  rw [List.reverse_nil, List.nil_append, String.ofList_toList] at hread
  refine ⟨p + 1 + ((s.toList.flatMap writeChar).length + 1), ?_⟩
  rw [writeString, List.append_assoc, List.cons_append, List.singleton_append, readValue]
  simp only [Cursor.advance, List.drop_one, List.tail_cons, hread]
  rfl

/-- A list is taken if its items are. -/
theorem takes_array {white body rest : List Char} {items : List Json} (hdepth : depth < limit)
    (hwhite : IsWhite white) (hbody : Starts body)
    (h : Takes (readItems limit fuel (depth + 1)) body items rest) :
    Takes (readValue limit (fuel + 1) depth) ('[' :: white ++ body) (.arr items) rest := by
  intro p
  obtain ⟨q, h⟩ := h (p + 1 + white.length)
  have hskip := skipSpace_append hwhite (hbody.dense_append rest) (p + 1)
  obtain ⟨c, cs, rfl, -, hc⟩ := hbody
  refine ⟨q, ?_⟩
  rw [List.append_assoc, List.cons_append, readValue, if_neg (not_le.2 hdepth)]
  simp only [Cursor.advance, List.drop_one, List.tail_cons, hskip]
  split
  · rename_i heq
    exact absurd ((List.cons.inj heq).1 ▸ List.mem_cons_self) hc
  · rw [h]
    rfl

/-- The last item is taken up to the closing bracket. -/
theorem takes_item {cs white rest : List Char} {v : Json} (hwhite : IsWhite white)
    (hv : Takes (readValue limit fuel depth) cs v (white ++ ']' :: rest)) :
    Takes (readItems limit (fuel + 1) depth) (cs ++ white ++ [']']) [v] rest := by
  intro p
  obtain ⟨q, hv⟩ := hv p
  have hdense : Dense (']' :: rest) := by rintro c ⟨⟩; rfl
  refine ⟨q + white.length + 1, ?_⟩
  rw [List.append_assoc, List.append_assoc, List.singleton_append, readItems, hv]
  simp only [bind, Except.bind, skipSpace_append hwhite hdense q]
  rfl

/-- An item before others is taken up to the next one. -/
theorem takes_items {cs white more rest : List Char} {v : Json} {items : List Json}
    (hwhite : IsWhite white) (hmore : Starts more)
    (hv : Takes (readValue limit fuel depth) cs v (',' :: (white ++ (more ++ rest))))
    (h : Takes (readItems limit fuel depth) more items rest) :
    Takes (readItems limit (fuel + 1) depth) (cs ++ ',' :: (white ++ more)) (v :: items) rest := by
  intro p
  obtain ⟨q, hv⟩ := hv p
  obtain ⟨r, h⟩ := h (q + 1 + white.length)
  have hdense : Dense (',' :: (white ++ (more ++ rest))) := by rintro c ⟨⟩; rfl
  have hskip := skipSpace_append hwhite (hmore.dense_append rest) (q + 1)
  refine ⟨r, ?_⟩
  rw [List.append_assoc, List.cons_append, List.append_assoc, readItems, hv]
  simp only [bind, Except.bind, skipSpace_dense hdense q, Cursor.advance, List.drop_one,
    List.tail_cons, hskip, h]

/-- An object is taken if its members are. -/
theorem takes_object {n : String} {white body rest : List Char} {members : List (String × Json)}
    (hdepth : depth < limit) (hwhite : IsWhite white)
    (h : Takes (readMembers limit fuel (depth + 1)) (writeString n ++ body) members rest) :
    Takes (readValue limit (fuel + 1) depth) ('\x7b' :: white ++ (writeString n ++ body))
      (.obj (ofMembers members)) rest := by
  intro p
  obtain ⟨q, h⟩ := h (p + 1 + white.length)
  have hdense : Dense (writeString n ++ body ++ rest) := by rintro c ⟨⟩; rfl
  have hskip := skipSpace_append hwhite hdense (p + 1)
  refine ⟨q, ?_⟩
  rw [List.append_assoc, List.cons_append, readValue]
  simp only [if_neg (not_le.2 hdepth), Cursor.advance, List.drop_one, List.tail_cons, hskip, h]
  rfl

/-- The name and the value of a member are read before the closing brace or before the comma and the
members behind it. -/
theorem exists_readMembers_eq {n : String} {cs rest : List Char} {v : Json}
    (hfuel : (writeString n).length ≤ fuel) (hstart : Starts cs)
    (hv : Takes (readValue limit fuel depth) cs v rest) (p : Nat) :
    ∃ q,
      (∀ {after : List Char}, (Cursor.skipSpace ⟨rest, q⟩).rest = '\x7d' :: after →
        readMembers limit (fuel + 1) depth ⟨writeString n ++ ':' :: ' ' :: (cs ++ rest), p⟩ =
          .ok ([(n, v)], (Cursor.skipSpace ⟨rest, q⟩).advance 1)) ∧
      ∀ {after : List Char} {members : List (String × Json)} {c : Cursor},
        (Cursor.skipSpace ⟨rest, q⟩).rest = ',' :: after →
        readMembers limit fuel depth ((Cursor.skipSpace ⟨rest, q⟩).advance 1).skipSpace =
          .ok (members, c) →
        readMembers limit (fuel + 1) depth ⟨writeString n ++ ':' :: ' ' :: (cs ++ rest), p⟩ =
          .ok ((n, v) :: members, c) := by
  have hlength : (writeString n).length = (n.toList.flatMap writeChar).length + 2 := by
    simp [writeString]
  have hlt : (n.toList.flatMap writeChar).length < fuel := by omega
  have hname := readString_flatMap p n.toList [] (':' :: ' ' :: (cs ++ rest)) (p + 1) hlt
  rw [List.reverse_nil, List.nil_append, String.ofList_toList] at hname
  have hdense : Dense (':' :: ' ' :: (cs ++ rest)) := by rintro c ⟨⟩; rfl
  have hskip : ∀ p, Cursor.skipSpace ⟨' ' :: (cs ++ rest), p⟩ = ⟨cs ++ rest, p + 1⟩ :=
    skipSpace_append isWhite_space (hstart.dense_append rest)
  obtain ⟨q, hv⟩ := hv (p + 1 + ((n.toList.flatMap writeChar).length + 1) + 1 + 1)
  rw [writeString, List.append_assoc, List.cons_append, List.singleton_append, readMembers]
  refine ⟨q, ?_, ?_⟩
  · intro after hbrace
    simp only [Cursor.advance, List.drop_one, List.tail_cons, hname, bind, Except.bind,
      skipSpace_dense hdense, hskip, hv, hbrace]
  · intro after members c hcomma hmembers
    simp only [Cursor.advance, List.drop_one, hcomma, List.tail_cons] at hmembers
    simp only [Cursor.advance, List.drop_one, List.tail_cons, hname, bind, Except.bind,
      skipSpace_dense hdense, hskip, hv, hcomma, hmembers]

/-- The last member is taken up to the closing brace. -/
theorem takes_member {n : String} {cs white rest : List Char} {v : Json}
    (hfuel : (writeString n).length ≤ fuel) (hstart : Starts cs) (hwhite : IsWhite white)
    (hv : Takes (readValue limit fuel depth) cs v (white ++ '\x7d' :: rest)) :
    Takes (readMembers limit (fuel + 1) depth)
      (writeString n ++ ':' :: ' ' :: (cs ++ white ++ ['\x7d'])) [(n, v)] rest := by
  intro p
  obtain ⟨q, hread, -⟩ := exists_readMembers_eq hfuel hstart hv p
  have hdense : Dense ('\x7d' :: rest) := by rintro c ⟨⟩; rfl
  rw [skipSpace_append hwhite hdense q] at hread
  refine ⟨q + white.length + 1, ?_⟩
  simp only [List.append_assoc, List.cons_append, List.nil_append, hread rfl, Cursor.advance,
    List.drop_one, List.tail_cons]

/-- A member before others is taken up to the next one. -/
theorem takes_members {n : String} {cs white more rest : List Char} {v : Json}
    {members : List (String × Json)} (hfuel : (writeString n).length ≤ fuel) (hstart : Starts cs)
    (hwhite : IsWhite white) (hmore : Starts more)
    (hv : Takes (readValue limit fuel depth) cs v (',' :: (white ++ (more ++ rest))))
    (h : Takes (readMembers limit fuel depth) more members rest) :
    Takes (readMembers limit (fuel + 1) depth)
      (writeString n ++ ':' :: ' ' :: (cs ++ ',' :: (white ++ more))) ((n, v) :: members) rest := by
  intro p
  obtain ⟨q, -, hread⟩ := exists_readMembers_eq hfuel hstart hv p
  obtain ⟨r, h⟩ := h (q + 1 + white.length)
  have hdense : Dense (',' :: (white ++ (more ++ rest))) := by rintro c ⟨⟩; rfl
  have hskip := skipSpace_append hwhite (hmore.dense_append rest) (q + 1)
  rw [skipSpace_dense hdense q, Cursor.advance, List.drop_one, List.tail_cons, hskip] at hread
  refine ⟨r, ?_⟩
  simp only [List.append_assoc, List.cons_append, hread rfl h]

/-! ### Written values -/

theorem Starts.append {cs : List Char} (h : Starts cs) (rest : List Char) :
    Starts (cs ++ rest) := by
  obtain ⟨c, cs, rfl, h⟩ := h
  exact ⟨c, cs ++ rest, rfl, h⟩

/-- The line start before a closing bracket does not continue a number. -/
theorem stops_lineStart (layout : Layout) (indent : Nat) {c : Char} (hc : c ∈ [']', '\x7d'])
    (rest : List Char) : Stops (layout.lineStart indent ++ c :: rest) := by
  have hclose : ∀ c ∈ [']', '\x7d'], c ∈ [',', '\n', ' ', ']', '\x7d'] := by simp
  cases layout with
  | oneLine => exact stops_cons (hclose c hc) rest
  | indented width => exact stops_cons (by decide) _

/-- A value is taken from a text wherever the text goes on with something else, with fuel for twice
its length. -/
def Taken (limit level : Nat) (cs : List Char) (v : Json) : Prop :=
  Starts cs ∧ ∀ {fuel : Nat}, 2 * cs.length ≤ fuel → ∀ {rest : List Char}, Stops rest →
    Takes (readValue limit fuel level) cs v rest

theorem starts_writeString (s : String) : Starts (writeString s) := starts_cons (by decide) _

theorem exists_succ {m n : Nat} (hm : 0 < m) (h : 2 * m ≤ n) : ∃ k, n = k + 1 ∧ m ≤ k :=
  ⟨n - 1, by omega, by omega⟩

theorem taken_name (limit level : Nat) (i : Fin 6) :
    Taken limit level (namedValues.get i).1 (namedValues.get i).2 := by
  have hall : ∀ p ∈ namedValues, ∃ c ds, p.1 = c :: ds ∧ c ∈ nameStarts := by
    simp [namedValues, nameStarts]
  have hstarts : ∀ c ∈ nameStarts, c ∉ ['"', '[', '\x7b'] ∧
      c ∈ ['n', 't', 'f', 'N', 'I', '-', '"', '[', '\x7b'] := by simp [nameStarts]
  have hmem := namedValues.get_mem i
  generalize namedValues.get i = named at *
  obtain ⟨c, ds, hcs, hc⟩ := hall named hmem
  obtain ⟨cs, v⟩ := named
  obtain rfl : cs = c :: ds := hcs
  refine ⟨starts_cons (hstarts c hc).2 ds, ?_⟩
  intro fuel hfuel rest _
  obtain ⟨more, rfl, -⟩ := exists_succ (Nat.succ_pos _) hfuel
  exact takes_scalar (hstarts c hc).1 (takes_name hmem rest)

theorem taken_number {limit level : Nat} {cs : List Char} {v : Json} (h : IsNumberText cs)
    (hread : ∀ {rest : List Char}, Stops rest →
      readNumber? (cs ++ rest) = some (.ok v, cs.length)) : Taken limit level cs v := by
  refine ⟨h.starts, ?_⟩
  intro fuel hfuel rest hrest
  obtain ⟨more, rfl, -⟩ := exists_succ h.starts.length_pos hfuel
  exact h.takes (hread hrest)

theorem taken_string (limit level : Nat) (s : String) :
    Taken limit level (writeString s) (.str s) := by
  refine ⟨starts_writeString s, ?_⟩
  intro fuel hfuel rest _
  obtain ⟨more, rfl, hmore⟩ := exists_succ (starts_writeString s).length_pos hfuel
  exact takes_string s hmore

theorem taken_emptyArray {limit level : Nat} (hlevel : level < limit) :
    Taken limit level ['[', ']'] (.arr []) := by
  refine ⟨starts_cons (by decide) _, ?_⟩
  intro fuel hfuel rest _ p
  obtain ⟨more, rfl, -⟩ := exists_succ (Nat.succ_pos 1) hfuel
  refine ⟨p + 2, ?_⟩
  have hdense : Dense (']' :: rest) := by rintro c ⟨⟩; rfl
  rw [List.cons_append, readValue]
  simp only [if_neg (not_le.2 hlevel), Cursor.advance, List.drop_one, List.tail_cons,
    List.singleton_append, skipSpace_dense hdense]

theorem taken_emptyObject {limit level : Nat} (hlevel : level < limit) :
    Taken limit level ['\x7b', '\x7d'] (.obj []) := by
  refine ⟨starts_cons (by decide) _, ?_⟩
  intro fuel hfuel rest _ p
  obtain ⟨more, rfl, -⟩ := exists_succ (Nat.succ_pos 1) hfuel
  refine ⟨p + 2, ?_⟩
  have hdense : Dense ('\x7d' :: rest) := by rintro c ⟨⟩; rfl
  rw [List.cons_append, readValue]
  simp only [if_neg (not_le.2 hlevel), Cursor.advance, List.drop_one, List.tail_cons,
    List.singleton_append, skipSpace_dense hdense]

mutual

/-- Every written value is taken. -/
theorem taken_writeAt (layout : Layout) (indent : Nat) {limit level : Nat} : ∀ {v : Json},
    Sound limit level v → v.integersFit = true → Taken limit level (writeAt layout indent v) v
  | .null, _ => fun _ => taken_name limit level 0
  | .bool true, _ => fun _ => taken_name limit level 1
  | .bool false, _ => fun _ => taken_name limit level 2
  | .int n, _ => fun hn => by
      rw [integersFit] at hn
      rw [writeAt]
      exact taken_number (isNumberText_int n) fun hrest => readNumber?_int hn hrest
  | .real (.finite s k e), .real _ h => fun _ =>
      taken_number (isNumberText_real s h) fun hrest => readNumber?_real s h hrest
  | .real (.infinite true), _ => fun _ => taken_name limit level 5
  | .real (.infinite false), _ => fun _ => taken_name limit level 4
  | .real .nan, _ => fun _ => taken_name limit level 3
  | .str s, _ => fun _ => taken_string limit level s
  | .arr [], .arr hdepth _ => fun _ => taken_emptyArray hdepth
  | .arr (v :: items), .arr hdepth h => fun hfit => by
      rw [integersFit, itemsFit, Bool.and_eq_true] at hfit
      have hv := taken_writeAt layout (indent + 1) (h v List.mem_cons_self) hfit.1
      refine ⟨starts_writeAt layout indent (.arr hdepth h), ?_⟩
      intro fuel hfuel rest hrest
      rw [writeAt] at hfuel ⊢
      simp only [List.length_append, List.length_cons] at hfuel
      obtain ⟨more, rfl⟩ := Nat.exists_eq_add_one_of_ne_zero (show fuel ≠ 0 by omega)
      have hlt : 2 * ((writeAt layout (indent + 1) v).length +
          (writeItems layout (indent + 1) items).length) < more := by omega
      have hitems := takes_writeItems layout (indent + 1) indent
        (fun w hw => h w (List.mem_cons_of_mem v hw)) hfit.2 hv hlt rest
      have harray := takes_array hdepth (isWhite_lineStart layout (indent + 1))
        (hv.1.append _) hitems
      simpa only [List.append_assoc, List.cons_append] using harray
  | .obj [], .obj hdepth _ _ => fun _ => taken_emptyObject hdepth
  | .obj ((n, v) :: members), .obj hdepth hnames h => fun hfit => by
      rw [integersFit, membersFit, Bool.and_eq_true] at hfit
      have hv := taken_writeAt layout (indent + 1) (h (n, v) List.mem_cons_self) hfit.1
      refine ⟨starts_writeAt layout indent (.obj hdepth hnames h), ?_⟩
      intro fuel hfuel rest hrest
      rw [writeAt] at hfuel ⊢
      simp only [List.length_append, List.length_cons] at hfuel
      obtain ⟨more, rfl⟩ := Nat.exists_eq_add_one_of_ne_zero (show fuel ≠ 0 by omega)
      have hlt : 2 * ((writeString n).length + (writeAt layout (indent + 1) v).length +
          (writeMembers layout (indent + 1) members).length) < more := by omega
      have hmembers := takes_writeMembers layout (indent + 1) indent
        (fun m hm => h m (List.mem_cons_of_mem (n, v) hm)) hfit.2 hv n hlt rest
      have hobject := takes_object hdepth (isWhite_lineStart layout (indent + 1)) hmembers
      rw [ofMembers_eq_self hnames] at hobject
      simpa only [List.append_assoc, List.cons_append] using hobject

/-- Items behind a first one are taken with it up to the closing bracket. -/
theorem takes_writeItems (layout : Layout) (indent outer : Nat) {limit level : Nat} :
    ∀ {items : List Json}, (∀ v ∈ items, Sound limit level v) → itemsFit items = true →
      ∀ {cs : List Char} {v : Json} {fuel : Nat}, Taken limit level cs v →
        2 * (cs.length + (writeItems layout indent items).length) < fuel → ∀ rest : List Char,
          Takes (readItems limit fuel level)
            (cs ++ (writeItems layout indent items ++ (layout.lineStart outer ++ [']'])))
            (v :: items) rest
  | [], _, _, cs, v, fuel + 1, hv, hfuel, rest => by
      have hcs : 2 * cs.length ≤ fuel := by omega
      have hlast := takes_item (isWhite_lineStart layout outer)
        (hv.2 hcs (stops_lineStart layout outer (c := ']') (by decide) rest))
      rw [writeItems]
      simpa only [List.append_assoc, List.nil_append] using hlast
  | w :: items, h, hfit, cs, v, fuel + 1, hv, hfuel, rest => by
      rw [itemsFit, Bool.and_eq_true] at hfit
      have hw := taken_writeAt layout indent (h w List.mem_cons_self) hfit.1
      rw [writeItems] at hfuel ⊢
      simp only [List.length_append, List.length_cons] at hfuel
      have hcs : 2 * cs.length ≤ fuel := by omega
      have hlt : 2 * ((writeAt layout indent w).length +
          (writeItems layout indent items).length) < fuel := by omega
      have hmore := takes_writeItems layout indent outer
        (fun u hu => h u (List.mem_cons_of_mem w hu)) hfit.2 hw hlt rest
      have hitems := takes_items
        (isWhite_append (isWhite_gap layout) (isWhite_lineStart layout indent)) (hw.1.append _)
        (hv.2 hcs (stops_cons (by decide) _)) hmore
      simpa only [List.append_assoc, List.cons_append] using hitems

/-- Members behind a first one are taken with it up to the closing brace. -/
theorem takes_writeMembers (layout : Layout) (indent outer : Nat) {limit level : Nat} :
    ∀ {members : List (String × Json)}, (∀ m ∈ members, Sound limit level m.2) →
      membersFit members = true → ∀ {cs : List Char} {v : Json} {fuel : Nat},
        Taken limit level cs v → ∀ n : String, 2 * ((writeString n).length + cs.length +
          (writeMembers layout indent members).length) < fuel → ∀ rest : List Char,
            Takes (readMembers limit fuel level)
              (writeString n ++ ':' :: ' ' :: (cs ++ (writeMembers layout indent members ++
                (layout.lineStart outer ++ ['\x7d']))))
              ((n, v) :: members) rest
  | [], _, _, cs, v, fuel + 1, hv, n, hfuel, rest => by
      have hn : (writeString n).length ≤ fuel := by omega
      have hcs : 2 * cs.length ≤ fuel := by omega
      have hlast := takes_member hn hv.1 (isWhite_lineStart layout outer)
        (hv.2 hcs (stops_lineStart layout outer (c := '\x7d') (by decide) rest))
      rw [writeMembers]
      simpa only [List.append_assoc, List.nil_append] using hlast
  | (m, w) :: members, h, hfit, cs, v, fuel + 1, hv, n, hfuel, rest => by
      rw [membersFit, Bool.and_eq_true] at hfit
      have hw := taken_writeAt layout indent (h (m, w) List.mem_cons_self) hfit.1
      rw [writeMembers] at hfuel ⊢
      simp only [List.length_append, List.length_cons] at hfuel
      have hn : (writeString n).length ≤ fuel := by omega
      have hcs : 2 * cs.length ≤ fuel := by omega
      have hlt : 2 * ((writeString m).length + (writeAt layout indent w).length +
          (writeMembers layout indent members).length) < fuel := by omega
      have hmore := takes_writeMembers layout indent outer
        (fun u hu => h u (List.mem_cons_of_mem (m, w) hu)) hfit.2 hw m hlt rest
      have hmembers := takes_members hn hv.1
        (isWhite_append (isWhite_gap layout) (isWhite_lineStart layout indent))
        ((starts_writeString m).append _) (hv.2 hcs (stops_cons (by decide) _)) hmore
      simpa only [List.append_assoc, List.cons_append] using hmembers

end

/-- **A written document is read back.** -/
theorem parse_write (layout : Layout) {limit : Nat} {v : Json} (h : Sound limit 0 v)
    (hfit : v.integersFit = true) : parse (write layout v).toList limit = .ok v := by
  obtain ⟨hstart, htaken⟩ := taken_writeAt layout 0 h hfit
  rw [write, String.toList_ofList]
  generalize writeAt layout 0 v = text at *
  have hfuel : 2 * text.length ≤ 2 * text.length + 2 := by omega
  obtain ⟨q, hread⟩ := htaken hfuel stops_nil 0
  have hdense := hstart.dense_append []
  rw [List.append_nil] at hdense hread
  have hmark : ∀ rest, text ≠ '\ufeff' :: rest := by
    rintro rest rfl
    obtain ⟨c, cs, hcons, -, hc⟩ := hstart
    exact hc ((List.cons.inj hcons).1 ▸ by decide)
  rw [parse, skipSpace_dense hdense, hread]
  · rfl
  · exact hmark

end Cohesion.Json
