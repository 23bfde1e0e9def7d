/-
Strict reading of UTF-8.

A character is spelled by one to four bytes: the first byte tells how many there are, and each
other one carries six bits.  A step reads a character exactly where the bytes at the front spell
it, so strict reading succeeds exactly for the byte sequences that are the bytes of a text, and
finds that text.

Main definitions:
* `Utf8.Spells` — the characters of one to four bytes and their bytes;
* `Utf8.spelling` — the bytes of a list of characters.

Main results:
* `Utf8.step_eq_char_iff` — what a step reads is what is spelled;
* `Utf8.decode_eq_ok_iff` — **strict reading inverts writing**.
-/
import Cohesion.Text.Utf8
import Mathlib.Data.List.Basic

set_option autoImplicit false

namespace Cohesion.Text.Utf8

/-- The bytes of a list of characters. -/
def spelling (cs : List Char) : List UInt8 := cs.flatMap String.utf8EncodeChar

/-! ### The bytes of a text -/

theorem toList_loop (bs : ByteArray) (i : Nat) (done : List UInt8) :
    ByteArray.toList.loop bs i done = done.reverse ++ bs.data.toList.drop i := by
  fun_induction ByteArray.toList.loop bs i done with
  | case1 i done hi ih =>
      have hget : bs.data.toList.drop i = bs.get! i :: bs.data.toList.drop (i + 1) := by
        rw [List.drop_eq_getElem_cons (by simpa using hi)]
        congr 1
        exact (getElem!_pos bs.data i hi).symm
      rw [ih, hget, List.reverse_cons, List.append_assoc, List.singleton_append]
  | case2 i done hi =>
      have hdrop : bs.data.toList.drop i = [] := by
        rw [List.drop_eq_nil_iff, Array.length_toList]
        exact Nat.le_of_not_lt hi
      rw [hdrop, List.append_nil]

theorem encode_eq_spelling (s : String) : encode s = spelling s.toList := by
  have h : s.toUTF8 = (spelling s.toList).toByteArray := by
    conv_lhs => rw [← String.ofList_toList (s := s)]
    exact String.toByteArray_ofList
  rw [encode, h, ByteArray.toList, toList_loop]
  simp

/-! ### One character -/

theorem isContinuation_iff {b : UInt8} :
    isContinuation b = true ↔ 0x80 ≤ b.toNat ∧ b.toNat < 0xc0 := by
  simp [isContinuation, UInt8.le_iff_toNat_le, UInt8.lt_iff_toNat_lt]

/-- Which second bytes may follow a first one. -/
theorem follows_iff {a b : UInt8} : follows a b = true ↔
    (0x80 ≤ b.toNat ∧ b.toNat < 0xc0) ∧ (a.toNat = 0xe0 → 0xa0 ≤ b.toNat) ∧
      (a.toNat = 0xed → b.toNat < 0xa0) ∧ (a.toNat = 0xf0 → 0x90 ≤ b.toNat) ∧
        (a.toNat = 0xf4 → b.toNat < 0x90) := by
  simp only [follows, Bool.and_eq_true, isContinuation_iff, Bool.not_eq_true',
    Bool.and_eq_false_iff, beq_eq_false_iff_ne, decide_eq_false_iff_not, UInt8.le_iff_toNat_le,
    UInt8.lt_iff_toNat_lt, ne_eq, ← UInt8.toNat_inj]
  simp only [UInt8.reduceToNat]
  omega

/-- The characters of one to four bytes and their bytes. -/
inductive Spells : Char → List UInt8 → Prop where
  /-- One byte stands for itself. -/
  | one {a : UInt8} : a.toNat < 0x80 → Spells (.ofNat a.toNat) [a]
  /-- Two bytes. -/
  | two {a b : UInt8} : 0xc2 ≤ a.toNat → a.toNat < 0xe0 → follows a b = true →
      Spells (.ofNat (a.toNat % 32 * 64 + payload b)) [a, b]
  /-- Three bytes. -/
  | three {a b c : UInt8} : 0xe0 ≤ a.toNat → a.toNat < 0xf0 → follows a b = true →
      isContinuation c = true →
      Spells (.ofNat ((a.toNat % 16 * 64 + payload b) * 64 + payload c)) [a, b, c]
  /-- Four bytes. -/
  | four {a b c d : UInt8} : 0xf0 ≤ a.toNat → a.toNat < 0xf5 → follows a b = true →
      isContinuation c = true → isContinuation d = true →
      Spells (.ofNat (((a.toNat % 8 * 64 + payload b) * 64 + payload c) * 64 + payload d))
        [a, b, c, d]

theorem toNat_ofNat {n : Nat} (h : n.isValidChar) : (Char.ofNat n).val.toNat = n := by
  rw [Char.ofNat, dif_pos h]
  rfl

theorem ofNat_eq {n : Nat} {b : UInt8} (h : n = b.toNat) : UInt8.ofNat n = b := by
  rw [h, UInt8.ofNat_toNat]

theorem Spells.encode_eq {x : Char} {bytes : List UInt8} (h : Spells x bytes) :
    String.utf8EncodeChar x = bytes := by
  cases h with
  | @one a ha =>
      have hv := toNat_ofNat (n := a.toNat) (Or.inl (by omega))
      rw [String.utf8EncodeChar, hv, if_pos (by omega), ofNat_eq rfl]
  | @two a b ha ha' hb =>
      obtain ⟨hb, -⟩ := follows_iff.1 hb
      have hv := toNat_ofNat (n := a.toNat % 32 * 64 + payload b) (Or.inl (by rw [payload]; omega))
      rw [payload] at hv ⊢
      rw [String.utf8EncodeChar, hv, if_neg (by omega), if_pos (by omega),
        ofNat_eq (b := a) (by omega), ofNat_eq (b := b) (by omega)]
  | @three a b c ha ha' hb hc =>
      obtain ⟨hb, hlow, hsurrogate, -, -⟩ := follows_iff.1 hb
      rw [isContinuation_iff] at hc
      -- the range of the second byte keeps the character long enough and no surrogate
      have hmin : 2047 < (a.toNat % 16 * 64 + b.toNat % 64) * 64 + c.toNat % 64 := by omega
      have hv := toNat_ofNat (n := (a.toNat % 16 * 64 + payload b) * 64 + payload c) (by
        rw [Nat.isValidChar, payload, payload]; omega)
      clear hlow hsurrogate
      rw [payload, payload] at hv ⊢
      rw [String.utf8EncodeChar, hv, if_neg (by omega), if_neg (by omega), if_pos (by omega),
        ofNat_eq (b := a) (by omega), ofNat_eq (b := b) (by omega), ofNat_eq (b := c) (by omega)]
  | @four a b c d ha ha' hb hc hd =>
      obtain ⟨hb, -, -, hlow, hhigh⟩ := follows_iff.1 hb
      rw [isContinuation_iff] at hc hd
      have hmin : 65535 <
          ((a.toNat % 8 * 64 + b.toNat % 64) * 64 + c.toNat % 64) * 64 + d.toNat % 64 := by omega
      have hv := toNat_ofNat
        (n := ((a.toNat % 8 * 64 + payload b) * 64 + payload c) * 64 + payload d) (by
          rw [Nat.isValidChar, payload, payload, payload]; omega)
      clear hlow hhigh
      rw [payload, payload, payload] at hv ⊢
      rw [String.utf8EncodeChar, hv, if_neg (by omega), if_neg (by omega), if_neg (by omega),
        ofNat_eq (b := a) (by omega), ofNat_eq (b := b) (by omega), ofNat_eq (b := c) (by omega),
        ofNat_eq (b := d) (by omega)]

/-- Every character is spelled by its bytes. -/
theorem spells_encode (x : Char) : Spells x (String.utf8EncodeChar x) := by
  have hvalid : x.val.toNat.isValidChar := x.valid
  have hx : Char.ofNat x.val.toNat = x := Char.ofNat_toNat x
  rw [Nat.isValidChar] at hvalid
  have hbyte : ∀ {n : Nat}, n < 256 → (UInt8.ofNat n).toNat = n := UInt8.toNat_ofNat_of_lt'
  -- the bytes are in the order of their ranges, and their bits make up the character
  rw [String.utf8EncodeChar]
  generalize x.val.toNat = v at hvalid hx
  subst hx
  split
  · have hv : (UInt8.ofNat v).toNat = v := hbyte (by omega)
    have h := Spells.one (a := .ofNat v) (by omega)
    rwa [hv] at h
  split
  · have ha : (UInt8.ofNat (v / 64 % 32 + 192)).toNat = _ := hbyte (by omega)
    have hb : (UInt8.ofNat (v % 64 + 128)).toNat = _ := hbyte (by omega)
    have h := Spells.two (a := .ofNat (v / 64 % 32 + 192)) (b := .ofNat (v % 64 + 128))
      (by omega) (by omega) (follows_iff.2 (by omega))
    convert h using 2
    rw [payload]
    omega
  split
  · have ha : (UInt8.ofNat (v / 4096 % 16 + 224)).toNat = _ := hbyte (by omega)
    have hb : (UInt8.ofNat (v / 64 % 64 + 128)).toNat = _ := hbyte (by omega)
    have hc : (UInt8.ofNat (v % 64 + 128)).toNat = _ := hbyte (by omega)
    have h := Spells.three (a := .ofNat (v / 4096 % 16 + 224)) (b := .ofNat (v / 64 % 64 + 128))
      (c := .ofNat (v % 64 + 128)) (by omega) (by omega) (follows_iff.2 (by omega))
      (isContinuation_iff.2 (by omega))
    convert h using 2
    rw [payload, payload]
    omega
  · have ha : (UInt8.ofNat (v / 262144 % 8 + 240)).toNat = _ := hbyte (by omega)
    have hb : (UInt8.ofNat (v / 4096 % 64 + 128)).toNat = _ := hbyte (by omega)
    have hc : (UInt8.ofNat (v / 64 % 64 + 128)).toNat = _ := hbyte (by omega)
    have hd : (UInt8.ofNat (v % 64 + 128)).toNat = _ := hbyte (by omega)
    have h := Spells.four (a := .ofNat (v / 262144 % 8 + 240)) (b := .ofNat (v / 4096 % 64 + 128))
      (c := .ofNat (v / 64 % 64 + 128)) (d := .ofNat (v % 64 + 128)) (by omega) (by omega)
      (follows_iff.2 (by omega)) (isContinuation_iff.2 (by omega)) (isContinuation_iff.2 (by omega))
    convert h using 2
    rw [payload, payload, payload]
    omega

section Step

variable {a : UInt8} {rest : List UInt8} {x : Char} {width : Nat}

/-- What a step reads is spelled at the front. -/
theorem spells_of_step (h : step a rest = .char x width) :
    ∃ bytes tail, a :: rest = bytes ++ tail ∧ Spells x bytes ∧ width = bytes.length := by
  have hlt : ∀ b c : UInt8, b < c ↔ b.toNat < c.toNat := fun _ _ => UInt8.lt_iff_toNat_lt
  revert h
  -- of all branches one reads a character of each width
  fun_cases step a rest with
  | case1 rest ha =>
      rintro ⟨⟩
      exact ⟨[a], rest, rfl, .one ((hlt ..).1 ha), rfl⟩
  | case4 _ hlow ha b tail hb =>
      rintro ⟨⟩
      simp only [hlt, UInt8.reduceToNat] at hlow ha
      exact ⟨[a, b], tail, rfl, .two (by omega) ha hb, rfl⟩
  | case9 _ _ hlow ha b hb c tail hc =>
      rintro ⟨⟩
      simp only [hlt, UInt8.reduceToNat] at hlow ha
      exact ⟨[a, b, c], tail, rfl, .three (by omega) ha (by simpa using hb) hc, rfl⟩
  | case16 _ _ _ hlow ha b hb c hc d tail hd =>
      rintro ⟨⟩
      simp only [hlt, UInt8.reduceToNat] at hlow ha
      exact ⟨[a, b, c, d], tail, rfl,
        .four (by omega) ha (by simpa using hb) (by simpa using hc) hd, rfl⟩
  | _ => exact nofun

/-- A step reads the character that is spelled at the front. -/
theorem Spells.step_eq {bytes tail : List UInt8} (h : Spells x bytes)
    (hbytes : a :: rest = bytes ++ tail) : step a rest = .char x bytes.length := by
  cases h with
  | one ha =>
      cases hbytes
      simp [step, UInt8.lt_iff_toNat_lt, ha]
  | two hlow ha hb =>
      cases hbytes
      have h₁ : ¬a.toNat < 0x80 := by omega
      have h₂ : ¬a.toNat < 0xc2 := by omega
      simp [step, UInt8.lt_iff_toNat_lt, h₁, h₂, ha, hb]
  | three hlow ha hb hc =>
      cases hbytes
      have h₁ : ¬a.toNat < 0x80 := by omega
      have h₂ : ¬a.toNat < 0xc2 := by omega
      have h₃ : ¬a.toNat < 0xe0 := by omega
      simp [step, UInt8.lt_iff_toNat_lt, h₁, h₂, h₃, ha, hb, hc]
  | four hlow ha hb hc hd =>
      cases hbytes
      have h₁ : ¬a.toNat < 0x80 := by omega
      have h₂ : ¬a.toNat < 0xc2 := by omega
      have h₃ : ¬a.toNat < 0xe0 := by omega
      have h₄ : ¬a.toNat < 0xf0 := by omega
      simp [step, UInt8.lt_iff_toNat_lt, h₁, h₂, h₃, h₄, ha, hb, hc, hd]

/-- What a step reads is what is spelled at the front. -/
theorem step_eq_char_iff : step a rest = .char x width ↔
    ∃ bytes tail, a :: rest = bytes ++ tail ∧ Spells x bytes ∧ width = bytes.length := by
  constructor
  · exact spells_of_step
  · rintro ⟨bytes, tail, heq, hspells, rfl⟩
    exact hspells.step_eq heq

end Step

/-! ### A whole text -/

/-- The bytes that the last character still covers are skipped. -/
theorem decodeFrom_skip (position : Nat) (done : List Char) (covered tail : List UInt8) :
    decodeFrom position covered.length done (covered ++ tail) =
      decodeFrom (position + covered.length) 0 done tail := by
  induction covered generalizing position with
  | nil => rfl
  | cons b covered ih =>
      rw [List.cons_append, List.length_cons, decodeFrom, ih, Nat.add_right_comm, Nat.add_assoc]

/-- A step that reads a character goes on behind its bytes. -/
theorem decodeFrom_spells {x : Char} {bytes : List UInt8} (h : Spells x bytes) (position : Nat)
    (done : List Char) (tail : List UInt8) :
    decodeFrom position 0 done (bytes ++ tail) =
      decodeFrom (position + bytes.length) 0 (x :: done) tail := by
  cases bytes with
  | nil => cases h
  | cons b covered =>
      have hstep : step b (covered ++ tail) = .char x (covered.length + 1) :=
        h.step_eq rfl
      rw [List.cons_append, decodeFrom]
      simp only [hstep, Nat.add_sub_cancel]
      rw [decodeFrom_skip, List.length_cons, Nat.add_assoc, Nat.add_comm 1]

theorem decodeFrom_spelling (cs : List Char) (position : Nat) (done : List Char) :
    decodeFrom position 0 done (spelling cs) = .ok (done.reverse ++ cs) := by
  induction cs generalizing position done with
  | nil => rw [List.append_nil]; rfl
  | cons x cs ih =>
      have hcons : spelling (x :: cs) = String.utf8EncodeChar x ++ spelling cs := rfl
      rw [hcons, decodeFrom_spells (spells_encode x), ih, List.reverse_cons, List.append_assoc,
        List.singleton_append]

/-- What is read after the characters of `done` is spelled by the bytes. -/
theorem of_decodeFrom_eq_ok {position : Nat} {done cs : List Char} {bytes : List UInt8}
    (h : decodeFrom position 0 done bytes = .ok cs) :
    ∃ more, cs = done.reverse ++ more ∧ bytes = spelling more := by
  induction hn : bytes.length using Nat.strongRecOn generalizing position done bytes with
  | _ n ih =>
      cases bytes with
      | nil =>
          cases h
          exact ⟨[], (List.append_nil _).symm, rfl⟩
      | cons b rest =>
          cases hstep : step b rest with
          | bad fault width =>
              simp only [decodeFrom, hstep] at h
              cases h
          | char x width =>
              obtain ⟨bytes, tail, heq, hspells, -⟩ := step_eq_char_iff.1 hstep
              rw [heq, decodeFrom_spells hspells] at h
              have hlength : tail.length < n := by
                have hpos : 0 < bytes.length := by cases hspells <;> simp
                rw [← hn, heq, List.length_append]
                omega
              obtain ⟨more, rfl, rfl⟩ := ih _ hlength h rfl
              refine ⟨x :: more, by simp, ?_⟩
              rw [heq, ← hspells.encode_eq]
              rfl

/-- **Strict reading inverts writing**: it finds the characters of exactly those byte sequences
that are the bytes of a text. -/
theorem decode_eq_ok_iff {bytes : List UInt8} {cs : List Char} :
    decode bytes = .ok cs ↔ bytes = encode (String.ofList cs) := by
  rw [encode_eq_spelling, String.toList_ofList]
  constructor
  · intro h
    obtain ⟨more, rfl, rfl⟩ := of_decodeFrom_eq_ok h
    rfl
  · rintro rfl
    exact decodeFrom_spelling cs 0 []

/-- A text is read back from its bytes. -/
theorem decode_encode (s : String) : decode (encode s) = .ok s.toList := by
  rw [decode_eq_ok_iff, String.ofList_toList]

/-- Different texts have different bytes. -/
theorem encode_eq_iff {s s' : String} : encode s = encode s' ↔ s = s' := by
  refine ⟨fun h => ?_, fun h => h ▸ rfl⟩
  have hdecode : decode (encode s') = .ok s.toList := h ▸ decode_encode s
  exact String.toList_inj.1 (Except.ok.inj (hdecode.symm.trans (decode_encode s')))

/-- Strict reading fails for the byte sequences of no text. -/
theorem exists_decode_error_iff {bytes : List UInt8} :
    (∃ e, decode bytes = .error e) ↔ ∀ s, bytes ≠ encode s := by
  cases h : decode bytes with
  | ok cs => simpa using ⟨_, decode_eq_ok_iff.1 h⟩
  | error e =>
      refine iff_of_true ⟨e, rfl⟩ fun s hs => ?_
      rw [← String.ofList_toList (s := s), ← decode_eq_ok_iff, h] at hs
      cases hs

end Cohesion.Text.Utf8
