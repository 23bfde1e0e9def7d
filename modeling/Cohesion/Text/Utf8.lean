/-
Reading UTF-8.

One step looks at the bytes from a position on and either reads a character or names what is
wrong with them and how many bytes the fault covers: a byte that starts no character, a
character broken off by a byte that does not continue it, or one broken off by the end.  Strict
reading stops at the first fault and reports it; lenient reading puts one replacement character
for each.

Main definitions:
* `Utf8.step` — the character or the fault at the front of a byte sequence;
* `Utf8.decode` — strict reading;
* `Utf8.decodeLenient` — reading with replacement characters;
* `Utf8.DecodeError.message` — the report of a fault.
-/
import Cohesion.Text.Quoted

set_option autoImplicit false

namespace Cohesion.Text.Utf8

/-- What is wrong with a byte sequence. -/
inductive Fault where
  /-- No character starts with this byte. -/
  | invalidStart
  /-- The next byte does not continue the character. -/
  | invalidContinuation
  /-- The sequence ends inside a character. -/
  | unexpectedEnd
  deriving DecidableEq, Repr

/-- A fault, the byte it starts at and how many bytes it covers. -/
structure DecodeError where
  /-- What is wrong. -/
  fault : Fault
  /-- The position of the first byte. -/
  position : Nat
  /-- The first byte. -/
  byte : UInt8
  /-- The number of bytes. -/
  width : Nat
  deriving DecidableEq, Repr

/-- The wording of a fault. -/
def Fault.reason : Fault → String
  | .invalidStart => "invalid start byte"
  | .invalidContinuation => "invalid continuation byte"
  | .unexpectedEnd => "unexpected end of data"

/-- The report of a fault: one byte is shown, several are given by their positions. -/
def DecodeError.message (e : DecodeError) : String :=
  let place :=
    if e.width == 1 then
      s!"byte 0x{String.ofList (hexDigits 2 e.byte.toNat)} in position {e.position}"
    else s!"bytes in position {e.position}-{e.position + e.width - 1}"
  s!"'utf-8' codec can't decode {place}: {e.fault.reason}"

/-- The outcome of one step. -/
inductive Step where
  /-- A character and its number of bytes. -/
  | char (c : Char) (width : Nat)
  /-- A fault and its number of bytes. -/
  | bad (fault : Fault) (width : Nat)
  deriving DecidableEq, Repr

/-- A byte that continues a character. -/
def isContinuation (b : UInt8) : Bool := 0x80 ≤ b && b < 0xc0

/-- The second byte can follow the first: beyond being a continuation, it must not make the
character overlong, a surrogate or too large. -/
def follows (first second : UInt8) : Bool :=
  isContinuation second && !(first == 0xe0 && second < 0xa0) && !(first == 0xed && 0xa0 ≤ second) &&
    !(first == 0xf0 && second < 0x90) && !(first == 0xf4 && 0x90 ≤ second)

/-- The six bits that a continuation byte carries. -/
def payload (b : UInt8) : Nat := b.toNat % 64

/-- The character or fault that starts with byte `first`, where `rest` comes after it. -/
def step (first : UInt8) (rest : List UInt8) : Step :=
  if first < 0x80 then .char (Char.ofNat first.toNat) 1
  else if first < 0xc2 then .bad .invalidStart 1
  else if first < 0xe0 then
    match rest with
    | [] => .bad .unexpectedEnd 1
    | b :: _ =>
      if follows first b then .char (Char.ofNat (first.toNat % 32 * 64 + payload b)) 2
      else .bad .invalidContinuation 1
  else if first < 0xf0 then
    match rest with
    | [] => .bad .unexpectedEnd 1
    | b :: rest =>
      if !follows first b then .bad .invalidContinuation 1
      else match rest with
        | [] => .bad .unexpectedEnd 2
        | c :: _ =>
          if isContinuation c then
            .char (Char.ofNat ((first.toNat % 16 * 64 + payload b) * 64 + payload c)) 3
          else .bad .invalidContinuation 2
  else if first < 0xf5 then
    match rest with
    | [] => .bad .unexpectedEnd 1
    | b :: rest =>
      if !follows first b then .bad .invalidContinuation 1
      else match rest with
        | [] => .bad .unexpectedEnd 2
        | c :: rest =>
          if !isContinuation c then .bad .invalidContinuation 2
          else match rest with
            | [] => .bad .unexpectedEnd 3
            | d :: _ =>
              if isContinuation d then
                .char (Char.ofNat
                  (((first.toNat % 8 * 64 + payload b) * 64 + payload c) * 64 + payload d)) 4
              else .bad .invalidContinuation 3
  else .bad .invalidStart 1

/-- Strict reading from `position` on, after skipping the `skip` bytes that the last character
still covers; `done` holds the characters read, last first. -/
def decodeFrom (position skip : Nat) (done : List Char) :
    List UInt8 → Except DecodeError (List Char)
  | [] => .ok done.reverse
  | b :: rest =>
    match skip with
    | skip + 1 => decodeFrom (position + 1) skip done rest
    | 0 =>
      match step b rest with
      | .char c width => decodeFrom (position + 1) (width - 1) (c :: done) rest
      | .bad fault width => .error ⟨fault, position, b, width⟩

/-- The characters of a byte sequence, or its first fault. -/
def decode (bytes : List UInt8) : Except DecodeError (List Char) :=
  decodeFrom 0 0 [] bytes

/-- Lenient reading after skipping `skip` bytes; `done` holds the characters read, last first. -/
def decodeLenientFrom (skip : Nat) (done : List Char) : List UInt8 → List Char
  | [] => done.reverse
  | b :: rest =>
    match skip with
    | skip + 1 => decodeLenientFrom skip done rest
    | 0 =>
      match step b rest with
      | .char c width => decodeLenientFrom (width - 1) (c :: done) rest
      | .bad _ width => decodeLenientFrom (width - 1) ('\ufffd' :: done) rest

/-- The characters of a byte sequence, with a replacement character for every fault. -/
def decodeLenient (bytes : List UInt8) : List Char :=
  decodeLenientFrom 0 [] bytes

/-- The bytes of a text. -/
def encode (s : String) : List UInt8 := s.toUTF8.toList

end Cohesion.Text.Utf8
