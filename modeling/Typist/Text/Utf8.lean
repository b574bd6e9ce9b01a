import Typist.Number.Decimal

/-!
# UTF-8

Strict decoding: overlong forms, surrogates and values above U+10FFFF are refused. A failure tells
how many bytes come before the sequence that does not decode, which bytes it is made of, and what is
wrong with it. A sequence that the input breaks off is told from one that could not be continued in
any way; when more bytes are to come, `decodeStart` keeps it back instead of failing. It also keeps
back the first two of the three bytes that would make a surrogate, and so fails only at the third.
-/

namespace Typist.Utf8

/-- What is wrong with a sequence of bytes. -/
inductive Reason
  /-- The first byte starts no character. -/
  | startByte
  /-- A byte that follows does not continue the character. -/
  | continuationByte
  /-- The input ends within the character. -/
  | endOfData
  deriving DecidableEq, Repr

/-- The wording of a reason. -/
def Reason.message : Reason → String
  | .startByte => "invalid start byte"
  | .continuationByte => "invalid continuation byte"
  | .endOfData => "unexpected end of data"

/-- A sequence that does not decode: how many bytes come before it, the bytes up to the one that is
wrong, and what is wrong. -/
structure Failure where
  offset : Nat
  sequence : List UInt8
  reason : Reason
  deriving DecidableEq, Repr

/-- The wording of a failure. -/
def Failure.message (failure : Failure) : String :=
  let place :=
    match failure.sequence with
    | [b] =>
      "byte 0x" ++ (Text.paddedHex 2 b.toNat).str ++ " in position " ++
        (Text.ofNat failure.offset).str
    | bytes =>
      "bytes in position " ++ (Text.ofNat failure.offset).str ++ "-" ++
        (Text.ofNat (failure.offset + bytes.length - 1)).str
  "'utf-8' codec can't decode " ++ place ++ ": " ++ failure.reason.message

/-- The range of the second byte after the first byte `b`. -/
def secondRange (b : Nat) : Nat × Nat :=
  if b = 0xe0 then (0xa0, 0xbf)
  else if b = 0xed then (0x80, 0x9f)
  else if b = 0xf0 then (0x90, 0xbf)
  else if b = 0xf4 then (0x80, 0x8f)
  else (0x80, 0xbf)

/-- How many bytes follow the first byte `b`, and the part of the code point that `b` holds. -/
def lead? (b : Nat) : Option (Nat × Nat) :=
  if b < 0x80 then some (0, b)
  else if 0xc2 ≤ b && b < 0xe0 then some (1, b - 0xc0)
  else if 0xe0 ≤ b && b < 0xf0 then some (2, b - 0xe0)
  else if 0xf0 ≤ b && b < 0xf5 then some (3, b - 0xf0)
  else none

/-- Reads `count` continuation bytes, the first of them in `range`, onto the value read so far.
Fails with the bytes that did continue, and the reason. -/
def continued :
    (count : Nat) → (range : Nat × Nat) → (value : Nat) → List UInt8 →
      Except (List UInt8 × Reason) Nat
  | 0, _, value, _ => .ok value
  | _ + 1, _, _, [] => .error ([], .endOfData)
  | count + 1, (low, high), value, b :: rest =>
    if low ≤ b.toNat && b.toNat ≤ high then
      match continued count (0x80, 0xbf) (value * 64 + (b.toNat - 0x80)) rest with
      | .ok value => .ok value
      | .error (read, reason) => .error (b :: read, reason)
    else .error ([], .continuationByte)

/-- Decodes the bytes after the first `offset`, `skip` of which belong to a character read
already. -/
def decodeFrom (offset skip : Nat) : List UInt8 → Except Failure Text
  | [] => .ok []
  | b :: rest =>
    match skip with
    | skip + 1 => decodeFrom (offset + 1) skip rest
    | 0 =>
      match lead? b.toNat with
      | none => .error ⟨offset, [b], .startByte⟩
      | some (count, value) =>
        match continued count (secondRange b.toNat) value rest with
        | .error (read, reason) => .error ⟨offset, b :: read, reason⟩
        | .ok code => (decodeFrom (offset + 1) count rest).map (Char.ofNat code :: ·)

/-- The text that the bytes encode. -/
def decode (bytes : List UInt8) : Except Failure Text :=
  decodeFrom 0 0 bytes

/-- Are these the first two of the three bytes that would make a surrogate? -/
def startsSurrogate : List UInt8 → Bool
  | [first, second] => first = 0xed && 0xa0 ≤ second && second ≤ 0xbf
  | _ => false

/-- The text that the bytes encode when more bytes may follow: the text of the whole characters, and
the bytes of a character or surrogate that is broken off. -/
def decodeStart (bytes : List UInt8) : Except Failure (Text × List UInt8) :=
  match decode bytes with
  | .ok t => .ok (t, [])
  | .error failure =>
    let rest := bytes.drop failure.offset
    if failure.reason = .endOfData || startsSurrogate rest then
      (decode (bytes.take failure.offset)).map fun t => (t, rest)
    else .error failure

/-- The bytes that encode a text. -/
def encode (t : Text) : List UInt8 :=
  t.flatMap String.utf8EncodeChar

end Typist.Utf8
