import CallHoist.Text.Quoted

/-!
# Texts as bytes

UTF-8, with the first fault of a byte sequence that is not well formed. A byte that begins no character is a fault of
its own; otherwise the fault spans the bytes of the character up to the first that does not fit, or up to the end of
the data if they all fit.
-/

namespace CallHoist.Text

def encodeChar (c : Char) : List UInt8 :=
  let n := c.toNat
  if n < 0x80 then [n.toUInt8]
  else if n < 0x800 then [(0xC0 + n / 0x40).toUInt8, (0x80 + n % 0x40).toUInt8]
  else if n < 0x10000 then
    [(0xE0 + n / 0x1000).toUInt8, (0x80 + n / 0x40 % 0x40).toUInt8, (0x80 + n % 0x40).toUInt8]
  else
    [(0xF0 + n / 0x40000).toUInt8, (0x80 + n / 0x1000 % 0x40).toUInt8, (0x80 + n / 0x40 % 0x40).toUInt8,
      (0x80 + n % 0x40).toUInt8]

def encode (s : Text) : List UInt8 :=
  s.flatMap encodeChar

inductive DecodeProblem where
  | invalidStart
  | invalidContinuation
  | endOfData
  deriving DecidableEq, Repr

/-- A fault in the bytes from `start` up to `stop`, the first of which is `byte`. -/
structure DecodeError where
  byte : UInt8
  start : Nat
  stop : Nat
  problem : DecodeProblem
  deriving DecidableEq, Repr

def DecodeProblem.message : DecodeProblem → String
  | invalidStart => "invalid start byte"
  | invalidContinuation => "invalid continuation byte"
  | endOfData => "unexpected end of data"

def DecodeError.message (e : DecodeError) : Text :=
  let span :=
    if e.stop = e.start + 1 then
      "byte 0x".toList ++ hex 2 e.byte.toNat ++ " in position ".toList ++ decimal e.start
    else
      "bytes in position ".toList ++ decimal e.start ++ ['-'] ++ decimal (e.stop - 1 : Nat)
  "'utf-8' codec can't decode ".toList ++ span ++ ": ".toList ++ e.problem.message.toList

def isContinuation (b : UInt8) : Bool :=
  0x80 ≤ b && b ≤ 0xBF

/-- Whether `b` can follow the first byte `lead`. After the least and the greatest leads of a length only those bytes
can, with which the character needs that length, is no surrogate and is at most U+10FFFF. -/
def followsLead (lead b : UInt8) : Bool :=
  isContinuation b && !(lead == 0xE0 && b < 0xA0) && !(lead == 0xED && 0xA0 ≤ b) && !(lead == 0xF0 && b < 0x90)
    && !(lead == 0xF4 && 0x90 ≤ b)

/-- The low six bits of a byte. -/
def payload (b : UInt8) : Nat :=
  b.toNat % 0x40

/-- The text of the bytes from offset `pos` on. -/
def decodeFrom (pos : Nat) : List UInt8 → Except DecodeError Text
  | [] => .ok []
  | b :: rest =>
    let fault := fun (n : Nat) p => Except.error ⟨b, pos, pos + n, p⟩
    if b < 0x80 then (Char.ofNat b.toNat :: ·) <$> decodeFrom (pos + 1) rest
    else if b < 0xC2 || 0xF4 < b then fault 1 .invalidStart
    else
      match rest with
      | [] => fault 1 .endOfData
      | b1 :: rest =>
        if !followsLead b b1 then fault 1 .invalidContinuation
        else if b < 0xE0 then
          (Char.ofNat (b.toNat % 0x20 * 0x40 + payload b1) :: ·) <$> decodeFrom (pos + 2) rest
        else
          match rest with
          | [] => fault 2 .endOfData
          | b2 :: rest =>
            if !isContinuation b2 then fault 2 .invalidContinuation
            else if b < 0xF0 then
              (Char.ofNat (b.toNat % 0x10 * 0x1000 + payload b1 * 0x40 + payload b2) :: ·) <$>
                decodeFrom (pos + 3) rest
            else
              match rest with
              | [] => fault 3 .endOfData
              | b3 :: rest =>
                if !isContinuation b3 then fault 3 .invalidContinuation
                else
                  (Char.ofNat (b.toNat % 8 * 0x40000 + payload b1 * 0x1000 + payload b2 * 0x40 + payload b3) :: ·)
                    <$> decodeFrom (pos + 4) rest

def decode (bytes : List UInt8) : Except DecodeError Text :=
  decodeFrom 0 bytes

end CallHoist.Text
