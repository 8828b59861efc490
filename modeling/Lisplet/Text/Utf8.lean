/-!
# Strict UTF-8

Bytes are read as UTF-8 without any repair: the first sequence that is no character is a
fault, which says how many bytes belong to it and what is wrong with them.
-/

namespace Lisplet.Text

inductive Utf8Cause where
  | invalidStart
  | invalidContinuation
  | unexpectedEnd
deriving DecidableEq, Repr

def Utf8Cause.message : Utf8Cause → String
  | .invalidStart => "invalid start byte"
  | .invalidContinuation => "invalid continuation byte"
  | .unexpectedEnd => "unexpected end of data"

/-- The first fault in a sequence of bytes: the offset and value of its first byte, the
number of bytes that belong to it, and its cause. -/
structure Utf8Fault where
  offset : Nat
  byte : UInt8
  length : Nat
  cause : Utf8Cause
deriving DecidableEq, Repr

/-- The character at the front of some bytes, with the number of bytes it takes, or the
length and the cause of the fault there. -/
inductive Utf8Step where
  | char (code length : Nat)
  | fault (length : Nat) (cause : Utf8Cause)
deriving DecidableEq, Repr

def isContinuation (byte : UInt8) : Bool := 0x80 ≤ byte && byte < 0xc0

/-- The second bytes that may follow a start byte: the ranges leave out overlong forms,
surrogates and code points past the last one. -/
def isSecondByte (start second : UInt8) : Bool :=
  isContinuation second &&
    !(start == 0xe0 && second < 0xa0) && !(start == 0xed && 0xa0 ≤ second) &&
    !(start == 0xf0 && second < 0x90) && !(start == 0xf4 && 0x90 ≤ second)

/-- How many bytes a sequence with this start byte has; `none` for a byte that starts
nothing. -/
def sequenceLength? (start : UInt8) : Option Nat :=
  if start < 0x80 then some 1
  else if start < 0xc2 then none
  else if start < 0xe0 then some 2
  else if start < 0xf0 then some 3
  else if start < 0xf5 then some 4
  else none

def startBits (start : UInt8) : List UInt8 → Nat
  | [] => start.toNat
  | [_] => start.toNat % 0x20
  | [_, _] => start.toNat % 0x10
  | _ => start.toNat % 0x08

def codePoint (start : UInt8) (following : List UInt8) : Nat :=
  following.foldl (fun code byte => code * 0x40 + byte.toNat % 0x40) (startBits start following)

/-- How many of the bytes after the start byte belong to its sequence, up to `wanted`. -/
def acceptedBytes (start : UInt8) (wanted : Nat) (following : List UInt8) : Nat :=
  match following.take wanted with
  | [] => 0
  | second :: more =>
    if isSecondByte start second then 1 + (more.takeWhile isContinuation).length else 0

def utf8Step (start : UInt8) (rest : List UInt8) : Utf8Step :=
  match sequenceLength? start with
  | none => .fault 1 .invalidStart
  | some length =>
    let wanted := length - 1
    let accepted := acceptedBytes start wanted rest
    if accepted = wanted then .char (codePoint start (rest.take wanted)) length
    else if rest.length ≤ accepted then .fault (1 + accepted) .unexpectedEnd
    else .fault (1 + accepted) .invalidContinuation

/-- Reads all bytes as characters, or finds the first fault. -/
def decodeUtf8 (bytes : List UInt8) : Except Utf8Fault (List Char) :=
  go [] 0 0 bytes
where
  /-- Reads on at an offset with the characters read so far, last one first; the next
  `skip` bytes belong to the last of them. -/
  go (read : List Char) (offset skip : Nat) : List UInt8 → Except Utf8Fault (List Char)
    | [] => .ok read.reverse
    | byte :: rest =>
      match skip with
      | skip + 1 => go read (offset + 1) skip rest
      | 0 =>
        match utf8Step byte rest with
        | .char code length => go (Char.ofNat code :: read) (offset + 1) (length - 1) rest
        | .fault length cause => .error ⟨offset, byte, length, cause⟩

/-- The wording of a fault, naming the byte or the range of bytes. -/
def Utf8Fault.message (fault : Utf8Fault) : String :=
  let place :=
    if fault.length = 1 then
      "byte 0x" ++ String.ofList (hexByte fault.byte) ++ " in position " ++ toString fault.offset
    else
      "bytes in position " ++ toString fault.offset ++ "-" ++
        toString (fault.offset + fault.length - 1)
  "'utf-8' codec can't decode " ++ place ++ ": " ++ fault.cause.message
where
  /-- The two hexadecimal digits of a byte. -/
  hexByte (byte : UInt8) : List Char :=
    [Nat.digitChar (byte.toNat / 16), Nat.digitChar (byte.toNat % 16)]

end Lisplet.Text
