import FlowRegions.Text.Quoted

/-!
# UTF-8

Strict decoding: a byte sequence that is not the shortest encoding of a code point, or that encodes
a surrogate, is refused with its place and the reason.  Line ends of all three kinds become line
feeds.
-/

namespace FlowRegions.Text

/-- Why bytes cannot be decoded. -/
inductive Utf8Reason where
  | invalidStart
  | invalidContinuation
  | endOfData
deriving DecidableEq, Repr

def Utf8Reason.message : Utf8Reason → String
  | invalidStart => "invalid start byte"
  | invalidContinuation => "invalid continuation byte"
  | endOfData => "unexpected end of data"

/-- The bytes that cannot be decoded: their position, their count and the first of them. -/
structure Utf8Fault where
  position : Nat
  count : Nat
  byte : UInt8
  reason : Utf8Reason
deriving DecidableEq, Repr

def Utf8Fault.message (e : Utf8Fault) : String :=
  let place :=
    if e.count = 1 then
      s!"byte 0x{String.ofList (hexDigits 2 e.byte.toNat)} in position {e.position}"
    else s!"bytes in position {e.position}-{e.position + e.count - 1}"
  s!"'utf-8' codec can't decode {place}: {e.reason.message}"

/-- A continuation byte carries six bits. -/
def isContinuation (b : UInt8) : Bool := 0x80 ≤ b && b ≤ 0xbf

/-- May `second` follow `first` in a sequence of three or four bytes?  This excludes encodings that
are too long, surrogates and code points beyond the last. -/
def isSecond (first second : UInt8) : Bool :=
  isContinuation second && (
    if first = 0xe0 then 0xa0 ≤ second
    else if first = 0xed then second < 0xa0
    else if first = 0xf0 then 0x90 ≤ second
    else if first = 0xf4 then second < 0x90
    else true)

/-- How many bytes a sequence that starts with `first` has. -/
def sequenceLength? (first : UInt8) : Option Nat :=
  if first < 0x80 then some 1
  else if 0xc2 ≤ first && first < 0xe0 then some 2
  else if 0xe0 ≤ first && first < 0xf0 then some 3
  else if 0xf0 ≤ first && first < 0xf5 then some 4
  else none

/-- How many of the bytes behind `first` continue its sequence of `length` bytes. -/
def continuationCount (first : UInt8) (length : Nat) (rest : List UInt8) : Nat :=
  match rest with
  | [] => 0
  | second :: others =>
    if !isSecond first second then 0
    else ((others.take (length - 2)).takeWhile isContinuation).length + 1

/-- The code point of a sequence: the bits that the first byte carries, then those of the others. -/
def codePointOf (first : UInt8) (length : Nat) (others : List UInt8) : Nat :=
  let lead := if length = 1 then first.toNat else first.toNat % Nat.pow 2 (7 - length)
  others.foldl (fun n b => n * 64 + b.toNat % 64) lead

/-- Decodes `bytes`, of which the first is at `position`.  The fuel is their count. -/
def decodeFrom (position : Nat) : Nat → List UInt8 → Except Utf8Fault (List Char)
  | _, [] => .ok []
  | 0, _ => .ok []
  | fuel + 1, first :: rest =>
    match sequenceLength? first with
    | none => .error ⟨position, 1, first, .invalidStart⟩
    | some length =>
      let continued := if length = 1 then 0 else continuationCount first length rest
      if continued + 1 = length then do
        let c := Char.ofNat (codePointOf first length (rest.take continued))
        return c :: (← decodeFrom (position + length) fuel (rest.drop continued))
      else
        let reason := if rest.length = continued then .endOfData else .invalidContinuation
        .error ⟨position, continued + 1, first, reason⟩

/-- Turns the line ends `\r\n` and `\r` into `\n`. -/
def unifyLineEnds : List Char → List Char
  | [] => []
  | '\r' :: '\n' :: rest => '\n' :: unifyLineEnds rest
  | '\r' :: rest => '\n' :: unifyLineEnds rest
  | c :: rest => c :: unifyLineEnds rest

def ofBytes (bytes : ByteArray) : Except Utf8Fault String := do
  let cs ← decodeFrom 0 bytes.size bytes.toList
  return String.ofList (unifyLineEnds cs)

end FlowRegions.Text
