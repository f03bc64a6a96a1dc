import Myco.Canonical.Cursor
import Myco.Canonical.TypeScript

/-!
# The TypeScript decoder

`decode` of `renderer.ts` of the operator package. Lengths and counts are `bigint`s of at most
seventy bits; no count is checked against the input. `TextDecoder` drops a byte order mark in
front of a text, so that two keys of a map may become one. The recursion of `decodeOne` is bounded
by a number of stack frames, and `decode` grants more of them than the input has bytes.
-/

namespace Myco.Canonical

open Myco.Lib

namespace Ts

/-- The texts of `CanonicalBytesDecodeError`, and the exceptions of `TextDecoder` and of the
stack. -/
inductive DecodeError where
  /-- `unexpected end of input at offset {}` -/
  | endOfInput (offset : Nat)
  /-- `unexpected end of input: needed {} bytes at offset {}, have {}` -/
  | needed (n offset have_ : Nat)
  /-- `varint too long (>10 bytes)` -/
  | varintTooLong
  /-- `invalid bool byte: 0x{}` -/
  | boolByte (b : UInt8)
  /-- `TypeError: The encoded data was not valid` -/
  | text (raw : Bytes)
  /-- `map key is not a string: got {}` -/
  | mapKey (other : Value)
  /-- `map keys not in strict canonical order` -/
  | mapOrder
  /-- `unknown tag byte: 0x{} at offset {}` -/
  | unknownTag (b : UInt8) (offset : Nat)
  /-- `trailing bytes: {} bytes after decoded value` -/
  | trailing (n : Nat)
  /-- `RangeError: Maximum call stack size exceeded` -/
  | stack

abbrev Read := Except DecodeError

/-- The UTF-16 code units of a text. -/
def units (s : String) : Str := (codePoints s).flatMap CodePoint.units

/-- The bytes after a byte order mark. -/
def withoutMark : Bytes → Bytes
  | 0xEF :: 0xBB :: 0xBF :: rest => rest
  | raw => raw

/-- `new TextDecoder("utf-8", { fatal: true }).decode(raw)`. -/
def textDecode (raw : Bytes) : Read Str :=
  match utf8? (withoutMark raw) with
  | none => .error (.text raw)
  | some text => .ok (units text)

/-- `map.set(key, value)`: a key that is there keeps its place. -/
def mapSet {κ α : Type} [DecidableEq κ] (map : List (κ × α)) (key : κ) (value : α) :
    List (κ × α) :=
  if (map.map Prod.fst).contains key then
    map.map fun e => if e.1 = key then (key, value) else e
  else map ++ [(key, value)]

/-- `map.get(key)`. -/
def mapGet (map : List (Str × Value)) (key : String) : Option Value :=
  map.lookup (units key)

/-- `readBytes(r, n)`, and what is made of the bytes. -/
def readBytes {α : Type} (b : Bytes) (n : Nat) (make : Bytes → Read α)
    (offset : Nat) : Read (α × Nat) :=
  takeTo b (.needed n offset (b.length - offset)) make offset (offset + n)

/-- The loop of `readVarint`, with the rounds it has left. -/
def readVarintLoop (b : Bytes) : Nat → Nat → Nat → Nat → Read (Nat × Nat)
  | 0, _, _, _ => .error .varintTooLong
  | k + 1, offset, result, shift =>
    match b[offset]? with
    | none => .error (.endOfInput offset)
    | some x =>
      let result := result ||| (x &&& 0x7f).toNat <<< shift
      if x &&& 0x80 = 0 then .ok (result, offset + 1)
      else readVarintLoop b k (offset + 1) result (shift + 7)

def readVarint (b : Bytes) (offset : Nat) : Read (Nat × Nat) := readVarintLoop b 10 offset 0 0

/-- Sign-extended when the high bit is set. -/
def i64OfSlice (raw : Bytes) : Int :=
  if beNat raw ≥ 2 ^ 63 then (beNat raw : Int) - 2 ^ 64 else beNat raw

/-- The text of a map key. -/
def keyString : Value → Read Str
  | .string s => .ok s
  | other => .error (.mapKey other)

/-- The arms of `decodeOne`, with the decoder that they recurse to. -/
def decodeArm (dec : Nat → Read (Value × Nat)) (b : Bytes) (tag : Tag) (offset : Nat) : Read (Value × Nat) :=
  match tag with
  | .null => .ok (.null, offset)
  | .bool => takeBool b (.endOfInput offset) .boolByte .bool offset
  | .int => readBytes b 8 (fun raw => .ok (.int (i64OfSlice raw))) offset
  | .uint => readBytes b 8 (fun raw => .ok (.uint (beNat raw))) offset
  | .string => do
    let (len, offset) ← readVarint b offset
    readBytes b len (fun raw => (textDecode raw).map .string) offset
  | .bytes => do
    let (len, offset) ← readVarint b offset
    readBytes b len (fun raw => .ok (.bytes raw)) offset
  | .array => do
    let (count, offset) ← readVarint b offset
    let (items, offset) ← iterM (pushItem dec) count ([], offset)
    .ok (.array items, offset)
  | .map => do
    let (count, offset) ← readVarint b offset
    let (m, _, offset) ← iterM (putEntry dec b keyString .mapOrder mapSet) count ([], none, offset)
    .ok (.map m, offset)
  | .timestamp => readBytes b 8 (fun raw => .ok (.timestamp (i64OfSlice raw))) offset
  | .hash => readBytes b 32 (fun raw => .ok (.hash raw)) offset

/-- `decodeOne`, with the stack frames left. -/
def decodeOne (b : Bytes) : Nat → Nat → Read (Value × Nat)
  | 0, _ => .error .stack
  | frames + 1, offset =>
    onTag b (.endOfInput offset) (fun x => .unknownTag x offset) (decodeArm (decodeOne b frames) b)
      offset

def decode (b : Bytes) : Read Value := do
  let (v, offset) ← decodeOne b (b.length + 1) 0
  if offset ≠ b.length then .error (.trailing (b.length - offset)) else .ok v

end Ts

end Myco.Canonical
