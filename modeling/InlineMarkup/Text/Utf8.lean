import InlineMarkup.Text.Basic

/-!
Text as bytes in UTF-8. Reading accepts the shortest form of every scalar value and nothing else.
-/

set_option autoImplicit false

namespace InlineMarkup.Text

def continuation? (b : UInt8) : Option Nat :=
  if 0x80 ≤ b.toNat ∧ b.toNat < 0xC0 then some (b.toNat - 0x80) else none

def scalarFrom? (least value : Nat) : Option Char :=
  if least ≤ value ∧ value.isValidChar then some (Char.ofNat value) else none

def nextChar? : List UInt8 → Option (Char × List UInt8)
  | [] => none
  | a :: r =>
    let first := a.toNat
    if first < 0x80 then some (Char.ofNat first, r)
    else if 0xC0 ≤ first ∧ first < 0xE0 then
      match r with
      | b :: r => do
        let b ← continuation? b
        let c ← scalarFrom? 0x80 ((first - 0xC0) * 64 + b)
        return (c, r)
      | [] => none
    else if 0xE0 ≤ first ∧ first < 0xF0 then
      match r with
      | b :: c :: r => do
        let b ← continuation? b
        let c ← continuation? c
        let c ← scalarFrom? 0x800 (((first - 0xE0) * 64 + b) * 64 + c)
        return (c, r)
      | _ => none
    else if 0xF0 ≤ first ∧ first < 0xF8 then
      match r with
      | b :: c :: d :: r => do
        let b ← continuation? b
        let c ← continuation? c
        let d ← continuation? d
        let c ← scalarFrom? 0x10000 ((((first - 0xF0) * 64 + b) * 64 + c) * 64 + d)
        return (c, r)
      | _ => none
    else none

/-- Reads bytes from an offset on: their text, or the offset of the first that is wrong. -/
def decodeFrom : Nat → Nat → List UInt8 → Except Nat (List Char)
  | _, _, [] => .ok []
  | 0, offset, _ => .error offset
  | fuel + 1, offset, bytes =>
    match nextChar? bytes with
    | none => .error offset
    | some (c, rest) => (decodeFrom fuel (offset + c.utf8Size) rest).map (c :: ·)

def decodeUtf8 (bytes : List UInt8) : Except Nat (List Char) :=
  decodeFrom bytes.length 0 bytes

def encodeUtf8 (s : List Char) : List UInt8 :=
  s.flatMap String.utf8EncodeChar

end InlineMarkup.Text
