import AssemblyInfo.Text.Basic

/-! The UTF-8 form of texts. Reading accepts exactly the well-formed sequences: no overlong form,
no surrogate, nothing above U+10FFFF. A refusal says where the first bad sequence starts and how
much of it was well-formed. -/

namespace AssemblyInfo

/-- The content of a file, byte by byte. -/
abbrev Bytes := List UInt8

namespace Utf8

/-- The UTF-8 form of a text. -/
def encode (t : Text) : Bytes := t.flatMap String.utf8EncodeChar

/-- Why bytes are not the UTF-8 form of a text. -/
structure Fault where
  /-- Where the first bad sequence starts. -/
  offset : Nat
  /-- Bytes of the sequence before the one that breaks it, none when the input ends inside it. -/
  accepted : Option Nat
  deriving DecidableEq, Repr

/-- A character of which some bytes have been read. -/
structure Pending where
  start : Nat
  accepted : Nat
  value : Nat
  /-- Bytes still to come. -/
  needed : Nat
  /-- Bounds of the next byte. -/
  low : Nat := 0x80
  high : Nat := 0xBF
  deriving DecidableEq, Repr

/-- What the first byte of a character of several bytes announces. -/
def lead? (start b : Nat) : Option Pending :=
  if b < 0xC2 then none
  else if b < 0xE0 then some { start, accepted := 1, value := b - 0xC0, needed := 1 }
  else if b = 0xE0 then some { start, accepted := 1, value := 0, needed := 2, low := 0xA0 }
  else if b = 0xED then some { start, accepted := 1, value := 0xD, needed := 2, high := 0x9F }
  else if b < 0xF0 then some { start, accepted := 1, value := b - 0xE0, needed := 2 }
  else if b = 0xF0 then some { start, accepted := 1, value := 0, needed := 3, low := 0x90 }
  else if b < 0xF4 then some { start, accepted := 1, value := b - 0xF0, needed := 3 }
  else if b = 0xF4 then some { start, accepted := 1, value := 4, needed := 3, high := 0x8F }
  else none

/-- Reads on from `offset`, inside the character `pending` if there is one. -/
def decodeFrom (offset : Nat) (pending : Option Pending) : Bytes → Except Fault Text
  | [] =>
    match pending with
    | none => .ok []
    | some p => .error ⟨p.start, none⟩
  | b :: bytes =>
    match pending with
    | none =>
      if b.toNat < 0x80 then
        (decodeFrom (offset + 1) none bytes).map (Char.ofNat b.toNat :: ·)
      else
        match lead? offset b.toNat with
        | none => .error ⟨offset, some 1⟩
        | some p => decodeFrom (offset + 1) (some p) bytes
    | some p =>
      if b.toNat < p.low ∨ p.high < b.toNat then .error ⟨p.start, some p.accepted⟩
      else
        let value := p.value * 64 + (b.toNat - 0x80)
        if p.needed = 1 then (decodeFrom (offset + 1) none bytes).map (Char.ofNat value :: ·)
        else
          decodeFrom (offset + 1)
            (some { p with accepted := p.accepted + 1, value, needed := p.needed - 1,
                           low := 0x80, high := 0xBF }) bytes

/-- The text that the bytes are the UTF-8 form of. -/
def decode (bytes : Bytes) : Except Fault Text := decodeFrom 0 none bytes

/-- The refusal in words. -/
def Fault.message (f : Fault) : Text :=
  match f.accepted with
  | none => "incomplete utf-8 byte sequence from index ".toList ++ Text.decimal f.offset
  | some k =>
    "invalid utf-8 sequence of ".toList ++ Text.decimal k ++ " bytes from index ".toList ++
      Text.decimal f.offset

end Utf8

end AssemblyInfo
