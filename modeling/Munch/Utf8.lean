import Munch.Error

namespace Munch.Utf8

def width? (lead : UInt8) : Option Nat :=
  if lead ≤ 0x7f then some 1
  else if 0xc2 ≤ lead && lead ≤ 0xdf then some 2
  else if 0xe0 ≤ lead && lead ≤ 0xef then some 3
  else if 0xf0 ≤ lead && lead ≤ 0xf4 then some 4
  else none

def isContinuation (b : UInt8) : Bool := 0x80 ≤ b && b ≤ 0xbf

/-- Whether `b` may be the second byte after `lead`. Some lead bytes narrow the range, which rules
out overlong forms, surrogates and what lies above the last code point. -/
def isSecond (lead b : UInt8) : Bool :=
  if lead = 0xe0 then 0xa0 ≤ b && b ≤ 0xbf
  else if lead = 0xed then 0x80 ≤ b && b ≤ 0x9f
  else if lead = 0xf0 then 0x90 ≤ b && b ≤ 0xbf
  else if lead = 0xf4 then 0x80 ≤ b && b ≤ 0x8f
  else isContinuation b

def accepted (lead : UInt8) : List UInt8 → Nat
  | [] => 0
  | b :: bs => if isSecond lead b then 1 + (bs.takeWhile isContinuation).length else 0

/-- The part of a lead byte's value that belongs to the code point, by the number of bytes that
follow it. -/
def payload (lead : UInt8) : Nat → Nat
  | 0 => lead.toNat
  | 1 => lead.toNat % 32
  | 2 => lead.toNat % 16
  | _ => lead.toNat % 8

/-- The character of a sequence of the width that its lead byte promises, or the length of its
longest beginning that some character begins with. -/
def decode (lead : UInt8) (tail : List UInt8) : Except Nat Char :=
  if accepted lead tail = tail.length then
    .ok (.ofNat (tail.foldl (fun v b => v * 64 + b.toNat % 64) (payload lead tail.length)))
  else .error (accepted lead tail + 1)

end Munch.Utf8
