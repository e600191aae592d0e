import Custody.Bytes

/-! Base64 with the standard alphabet. Reading accepts more than writing produces. -/
namespace Custody.Base64

def symbol (n : Nat) : CodePoint :=
  if h : n < 26 then ⟨0x41 + n, by omega⟩
  else if h : n < 52 then ⟨0x61 + (n - 26), by omega⟩
  else if h : n < 62 then ⟨0x30 + (n - 52), by omega⟩
  else if n = 62 then '+' else '/'

def value? (c : CodePoint) : Option Nat :=
  if c.isUpper then some (c.val - 0x41)
  else if c.isLower then some (c.val - 0x61 + 26)
  else if c.isDigit then some (c.val - 0x30 + 52)
  else if c = '+' then some 62
  else if c = '/' then some 63
  else none

def encode : Bytes → Text
  | [] => []
  | [a] => [symbol (a.toNat / 4), symbol (a.toNat % 4 * 16), '=', '=']
  | [a, b] =>
    [symbol (a.toNat / 4), symbol (a.toNat % 4 * 16 + b.toNat / 16), symbol (b.toNat % 16 * 4), '=']
  | a :: b :: c :: rest =>
    symbol (a.toNat / 4) :: symbol (a.toNat % 4 * 16 + b.toNat / 16)
      :: symbol (b.toNat % 16 * 4 + c.toNat / 64) :: symbol (c.toNat % 64) :: encode rest

/-- Groups of four symbols. Padding may complete the last group, or follow it without any effect. -/
def decodeGroups? : Text → Option Bytes
  | [] => some []
  | p :: q :: r :: s :: rest =>
    if (p :: q :: r :: s :: rest).all (· = '=') then some []
    else do
      let a ← value? p
      let b ← value? q
      if r = '=' then
        if s = '=' ∧ rest = [] then return [UInt8.ofNat (a * 4 + b / 16)] else none
      else
        let c ← value? r
        if s = '=' then
          if rest = [] then return [UInt8.ofNat (a * 4 + b / 16), UInt8.ofNat (b % 16 * 16 + c / 4)]
          else none
        else
          let d ← value? s
          let bytes ← decodeGroups? rest
          return UInt8.ofNat (a * 4 + b / 16) :: UInt8.ofNat (b % 16 * 16 + c / 4)
            :: UInt8.ofNat (c % 4 * 64 + d) :: bytes
  | t => if t.all (· = '=') then some [] else none

/-- The bytes of an encoding. Spare bits of the last group are not looked at, so several texts can
mean the same bytes; `encode` gives the canonical one. -/
def decode? (t : Text) : Option Bytes :=
  if t.head? = some ('=' : CodePoint) then none else decodeGroups? t

end Custody.Base64
