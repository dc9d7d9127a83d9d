import Schematic.Fault

/-!
# Base64

Bytes as text in the standard alphabet (`A`–`Z`, `a`–`z`, `0`–`9`, `+`, `/`), three bytes to
four characters, the last group padded with `=`.

Reading (`Base64.decode?`) skips characters outside the alphabet and stops at the padding that
completes a group; a group left open at the end is a fault, `Incorrect padding` when it holds
two or three characters and a fault about the count of characters when it holds one. The text
must be ASCII.
-/

namespace Schematic

namespace Base64

/-- The character of a six-bit number. -/
def digit (n : Nat) : Char :=
  if n < 26 then Char.ofNat (65 + n)
  else if n < 52 then Char.ofNat (97 + n - 26)
  else if n < 62 then Char.ofNat (48 + n - 52)
  else if n = 62 then '+' else '/'

/-- The six-bit number of a character of the alphabet. -/
def value? (c : Char) : Option Nat :=
  if 'A' ≤ c ∧ c ≤ 'Z' then some (c.toNat - 65)
  else if 'a' ≤ c ∧ c ≤ 'z' then some (c.toNat - 97 + 26)
  else if '0' ≤ c ∧ c ≤ '9' then some (c.toNat - 48 + 52)
  else if c = '+' then some 62
  else if c = '/' then some 63
  else none

/-- The characters of bytes, three at a time. -/
def encodeList : List Nat → List Char
  | a :: b :: c :: rest =>
    let n := a * 65536 + b * 256 + c
    digit (n / 262144) :: digit (n / 4096 % 64) :: digit (n / 64 % 64) :: digit (n % 64) ::
      encodeList rest
  | [a, b] =>
    let n := a * 65536 + b * 256
    [digit (n / 262144), digit (n / 4096 % 64), digit (n / 64 % 64), '=']
  | [a] =>
    let n := a * 65536
    [digit (n / 262144), digit (n / 4096 % 64), '=', '=']
  | [] => []

/-- The text of bytes. -/
def encode (bytes : List UInt8) : String := String.ofList (encodeList (bytes.map (·.toNat)))

/-- A reader's position within a group of four characters: how many it has read, the bits
left over from them, the padding characters met since, and the bytes so far, last first. -/
structure Reader where
  quad : Nat := 0
  left : Nat := 0
  pads : Nat := 0
  out : List UInt8 := []

/-- Reads one six-bit number. -/
def Reader.push (r : Reader) (v : Nat) : Reader :=
  let emit (b : Nat) : List UInt8 := UInt8.ofNat (b % 256) :: r.out
  match r.quad with
  | 0 => { r with quad := 1, left := v, pads := 0 }
  | 1 => { quad := 2, left := v % 16, pads := 0, out := emit (r.left * 4 + v / 16) }
  | 2 => { quad := 3, left := v % 4, pads := 0, out := emit (r.left * 16 + v / 4) }
  | _ => { quad := 0, left := 0, pads := 0, out := emit (r.left * 64 + v) }

/-- The bytes at the end of the text: a group left open is a fault. -/
def Reader.finish (r : Reader) : Except Fault (List UInt8) :=
  match r.quad with
  | 0 => .ok r.out.reverse
  | 1 => .error (.base64Length (r.out.length / 3 * 4 + 1))
  | _ => .error .base64Padding

/-- Reads characters: padding after two or three characters of a group that completes it ends
the text, other padding and characters outside the alphabet are skipped. -/
def readFrom (r : Reader) : List Char → Except Fault (List UInt8)
  | [] => r.finish
  | c :: cs =>
    if c = '=' then
      if r.quad ≥ 2 then
        if r.quad + r.pads + 1 ≥ 4 then .ok r.out.reverse
        else readFrom { r with pads := r.pads + 1 } cs
      else readFrom r cs
    else match value? c with
      | some v => readFrom (r.push v) cs
      | none => readFrom r cs

/-- The bytes of a text. -/
def decode? (s : String) : Except Fault (List UInt8) :=
  if s.toList.any (·.toNat ≥ 128) then .error .base64Ascii else readFrom {} s.toList

end Base64

end Schematic
