import Schematic.Text.Unicode

/-!
# Quoted text

How text and byte strings are written when shown as values: between single quotes, or between
double quotes when the text holds a single quote and no double quote. Inside, the backslash and
the chosen quote are escaped, tab, newline and carriage return get their letters, and other
characters that do not print are written by code: `\xNN` below 256, `\uNNNN` below 65536,
`\UNNNNNNNN` above. Printable characters of every script stay as they are
(`Unicode.printable`).
-/

namespace Schematic

namespace Quote

/-- `n` in lower-case hexadecimal with exactly `width` digits. -/
def hex (width n : Nat) : String :=
  let digit (d : Nat) : Char := if d < 10 then Char.ofNat (48 + d) else Char.ofNat (87 + d)
  String.ofList ((List.range width).reverse.map fun i => digit (n / Nat.pow 16 i % 16))

/-- Characters that are written by their code rather than as themselves. -/
def hidden (c : Char) : Bool := !Unicode.printable c

/-- The quote that delimits a text: double exactly when it holds `'` and no `"`. -/
def delimiter (hasSingle hasDouble : Bool) : Char :=
  if hasSingle && !hasDouble then '"' else '\''

/-- One character inside a text delimited by `q`. -/
def escapeChar (q : Char) (c : Char) : String :=
  if c = '\\' then "\\\\"
  else if c = q then "\\" ++ c.toString
  else if c = '\t' then "\\t"
  else if c = '\n' then "\\n"
  else if c = '\r' then "\\r"
  else
    let n := c.toNat
    if hidden c then
      if n < 0x100 then "\\x" ++ hex 2 n
      else if n < 0x10000 then "\\u" ++ hex 4 n
      else "\\U" ++ hex 8 n
    else c.toString

/-- A text as it is shown, quotes included. -/
def text (s : String) : String :=
  let cs := s.toList
  let q := delimiter (cs.contains '\'') (cs.contains '"')
  q.toString ++ String.join (cs.map (escapeChar q)) ++ q.toString

/-- One byte inside a byte string delimited by `q`. -/
def escapeByte (q : Char) (b : UInt8) : String :=
  let n := b.toNat
  if n = 92 then "\\\\"
  else if n = q.toNat then "\\" ++ q.toString
  else if n = 9 then "\\t"
  else if n = 10 then "\\n"
  else if n = 13 then "\\r"
  else if n < 0x20 || n ≥ 0x7F then "\\x" ++ hex 2 n
  else (Char.ofNat n).toString

/-- A byte string as it is shown: `b'...'`. -/
def bytes (bs : List UInt8) : String :=
  let q := delimiter (bs.contains 39) (bs.contains 34)
  "b" ++ q.toString ++ String.join (bs.map (escapeByte q)) ++ q.toString

end Quote

end Schematic
