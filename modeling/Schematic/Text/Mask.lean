/-!
# Masked identities

Some texts of an answer name objects by where they live: an anonymous schema is `schema@` and
the hexadecimal digits of its identity, and an object without a text of its own shows its
address as `0x` and hexadecimal digits. Answers write such a run of lower-case hexadecimal
digits as `?`, so that they do not depend on the addresses of one run (`Mask.ids`).

A prefix with no hexadecimal digit after it (`0xzz`, `schema@AB`) is left as it is, and the
text is read from left to right, so a run of digits is masked once, by the first prefix that
reaches it.
-/

namespace Schematic

namespace Mask

/-- Whether a character is a lower-case hexadecimal digit. -/
def hexDigit (c : Char) : Bool := c.isDigit || ('a' ≤ c && c ≤ 'f')

/-- The characters of a text with every identity masked. -/
def chars : List Char → List Char
  | [] => []
  | 's' :: 'c' :: 'h' :: 'e' :: 'm' :: 'a' :: '@' :: c :: rest =>
    if hexDigit c then "schema@?".toList ++ chars (rest.dropWhile hexDigit)
    else 's' :: chars ('c' :: 'h' :: 'e' :: 'm' :: 'a' :: '@' :: c :: rest)
  | '0' :: 'x' :: c :: rest =>
    if hexDigit c then ['0', 'x', '?'] ++ chars (rest.dropWhile hexDigit)
    else '0' :: chars ('x' :: c :: rest)
  | c :: rest => c :: chars rest
termination_by cs => cs.length
decreasing_by
  all_goals simp only [List.length_cons]
  all_goals first
    | omega
    | have := (List.dropWhile_suffix hexDigit (l := rest)).length_le; omega

/-- A text with every identity masked. -/
def ids (s : String) : String := String.ofList (chars s.toList)

end Mask

end Schematic
