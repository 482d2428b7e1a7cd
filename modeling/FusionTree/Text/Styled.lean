/-!
# Styled text

Text in a style of the terminal, and the escaping of what a terminal would take for a command.
-/

namespace FusionTree.Text

/-- A text in a style of the terminal, which ends with the text. -/
def styled (style text : String) : String :=
  "\x1b[" ++ style ++ "m" ++ text ++ "\x1b[0m"

def disarmChar (c : Char) : List Char :=
  if c = '\x1b' then ['\\', 'x', '1', 'b']
  else if c = '\x07' then ['\\', 'x', '0', '7']
  else if c = '\x08' then ['\\', 'x', '0', '8']
  else if c = '\x0c' then ['\\', 'x', '0', 'c']
  else if c = '\x7f' then ['\\', 'x', '7', 'f']
  else if 0x80 ≤ c.toNat ∧ c.toNat ≤ 0x9f then
    '\\' :: 'u' :: '\x7b' :: (Nat.toDigits 16 c.toNat ++ ['\x7d'])
  else [c]

/-- A text with the characters escaped that a terminal would take for commands. -/
def disarm (text : List Char) : List Char :=
  text.flatMap disarmChar

end FusionTree.Text
