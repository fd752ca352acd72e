import FormDesigner.Text.Shapeless

/-!
Quoted text for messages.

A message shows a text between double quotes.  Characters that would be
unclear there are written as an escape: the quote, the backslash, line breaks
and tabs by a letter, and what has no shape of its own by its code point.
-/

namespace FormDesigner

/-- A character as it stands between the quotes of a message. -/
def messageChar (c : Char) : List Char :=
  if c = '\x00' then ['\\', '0']
  else if c = '\t' then ['\\', 't']
  else if c = '\n' then ['\\', 'n']
  else if c = '\r' then ['\\', 'r']
  else if c = '"' then ['\\', '"']
  else if c = '\\' then ['\\', '\\']
  else if isShapeless c then
    '\\' :: 'u' :: '\x7b' :: (Nat.toDigits 16 c.toNat ++ ['\x7d'])
  else [c]

/-- A text between the quotes of a message. -/
def messageQuote (text : String) : String :=
  String.ofList ('"' :: (text.toList.flatMap messageChar ++ ['"']))

end FormDesigner
