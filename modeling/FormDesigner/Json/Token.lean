import FormDesigner.Json.Basic

/-!
The tokens of a JSON text.

The text is read once from left to right.  Outside quotes a token ends where a
blank, a quote or a mark of punctuation stands; what such a word means is left
to the reader of tokens.
-/

namespace FormDesigner

namespace Json

/-- One token of a JSON text. -/
inductive Token where
  | openArray
  | closeArray
  | openObject
  | closeObject
  | comma
  | colon
  /-- A quoted text; `none` when it holds an escape of half a character. -/
  | text (content : Option String)
  /-- A run of characters that are no blank, quote or punctuation. -/
  | word (letters : List Char)
  deriving DecidableEq

/-- The blanks between tokens. -/
def isSpace (c : Char) : Bool :=
  c = ' ' || c = '\t' || c = '\n' || c = '\r'

/-- The token that a mark of punctuation is. -/
def punctuation? : Char → Option Token
  | '[' => some .openArray
  | ']' => some .closeArray
  | '\x7b' => some .openObject
  | '\x7d' => some .closeObject
  | ',' => some .comma
  | ':' => some .colon
  | _ => none

/-- The character that a backslash and a letter stand for. -/
def unescape? : Char → Option Char
  | '"' => some '"'
  | '\\' => some '\\'
  | '/' => some '/'
  | 'b' => some '\x08'
  | 'f' => some '\x0c'
  | 'n' => some '\n'
  | 'r' => some '\r'
  | 't' => some '\t'
  | _ => none

/-- The value of a hexadecimal digit. -/
def hexValue? (c : Char) : Option Nat :=
  if '0' ≤ c && c ≤ '9' then some (c.toNat - '0'.toNat)
  else if 'a' ≤ c && c ≤ 'f' then some (c.toNat - 'a'.toNat + 10)
  else if 'A' ≤ c && c ≤ 'F' then some (c.toNat - 'A'.toNat + 10)
  else none

def isHighHalf (unit : Nat) : Bool := 0xD800 ≤ unit && unit < 0xDC00

def isLowHalf (unit : Nat) : Bool := 0xDC00 ≤ unit && unit < 0xE000

/-- Joins the halves of characters; `none` when a half stands alone. -/
def joinHalves : List Nat → Option (List Char)
  | [] => some []
  | [unit] =>
      if isHighHalf unit || isLowHalf unit then none else some [Char.ofNat unit]
  | unit :: next :: rest =>
      if isHighHalf unit then
        if isLowHalf next then
          (joinHalves rest).map
            (Char.ofNat (0x10000 + (unit - 0xD800) * 0x400 + (next - 0xDC00)) :: ·)
        else none
      else if isLowHalf unit then none
      else (joinHalves (next :: rest)).map (Char.ofNat unit :: ·)

/-- What the lexer stands in. -/
inductive Mode where
  | between
  /-- Inside a word, with its letters so far, the latest first. -/
  | word (letters : List Char)
  /-- Inside quotes, with the code units so far, the latest first. -/
  | text (units : List Nat)
  /-- Behind a backslash inside quotes. -/
  | escape (units : List Nat)
  /-- Inside the four hexadecimal digits of an escape. -/
  | hex (units : List Nat) (value : Nat) (count : Nat)

/-- A lexer: where it stands and the tokens behind it, the latest first. -/
structure Lexer where
  mode : Mode
  tokens : List Token

namespace Lexer

/-- Reads one character between tokens. -/
def start (tokens : List Token) (c : Char) : Lexer :=
  if isSpace c then ⟨.between, tokens⟩
  else if c = '"' then ⟨.text [], tokens⟩
  else
    match punctuation? c with
    | some token => ⟨.between, token :: tokens⟩
    | none => ⟨.word [c], tokens⟩

/-- Whether a character ends a word. -/
def endsWord (c : Char) : Bool :=
  isSpace c || c = '"' || (punctuation? c).isSome

/-- Reads one character; `none` when no JSON text goes on with it. -/
def feed (lexer : Lexer) (c : Char) : Option Lexer :=
  match lexer.mode with
  | .between => some (start lexer.tokens c)
  | .word letters =>
      if endsWord c then some (start (.word letters.reverse :: lexer.tokens) c)
      else some { lexer with mode := .word (c :: letters) }
  | .text units =>
      if c = '"' then
        some ⟨.between, .text ((joinHalves units.reverse).map String.ofList) :: lexer.tokens⟩
      else if c = '\\' then some { lexer with mode := .escape units }
      else if c.toNat < 0x20 then none
      else some { lexer with mode := .text (c.toNat :: units) }
  | .escape units =>
      if c = 'u' then some { lexer with mode := .hex units 0 0 }
      else (unescape? c).map fun char => { lexer with mode := .text (char.toNat :: units) }
  | .hex units value count =>
      (hexValue? c).map fun digit =>
        if count = 3 then { lexer with mode := .text ((16 * value + digit) :: units) }
        else { lexer with mode := .hex units (16 * value + digit) (count + 1) }

/-- The tokens of a text that ends here; `none` inside quotes. -/
def finish (lexer : Lexer) : Option (List Token) :=
  match lexer.mode with
  | .between => some lexer.tokens.reverse
  | .word letters => some (.word letters.reverse :: lexer.tokens).reverse
  | _ => none

end Lexer

/-- Splits a text into tokens. -/
def tokens? (text : List Char) : Option (List Token) :=
  (text.foldlM Lexer.feed ⟨.between, []⟩).bind Lexer.finish

end Json

end FormDesigner
