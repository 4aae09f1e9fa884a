/-
# Conformance.Toml.Quoted — quoted texts and keys.

Texts between double quotes have escapes, texts between apostrophes have none.  Three quotes open a
text that may run over several lines; a line end right after them is left out, and up to two quotes
may stand right before the closing ones.
-/
import Conformance.Toml.Basic

namespace Conformance

namespace Toml

/-- Characters that may not stand in a text. -/
def isForbidden (multiline : Bool) (c : Char) : Bool :=
  isControl c && !(multiline && c == '\n')

/-- The character with the given hexadecimal digits, if there is one. -/
def hexChar? (digits : List Char) : Option Char :=
  match digits.mapM hexDigit? with
  | none => none
  | some ds =>
    let n := ofDigits 16 ds
    if n < 0xd800 || (0xdfff < n && n < 0x110000) then some (Char.ofNat n) else none

/-- The character that a one-letter escape stands for. -/
def escaped? : Char → Option Char
  | 'b' => some (Char.ofNat 8)
  | 't' => some '\t'
  | 'n' => some '\n'
  | 'f' => some (Char.ofNat 12)
  | 'r' => some '\r'
  | '"' => some '"'
  | '\\' => some '\\'
  | _ => none

/-- What is being left out after a backslash at the end of a line. -/
inductive Trim where
  /-- Nothing. -/
  | none
  /-- Blanks up to the end of the line. -/
  | toLineEnd
  /-- Blanks and line ends. -/
  | space
  deriving DecidableEq, Repr

/-- A further character of a text. -/
def consChar (c : Char) : Result (List Char × List Char) → Result (List Char × List Char)
  | .ok (cs, rest) => .ok (c :: cs, rest)
  | .error e => .error e

/-- The characters of a text in double quotes, up to and without the closing quotes. -/
def basicChars (multiline : Bool) : Trim → List Char → Result (List Char × List Char)
  | _, [] => .error .malformed
  | .toLineEnd, c :: rest =>
    if isBlank c then basicChars multiline .toLineEnd rest
    else if c = '\n' then basicChars multiline .space rest
    else .error .malformed
  | trim, c :: rest =>
    if trim = .space && isSpace c then basicChars multiline .space rest
    else if c = '"' then
      if multiline then
        match rest with
        | '"' :: '"' :: after => .ok ([], after)
        | _ => consChar c (basicChars multiline .none rest)
      else .ok ([], rest)
    else if c = '\\' then
      match rest with
      | 'u' :: a :: b :: c :: d :: after =>
        match hexChar? [a, b, c, d] with
        | some x => consChar x (basicChars multiline .none after)
        | none => .error .malformed
      | 'U' :: a :: b :: c :: d :: e :: f :: g :: h :: after =>
        match hexChar? [a, b, c, d, e, f, g, h] with
        | some x => consChar x (basicChars multiline .none after)
        | none => .error .malformed
      | x :: after =>
        if multiline && isBlank x then basicChars multiline .toLineEnd after
        else if multiline && x == '\n' then basicChars multiline .space after
        else
          match escaped? x with
          | some y => consChar y (basicChars multiline .none after)
          | none => .error .malformed
      | [] => .error .malformed
    else if isForbidden multiline c then .error .malformed
    else consChar c (basicChars multiline .none rest)

/-- The characters of a text in apostrophes, up to and without the closing ones. -/
def literalChars (multiline : Bool) : List Char → Result (List Char × List Char)
  | [] => .error .malformed
  | c :: rest =>
    if c = '\'' then
      if multiline then
        match rest with
        | '\'' :: '\'' :: after => .ok ([], after)
        | _ => consChar c (literalChars multiline rest)
      else .ok ([], rest)
    else if isForbidden multiline c then .error .malformed
    else consChar c (literalChars multiline rest)

/-- Up to two quotes that stand right after the closing ones belong to the text. -/
def trailingQuotes (quote : Char) (chars : List Char) : List Char → List Char × List Char
  | a :: b :: rest =>
    if a = quote then
      if b = quote then (chars ++ [quote, quote], rest) else (chars ++ [quote], b :: rest)
    else (chars, a :: b :: rest)
  | [a] => if a = quote then (chars ++ [quote], []) else (chars, [a])
  | [] => (chars, [])

/-- A line end right after the opening quotes does not count. -/
def afterOpening : List Char → List Char
  | '\n' :: rest => rest
  | cs => cs

/-- A text that may run over several lines, after its opening quotes. -/
def multilineText (quote : Char) (cs : List Char) : Result (String × List Char) := do
  let (chars, rest) ←
    if quote = '"' then basicChars true .none (afterOpening cs) else literalChars true (afterOpening cs)
  let (chars, rest) := trailingQuotes quote chars rest
  return (String.ofList chars, rest)

/-- A text on one line, after its opening quote. -/
def lineText (quote : Char) (cs : List Char) : Result (String × List Char) := do
  let (chars, rest) ← if quote = '"' then basicChars false .none cs else literalChars false cs
  return (String.ofList chars, rest)

/-- A text in quotes of either sort, the first of which is given. -/
def quotedText (quote : Char) (rest : List Char) : Result (String × List Char) :=
  match rest with
  | a :: b :: after =>
    if a = quote && b = quote then multilineText quote after else lineText quote rest
  | _ => lineText quote rest

/-! ## Keys -/

/-- One part of a key: bare, or a quoted text on one line. -/
def keyPart : List Char → Result (String × List Char)
  | [] => .error .malformed
  | c :: rest =>
    if isBare c then
      .ok (String.ofList ((c :: rest).takeWhile isBare), (c :: rest).dropWhile isBare)
    else if c = '\'' || c = '"' then lineText c rest
    else .error .malformed

/-- The parts of a key, divided by dots, with a bound on their number. -/
def keyParts : Nat → List Char → Result (List String × List Char)
  | 0, _ => .error .malformed
  | bound + 1, cs => do
    let (part, rest) ← keyPart cs
    match skipBlanks rest with
    | '.' :: rest =>
      let (parts, rest) ← keyParts bound (skipBlanks rest)
      return (part :: parts, rest)
    | rest => return ([part], rest)

/-- **`readKey`** — a key.  It has no more parts than there are characters. -/
def readKey (cs : List Char) : Result (List String × List Char) := keyParts (cs.length + 1) cs

end Toml

end Conformance
