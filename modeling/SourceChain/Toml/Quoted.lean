import SourceChain.Toml.Scan

/-!
# Quoted text in TOML

Basic texts resolve escapes and literal texts do not. Each has a form for one line and a form for
many, in which a line feed right after the opening quotes is dropped, the ends of lines are read as
line feeds, and up to two quotes may stand next to the closing ones.
-/

namespace SourceChain.Toml

/-- The quote of a basic text. -/
def basicQuote : Char := '\x22'

/-- The quote of a literal text. -/
def literalQuote : Char := '\x27'

/-! ### Escapes -/

/-- The value of a hexadecimal digit. -/
def hexValue? (c : Char) : Option Nat :=
  if c.isDigit then some (c.toNat - 48)
  else if 'a' ≤ c ∧ c ≤ 'f' then some (c.toNat - 87)
  else if 'A' ≤ c ∧ c ≤ 'F' then some (c.toNat - 55)
  else none

/-- Takes the character with the code point that so many hexadecimal digits give. -/
def codePoint (digits : Nat) : Scanner Char := fun cs ↦
  match (cs.take digits).mapM hexValue? with
  | none => none
  | some values =>
    let code := values.foldl (fun high d ↦ 16 * high + d) 0
    if values.length = digits ∧ code.isValidChar then some (Char.ofNat code, cs.drop digits)
    else none

/-- Takes what follows the backslash of an escape. -/
def escape : Scanner Char
  | 'b' :: cs => some ('\x08', cs)
  | 'f' :: cs => some ('\x0c', cs)
  | 'n' :: cs => some ('\n', cs)
  | 'r' :: cs => some ('\r', cs)
  | 't' :: cs => some ('\t', cs)
  | '\\' :: cs => some ('\\', cs)
  | '\x22' :: cs => some ('\x22', cs)
  | 'u' :: cs => codePoint 4 cs
  | 'U' :: cs => codePoint 8 cs
  | _ => none

/-! ### Pieces of text -/

/-- Takes a run of one or more characters that stand for themselves. -/
def plainRun (isQuote : Char → Bool) : Scanner (List Char) := fun cs ↦
  let own (c : Char) : Bool := isPlain c && !isQuote c
  match cs.takeWhile own with
  | [] => none
  | run => some (run, cs.dropWhile own)

/-- Takes a run of plain characters or an escape. -/
def basicPiece : Scanner (List Char)
  | '\\' :: cs => (escape cs).map fun (c, rest) ↦ ([c], rest)
  | cs => plainRun (fun c ↦ c == basicQuote || c == '\\') cs

/-- Takes a backslash at the end of a line, and all blanks and empty lines after it. -/
def joinedLines : List Char → Option (List Char)
  | '\\' :: cs => (newline? (skipSpace cs)).map fun rest ↦
    (many (fun
      | [] => none
      | c :: cs =>
        if isSpace c then some ((), cs) else (newline? (c :: cs)).map fun r ↦ ((), r)) rest).2
  | _ => none

/-- Takes one or two quotes that a character other than the quote follows. -/
def innerQuotes (mark : Char) : Scanner (List Char) := fun cs ↦
  let count := (cs.takeWhile (· = mark)).length
  if (count = 1 ∨ count = 2) ∧ count < cs.length then
    some (List.replicate count mark, cs.drop count)
  else none

/-- Takes the quotes at the end of a text of many lines. There are three, and one or two more
belong to the text. -/
def closingQuotes (mark : Char) : Scanner (List Char) := fun cs ↦
  let count := min 5 (cs.takeWhile (· = mark)).length
  if 3 ≤ count then some (List.replicate (count - 3) mark, cs.drop count) else none

/-- Takes the end of a line as a line feed. -/
def lineFeed : Scanner (List Char) := fun cs ↦
  (newline? cs).map fun rest ↦ (['\n'], rest)

/-- Takes a piece of a basic text of many lines. -/
def basicLinesPiece : Scanner (List Char) := fun cs ↦
  match joinedLines cs with
  | some rest => some ([], rest)
  | none => (basicPiece cs).or ((lineFeed cs).or (innerQuotes basicQuote cs))

/-- Takes a piece of a literal text of many lines. -/
def literalLinesPiece : Scanner (List Char) := fun cs ↦
  (plainRun (· == literalQuote) cs).or ((lineFeed cs).or (innerQuotes literalQuote cs))

/-! ### Whole texts -/

/-- Takes a text on one line, from after its opening quote. -/
def onOneLine (mark : Char) (piece : Scanner (List Char)) : Scanner String := fun cs ↦
  let (pieces, rest) := many piece cs
  (expect [mark] rest).map fun rest ↦ (String.ofList pieces.flatten, rest)

/-- Takes a text on many lines, from after its opening quotes. -/
def onManyLines (mark : Char) (piece : Scanner (List Char)) : Scanner String := fun cs ↦
  let (pieces, rest) := many piece ((newline? cs).getD cs)
  (closingQuotes mark rest).map fun (last, rest) ↦
    (String.ofList (pieces.flatten ++ last), rest)

/-- Takes a quoted text on one line. -/
def lineText : Scanner String
  | [] => none
  | c :: cs =>
    if c = basicQuote then onOneLine basicQuote basicPiece cs
    else if c = literalQuote then onOneLine literalQuote (plainRun (· == literalQuote)) cs
    else none

/-- Takes a quoted text of any form. -/
def quotedText : Scanner String := fun cs ↦
  match expect [basicQuote, basicQuote, basicQuote] cs with
  | some rest => onManyLines basicQuote basicLinesPiece rest
  | none =>
    match expect [literalQuote, literalQuote, literalQuote] cs with
    | some rest => onManyLines literalQuote literalLinesPiece rest
    | none => lineText cs

end SourceChain.Toml
