import SourceAtlas.Text.Blank
import SourceAtlas.Text.Lines
import SourceAtlas.Python.Literal
set_option autoImplicit false

namespace SourceAtlas.Python

open SourceAtlas.Text

def expandTabs (cs : List Char) : List Char :=
  cs.flatMap fun c => if c = '\t' then List.replicate 8 ' ' else [c]

def indentation (line : List Char) : Nat :=
  (line.takeWhile (· == ' ')).length

/-- The least indentation of the lines that show something, 0 if none does. -/
def margin (lines : List (List Char)) : Nat :=
  ((lines.filter fun line => !isBlankLine line).map indentation).min?.getD 0

/-- A line less the margin, of which a shorter line loses what it has, and less its blank end. -/
def cutMargin (margin : Nat) (line : List Char) : List Char :=
  trimEnd (line.drop (min margin (indentation line)))

def dropBlankEnds (lines : List (List Char)) : List (List Char) :=
  ((lines.dropWhile isBlankLine).reverse.dropWhile isBlankLine).reverse

def cleanLines (raw : List Char) : List (List Char) :=
  match lines (expandTabs raw) with
  | [] => []
  | first :: rest => dropBlankEnds (trim first :: rest.map (cutMargin (margin rest)))

def cleanDocstring (raw : List Char) : List Char :=
  joined '\n' (cleanLines raw)

/-- The value of one literal of a documentation string: bytes and formatted literals have none. -/
def docstringPart? (literal : List Char) : Option (List Char) :=
  let letters := literal.takeWhile fun c => c != '"' && c != '\x27'
  if letters.any fun c => c == 'b' || c == 'B' || c == 'f' || c == 'F' then none
  else some (literalValue literal)

def docstring? (literals : List String) : Option String :=
  (literals.mapM fun literal => docstringPart? literal.toList).map fun parts =>
    String.ofList (cleanDocstring parts.flatten)

end SourceAtlas.Python
