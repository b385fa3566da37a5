import Iloc.Scanner.Progress

namespace Iloc

/-!
# Token lists

The tokens of a text are those that repeated reading yields, up to and
including the first end token.  A caller may instead drive one scanner by hand
and ask for its line between two readings.
-/

namespace Scanner

/-- The tokens still to be read, through the first end token. -/
def tokens
    (scanner : Scanner) :
    List Token :=
  if scanner.next.1.kind = .eof then
    [scanner.next.1]
  else
    scanner.next.1 :: scanner.next.2.tokens
termination_by scanner.rest.length
decreasing_by
  exact scanner.length_rest_next_lt ‹_›

/-- What a caller may ask of a scanner. -/
inductive Query where
  /-- Read one token. -/
  | next
  /-- Tell the current line. -/
  | line
  deriving Repr, DecidableEq

/-- A scanner's reply to a query. -/
structure Reply where
  /-- The token that was read, if one was asked for. -/
  token? : Option Token
  /-- The scanner's line after the query. -/
  line : UInt32
  deriving Repr, DecidableEq

/-- Answer one query.  Telling the line leaves the scanner as it is. -/
def answer
    (scanner : Scanner) :
    Query → Reply × Scanner
  | .next =>
      let (token, scanner) := scanner.next
      (⟨some token, scanner.line⟩, scanner)
  | .line =>
      (⟨none, scanner.line⟩, scanner)

/-- Answer queries one after the other. -/
def answers
    (scanner : Scanner) :
    List Query → List Reply
  | [] => []
  | query :: queries =>
      let (reply, scanner) := scanner.answer query
      reply :: scanner.answers queries

end Scanner

/-- All tokens of a text, of which the last and only the last is its end. -/
def scan (source : String) : List Token :=
  (Scanner.ofSource source).tokens

end Iloc
