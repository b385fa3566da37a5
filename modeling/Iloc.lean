import Iloc.FileTree
import Iloc.Main
import Iloc.Proofs.Scanner.Lexeme
import Iloc.Proofs.Text.OneLine
import Iloc.Proofs.Scanner.Reading
import Iloc.Proofs.Scanner.Segmentation
import Iloc.Proofs.Scanner.Stream
import Iloc.Proofs.Scanner.Pulling
import Iloc.Proofs.Scanner.Cursor
import Iloc.Proofs.Scanner.LineCount
import Iloc.Proofs.Scanner.Joining
import Iloc.Proofs.Scanner.TextLines
import Iloc.Proofs.Scanner.Numbering
import Iloc.Proofs.Scanner.NormalForm
import Iloc.Proofs.Parser.TokenLine
import Iloc.Proofs.Parser.History
import Iloc.Proofs.Parser.Simulation
import Iloc.Proofs.Parser.Atomicity
import Iloc.Proofs.Parser.Turns
import Iloc.Proofs.Parser.LineByLine
import Iloc.Proofs.Parser.LoopInvariant
import Iloc.Proofs.Parser.Trace
import Iloc.Proofs.Parser.Relabelling
import Iloc.Proofs.Parser.Concatenation
import Iloc.Proofs.Parser.TokenStream
import Iloc.Proofs.Parser.Layout
import Iloc.Proofs.Parser.Listening
import Iloc.Proofs.Parser.Moves
import Iloc.Proofs.Parser.Reporting
import Iloc.Proofs.Grammar.Statement
import Iloc.Proofs.Grammar.Classification
import Iloc.Proofs.Grammar.Acceptance
import Iloc.Proofs.Grammar.RoundTrip
import Iloc.Proofs.Parser.Wording
import Iloc.Proofs.CommandLine.StandardError
import Iloc.Proofs.CommandLine.Filtering
import Iloc.Proofs.CommandLine.Arguments
import Iloc.Proofs.CommandLine.Consistency
import Iloc.Proofs.CommandLine.SourceFiles
import Iloc.Proofs.Parser.Resynchronization
import Iloc.Proofs.Scanner.LineNumbers
import Iloc.Proofs.Scanner.Splitting
import Iloc.Proofs.Parser.Accounting
import Iloc.Proofs.Text.UniqueReading
import Iloc.Proofs.Text.TableDrawing
import Iloc.Proofs.Listing.PlainDump
import Iloc.Proofs.Listing.TableDump
import Iloc.Proofs.Listing.TokenListing
import Iloc.Proofs.CommandLine.Legibility
