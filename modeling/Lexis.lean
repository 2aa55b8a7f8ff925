import Lexis.Json.Form
import Lexis.Log
import Lexis.Proofs.Findings
import Lexis.Proofs.Longest
import Lexis.Proofs.Place
import Lexis.Session
import Lexis.Proofs.Scan
import Lexis.Proofs.Steps
import Lexis.Proofs.Lossless
import Lexis.Proofs.CleanStream
import Lexis.Proofs.Joining
import Lexis.Proofs.Printing
import Lexis.Proofs.Writing
import Lexis.Proofs.Attribution
import Lexis.Proofs.Separator
import Lexis.Proofs.Recovery
import Lexis.Proofs.Stepwise
import Lexis.Proofs.Limits
import Lexis.Proofs.Speculation
import Lexis.Proofs.Written
import Lexis.Proofs.LineOrder
import Lexis.Proofs.Content
import Lexis.Proofs.Rendering
import Lexis.Proofs.Layout
import Lexis.Proofs.LineBreaks
import Lexis.Proofs.LineEndings
import Lexis.Proofs.Progress
import Lexis.Proofs.Lookahead
import Lexis.Proofs.QuoteSymmetry
import Lexis.Proofs.Logging
import Lexis.Proofs.Decoding
import Lexis.Proofs.Rounds
import Lexis.Proofs.DigitRuns
import Lexis.Proofs.Messages
import Lexis.Proofs.Symbols
import Lexis.Proofs.Respelling
import Lexis.Proofs.Forms
