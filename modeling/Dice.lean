import Dice.Calendar.Date
import Dice.Calendar.Reader
import Dice.Calendar.Timestamp
import Dice.Calendar.Written
import Dice.Command.Arguments
import Dice.Command.Prompt
import Dice.Command.Reply
import Dice.Decimal.Fixed
import Dice.Decimal.Rounding
import Dice.Decimal.Shortest
import Dice.Distribution.Basic
import Dice.Distribution.Convolution
import Dice.Distribution.Query
import Dice.Json.Form
import Dice.Json.Forms
import Dice.Json.Number
import Dice.Json.Printer
import Dice.Json.Reader
import Dice.Json.Spelling
import Dice.Json.Value
import Dice.Law
import Dice.Main
import Dice.Notation.Fault
import Dice.Notation.Reader
import Dice.Notation.Written
import Dice.Overflow
import Dice.Pool
import Dice.Proofs.Binary.Errors
import Dice.Proofs.Binary.Monotone
import Dice.Proofs.Binary.Operations
import Dice.Proofs.Binary.Order
import Dice.Proofs.Binary.Rounding
import Dice.Proofs.Calendar.ReadBack
import Dice.Proofs.Command.Answers
import Dice.Proofs.Command.Batch
import Dice.Proofs.Command.Carets
import Dice.Proofs.Command.CommandLines
import Dice.Proofs.Command.Entries
import Dice.Proofs.Command.Idle
import Dice.Proofs.Command.Runs
import Dice.Proofs.Command.Statistics
import Dice.Proofs.Command.Times
import Dice.Proofs.Decimal.Digits
import Dice.Proofs.Decimal.Shortest
import Dice.Proofs.Distribution.Addition
import Dice.Proofs.Distribution.Counting
import Dice.Proofs.Distribution.Expectation
import Dice.Proofs.Distribution.Finite
import Dice.Proofs.Distribution.Gathering
import Dice.Proofs.Distribution.Leading
import Dice.Proofs.Distribution.Likeliest
import Dice.Proofs.Distribution.Offsets
import Dice.Proofs.Distribution.Outcomes
import Dice.Proofs.Distribution.Shape
import Dice.Proofs.Distribution.Vanishing
import Dice.Proofs.Json.Floats
import Dice.Proofs.Json.Forms
import Dice.Proofs.Json.Laws
import Dice.Proofs.Json.Sessions
import Dice.Proofs.Json.Spellings
import Dice.Proofs.Json.Values
import Dice.Proofs.Notation.Canonical
import Dice.Proofs.Notation.Cuts
import Dice.Proofs.Notation.Faults
import Dice.Proofs.Notation.Grammar
import Dice.Proofs.Notation.Letters
import Dice.Proofs.Notation.Parts
import Dice.Proofs.Notation.Refusals
import Dice.Proofs.Pool.Overflow
import Dice.Proofs.Random.Draws
import Dice.Proofs.Random.Fairness
import Dice.Proofs.Random.Readings
import Dice.Proofs.Random.Streams
import Dice.Proofs.Random.Words
import Dice.Proofs.Session.Answers
import Dice.Proofs.Session.Chronicle
import Dice.Proofs.Session.Letters
import Dice.Proofs.Session.Records
import Dice.Proofs.View.Bars
import Dice.Proofs.View.Table
import Dice.Random.ChaCha
import Dice.Random.Face
import Dice.Random.Roller
import Dice.Roll
import Dice.Session.History
import Dice.Session.Session
import Dice.Text.Blank
import Dice.Text.Cells
import Dice.Text.CharRange
import Dice.Text.Digest
import Dice.Text.Digits
import Dice.Text.Extending
import Dice.Text.Ignorable
import Dice.Text.Lines
import Dice.Text.Quoted
import Dice.Text.Unprintable
import Dice.Text.Word
import Dice.View.Color
import Dice.View.Histogram
import Dice.View.Percentage
import Dice.View.Summary
import Dice.View.Table
import Dice.Weight
import Dice.Proofs.Distribution.Moments
import Dice.Proofs.Distribution.Tails
import Dice.Proofs.Notation.Normal
import Dice.Proofs.View.Columns
