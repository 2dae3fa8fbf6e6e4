import SwapDesk.Dict
import SwapDesk.Decimal.Read
import SwapDesk.Decimal.Arith
import SwapDesk.Json.Schema
import SwapDesk.Text.Blank
import SwapDesk.Text.Upper
import SwapDesk.Text.Percent
import SwapDesk.Text.Utf8
import SwapDesk.Instant
import SwapDesk.Order.Record
import SwapDesk.Order.Issuer
import SwapDesk.Order.Stats
import SwapDesk.Feed
import SwapDesk.Gateway.Failure
import SwapDesk.Gateway.Exchange
import SwapDesk.Order.Resolution
import SwapDesk.Balance.Map
import SwapDesk.Settings
import SwapDesk.Order.Command
import SwapDesk.Balance.Reconciler
import SwapDesk.Order.Poll
import SwapDesk.Order.Instruction
import SwapDesk.Desk.Caller
import SwapDesk.Settings.Reading
import SwapDesk.Shift
import SwapDesk.Launch
import SwapDesk.Main
import SwapDesk.Proofs.Book.Operations
import SwapDesk.Proofs.Book.Atomicity
import SwapDesk.Proofs.Order.Tale
import SwapDesk.Proofs.Book.Chronicle
import SwapDesk.Proofs.Book.Counters
import SwapDesk.Proofs.Book.Budget
import SwapDesk.Proofs.Book.Finality
import SwapDesk.Proofs.Book.Index
import SwapDesk.Proofs.Book.Lookups
import SwapDesk.Proofs.Pass.Work
import SwapDesk.Proofs.Pass.Isolation
import SwapDesk.Proofs.Book.Everywhere
import SwapDesk.Proofs.Text.Mappings
import SwapDesk.Proofs.Text.Blanks
import SwapDesk.Proofs.Text.Digits
import SwapDesk.Proofs.Text.Decimals
import SwapDesk.Proofs.Text.Instants
import SwapDesk.Proofs.Text.Utf8
import SwapDesk.Proofs.Json.Numeral
import SwapDesk.Proofs.Json.Reading
import SwapDesk.Proofs.Json.Decoding
import SwapDesk.Proofs.Order.Pairing
import SwapDesk.Proofs.Order.Storage
import SwapDesk.Proofs.Order.Naming
import SwapDesk.Proofs.Order.Regular
import SwapDesk.Proofs.Pass.Polled
import SwapDesk.Proofs.Desk.Frame
import SwapDesk.Proofs.Desk.Turns
import SwapDesk.Proofs.Desk.Floor
import SwapDesk.Proofs.Desk.Ledger
import SwapDesk.Proofs.Desk.Steps
import SwapDesk.Proofs.Desk.Dealings
import SwapDesk.Proofs.Desk.Traffic
import SwapDesk.Proofs.Desk.Retention
import SwapDesk.Proofs.Desk.Saving
import SwapDesk.Proofs.Desk.Business
import SwapDesk.Proofs.Desk.Passing
import SwapDesk.Proofs.Pass.Course
import SwapDesk.Proofs.Pass.Overflow
import SwapDesk.Proofs.Text.Uppercase
import SwapDesk.Proofs.Json.Depth
import SwapDesk.Proofs.Json.Soundness
import SwapDesk.Proofs.Order.Kept
import SwapDesk.Proofs.Pass.Sighting
import SwapDesk.Proofs.Pass.Policy
import SwapDesk.Proofs.Pass.Streak
import SwapDesk.Proofs.Balance.Marks
import SwapDesk.Proofs.Balance.Visits
import SwapDesk.Proofs.Balance.Lobby
import SwapDesk.Proofs.Desk.Silence
import SwapDesk.Proofs.Shift.Fates
import SwapDesk.Proofs.Shift.Ending
import SwapDesk.Proofs.Shift.Attendance
import SwapDesk.Proofs.Desk.Apart
import SwapDesk.Proofs.Desk.Beats
import SwapDesk.Proofs.Desk.Rounds
import SwapDesk.Proofs.Desk.Wakes
import SwapDesk.Proofs.Desk.Closing
import SwapDesk.Proofs.Book.Merging
import SwapDesk.Proofs.Pass.Report
import SwapDesk.Proofs.Book.Standing
import SwapDesk.Proofs.Pass.Survey
import SwapDesk.Proofs.Pass.Vigil
import SwapDesk.Proofs.Pass.Waiting
import SwapDesk.Proofs.Pass.Overdue
import SwapDesk.Proofs.Decimal.Value
import SwapDesk.Proofs.Decimal.Product
import SwapDesk.Proofs.Decimal.Quotient
import SwapDesk.Proofs.Order.Margin
import SwapDesk.Proofs.Desk.Instructing
import SwapDesk.Proofs.Desk.Range
import SwapDesk.Proofs.Book.Descent
import SwapDesk.Proofs.Desk.Fees
import SwapDesk.Proofs.Json.Fields
import SwapDesk.Proofs.Json.Paired
import SwapDesk.Proofs.Gateway.Replies
import SwapDesk.Proofs.Gateway.Answers
import SwapDesk.Proofs.Gateway.Requests
import SwapDesk.Proofs.Gateway.Targets
import SwapDesk.Proofs.Balance.Entries
import SwapDesk.Proofs.Balance.Changes
import SwapDesk.Proofs.Feed
