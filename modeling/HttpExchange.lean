import HttpExchange.Backoff.Config
import HttpExchange.Backoff.Jitter
import HttpExchange.Backoff.Policy
import HttpExchange.Calendar.Civil
import HttpExchange.Calendar.Format
import HttpExchange.Calendar.HttpDate
import HttpExchange.Calendar.Instant
import HttpExchange.Cookie.Basic
import HttpExchange.Cookie.Parse
import HttpExchange.Decimal.Shortest
import HttpExchange.Decimal.Style
import HttpExchange.Example.Application
import HttpExchange.Http.Assembly
import HttpExchange.Http.Headers
import HttpExchange.Http.Method
import HttpExchange.Http.Pipeline
import HttpExchange.Http.Request
import HttpExchange.Http.Response
import HttpExchange.Http.Status
import HttpExchange.Http.Window
import HttpExchange.Json.Basic
import HttpExchange.Json.Number
import HttpExchange.Json.Quoted
import HttpExchange.Json.Record
import HttpExchange.Json.Sequence
import HttpExchange.Json.Value
import HttpExchange.Proofs.Assembly.BodyLength
import HttpExchange.Proofs.Assembly.Form
import HttpExchange.Proofs.Assembly.Grammar
import HttpExchange.Proofs.Assembly.Malformed
import HttpExchange.Proofs.Assembly.Pieces
import HttpExchange.Proofs.Assembly.Resting
import HttpExchange.Proofs.Assembly.Resumption
import HttpExchange.Proofs.Assembly.Settled
import HttpExchange.Proofs.Assembly.Written
import HttpExchange.Proofs.Backoff.Ascent
import HttpExchange.Proofs.Backoff.Interval
import HttpExchange.Proofs.Backoff.Jitter
import HttpExchange.Proofs.Backoff.Rounding
import HttpExchange.Proofs.Backoff.Run
import HttpExchange.Proofs.Backoff.Shares
import HttpExchange.Proofs.Backoff.Stop
import HttpExchange.Proofs.Calendar.Fields
import HttpExchange.Proofs.Calendar.Notations
import HttpExchange.Proofs.Calendar.Remaining
import HttpExchange.Proofs.Calendar.Ticks
import HttpExchange.Proofs.Cookie.Attributes
import HttpExchange.Proofs.Cookie.Lifetime
import HttpExchange.Proofs.Cookie.Line
import HttpExchange.Proofs.Cookie.Normal
import HttpExchange.Proofs.Cookie.Pair
import HttpExchange.Proofs.Cookie.Precedence
import HttpExchange.Proofs.Cookie.RoundTrip
import HttpExchange.Proofs.Headers.Announcement
import HttpExchange.Proofs.Headers.Block
import HttpExchange.Proofs.Headers.Lines
import HttpExchange.Proofs.Headers.Refusal
import HttpExchange.Proofs.Headers.RoundTrip
import HttpExchange.Proofs.Least
import HttpExchange.Proofs.Lists
import HttpExchange.Proofs.Pipeline.Pieces
import HttpExchange.Proofs.Response.Cookies
import HttpExchange.Proofs.Response.Framing
import HttpExchange.Proofs.Response.Head
import HttpExchange.Proofs.Response.Serialized
import HttpExchange.Proofs.Retry.Course
import HttpExchange.Proofs.Retry.Ending
import HttpExchange.Proofs.Server.Ceiling
import HttpExchange.Proofs.Server.Dialogue
import HttpExchange.Proofs.Server.Discipline
import HttpExchange.Proofs.Server.Moments
import HttpExchange.Proofs.Server.Transcript
import HttpExchange.Proofs.Streams.Closure
import HttpExchange.Proofs.Streams.Identifiers
import HttpExchange.Proofs.Streams.Limit
import HttpExchange.Proofs.Streams.Outcome
import HttpExchange.Proofs.Streams.Run
import HttpExchange.Proofs.Streams.Sessions
import HttpExchange.Proofs.Streams.Settings
import HttpExchange.Proofs.Text.Ascii
import HttpExchange.Proofs.Text.Trim
import HttpExchange.Proofs.Text.Words
import HttpExchange.Proofs.Window.Search
import HttpExchange.Retry
import HttpExchange.Server.Address
import HttpExchange.Server.Connection
import HttpExchange.Server.Limits
import HttpExchange.Server.Session
import HttpExchange.Streams.Failure
import HttpExchange.Streams.Session
import HttpExchange.Streams.Table
import HttpExchange.Text.Basic
import HttpExchange.Text.Blank
import HttpExchange.Text.Lines
import HttpExchange.Text.Numeral
import HttpExchange.Text.Quoted
import HttpExchange.Text.Split
import HttpExchange.Text.Utf8
