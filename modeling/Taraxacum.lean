import Taraxacum.App1.Reloads
import Taraxacum.App1.Run
import Taraxacum.Config
import Taraxacum.Config.Whole
import Taraxacum.Cxx
import Taraxacum.Event
import Taraxacum.Exec
import Taraxacum.Hex
import Taraxacum.Http.Client
import Taraxacum.Http.Message
import Taraxacum.Http.Parser.Accepted
import Taraxacum.Http.Parser.Alive
import Taraxacum.Http.Parser.Assertions
import Taraxacum.Http.Parser.Basic
import Taraxacum.Http.Parser.Bodies
import Taraxacum.Http.Parser.Control
import Taraxacum.Http.Parser.Delivery
import Taraxacum.Http.Parser.FieldLines
import Taraxacum.Http.Parser.Letters
import Taraxacum.Http.Parser.Limits
import Taraxacum.Http.Parser.Lines
import Taraxacum.Http.Parser.Names
import Taraxacum.Http.Parser.Numbers
import Taraxacum.Http.Parser.Parse
import Taraxacum.Http.Parser.Pieces
import Taraxacum.Http.Parser.RoundTrip
import Taraxacum.Http.Parser.Sound
import Taraxacum.Http.Parser.Split
import Taraxacum.Http.Parser.StartLine
import Taraxacum.Http.Parser.Stream
import Taraxacum.Http.Parser.V1
import Taraxacum.Http.Parser.Values
import Taraxacum.Http.Prepared
import Taraxacum.Http.Rfc7230
import Taraxacum.Http.Targets
import Taraxacum.Http.Total
import Taraxacum.Http.Write
import Taraxacum.InfluxDB
import Taraxacum.InfluxDB.Wire
import Taraxacum.Json.Decode
import Taraxacum.Json.Encode
import Taraxacum.Json.Grammar
import Taraxacum.Json.Numeral
import Taraxacum.Json.Parser
import Taraxacum.Json.Strings
import Taraxacum.Json.Text
import Taraxacum.Json.Utf8
import Taraxacum.Memory
import Taraxacum.Program
import Taraxacum.Provider
import Taraxacum.Pstream.Buffer
import Taraxacum.Pstream.Capture
import Taraxacum.Pstream.Closing
import Taraxacum.Pstream.Deadlock
import Taraxacum.Pstream.Invariant
import Taraxacum.Pstream.Kernel
import Taraxacum.Pstream.Layout
import Taraxacum.Pstream.Ledger
import Taraxacum.Pstream.Lines
import Taraxacum.Pstream.Loops
import Taraxacum.Pstream.Opening
import Taraxacum.Pstream.Queues
import Taraxacum.Pstream.Reading
import Taraxacum.Pstream.Reopening
import Taraxacum.Pstream.Runs
import Taraxacum.Pstream.Stream
import Taraxacum.Pstream.System
import Taraxacum.Pstream.Termination
import Taraxacum.Pstream.Writing
import Taraxacum.Push
import Taraxacum.Push.Leads
import Taraxacum.Push.Letters
import Taraxacum.Push.Octets
import Taraxacum.Push.Safety
import Taraxacum.Rapidjson
import Taraxacum.Rapidjson.Reference
import Taraxacum.RestService
import Taraxacum.RestService.Acceptance
import Taraxacum.ServiceDiscovery.Consuld
import Taraxacum.ServiceDiscovery.FailedRound
import Taraxacum.ServiceDiscovery.Freshness
import Taraxacum.ServiceDiscovery.GetHttp
import Taraxacum.ServiceDiscovery.Wire
import Taraxacum.ShellCmd.Answer
import Taraxacum.ShellCmd.Encoder
import Taraxacum.ShellCmd.Handler
import Taraxacum.ShellCmd.Invocation
import Taraxacum.Tools.Arithmetic
import Taraxacum.Tools.Hexdump
import Taraxacum.Tools.Lossless
import Taraxacum.Transition
