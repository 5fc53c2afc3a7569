import Mux.Library.Transition
import Mux.Library.OrderedInsertion
import Mux.Library.SelfDelimiting
import Mux.Library.Outcome
import Mux.Library.Text
import Mux.Library.UnorderedMap
import Mux.Library.Regex
import Mux.Library.RegexSyntax
import Mux.Library.Coroutine
import Mux.Library.Periods
import Mux.Library.Calendar
import Mux.Library.BrokenDownTime
import Mux.Library.TimeFormat
import Mux.Library.PercentCoding
import Mux.Library.ByteWords
import Mux.Library.Numerals
import Mux.Library.RootedPath
import Mux.Http.Header
import Mux.Http.Status
import Mux.Http.Response
import Mux.Http.Cookies
import Mux.Http.Message
import Mux.Ada.CharacterSets
import Mux.Ada.Unicode
import Mux.Ada.Scheme
import Mux.Ada.Path
import Mux.Ada.Ipv4
import Mux.Ada.Ipv6
import Mux.Ada.Host
import Mux.Ada.Url
import Mux.Ada.Parser
import Mux.Ada.Canonical
import Mux.Ada.Utf8
import Mux.Ada.Punycode
import Mux.Ada.ToAscii
import Mux.Ada.RoundTrip
import Mux.Http.Request
import Mux.Http.FieldValues
import Mux.Http.HeaderCalls
import Mux.Http.HeaderLookup
import Mux.Http.Parsing
import Mux.Http.ParseFailure
import Mux.Http.UrlStage
import Mux.Http.Authority
import Mux.Http.CreateHttpResponse
import Mux.Socket.Kernel
import Mux.Socket.Syscalls
import Mux.Socket.ClientSocket
import Mux.Socket.Acceptance
import Mux.Socket.Lifecycle
import Mux.Socket.Server
import Mux.Socket.Consistency
import Mux.Socket.Holder
import Mux.Socket.Identity
import Mux.Socket.Registry
import Mux.Socket.ServerClose
import Mux.Programs.Kqueue
import Mux.Programs.WouldBlock
import Mux.Programs.StandAlone
import Mux.Http.EventLoop
import Mux.Http.ClosedOnce
import Mux.Http.SelectLoop
import Mux.Http.HeaderCodec
import Mux.Socket.AcceptOutcomes
import Mux.Socket.InterestFlags
import Mux.Socket.Entries
import Mux.Socket.Construction
import Mux.Http.Router
import Mux.Socket.PollerInterest
import Mux.Socket.ThreadPool
import Mux.Socket.Generator
import Mux.Socket.Readiness
import Mux.Socket.Epoll
import Mux.Socket.BackendAgreement
import Mux.Socket.IoUring
import Mux.Socket.KqueueSocket
import Mux.Socket.ReduceEvents
import Mux.Programs.Interleaved
import Mux.Programs.Dynamic
import Mux.Programs.Parameters
import Mux.Programs.FlatExpressions
import Mux.Programs.FlatTemplates
import Mux.Programs.TemplateLanguage
import Mux.Programs.Day
import Mux.Programs.DayText
