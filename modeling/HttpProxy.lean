import HttpProxy.Bytes.Basic
import HttpProxy.Bytes.CLib
import HttpProxy.Data.Fifo
import HttpProxy.Data.OrdMap
import HttpProxy.Data.Assoc
import HttpProxy.Control.Outcome
import HttpProxy.Control.Proc
import HttpProxy.Control.System
import HttpProxy.Control.Loop
import HttpProxy.Control.Pulse
import HttpProxy.Stream.Socket
import HttpProxy.Stream.FastStream
import HttpProxy.Stream.Blocks
import HttpProxy.Stream.Queue
import HttpProxy.Stream.Sink
import HttpProxy.Stream.Iovs
import HttpProxy.Stream.Ssl
import HttpProxy.Body.Reader
import HttpProxy.Body.Decode
import HttpProxy.Body.Grammar
import HttpProxy.Body.Soundness
import HttpProxy.Body.Completeness
import HttpProxy.Body.Fixed
import HttpProxy.Body.Progress
import HttpProxy.Body.Transport
import HttpProxy.Body.Dry
import HttpProxy.Body.Retry
import HttpProxy.Parser.Basic
import HttpProxy.Parser.Step
import HttpProxy.Parser.Execute
import HttpProxy.Parser.Phase
import HttpProxy.Parser.Names
import HttpProxy.Message.Header
import HttpProxy.Message.Spelling
import HttpProxy.Message.Head
import HttpProxy.Message.Status
import HttpProxy.Message.Uri
import HttpProxy.Message.Escape
import HttpProxy.Message.Query
import HttpProxy.Message.Items
import HttpProxy.Message.Message
import HttpProxy.Message.Parser
import HttpProxy.Message.Collect
import HttpProxy.Message.Section
import HttpProxy.Message.Tail
import HttpProxy.Message.Loop
import HttpProxy.Message.Boundary
import HttpProxy.Message.Splits
import HttpProxy.Message.Fields
import HttpProxy.Message.Framing
import HttpProxy.Message.Agreement
import HttpProxy.Message.Cookies
import HttpProxy.Message.Pipeline
import HttpProxy.Message.Trailer
import HttpProxy.Message.Isolation
import HttpProxy.Message.Taken
import HttpProxy.Message.Sent
import HttpProxy.Message.Transport
import HttpProxy.Message.Writer
import HttpProxy.Message.Wire
import HttpProxy.Message.Alike
import HttpProxy.Message.Writev
import HttpProxy.Message.Frozen
import HttpProxy.Message.Replies
import HttpProxy.Message.Target
import HttpProxy.Message.Again
import HttpProxy.Message.QueryMark
import HttpProxy.Message.Positions
import HttpProxy.Message.UrlParts
import HttpProxy.Message.Reassembly
import HttpProxy.Message.Mux
import HttpProxy.Message.Vhosts
import HttpProxy.Message.Replace
import HttpProxy.Message.Lines
import HttpProxy.Message.StartLines
import HttpProxy.Message.Restored
import HttpProxy.Message.ReadBack
import HttpProxy.App.Policy
import HttpProxy.App.Relay
import HttpProxy.App.Proxy
import HttpProxy.App.Turn
import HttpProxy.App.Bodies
import HttpProxy.App.Classify
import HttpProxy.App.Truncation
import HttpProxy.App.Delivery
import HttpProxy.App.Destination
import HttpProxy.App.Exchange
import HttpProxy.App.HttpConn
import HttpProxy.App.Manager
import HttpProxy.App.Pairing
import HttpProxy.App.Responses
import HttpProxy.App.Tunnel
import HttpProxy.App.TunnelWrites
import HttpProxy.App.CircuitBreaker
import HttpProxy.App.Coroutine
import HttpProxy.App.WaitGroup
import HttpProxy.App.AsyncCall
import HttpProxy.App.HttpClient
import HttpProxy.App.FastTimer
import HttpProxy.App.Accept
import HttpProxy.App.AccessLog
import HttpProxy.Config.Token
import HttpProxy.Config.Lexical
import HttpProxy.Config.Parse
import HttpProxy.Config.Transform
import HttpProxy.Config.Legacy
import HttpProxy.Config.Reload
import HttpProxy.Config.Equals
import HttpProxy.Config.Idempotent
import HttpProxy.Config.Include
import HttpProxy.Config.Inclusion
import HttpProxy.Config.Write
import HttpProxy.Config.Options
import HttpProxy.Json.Value
import HttpProxy.Json.Tree
import HttpProxy.Json.Grammar
import HttpProxy.Json.Dumps
import HttpProxy.Json.Parser
import HttpProxy.Json.Modes
import HttpProxy.Json.Counting
import HttpProxy.Json.Totals
import HttpProxy.Json.Filling
import HttpProxy.Json.Passes
import HttpProxy.App.Api
import HttpProxy.App.PolicyFile
