import Rsurl.Base.Cut
import Rsurl.Base.Uri
import Rsurl.Base.Reference
import Rsurl.Base.Rounds
import Rsurl.Base.Bits
import Rsurl.Base.PrefixCode
import Rsurl.Base.Fifo
import Rsurl.Base.Table
import Rsurl.Base.Pool
import Rsurl.Base.PoolLedger
import Rsurl.Base.Program
import Rsurl.Base.Slots
import Rsurl.Base.Trace
import Rsurl.Base.Chunks
import Rsurl.Text
import Rsurl.Error
import Rsurl.Net
import Rsurl.Url
import Rsurl.Url.Parse
import Rsurl.Url.Authority
import Rsurl.Url.Resolve
import Rsurl.Url.Reference
import Rsurl.Http
import Rsurl.Compress
import Rsurl.Http.Write
import Rsurl.Http.Read
import Rsurl.Http.Chunked
import Rsurl.Http.Connect
import Rsurl.Http.Pools
import Rsurl.Http.Send
import Rsurl.Http.Effects
import Rsurl.Http.Isolation
import Rsurl.Http.ProxyLaw
import Rsurl.Http.Framing
import Rsurl.H3.Request
import Rsurl.Http.WellFormed
import Rsurl.Http.Versions
import Rsurl.Http.Redirect
import Rsurl.Http.FieldLines
import Rsurl.H2.Huffman
import Rsurl.H2.Hpack
import Rsurl.H2.Literal
import Rsurl.H2.HpackSync
import Rsurl.H2.Resize
import Rsurl.H2.HuffmanExact
import Rsurl.H2.HpackSpec
import Rsurl.H2.Conformance
import Rsurl.H2.Integer
import Rsurl.H2.EncoderSpec
import Rsurl.H2.Remote
import Rsurl.H2.Calls
import Rsurl.H2.Written
import Rsurl.H2.Staging
import Rsurl.H2.Frame
import Rsurl.H2.Connection
import Rsurl.H2.Step
import Rsurl.H2.States
import Rsurl.H2.Request
import Rsurl.H2.Driver
import Rsurl.H2.Run
import Rsurl.H2.Fragment
import Rsurl.H2.Sending
import Rsurl.H2.Outbound
import Rsurl.H2.Batch
import Rsurl.H2.Slots
import Rsurl.H2.Progress
import Rsurl.H2.Loop
import Rsurl.H2.Scope
import Rsurl.H2.Trace
import Rsurl.H2.TraceBatch
import Rsurl.H2.Interleave
import Rsurl.H2.Concurrency
import Rsurl.H2.Heard
import Rsurl.H2.HeardBatch
import Rsurl.H2.Goaway
import Rsurl.H2.HeaderFrames
import Rsurl.H2.Windows
import Rsurl.H2.Ledger
import Rsurl.H2.RecvLedger
import Rsurl.H2.Delivery
import Rsurl.H2.Pumping
import Rsurl.H2.Strand
import Rsurl.H2.StreamIds
import Rsurl.H2.Wedge
import Rsurl.Base.Incremental
import Rsurl.Base.Keyed
import Rsurl.Text.Fields
import Rsurl.Cookie.Date
import Rsurl.Cookie
import Rsurl.Cookie.Jar
import Rsurl.Cookie.Attributes
import Rsurl.Cookie.Scope
import Rsurl.Cookie.Path
import Rsurl.Cookie.Netscape
import Rsurl.Cookie.Written
import Rsurl.Tftp
import Rsurl.Tftp.Safety
import Rsurl.Tftp.Store
import Rsurl.Tftp.Upload
import Rsurl.Tftp.Limits
import Rsurl.H3.Qpack
import Rsurl.H3.Huffman
import Rsurl.H3.Response
import Rsurl.H3.Reassembly
import Rsurl.H3.Instruction
import Rsurl.H3.EncoderStream
import Rsurl.Message
import Rsurl.H3.Assembly
import Rsurl.H3.Accepted
import Rsurl.H3.FieldLine
import Rsurl.H3.InsertCount
import Rsurl.H3.QpackSpec
import Rsurl.H3.Conformance
import Rsurl.H3.Encoder
import Rsurl.H3.Integer
import Rsurl.Grammar
import Rsurl.Base.Ber
import Rsurl.Base.Twos
import Rsurl.Base.Base64
import Rsurl.Ldap
import Rsurl.Ldap.Request
import Rsurl.Ldap.Ldif
import Rsurl.Ldap.Elements
import Rsurl.Ldap.Print
import Rsurl.Ldap.Validity
import Rsurl.Mqtt
import Rsurl.Mqtt.Session
import Rsurl.Mqtt.Packet
import Rsurl.Transfer
import Rsurl.Base.Segments
import Rsurl.Socket
import Rsurl.Imap
import Rsurl.Imap.Literals
import Rsurl.Imap.Lines
import Rsurl.Imap.Collect
import Rsurl.Imap.Retrieve
import Rsurl.Imap.Starttls
import Rsurl.Text.Utf8
import Rsurl.Text.Percent
import Rsurl.Url.Components
import Rsurl.Rtsp
import Rsurl.Rtsp.Sync
import Rsurl.Ftp
import Rsurl.Ftp.Replies
import Rsurl.Ftp.Paths
import Rsurl.Pop3
import Rsurl.Pop3.Stuffing
import Rsurl.WebSocket
import Rsurl.WebSocket.Wire
import Rsurl.WebSocket.Unmask
import Rsurl.WebSocket.Reassembly
import Rsurl.WebSocket.Handshake
import Rsurl.Base.Framed
import Rsurl.Base.Checked
import Rsurl.Ldap.Encoders
import Rsurl.Cli.FormBody
import Rsurl.Cli.FormPart
import Rsurl.Cli.Multipart
import Rsurl.Cli.FormData
import Rsurl.Cli.FormEscape
import Rsurl.Http.LineReader
import Rsurl.H2.Bounds
import Rsurl.H3.Window
import Rsurl.Dict
import Rsurl.Dict.Response
import Rsurl.Dict.Answer
import Rsurl.Base.Dialogue
import Rsurl.Base.Element
import Rsurl.Duplex
import Rsurl.H2.Inbox
import Rsurl.H3.Sending
import Rsurl.H3.Session
import Rsurl.Http.KeepAlive
import Rsurl.Ldap.Conversation
import Rsurl.Pop3.Session
