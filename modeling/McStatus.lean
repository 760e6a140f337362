import McStatus.Library.Loop
import McStatus.Library.Text
import McStatus.Rust.Basic
import McStatus.Rust.Query.Impl
import McStatus.Library.Logged
import McStatus.Python.Basic
import McStatus.Python.Forge.Impl
import McStatus.Python.Forge.Packing
import McStatus.Python.Forge.RoundTrip
import McStatus.Python.Forge.Truncated
import McStatus.Python.Query.Impl
import McStatus.Python.Query.RoundTrip
import McStatus.Rust.Query.Lemmas.Cursor
import McStatus.Rust.Query.Lemmas.KeyValue
import McStatus.Rust.Query.Players
import McStatus.Rust.Query.RoundTrip
import McStatus.Library.Display
import McStatus.Library.Removal
import McStatus.Library.Sweep
import McStatus.Python.Json
import McStatus.Python.Motd.Components
import McStatus.Python.Motd.Events
import McStatus.Python.Motd.Inheritance
import McStatus.Python.Motd.Simplify
import McStatus.Python.Motd.SimplifySound
import McStatus.Rust.Json
import McStatus.Rust.Motd.Components
import McStatus.Rust.Motd.Events
import McStatus.Rust.Motd.Inheritance
import McStatus.Rust.Motd.Simplify
import McStatus.Rust.Motd.SimplifySound
import McStatus.Library.Html
import McStatus.Python.Io.RoundTrip
import McStatus.Python.Motd.Html
import McStatus.Python.Motd.Motd
import McStatus.Python.Motd.Rendering
import McStatus.Rust.Io.Basic
import McStatus.Rust.Io.Buffer
import McStatus.Rust.Io.Impl
import McStatus.Rust.Io.Lemmas.Read
import McStatus.Rust.Io.Lemmas.TwosComplement
import McStatus.Rust.Io.Lemmas.Write
import McStatus.Rust.Io.RoundTrip
import McStatus.Rust.Java.Impl
import McStatus.Rust.Java.Varint
import McStatus.Rust.Motd.Html
import McStatus.Rust.Motd.NormalForm
import McStatus.Rust.Forge.Disagreement
import McStatus.Library.Attempts
import McStatus.Library.Grammar
import McStatus.Library.Look
import McStatus.Library.Numeral
import McStatus.Library.Runs
import McStatus.Library.Terminal
import McStatus.Library.Utf8Lossy
import McStatus.Python.Io.Connection
import McStatus.Python.Io.Lemmas.Record
import McStatus.Python.Java.Client
import McStatus.Python.Java.Link
import McStatus.Python.Java.Ping
import McStatus.Python.Motd.Locality
import McStatus.Python.Motd.Looks
import McStatus.Python.Motd.Pieces
import McStatus.Rust.Connection
import McStatus.Rust.Forge.Bytewise
import McStatus.Rust.Forge.Layout
import McStatus.Rust.Motd.Legacy
import McStatus.Rust.Motd.LegacyRoundTrip
import McStatus.Rust.Motd.Looks
import McStatus.Rust.Motd.Motd
import McStatus.Rust.Motd.ParserAgreement
import McStatus.Rust.Motd.WebColor
import McStatus.Rust.Query.Client
import McStatus.Rust.Response.Description
import McStatus.Rust.Response.ForgeMods
import McStatus.Library.Machine
import McStatus.Library.Mirror
import McStatus.Library.Split
import McStatus.Python.Io.Fifo
import McStatus.Python.Io.Segments
import McStatus.Python.Io.StructRoundTrip
import McStatus.Python.Motd.RemovalLoop
import McStatus.Python.Motd.SquashOrder
import McStatus.Rust.Address
import McStatus.Rust.Dns
import McStatus.Rust.Io.StructFormat
import McStatus.Rust.Io.StructRoundTrip
import McStatus.Rust.Io.UtfLimit
import McStatus.Rust.Motd.ColorSafety
import McStatus.Rust.Motd.PassesSound
import McStatus.Rust.Server
import McStatus.Rust.Io.TwosComplement
import McStatus.Library.Aligned
import McStatus.Python.Motd.Edition
import McStatus.Python.Forge.JsonMods
import McStatus.Rust.Io.AtomicReads
import McStatus.Rust.Decimal
import McStatus.Rust.AddressDisplay
import McStatus.Query.Plugins
import McStatus.Python.Query.Software
import McStatus.Rust.Query.Software
import McStatus.Library.Utf16
import McStatus.Rust.Legacy.Impl
import McStatus.Rust.Legacy.RoundTrip
import McStatus.Bedrock.Agreement
import McStatus.Python.Forge.PushBack
import McStatus.Java.Server
import McStatus.Rust.Java.Exchange
import McStatus.Rust.Java.Tries
import McStatus.Java.Agreement
import McStatus.Legacy.Exchange
import McStatus.Library.Datagrams
import McStatus.Python.Query.Client
import McStatus.Python.Query.Exchange
import McStatus.Python.Query.Told
import McStatus.Query.Exchange
