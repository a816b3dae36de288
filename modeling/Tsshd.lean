import Tsshd.Core.TSys
import Tsshd.Core.Cut
import Tsshd.Output.Forwarder
import Tsshd.Output.Tmux
import Tsshd.Output.Machine
import Tsshd.Output.Cache
import Tsshd.Output.Balance
import Tsshd.Output.Flow
import Tsshd.Output.Cells
import Tsshd.Output.Conservation
import Tsshd.Output.Place
import Tsshd.Output.Marker
import Tsshd.Output.MarkerOwner
import Tsshd.Output.Wakeup
import Tsshd.Output.Discards
import Tsshd.Output.KeepPending
import Tsshd.Output.Token
import Tsshd.Output.Lines
import Tsshd.Output.Handed
import Tsshd.Output.NewLine
import Tsshd.Output.Pacer
import Tsshd.Attach.Ownership
import Tsshd.Attach.Stream
import Tsshd.Attach.Accounts
import Tsshd.Attach.ExactlyOnce
import Tsshd.Core.Routines
import Tsshd.Attach.Replace
import Tsshd.Core.Digits
import Tsshd.Input.Discard
import Tsshd.Input.MarkerIndex
import Tsshd.Input.Agreement
import Tsshd.Input.Blocks
import Tsshd.Input.Typed
import Tsshd.Server.Handshake
import Tsshd.Server.Streams
import Tsshd.Rekey.Machine
import Tsshd.Rekey.Rotation
import Tsshd.Rekey.Trigger
import Tsshd.Rekey.Packet
import Tsshd.Core.Threads
import Tsshd.Proxy.State
import Tsshd.Proxy.Server
import Tsshd.Proxy.Contracts
import Tsshd.Proxy.Sealing
import Tsshd.Proxy.Replay
import Tsshd.Proxy.Transport
import Tsshd.Proxy.Cleanup
import Tsshd.Proxy.Newest
import Tsshd.Proxy.ClientPath
import Tsshd.Core.Blocks
import Tsshd.Proxy.Index
import Tsshd.Proxy.Attached
import Tsshd.Core.Bytes
import Tsshd.Bus.Wire
import Tsshd.Bus.Dispatch
import Tsshd.Proxy.Packet
import Tsshd.Proxy.Framing
import Tsshd.Proxy.Demux
import Tsshd.Alive.Timeout
import Tsshd.Client.Registry
import Tsshd.Client.KeepAlive
import Tsshd.Client.Reconnect
import Tsshd.Forward.Channels
import Tsshd.Forward.Setup
import Tsshd.Forward.Accept
import Tsshd.Core.Search
import Tsshd.Core.Slice
import Tsshd.Input.Takeover
import Tsshd.Client.Output
import Tsshd.Core.Words
import Tsshd.Core.GoString
import Tsshd.Core.Worklist
import Tsshd.Process.Descendants
import Tsshd.Service.Ports
import Tsshd.Core.Regexp
import Tsshd.Config.Wildcard
import Tsshd.Config.Match
import Tsshd.Config.Spelling
import Tsshd.Config.KeyValue
import Tsshd.Config.Load
import Tsshd.Session.Environ
import Tsshd.Proxy.Follow
