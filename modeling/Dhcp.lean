import Dhcp.Octets
import Dhcp.Text.Utf8
import Dhcp.Text.Hex
import Dhcp.Address
import Dhcp.Time
import Dhcp.DecodeError
import Dhcp.Wire
import Dhcp.Options.Code
import Dhcp.Options.Field
import Dhcp.Options.Basic
import Dhcp.Options.Stream
import Dhcp.Options.Element
import Dhcp.Message.Kind
import Dhcp.Message.Hardware
import Dhcp.Message.Basic
import Dhcp.Message.Packet
import Dhcp.Reply
import Dhcp.Lease.Basic
import Dhcp.Lease.Pool
import Dhcp.Journal
import Dhcp.Json.Number
import Dhcp.Json.Reader
import Dhcp.Json.Skip
import Dhcp.Json.Length
import Dhcp.Json.Writer
import Dhcp.Config.Basic
import Dhcp.Config.Field
import Dhcp.Config.Text
import Dhcp.Config.File
import Dhcp.Disk
import Dhcp.Error
import Dhcp.Exchange
import Dhcp.History
import Dhcp.Server.Basic
import Dhcp.Server.Run
import Dhcp.CommandLine
import Dhcp.Main
import Dhcp.Proofs.Expiry
import Dhcp.Proofs.Saturation
import Dhcp.Proofs.Options.Lookup
import Dhcp.Proofs.Reply.Contents
import Dhcp.Proofs.Reply.Layout
import Dhcp.Proofs.Lease.Demand
import Dhcp.Proofs.Lease.Granted
import Dhcp.Proofs.Lease.Change
import Dhcp.Proofs.Lease.Invariant
import Dhcp.Proofs.Lease.Found
import Dhcp.Proofs.Reply.Answers
import Dhcp.Proofs.Lease.Listing
import Dhcp.Proofs.Lease.Reservation
import Dhcp.Proofs.Lease.Ownership
import Dhcp.Proofs.Lease.Promise
import Dhcp.Proofs.Message.RoundTrip
import Dhcp.Proofs.Reading
import Dhcp.Proofs.Options.Grammar
import Dhcp.Proofs.Options.Cursor
import Dhcp.Proofs.Message.Header
import Dhcp.Proofs.Message.Bounds
import Dhcp.Proofs.Text.Utf8
import Dhcp.Proofs.Text.Decimal
import Dhcp.Proofs.Json.RoundTrip
import Dhcp.Proofs.Options.Canonical
import Dhcp.Proofs.Options.Order
import Dhcp.Proofs.Message.Canonical
import Dhcp.Proofs.Message.Length
import Dhcp.Proofs.Message.Settle
import Dhcp.Proofs.Reply.Received
import Dhcp.Proofs.Reply.Carried
import Dhcp.Proofs.Lease.Lasting
import Dhcp.Proofs.Lease.Unchanged
import Dhcp.Proofs.Lease.Maximum
import Dhcp.Proofs.Lease.Open
import Dhcp.Proofs.Lease.Target
import Dhcp.Proofs.Lease.Count
import Dhcp.Proofs.Lease.Sweep
import Dhcp.Proofs.Reply.Failed
import Dhcp.Proofs.Reply.Decided
import Dhcp.Proofs.Reply.Offered
import Dhcp.Proofs.Reply.Order
import Dhcp.Proofs.Reply.Agreement
import Dhcp.Proofs.Server.Handling
import Dhcp.Proofs.Server.Running
import Dhcp.Proofs.Server.LeavingOut
import Dhcp.Proofs.Server.Maximum
import Dhcp.Proofs.Server.Decisions
import Dhcp.Proofs.Server.Offers
import Dhcp.Proofs.Server.Noninterference
import Dhcp.Proofs.Server.CutOff
import Dhcp.Proofs.Config.RoundTrip
import Dhcp.Proofs.Config.Loading
