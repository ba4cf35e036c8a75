import Dhcp.Message.Basic

/-!
# Dhcp.Reply

The replies of a server: OFFER, ACK and NAK.  A reply takes over what identifies
the request, names the server, and carries the subnet mask and the times of the
lease unless it is a NAK or answers an INFORM.  Further options may be added where
`allows` admits their code; they never replace an option of the reply's own.
-/

namespace Dhcp

/-- Whether a further option with a code may stand in a reply of type `reply` to a
message of type `request`. -/
def Reply.allows (request : Option Kind) (reply : Kind) (code : UInt8) : Bool :=
  match OptionCode.ofOctet? code with
  | some .classId | some .messageType | some .serverIdentifier => true
  | some .clientId => reply = .nak
  | some .leaseTime => reply ≠ .nak ∧ request ≠ some .inform
  | some .maxMessageSize | some .requestList | some .requestedAddress => false
  | _ => reply ≠ .nak

/-- Why a reply cannot be made: the lease would not last a second. -/
inductive ReplyError where
  | zeroLease
deriving DecidableEq

/-- Who replies: the address of a server and the mask of its subnet. -/
structure Responder where
  address : Address
  mask : Address
deriving DecidableEq

namespace Responder

/-- The times of a lease of a whole number of seconds: its length, half of it, and seven
eighths of it, when the client is to ask for an extension. -/
def leaseTimes (seconds : UInt32) : List OptionField :=
  [ .leaseTime (.ofWord seconds)
  , .renewalTime (.ofWord (seconds / 2))
  , .rebindingTime (.ofSeconds (seconds.toUInt64 * 7 / 8)) ]

/-- The options that a reply has of its own. -/
def ownOptions (self : Responder) (request : Option Kind) (reply : Kind) (term : Span) :
    Except ReplyError (List OptionField) :=
  let named := [.kind reply, .serverIdentifier self.address]
  if reply = .nak then .ok named
  else if request = some .inform then .ok (named ++ [.subnetMask self.mask])
  else if term.word = 0 then .error .zeroLease
  else .ok (named ++ .subnetMask self.mask :: leaseTimes term.word)

/-- Adds those of the further options whose codes are new and allowed. -/
def addExtras (request : Option Kind) (reply : Kind) (own : Options)
    (extras : List OptionField) : Options :=
  extras.foldl (fun options f =>
    if options.contains f.code ∨ ¬ Reply.allows request reply f.code then options
    else options.insert f) own

/-- A reply of type `reply` that gives the address `yiaddr` for a time. -/
def reply (self : Responder) (request : Message) (reply : Kind) (yiaddr : Address) (term : Span)
    (extras : List OptionField) : Except ReplyError Message :=
  (self.ownOptions request.kind? reply term).map fun own => {
    op := .reply
    htype := request.htype
    hops := 0
    xid := request.xid
    secs := 0
    flags := request.flags
    ciaddr := .unspecified
    yiaddr
    siaddr := .unspecified
    giaddr := request.giaddr
    hw := request.hw
    options := addExtras request.kind? reply (.ofList own) extras
  }

/-- Offers an address for a time. -/
def offer (self : Responder) (request : Message) (a : Address) (term : Span)
    (extras : List OptionField) : Except ReplyError Message :=
  self.reply request .offer a term extras

/-- Grants an address for a time. -/
def ack (self : Responder) (request : Message) (a : Address) (term : Span)
    (extras : List OptionField) : Except ReplyError Message :=
  self.reply request .ack a term extras

/-- Refuses what a client asks for. -/
def nak (self : Responder) (request : Message) (extras : List OptionField) :
    Except ReplyError Message :=
  self.reply request .nak .unspecified .zero extras

end Responder

end Dhcp
