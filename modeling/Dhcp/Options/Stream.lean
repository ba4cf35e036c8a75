import Dhcp.Options.Basic

/-!
# Dhcp.Options.Stream

The options as they stand in a packet: one after the other, ended by the End mark.
The reader skips padding between options and stops at the End mark; it refuses a
stream that begins with padding.
-/

namespace Dhcp.Options

/-- The options as they are sent, with the End mark. -/
def encode (os : Options) : Octets :=
  os.fields.flatMap (·.encode) ++ [OptionCode.endMark.octet]

/-- The length of the options as they are sent, told from the shape of each. -/
def encodedLength (os : Options) : Nat :=
  os.fields.foldr (fun f length => f.encodedLength + length) 1

theorem length_drop_lt (code length : UInt8) (rest : Octets) :
    (rest.drop length.toNat).length < (code :: length :: rest).length := by
  rw [List.length_drop, List.length_cons, List.length_cons]
  omega

/-- Reads options up to the End mark and adds them to those read before. -/
def decodeFrom (os : Options) (data : Octets) : Except DecodeError Options :=
  match data with
  | [] => .error .missingEnd
  | code :: rest =>
    if code = OptionCode.endMark.octet then .ok os
    else if code = OptionCode.pad.octet then decodeFrom os rest
    else
      match rest with
      | [] => .error (.optionOverrun code)
      | length :: rest =>
        if rest.length < length.toNat then .error (.optionOverrun code)
        else
          match OptionField.decode code (rest.take length.toNat) with
          | .error e => .error e
          | .ok f => decodeFrom (os.insert f) (rest.drop length.toNat)
termination_by data.length
decreasing_by
  · exact Nat.lt_succ_self rest.length
  · exact length_drop_lt code length rest

/-- Reads the options of a packet. -/
def decode (data : Octets) : Except DecodeError Options :=
  if data.head? = some OptionCode.pad.octet then .error .leadingPad else decodeFrom empty data

end Dhcp.Options
