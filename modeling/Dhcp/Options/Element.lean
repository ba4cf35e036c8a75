import Dhcp.Options.Stream

/-!
# Dhcp.Options.Element

The grammar of options in a packet.  A stream is made of elements, each of them a
single octet of padding or an option with its payload, and is ended by the End mark.
An element is well typed if its payload has the shape that its code asks for.
-/

namespace Dhcp.Options

/-- A piece of a stream of options. -/
inductive Element where
  | pad
  | option (code : UInt8) (payload : Octets)
deriving DecidableEq

namespace Element

/-- The octets of an element. -/
def octets : Element → Octets
  | pad => [OptionCode.pad.octet]
  | option code payload => code :: UInt8.ofNat payload.length :: payload

/-- Whether an element can stand in a stream: its code is neither padding nor the End mark, and
its length can be told in one octet. -/
def WellFormed : Element → Prop
  | pad => True
  | option code payload =>
    code ≠ OptionCode.pad.octet ∧ code ≠ OptionCode.endMark.octet ∧
      payload.length ≤ OptionField.maxPayload

instance (e : Element) : Decidable e.WellFormed := by
  cases e <;> unfold WellFormed <;> infer_instance

/-- The option that an element carries, if it carries one and its payload has the right
shape. -/
def field? : Element → Option OptionField
  | pad => none
  | option code payload => (OptionField.decode code payload).toOption

/-- Whether the payload of an element has the shape that its code asks for. -/
def WellTyped (e : Element) : Prop := e.WellFormed ∧ (e = pad ∨ e.field?.isSome)

instance (e : Element) : Decidable e.WellTyped := inferInstanceAs (Decidable (_ ∧ _))

/-- The element that carries an option. -/
def ofField (f : OptionField) : Element := option f.code f.payload

theorem octets_ofField (f : OptionField) : (ofField f).octets = f.encode := rfl

/-- Elements are not empty, so that a reader of one gets on. -/
theorem octets_ne_nil (e : Element) : e.octets ≠ [] := by
  cases e <;> simp [octets]

end Element

/-- The octets of a run of elements. -/
def octetsOf (es : List Element) : Octets := es.flatMap (·.octets)

/-- The options that a run of elements amounts to. -/
def ofElements (es : List Element) : Options := ofList (es.filterMap (·.field?))

end Dhcp.Options
