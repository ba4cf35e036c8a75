import Dhcp.Octets
import Dhcp.Text.Hex

/-!
# Dhcp.Message.Hardware

Hardware addresses: at most sixteen octets, by which a client is known.
-/

namespace Dhcp

/-- The hardware address of a client, at most as long as its field in a packet. -/
structure HardwareAddress where
  octets : Octets
  length_le : octets.length ≤ 16
deriving DecidableEq

namespace HardwareAddress

@[ext] theorem ext {x y : HardwareAddress} (h : x.octets = y.octets) : x = y := by
  cases x; cases y; simp_all

/-- The hardware address that octets begin with, as many of them as fit. -/
def ofOctets (bs : Octets) : HardwareAddress :=
  ⟨bs.take 16, by simp only [List.length_take]; omega⟩

/-- The hardware address of an Ethernet device. -/
def ofEthernet (mac : Vector UInt8 6) : HardwareAddress := ⟨mac.toList, by simp⟩

/-- The hardware address of no octets. -/
def empty : HardwareAddress := ⟨[], by decide⟩

instance : Inhabited HardwareAddress := ⟨empty⟩

/-- The number of octets. -/
def length (h : HardwareAddress) : Nat := h.octets.length

/-- The field of sixteen octets that holds a hardware address, filled up with zeros. -/
def field (h : HardwareAddress) : Octets :=
  h.octets ++ List.replicate (16 - h.octets.length) 0

/-- A hardware address in pairs of digits joined by colons. -/
def text (h : HardwareAddress) : String := Text.colonHex h.octets

@[simp] theorem length_field (h : HardwareAddress) : h.field.length = 16 := by
  have := h.length_le
  simp only [field, List.length_append, List.length_replicate]
  omega

end HardwareAddress

end Dhcp
