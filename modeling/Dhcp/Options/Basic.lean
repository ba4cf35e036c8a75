import Dhcp.Options.Field

/-!
# Dhcp.Options.Basic

The options of a message: at most one for each code, in the order in which the
codes first came.  `insert` replaces the option of a code where it stands, or adds
it at the end.
-/

namespace Dhcp

/-- Replaces the option with the code of `f` where it stands, or adds `f` at the end. -/
def OptionField.insertInto (f : OptionField) : List OptionField → List OptionField
  | [] => [f]
  | g :: gs => if g.code = f.code then f :: gs else g :: f.insertInto gs

theorem OptionField.mem_codes_insertInto {f : OptionField} {fs : List OptionField} {c : UInt8} :
    c ∈ (f.insertInto fs).map code ↔ c = f.code ∨ c ∈ fs.map code := by
  induction fs with
  | nil => simp [insertInto]
  | cons g gs ih =>
    rw [insertInto]
    split <;> rename_i h
    · simp [h]
    · simp only [List.map_cons, List.mem_cons, ih]
      constructor <;> rintro (h | h | h) <;> simp [h]

theorem OptionField.nodup_insertInto {f : OptionField} {fs : List OptionField}
    (h : (fs.map code).Nodup) : ((f.insertInto fs).map code).Nodup := by
  induction fs with
  | nil => simp [insertInto]
  | cons g gs ih =>
    simp only [List.map_cons, List.nodup_cons] at h
    rw [insertInto]
    split <;> rename_i hc
    · rw [List.map_cons, List.nodup_cons, ← hc]
      exact h
    · simp only [List.map_cons, List.nodup_cons, mem_codes_insertInto, not_or]
      exact ⟨⟨hc, h.1⟩, ih h.2⟩

/-- The options of a message: at most one for each code. -/
structure Options where
  /-- The options in order. -/
  fields : List OptionField
  nodup : (fields.map OptionField.code).Nodup
deriving DecidableEq

namespace Options

@[ext] theorem ext {x y : Options} (h : x.fields = y.fields) : x = y := by
  cases x; cases y; simp_all

/-- No options. -/
def empty : Options := ⟨[], .nil⟩

instance : Inhabited Options := ⟨empty⟩

/-- Adds an option, in place of the one with its code if there is one. -/
def insert (os : Options) (f : OptionField) : Options :=
  ⟨f.insertInto os.fields, OptionField.nodup_insertInto os.nodup⟩

/-- Adds options one after the other. -/
def insertAll (os : Options) (fs : List OptionField) : Options := fs.foldl insert os

/-- The options that remain of a list when a later one replaces an earlier one of its code. -/
def ofList (fs : List OptionField) : Options := empty.insertAll fs

/-- The option with a code. -/
def get? (os : Options) (code : UInt8) : Option OptionField := os.fields.find? (·.code = code)

/-- Whether there is an option with a code. -/
def contains (os : Options) (code : UInt8) : Bool := (os.get? code).isSome

/-- The number of options. -/
def size (os : Options) : Nat := os.fields.length

/-- The codes of the options in order. -/
def codes (os : Options) : List UInt8 := os.fields.map (·.code)

/-! ## Values of a shape

Each of these answers for a code only if its option has the shape asked for. -/

/-- The address under a code. -/
def address? (os : Options) (code : UInt8) : Option Address := (os.get? code).bind (·.address?)

/-- The text under a code. -/
def text? (os : Options) (code : UInt8) : Option String := (os.get? code).bind (·.text?)

/-- The span under a code. -/
def span? (os : Options) (code : UInt8) : Option Span := (os.get? code).bind (·.span?)

/-- The raw octets under a code. -/
def raw? (os : Options) (code : UInt8) : Option Octets := (os.get? code).bind (·.raw?)

/-- The message type. -/
def kind? (os : Options) : Option Kind :=
  (os.get? OptionCode.messageType.octet).bind (·.kind?)

/-- The codes asked for. -/
def requestList? (os : Options) : Option Octets :=
  (os.get? OptionCode.requestList.octet).bind (·.requestList?)

end Options

end Dhcp
