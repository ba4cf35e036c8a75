import Dhcp.Config.Text
import Dhcp.Error

/-!
# Dhcp.Config.File

The file that holds the configuration.  A file that is there is read and never
changed; where there is none, one is made of the default configuration.
-/

namespace Dhcp.Config

/-- Accepts a configuration that can be served. -/
def check (c : Config) : Except Error Unit :=
  match c.flaw? with
  | some flaw => .error (.config flaw)
  | none => .ok ()

theorem check_eq_ok {c : Config} : c.check = .ok () ↔ c.Valid := by
  unfold check Valid
  cases c.flaw? <;> simp

/-- Writes a configuration to its file. -/
def save (c : Config) (place : Place) : Except Error Place :=
  (place.write c.render).mapError .disk

/-- Reads a configuration from the text of its file and checks it. -/
def ofText (s : String) : Except Error Config := do
  let c ← (parse s).mapError .json
  c.check
  return c

/-- Reads the configuration from its file, or makes the file.  Yields what the path leads to
afterwards. -/
def load (place : Place) : Except Error (Config × Place) :=
  if place.exists? then do
    let s ← place.read.mapError .disk
    return (← ofText s, place)
  else do
    let c : Config := {}
    return (c, ← c.save place)

end Dhcp.Config
