import Dhcp.Config.File
import Dhcp.Proofs.Config.RoundTrip
import Dhcp.Proofs.Text.Utf8

/-!
# Dhcp.Proofs.Config.Loading

Configurations in files.  A configuration that can be served is loaded from the file that it was
saved to (`load_of_save`), and saving it again writes the same octets.  Loading is also told step by
step, by what it does to the place that the path leads to (`loading_eq`): only where there is no
file is anything written, and whether or not a file is accepted it stays as it is (`loading_file`).
What was loaded once is loaded again (`load_of_load`).
-/

namespace Dhcp

/-- Text in UTF-8 is well-formed. -/
theorem Text.decodeChars?_utf8Chars (cs : List Char) : decodeChars? (utf8Chars cs) = some cs := by
  simp only [decodeChars?, decodeLossyChars_utf8Chars, if_true]

namespace Place

/-- A file that was made of a text holds it. -/
theorem read_file_utf8 (s : String) : read (.file (Text.utf8 s)) = .ok s := by
  rw [read, Text.utf8, Text.decodeChars?_utf8Chars]
  exact congrArg Except.ok (String.ofList_toList)

/-- A file can be made where there is one, and where there is nothing yet. -/
theorem write_eq_ok {s : String} {place after : Place} :
    place.write s = .ok after ↔
      (place = .vacant ∨ ∃ content, place = .file content) ∧ after = .file (Text.utf8 s) := by
  cases place <;> simp [write, eq_comm]

end Place

namespace Config

/-! ## What was saved -/

theorem valid_default : ({} : Config).Valid := by decide

theorem save_eq_ok {c : Config} {place after : Place} :
    c.save place = .ok after ↔
      (place = .vacant ∨ ∃ content, place = .file content) ∧
        after = .file (Text.utf8 c.render) := by
  rw [save, mapError_eq_ok, Place.write_eq_ok]

theorem ofText_render {c : Config} (h : c.Valid) : ofText c.render = .ok c := by
  rw [ofText, parse_render]
  change c.check.bind (fun _ => .ok c) = _
  rw [check_eq_ok.2 h]
  rfl

/-! ## Loading step by step -/

/-- Loads a configuration as `load` does.  The state is what the path leads to; a failure leaves it
as the steps before it have made it. -/
def loading : ExceptT Error (StateM Place) Config := do
  if (← get).exists? then
    let s ← (← get).read.mapError Error.disk
    ofText s
  else
    let c : Config := {}
    set (← c.save (← get))
    return c

/-- What a file is read as, whichever way it is loaded. -/
def ofFile (content : Octets) : Except Error Config :=
  ((Place.file content).read.mapError .disk).bind ofText

theorem ofFile_of_read {content : Octets} {s : String} (h : (Place.file content).read = .ok s) :
    ofFile content = ofText s := by
  rw [ofFile, h]
  rfl

/-- A file that is there is read, and left as it is. -/
theorem loading_file (content : Octets) :
    loading.run.run (.file content) = (ofFile content, .file content) := by
  change ((do
    let s ← (Place.file content).read.mapError Error.disk
    ofText s : ExceptT Error (StateM Place) Config)).run.run (.file content) = _
  rw [ofFile]
  cases (Place.file content).read <;> rfl

theorem load_file (content : Octets) :
    load (.file content) = (ofFile content).map fun c => (c, .file content) := by
  change ((Place.file content).read.mapError Error.disk).bind
    (fun s => (ofText s).bind fun c => .ok (c, Place.file content)) = _
  rw [ofFile]
  cases (Place.file content).read with
  | error e => rfl
  | ok s =>
      change (ofText s).bind _ = (ofText s).map _
      cases ofText s <;> rfl

/-- Where there is no file, one is made of the default configuration. -/
theorem load_vacant : load .vacant = .ok ({}, .file (Text.utf8 (render {}))) := rfl

/-- Loading step by step yields what `load` yields, and leaves the file that `load` tells.  A
failure leaves what was there. -/
theorem loading_eq (place : Place) :
    loading.run.run place =
      match load place with
      | .ok (c, after) => (.ok c, after)
      | .error e => (.error e, place) := by
  cases place with
  | file content =>
      rw [loading_file, load_file]
      cases ofFile content <;> rfl
  | vacant => rfl
  | directory => rfl
  | unreachable why => rfl

/-! ## What was loaded -/

/-- What was saved is read from its file, if it can be served. -/
theorem ofFile_render {c : Config} (h : c.Valid) : ofFile (Text.utf8 c.render) = .ok c := by
  rw [ofFile_of_read (Place.read_file_utf8 _), ofText_render h]

/-- **What was saved is loaded**, if it can be served. -/
theorem load_of_save {c : Config} (h : c.Valid) {place after : Place}
    (hsave : c.save place = .ok after) : load after = .ok (c, after) := by
  obtain ⟨-, rfl⟩ := save_eq_ok.1 hsave
  rw [load_file, ofFile_render h]
  rfl

/-- A configuration is loaded from the file that was there, or is the default one and a file is
made of it. -/
theorem load_eq_ok {c : Config} {place after : Place} :
    load place = .ok (c, after) ↔
      (∃ content, place = .file content ∧ ofFile content = .ok c ∧ after = place) ∨
        (place = .vacant ∧ c = {} ∧ after = .file (Text.utf8 (render {}))) := by
  cases place with
  | file content =>
      rw [load_file]
      cases h : ofFile content <;> simp [Except.map, h, eq_comm]
  | vacant => simp [load_vacant, eq_comm]
  | directory =>
      have hload : load .directory = .error (.disk .isDirectory) := rfl
      simp [hload]
  | unreachable why =>
      have hload : load (.unreachable why) = .error (.disk why) := rfl
      simp [hload]

/-- **What was loaded is loaded again**, from the file that was read or made. -/
theorem load_of_load {c : Config} {place after : Place} (h : load place = .ok (c, after)) :
    load after = .ok (c, after) := by
  obtain ⟨content, -, -, rfl⟩ | ⟨rfl, rfl, rfl⟩ := load_eq_ok.1 h
  · exact h
  · exact @load_of_save {} valid_default .vacant _ rfl

/-- What was saved is saved again as it is. -/
theorem save_of_save {c : Config} {place after : Place} (hsave : c.save place = .ok after) :
    c.save after = .ok after := by
  obtain ⟨-, rfl⟩ := save_eq_ok.1 hsave
  exact save_eq_ok.2 ⟨Or.inr ⟨_, rfl⟩, rfl⟩

/-- **Configuration files round-trip.**  A configuration that can be served is saved wherever a file
can be, is loaded from the file that was made, and is then saved as the same file.  Loading makes a
file only where there is none, of the default configuration; what was loaded is loaded again from
the file that was read or made; and loading step by step, which yields the same, leaves a file as it
is even if it is rejected. -/
theorem loads_as_saved :
    (∀ (c : Config) (place : Place), c.Valid →
      (place = .vacant ∨ ∃ content, place = .file content) →
        ∃ content, c.save place = .ok (.file content) ∧
          load (.file content) = .ok (c, .file content) ∧
          c.save (.file content) = .ok (.file content)) ∧
    load .vacant = .ok ({}, .file (Text.utf8 (render {}))) ∧
    (∀ (c : Config) (place after : Place), load place = .ok (c, after) →
      (∃ content, after = .file content ∧ ∀ old, place = .file old → content = old) ∧
        load after = .ok (c, after)) ∧
    (∀ place : Place, loading.run.run place =
      match load place with
      | .ok (c, after) => (.ok c, after)
      | .error e => (.error e, place)) ∧
    ∀ content : Octets, (loading.run.run (.file content)).2 = .file content := by
  refine ⟨fun c place hvalid hplace => ?_, load_vacant, fun c place after h => ⟨?_, load_of_load h⟩,
    loading_eq, fun content => congrArg Prod.snd (loading_file content)⟩
  · have hsave : c.save place = .ok (.file (Text.utf8 c.render)) := save_eq_ok.2 ⟨hplace, rfl⟩
    exact ⟨_, hsave, load_of_save hvalid hsave, save_of_save hsave⟩
  · obtain ⟨content, rfl, -, rfl⟩ | ⟨rfl, -, rfl⟩ := load_eq_ok.1 h
    · exact ⟨content, rfl, fun old hold => Place.file.inj hold⟩
    · exact ⟨_, rfl, fun old hold => nomatch hold⟩

end Config

end Dhcp
