import Dhcp.Proofs.Options.Grammar
import Mathlib.Data.List.Basic

/-!
# Dhcp.Proofs.Options.Order

Options as a map that keeps the order in which its codes first came.  After any history of
insertions each code stands where it first came (`Options.codes_insertAll`) and holds the option
that was inserted last (`Options.get?_insertAll`); these two determine all that can be asked of the
options (`Options.isMapOf_ofList`), and how they are sent.  A history may begin with options that
were collected from a list, or read from a packet.

A single insertion changes the option of its code and leaves all others where they are
(`Options.fields_insert_eq`).
-/

namespace Dhcp

namespace OptionField

/-- The codes of a history of options, each where it first came. -/
def firstCodes (history : List OptionField) : List UInt8 := (history.map code).eraseDups

/-- The last option of a code in a history. -/
def last? (history : List OptionField) (c : UInt8) : Option OptionField :=
  history.reverse.find? (·.code = c)

/-- Options of other codes are not replaced. -/
theorem map_replace_of_not_mem {f : OptionField} {fs : List OptionField}
    (h : f.code ∉ fs.map code) : fs.map (fun g => if g.code = f.code then f else g) = fs := by
  have hkept : ∀ g ∈ fs, (if g.code = f.code then f else g) = id g := by
    intro g hg
    refine if_neg fun hcode => h ?_
    rw [← hcode]
    exact List.mem_map_of_mem hg
  rw [List.map_congr_left hkept, List.map_id]

/-- An option takes the place of the one with its code, and all others stay where they are. -/
theorem insertInto_eq_map {f : OptionField} {fs : List OptionField} (hnodup : (fs.map code).Nodup)
    (hmem : f.code ∈ fs.map code) :
    f.insertInto fs = fs.map fun g => if g.code = f.code then f else g := by
  induction fs with
  | nil => exact absurd hmem List.not_mem_nil
  | cons g gs ih =>
      rw [List.map_cons, List.nodup_cons] at hnodup
      rw [insertInto, List.map_cons]
      by_cases hg : g.code = f.code
      · -- no other option has the code, so that the rest is as it was
        rw [if_pos hg, if_pos hg, map_replace_of_not_mem (hg ▸ hnodup.1)]
      · have hmem' : f.code ∈ gs.map code :=
          (List.mem_cons.1 hmem).resolve_left fun h => hg h.symm
        rw [if_neg hg, if_neg hg, ih hnodup.2 hmem']

end OptionField

namespace Options

/-! ## A single insertion -/

/-- **An insertion changes one option**: the one of its code where it stands, if there is one; and
otherwise it adds an option at the end. -/
theorem fields_insert_eq (os : Options) (f : OptionField) :
    (os.insert f).fields =
      (os.fields.map fun g => if g.code = f.code then f else g) ++
        if f.code ∈ os.codes then [] else [f] := by
  by_cases hmem : f.code ∈ os.codes
  · rw [if_pos hmem, List.append_nil]
    exact OptionField.insertInto_eq_map os.nodup hmem
  · rw [if_neg hmem, OptionField.map_replace_of_not_mem hmem, fields_insert hmem]

theorem codes_insert_of_mem {os : Options} {f : OptionField} (h : f.code ∈ os.codes) :
    (os.insert f).codes = os.codes := by
  rw [codes, fields_insert_eq, if_pos h, List.append_nil, List.map_map]
  refine List.map_congr_left fun g _ => ?_
  dsimp only [Function.comp_apply]
  split
  · next hcode => exact hcode.symm
  · rfl

/-! ## Histories of insertions -/

/-- New codes come behind those that are there, each where it first comes. -/
theorem codes_insertAll (os : Options) (fs : List OptionField) :
    (os.insertAll fs).codes =
      os.codes ++ ((fs.map OptionField.code).removeAll os.codes).eraseDups := by
  induction fs generalizing os with
  | nil => exact (List.append_nil _).symm
  | cons f fs ih =>
      change ((os.insert f).insertAll fs).codes = _
      rw [ih, List.map_cons]
      by_cases hmem : f.code ∈ os.codes
      · have hskip : (f.code :: fs.map OptionField.code).removeAll os.codes =
            (fs.map OptionField.code).removeAll os.codes := by
          simp [List.removeAll, hmem]
        rw [codes_insert_of_mem hmem, hskip]
      · have hnew : (f.code :: fs.map OptionField.code).removeAll os.codes =
            f.code :: (fs.map OptionField.code).removeAll os.codes := by
          simp [List.removeAll, hmem]
        -- a code that has come is as one that was there from the start
        have hrest : (fs.map OptionField.code).removeAll (os.codes ++ [f.code]) =
            ((fs.map OptionField.code).removeAll os.codes).filter (fun c => !c == f.code) := by
          simp only [List.removeAll, List.filter_filter]
          exact List.filter_congr fun c _ => by
            simp [Bool.beq_eq_decide_eq, Bool.and_comm]
        rw [codes_insert hmem, hnew, hrest, List.eraseDups_cons, List.append_assoc,
          List.singleton_append]

theorem codes_ofList (fs : List OptionField) : (ofList fs).codes = OptionField.firstCodes fs := by
  have hall : (fs.map OptionField.code).removeAll empty.codes = fs.map OptionField.code := by
    simp [List.removeAll, codes, empty]
  rw [ofList, codes_insertAll, hall]
  rfl

theorem get?_ofList (fs : List OptionField) (c : UInt8) :
    (ofList fs).get? c = OptionField.last? fs c := by
  rw [ofList, get?_insertAll, get?_empty, Option.or_none, OptionField.last?]

/-- Options are those that are found under their codes, in the order of these. -/
theorem fields_eq_filterMap (os : Options) : os.fields = os.codes.filterMap os.get? := by
  have hfound : ∀ f ∈ os.fields, (os.get? ∘ OptionField.code) f = some f :=
    fun f hf => get?_eq_some.2 ⟨hf, rfl⟩
  rw [codes, List.filterMap_map]
  calc os.fields = os.fields.filterMap some := List.filterMap_some.symm
    _ = os.fields.filterMap (os.get? ∘ OptionField.code) :=
      List.filterMap_congr fun f hf => (hfound f hf).symm

/-! ## The map -/

/-- Whether options are what a history of insertions leaves: the last option of each code, in the
order in which the codes first came. -/
structure IsMapOf (os : Options) (history : List OptionField) : Prop where
  nodup : os.codes.Nodup
  codes : os.codes = OptionField.firstCodes history
  fields : os.fields =
    (OptionField.firstCodes history).filterMap (OptionField.last? history)
  size : os.size = (OptionField.firstCodes history).length
  get? : ∀ c, os.get? c = OptionField.last? history c
  contains : ∀ c, os.contains c ↔ ∃ f ∈ history, f.code = c
  address? : ∀ c a, os.address? c = some a ↔ OptionField.last? history c = some (.address c a)
  text? : ∀ c s, os.text? c = some s ↔ OptionField.last? history c = some (.text c s)
  span? : ∀ c d, os.span? c = some d ↔ OptionField.last? history c = some (.span c d)
  raw? : ∀ c data, os.raw? c = some data ↔ OptionField.last? history c = some (.raw c data)
  kind? : ∀ k, os.kind? = some k ↔ OptionField.last? history 53 = some (.kind k)
  requestList? : ∀ codes,
    os.requestList? = some codes ↔ OptionField.last? history 55 = some (.requestList codes)
  encode : os.encode =
    ((OptionField.firstCodes history).filterMap (OptionField.last? history)).flatMap (·.encode) ++
      [255]

theorem mem_firstCodes {history : List OptionField} {c : UInt8} :
    c ∈ OptionField.firstCodes history ↔ ∃ f ∈ history, f.code = c := by
  rw [OptionField.firstCodes, List.mem_eraseDups, List.mem_map]

/-- **Options are the map of their history.** -/
theorem isMapOf_ofList (history : List OptionField) : (ofList history).IsMapOf history := by
  have hcodes := codes_ofList history
  have hget := get?_ofList history
  have hfields : (ofList history).fields =
      (OptionField.firstCodes history).filterMap (OptionField.last? history) := by
    rw [fields_eq_filterMap, hcodes]
    exact List.filterMap_congr fun c _ => hget c
  exact {
    nodup := (ofList history).nodup
    codes := hcodes
    fields := hfields
    size := by rw [← hcodes, Options.codes, List.length_map]; rfl
    get? := hget
    contains := fun c => by rw [contains_iff, hcodes, mem_firstCodes]
    address? := fun c a => hget c ▸ address?_eq_some
    text? := fun c s => hget c ▸ text?_eq_some
    span? := fun c d => hget c ▸ span?_eq_some
    raw? := fun c data => hget c ▸ raw?_eq_some
    kind? := fun k => hget 53 ▸ kind?_eq_some
    requestList? := fun codes => hget 55 ▸ requestList?_eq_some
    encode := by rw [← hfields]; rfl }

/-- Options that were collected, and then others, are collected together. -/
theorem insertAll_ofList (gs fs : List OptionField) :
    (ofList gs).insertAll fs = ofList (gs ++ fs) :=
  (insertAll_append empty gs fs).symm

/-- **Options are a map that keeps the order of insertion.**  Whether they begin with none, with
those collected from a list or with those read from a packet, after any further insertions they are
the map of all that was inserted up to then.  A single insertion is seen under its own code only:
all other options stay where they are, and an option with a new code comes last. -/
theorem insertAll_isMapOf (fs : List OptionField) :
    (empty.insertAll fs).IsMapOf fs ∧
    (∀ gs, ((ofList gs).insertAll fs).IsMapOf (gs ++ fs)) ∧
    (∀ data os, decode data = .ok os →
      ∃ es tail, Split data es (OptionCode.endMark.octet :: tail) ∧
        (os.insertAll fs).IsMapOf (es.filterMap (·.field?) ++ fs)) ∧
    ∀ (os : Options) (f : OptionField),
      (os.insert f).fields =
        (os.fields.map fun g => if g.code = f.code then f else g) ++
          (if f.code ∈ os.codes then [] else [f]) ∧
      ∀ c, c ≠ f.code → (os.insert f).get? c = os.get? c := by
  have hcollected : ∀ gs, ((ofList gs).insertAll fs).IsMapOf (gs ++ fs) := by
    intro gs
    rw [insertAll_ofList]
    exact isMapOf_ofList (gs ++ fs)
  refine ⟨isMapOf_ofList fs, hcollected, ?_, ?_⟩
  · intro data os hdecode
    obtain ⟨-, es, tail, hsplit, rfl⟩ := decode_eq_ok.1 hdecode
    exact ⟨es, tail, hsplit, hcollected _⟩
  · intro os f
    refine ⟨os.fields_insert_eq f, fun c hc => ?_⟩
    rw [get?_insert, if_neg hc.symm]

/-- The second option of code 12 is found under it, where the first stood. -/
example :
    let os := ofList [.hostName "a", .kind .discover, .raw 12 [1]]
    os.fields = [.raw 12 [1], .kind .discover] ∧ os.text? 12 = none := by decide

end Options

end Dhcp
