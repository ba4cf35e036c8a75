import Dhcp.Options.Basic

/-!
# Dhcp.Proofs.Options.Lookup

Options as a map from codes that keeps the order of its keys.  What is found under a code is the
option of that code (`Options.get?_eq_some`), and a value that is found by its shape is that of the
option under the code (`Options.bind_get?_eq_some`).  An insertion is seen under its own code only
(`Options.get?_insert`), and options whose codes are all new are added behind those that are
there, in their order (`Options.fields_insertAll`).
-/

namespace Dhcp

namespace OptionField

theorem find?_insertInto (f : OptionField) (fs : List OptionField) (c : UInt8) :
    (f.insertInto fs).find? (·.code = c) =
      if f.code = c then some f else fs.find? (·.code = c) := by
  induction fs with
  | nil => by_cases hc : f.code = c <;> simp [insertInto, hc]
  | cons g gs ih =>
      rw [insertInto]
      by_cases hg : g.code = f.code
      · -- `f` takes the place of `g`, which has the same code
        rw [if_pos hg, List.find?_cons, List.find?_cons, hg]
        by_cases hc : f.code = c <;> simp [hc]
      · rw [if_neg hg, List.find?_cons, List.find?_cons, ih]
        by_cases hgc : g.code = c
        · have hfc : ¬ f.code = c := fun h => hg (hgc.trans h.symm)
          simp [hgc, hfc]
        · simp [hgc]

/-- An option with a new code comes last. -/
theorem insertInto_eq_append {f : OptionField} {fs : List OptionField}
    (h : f.code ∉ fs.map code) : f.insertInto fs = fs ++ [f] := by
  induction fs with
  | nil => rfl
  | cons g gs ih =>
      rw [List.map_cons, List.mem_cons, not_or] at h
      rw [insertInto, if_neg (Ne.symm h.1), ih h.2, List.cons_append]

theorem mem_insertInto {f g : OptionField} {fs : List OptionField} (h : g ∈ f.insertInto fs) :
    g = f ∨ g ∈ fs := by
  induction fs with
  | nil => exact Or.inl (List.mem_singleton.1 h)
  | cons e es ih =>
      rw [insertInto] at h
      split at h <;> rw [List.mem_cons] at h
      · exact h.imp id (List.mem_cons_of_mem e)
      · obtain rfl | h := h
        · exact Or.inr List.mem_cons_self
        · exact (ih h).imp id (List.mem_cons_of_mem e)

end OptionField

namespace Options

@[simp] theorem get?_empty (c : UInt8) : empty.get? c = none := rfl

/-- **Insertion**: an option is found under its own code, and under every other code what was
there before. -/
@[simp] theorem get?_insert (os : Options) (f : OptionField) (c : UInt8) :
    (os.insert f).get? c = if f.code = c then some f else os.get? c :=
  f.find?_insertInto os.fields c

/-- Of inserted options the last one of a code is found under it. -/
theorem get?_insertAll (os : Options) (fs : List OptionField) (c : UInt8) :
    (os.insertAll fs).get? c = (fs.reverse.find? (·.code = c)).or (os.get? c) := by
  induction fs generalizing os with
  | nil => rfl
  | cons f fs ih =>
      change ((os.insert f).insertAll fs).get? c = _
      rw [ih, get?_insert, List.reverse_cons, List.find?_append, Option.or_assoc]
      by_cases hcode : f.code = c <;> simp [hcode]

/-- The option that is found under a code is the one of that code. -/
theorem get?_eq_some {os : Options} {c : UInt8} {f : OptionField} :
    os.get? c = some f ↔ f ∈ os.fields ∧ f.code = c := by
  constructor
  · intro h
    have hcode := List.find?_some h
    exact ⟨List.mem_of_find?_eq_some h, of_decide_eq_true hcode⟩
  · rintro ⟨hmem, rfl⟩
    obtain ⟨fields, hnodup⟩ := os
    change fields.find? (·.code = f.code) = some f
    change f ∈ fields at hmem
    induction fields with
    | nil => contradiction
    | cons g gs ih =>
        rw [List.map_cons, List.nodup_cons] at hnodup
        obtain rfl | hmem := List.mem_cons.1 hmem
        · rw [List.find?_cons_of_pos (by simp)]
        · have hne : g.code ≠ f.code := fun h => hnodup.1 (h ▸ List.mem_map_of_mem hmem)
          rw [List.find?_cons_of_neg (by simpa using hne)]
          exact ih hnodup.2 hmem

/-- An option is found under the codes that there are, and under no other. -/
theorem contains_iff {os : Options} {c : UInt8} : os.contains c ↔ c ∈ os.codes := by
  rw [contains, get?, List.find?_isSome, codes, List.mem_map]
  simp only [decide_eq_true_eq]

/-- No option is found but those that were there or were inserted. -/
theorem mem_fields_insertAll {os : Options} {f : OptionField} {fs : List OptionField}
    (h : f ∈ (os.insertAll fs).fields) : f ∈ os.fields ∨ f ∈ fs := by
  induction fs generalizing os with
  | nil => exact Or.inl h
  | cons g gs ih =>
      change f ∈ ((os.insert g).insertAll gs).fields at h
      obtain h | h := ih h
      · obtain rfl | h := OptionField.mem_insertInto h
        · exact Or.inr List.mem_cons_self
        · exact Or.inl h
      · exact Or.inr (List.mem_cons_of_mem g h)

theorem mem_fields_ofList {f : OptionField} {fs : List OptionField} (h : f ∈ (ofList fs).fields) :
    f ∈ fs :=
  (@mem_fields_insertAll empty f fs h).resolve_left List.not_mem_nil

/-- An option with a new code comes last. -/
theorem fields_insert {os : Options} {f : OptionField} (h : f.code ∉ os.codes) :
    (os.insert f).fields = os.fields ++ [f] :=
  OptionField.insertInto_eq_append h

theorem codes_insert {os : Options} {f : OptionField} (h : f.code ∉ os.codes) :
    (os.insert f).codes = os.codes ++ [f.code] := by
  rw [codes, fields_insert h, List.map_append, List.map_singleton]
  rfl

/-- Options with new codes, all of them different, come last and in their order. -/
theorem fields_insertAll {os : Options} {fs : List OptionField}
    (h : ((os.fields ++ fs).map (·.code)).Nodup) : (os.insertAll fs).fields = os.fields ++ fs := by
  induction fs generalizing os with
  | nil => rw [List.append_nil]; rfl
  | cons f fs ih =>
      have hnew : f.code ∉ os.codes := by
        rw [List.map_append, List.nodup_append] at h
        intro hmem
        exact h.2.2 _ hmem _ List.mem_cons_self rfl
      have hstep : (os.insert f).fields ++ fs = os.fields ++ f :: fs := by
        rw [fields_insert hnew, List.append_assoc, List.singleton_append]
      change ((os.insert f).insertAll fs).fields = _
      rw [ih (hstep ▸ h), hstep]

/-- Options with different codes are all kept, in their order. -/
theorem fields_ofList {fs : List OptionField} (h : (fs.map (·.code)).Nodup) :
    (ofList fs).fields = fs :=
  @fields_insertAll empty fs h

/-! ## Values of a shape -/

section
variable {os : Options} {c : UInt8}

/-- **What is found by its shape is the option under the code**, if that has the shape: `make`
gives a value the shape, and `value?` answers for options of the shape alone. -/
theorem bind_get?_eq_some {α : Type} {value? : OptionField → Option α}
    (make : UInt8 → α → OptionField) (hshape : ∀ f a, value? f = some a ↔ f = make f.code a)
    {a : α} : (os.get? c).bind value? = some a ↔ os.get? c = some (make c a) := by
  rw [Option.bind_eq_some_iff]
  constructor
  · rintro ⟨f, hget, hvalue⟩
    obtain ⟨-, rfl⟩ := get?_eq_some.1 hget
    rw [hget, ← (hshape f a).1 hvalue]
  · intro hget
    have hcode := (get?_eq_some.1 hget).2
    exact ⟨_, hget, (hshape _ a).2 (by rw [hcode])⟩

theorem address?_eq_some {a : Address} :
    os.address? c = some a ↔ os.get? c = some (.address c a) :=
  bind_get?_eq_some .address fun f a => by cases f <;> simp [OptionField.address?, OptionField.code]

theorem text?_eq_some {s : String} : os.text? c = some s ↔ os.get? c = some (.text c s) :=
  bind_get?_eq_some .text fun f s => by cases f <;> simp [OptionField.text?, OptionField.code]

theorem span?_eq_some {d : Span} : os.span? c = some d ↔ os.get? c = some (.span c d) :=
  bind_get?_eq_some .span fun f d => by cases f <;> simp [OptionField.span?, OptionField.code]

theorem raw?_eq_some {data : Octets} : os.raw? c = some data ↔ os.get? c = some (.raw c data) :=
  bind_get?_eq_some .raw fun f data => by cases f <;> simp [OptionField.raw?, OptionField.code]

theorem kind?_eq_some {k : Kind} : os.kind? = some k ↔ os.get? 53 = some (.kind k) :=
  bind_get?_eq_some (fun _ => .kind) fun f k => by cases f <;> simp [OptionField.kind?]

theorem requestList?_eq_some {codes : Octets} :
    os.requestList? = some codes ↔ os.get? 55 = some (.requestList codes) :=
  bind_get?_eq_some (fun _ => .requestList) fun f codes => by
    cases f <;> simp [OptionField.requestList?]

end

/-! ## Options under the same codes -/

/-- Options with the values of each changed, and its code kept. -/
def mapFields (os : Options) (g : OptionField → OptionField) (hg : ∀ f, (g f).code = f.code) :
    Options :=
  ⟨os.fields.map g, by simpa [Function.comp_def, hg] using os.nodup⟩

theorem codes_mapFields (os : Options) {g : OptionField → OptionField}
    (hg : ∀ f, (g f).code = f.code) : (os.mapFields g hg).codes = os.codes := by
  simp [codes, mapFields, Function.comp_def, hg]

theorem get?_mapFields (os : Options) {g : OptionField → OptionField}
    (hg : ∀ f, (g f).code = f.code) (c : UInt8) :
    (os.mapFields g hg).get? c = (os.get? c).map g := by
  simp only [get?, mapFields, List.find?_map, Function.comp_def, hg]

end Options

end Dhcp
