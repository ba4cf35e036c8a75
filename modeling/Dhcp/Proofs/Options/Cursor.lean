import Dhcp.Proofs.Options.Grammar
import Dhcp.Proofs.Wire

/-!
# Dhcp.Proofs.Options.Cursor

Options read by index.  A reader that keeps an index into the octets, and takes one octet or a
range of them at a time, can fail in two ways that a reader from the front cannot: it can take what
is not there, and it can fail to get on.  `Cursor.turn` is one turn of such a reader.

* `Cursor.turned` — no turn takes an octet that is not there, and the index moves forward, but not
  beyond the end;
* `Cursor.walk_snd` — so the reader comes to an end, with what is read from the front;
* `scansWithin` — all that is true of its way there.
-/

namespace Dhcp.Options

/-- How far options have been read, and what was read of them. -/
structure Cursor where
  index : Nat
  options : Options

/-- What comes of one turn of a reader. -/
inductive Turn where
  /-- An octet was taken that is not there. -/
  | stray
  /-- Reading ends. -/
  | stop (result : Except DecodeError Options)
  /-- Reading goes on. -/
  | next (c : Cursor)

namespace Cursor

/-- The turn of a reader that finds the code of an option at its index.  It asks for the length
behind the code and for the payload behind the length. -/
def optionTurn (data : Octets) (c : Cursor) (code : UInt8) : Turn :=
  match data[c.index + 1]? with
  | none => .stop (.error (.optionOverrun code))
  | some length =>
    match Wire.range? data (c.index + 2) (c.index + 2 + length.toNat) with
    | none => .stop (.error (.optionOverrun code))
    | some payload =>
      match OptionField.decode code payload with
      | .error e => .stop (.error e)
      | .ok f => .next ⟨c.index + 2 + length.toNat, c.options.insert f⟩

/-- One turn of a reader.  Before the end of the octets it takes the one at its index without a
look whether it is there. -/
def turn (data : Octets) (c : Cursor) : Turn :=
  if c.index < data.length then
    match data[c.index]? with
    | none => .stray
    | some code =>
      if code = OptionCode.endMark.octet then .stop (.ok c.options)
      else if code = OptionCode.pad.octet then .next { c with index := c.index + 1 }
      else c.optionTurn data code
  else .stop (.error .missingEnd)

variable {data : Octets} {c c' : Cursor}

/-- A turn that takes only what is there, and what reading from its index gives. -/
inductive Turned (data : Octets) (c : Cursor) : Turn → Prop where
  | stop {result : Except DecodeError Options} :
    decodeFrom c.options (data.drop c.index) = result → Turned data c (.stop result)
  | next {c' : Cursor} : c.index < c'.index → c'.index ≤ data.length →
    decodeFrom c.options (data.drop c.index) = decodeFrom c'.options (data.drop c'.index) →
      Turned data c (.next c')

theorem turned_option {code : UInt8} (hpad : code ≠ OptionCode.pad.octet)
    (hend : code ≠ OptionCode.endMark.octet)
    (hdrop : data.drop c.index = code :: data.drop (c.index + 1)) :
    Turned data c (c.optionTurn data code) := by
  have hshort : CutShort (data.drop (c.index + 1)) →
      decodeFrom c.options (data.drop c.index) = .error (.optionOverrun code) := by
    intro h
    rw [hdrop]
    exact decodeFrom_of_stop c.options (.overrun hpad hend h)
  unfold optionTurn
  cases hlength : data[c.index + 1]? with
  | none =>
      refine .stop (hshort ?_)
      rw [List.drop_of_length_le (List.getElem?_eq_none_iff.1 hlength)]
      trivial
  | some length =>
      obtain ⟨hlt, hget⟩ := List.getElem?_eq_some_iff.1 hlength
      have hdrop' : data.drop (c.index + 1) = length :: data.drop (c.index + 2) := by
        rw [List.drop_eq_getElem_cons hlt, hget]
      dsimp only
      by_cases hle : c.index + 2 + length.toNat ≤ data.length
      · let payload := Wire.fieldAt data (c.index + 2) length.toNat
        have hcount : payload.length = length.toNat := Wire.length_fieldAt hle
        have hmax : payload.length ≤ OptionField.maxPayload := by
          rw [hcount]
          exact Nat.le_of_lt_succ length.toNat_lt
        have hread := decodeFrom_option_append c.options hpad hend hmax
          (data.drop (c.index + 2 + length.toNat))
        rw [hcount, UInt8.ofNat_toNat, Wire.fieldAt_append_drop, ← hdrop', ← hdrop] at hread
        rw [Wire.range?_of_le hle]
        dsimp only
        cases hdecode : OptionField.decode code payload with
        | error e => exact .stop (hread.trans (by rw [hdecode]; rfl))
        | ok f => exact .next (by dsimp only; omega) hle (hread.trans (by rw [hdecode]; rfl))
      · rw [Wire.range?_of_lt (Nat.not_le.1 hle)]
        refine .stop (hshort ?_)
        rw [hdrop', CutShort, List.length_drop]
        omega

/-- **A turn takes nothing that is not there**, gets on, and reads what is read from the front. -/
theorem turned (data : Octets) (c : Cursor) : Turned data c (c.turn data) := by
  unfold turn
  by_cases hlt : c.index < data.length
  · have hdrop := List.drop_eq_getElem_cons hlt
    rw [if_pos hlt, List.getElem?_eq_getElem hlt]
    generalize data[c.index] = code at hdrop
    dsimp only
    by_cases hend : code = OptionCode.endMark.octet
    · subst hend
      rw [if_pos rfl]
      exact .stop (hdrop ▸ decodeFrom_endMark ..)
    rw [if_neg hend]
    by_cases hpad : code = OptionCode.pad.octet
    · subst hpad
      rw [if_pos rfl]
      exact .next (Nat.lt_succ_self _) hlt (hdrop ▸ decodeFrom_pad ..)
    rw [if_neg hpad]
    exact turned_option hpad hend hdrop
  · rw [if_neg hlt]
    refine .stop ?_
    rw [List.drop_of_length_le (Nat.not_lt.1 hlt)]
    exact decodeFrom_of_stop c.options .missingEnd

theorem turn_ne_stray (data : Octets) (c : Cursor) : c.turn data ≠ .stray := by
  intro h
  cases h ▸ turned data c

theorem index_of_turn (h : c.turn data = .next c') :
    c.index < c'.index ∧ c'.index ≤ data.length := by
  cases h ▸ turned data c with
  | next hlt hle => exact ⟨hlt, hle⟩

/-! ## Reading to the end -/

/-- The cursors that a reader passes, and what it ends with unless it goes astray. -/
def walk (data : Octets) (c : Cursor) : List Cursor × Option (Except DecodeError Options) :=
  match _h : c.turn data with
  | .stray => ([c], none)
  | .stop result => ([c], some result)
  | .next c' => (c :: (walk data c').1, (walk data c').2)
termination_by data.length - c.index
decreasing_by
  all_goals
    have hindex := index_of_turn _h
    omega

/-- **A reader comes to an end** without taking what is not there, and ends with what is read
from the front. -/
theorem walk_snd (data : Octets) (c : Cursor) :
    (c.walk data).2 = some (decodeFrom c.options (data.drop c.index)) := by
  fun_induction walk data c with
  | case1 c h => exact absurd h (turn_ne_stray data c)
  | case2 c result h =>
      cases h ▸ turned data c with
      | stop hread => rw [hread]
  | case3 c c' h ih =>
      cases h ▸ turned data c with
      | next _ _ hread => rw [hread, ih]

theorem index_of_mem_walk (hc : c.index ≤ data.length) :
    ∀ d ∈ (c.walk data).1, c.index ≤ d.index ∧ d.index ≤ data.length := by
  fun_induction walk data c with
  | case1 c h | case2 c result h => simpa using hc
  | case3 c c' h ih =>
      obtain ⟨hlt, hle⟩ := index_of_turn h
      refine List.forall_mem_cons.2 ⟨⟨Nat.le_refl _, hc⟩, fun d hd => ?_⟩
      obtain ⟨hfrom, hto⟩ := ih hle d hd
      exact ⟨Nat.le_of_lt (Nat.lt_of_lt_of_le hlt hfrom), hto⟩

theorem pairwise_walk (data : Octets) (c : Cursor) :
    (c.walk data).1.Pairwise (·.index < ·.index) := by
  fun_induction walk data c with
  | case1 c h | case2 c result h => exact List.pairwise_singleton ..
  | case3 c c' h ih =>
      obtain ⟨hlt, hle⟩ := index_of_turn h
      refine List.pairwise_cons.2 ⟨fun d hd => ?_, ih⟩
      exact Nat.lt_of_lt_of_le hlt (index_of_mem_walk hle d hd).1

theorem length_walk_le (hc : c.index ≤ data.length) :
    (c.walk data).1.length + c.index ≤ data.length + 1 := by
  fun_induction walk data c with
  | case1 c h | case2 c result h =>
      rw [List.length_singleton]
      omega
  | case3 c c' h ih =>
      obtain ⟨hlt, hle⟩ := index_of_turn h
      have hrest := ih hle
      rw [List.length_cons]
      omega

/-- The end of a payload is computed before it is known to be there, and may be beyond the octets,
but not by more than the longest payload. -/
theorem payload_stop_le {length : UInt8} (h : data[c.index + 1]? = some length) :
    c.index + 2 + length.toNat ≤ data.length + OptionField.maxPayload := by
  obtain ⟨hlt, -⟩ := List.getElem?_eq_some_iff.1 h
  have hmax : length.toNat ≤ OptionField.maxPayload := Nat.le_of_lt_succ length.toNat_lt
  omega

/-- Where a reader begins. -/
def start : Cursor := ⟨0, empty⟩

end Cursor

/-- Reads options by index. -/
def scan (data : Octets) : ExceptT DecodeError Option Options :=
  if data.head? = some OptionCode.pad.octet then throw .leadingPad
  else (Cursor.start.walk data).2

/-- **Options that are read by index are those that are read from the front.** -/
theorem scan_eq (data : Octets) : scan data = ExceptT.mk (some (decode data)) := by
  unfold scan decode
  split
  · rfl
  · exact Cursor.walk_snd data Cursor.start

/-- How a reader of options by index fares: it ends with what is read from the front, after at most
one turn for each octet and one more, at rising indices that are not beyond the end, and no sum
that it computes is beyond the end by more than the longest payload. -/
structure ScansWithin (data : Octets) : Prop where
  ends : (Cursor.start.walk data).2 = some (decodeFrom empty data)
  turns : (Cursor.start.walk data).1.length ≤ data.length + 1
  rising : (Cursor.start.walk data).1.Pairwise (·.index < ·.index)
  inside : ∀ c ∈ (Cursor.start.walk data).1, c.index ≤ data.length
  sums : ∀ c ∈ (Cursor.start.walk data).1, ∀ length, data[c.index + 1]? = some length →
    c.index + 2 + length.toNat ≤ data.length + OptionField.maxPayload

theorem scansWithin (data : Octets) : ScansWithin data where
  ends := Cursor.walk_snd data .start
  turns := Cursor.length_walk_le (c := .start) (Nat.zero_le _)
  rising := Cursor.pairwise_walk data .start
  inside := fun c hc => (Cursor.index_of_mem_walk (c := .start) (Nat.zero_le _) c hc).2
  sums := fun _ _ _ hlength => Cursor.payload_stop_le hlength

end Dhcp.Options
