import Dhcp.Proofs.Reply.Answers

/-!
# Dhcp.Proofs.Lease.Promise

What an ACK promises.  From the time of an ACK until the seconds that it tells have passed, its
client holds the address, unless it gives it back, and nobody else is offered or granted it
(`Pool.ack_promise`).

The promise is carried by `Pool.Promised`: the entry of the client lasts long enough, and so
would a renewal at any later time.  The second part is needed since a renewal does not lengthen
the entry but replaces its expiry, and it holds because the clock is never put back.
-/

namespace Dhcp

/-- The REQUEST by which a client that has no address yet asks for one. -/
def Message.asking (a : Address) (hw : HardwareAddress) : Message :=
  { op := .request, htype := 1, hops := 0, xid := 0, secs := 0, flags := 0
    ciaddr := .unspecified, yiaddr := .unspecified, siaddr := .unspecified
    giaddr := .unspecified, hw
    options := .ofList [.kind .request, .requestedAddress a] }

namespace Pool

/-- Whether a client has an entry on an address that lasts until an instant, and would last as
long if it were renewed at `t` or later. -/
def Promised (p : Pool) (a : Address) (hw : HardwareAddress) (t stop : Instant) : Prop :=
  ∃ k l, p.clientHost? a = some k ∧ p.get? k = some l ∧ l.hw = hw ∧
    stop ≤ l.expiry ∧ stop ≤ t.after l.term

variable {c : Config} {p : Pool} {a : Address} {hw : HardwareAddress} {t stop : Instant}

namespace Promised

/-- **Every event keeps a promise** until its end, but for the release of the address by its
client. -/
theorem apply (hp : p.Promised a hw t stop) {o : Occurrence} (hstart : t ≤ o.now)
    (hend : o.now ≤ stop) (hkept : ¬ o.event.Releases a hw) :
    (p.apply c o).Promised a hw t stop := by
  obtain ⟨k, l, hk, hl, hhw, hstop, hterm⟩ := hp
  have hk' : (p.apply c o).clientHost? a = some k := by
    rw [clientHost?_of_server_eq (server_apply c p o), hk]
  generalize hs : (p.apply c o).get? k = s
  cases change_of_get? hl hs with
  | kept => exact ⟨k, l, hk', hs, hhw, hstop, hterm⟩
  | extended =>
      have hlonger : stop ≤ o.now.after l.term :=
        Int.le_trans hterm (Instant.after_le_after hstart l.term)
      exact ⟨k, l.renew o.now, hk', hs, hhw, hlonger, hterm⟩
  | released hclient hevent =>
      have haddress := (withHost_of_clientHost? hclient).symm.trans (withHost_of_clientHost? hk)
      rw [haddress, hhw] at hevent
      exact absurd hevent hkept
  | ended _ _ hexpired =>
      rw [Instant.lt_def] at hexpired
      rw [Instant.le_def] at hstop hend
      omega

/-- A promise is kept by every history between its start and its end. -/
theorem run (hp : p.Promised a hw t stop) {h : History}
    (hstart : ∀ o ∈ h, t ≤ o.now) (hend : ∀ o ∈ h, o.now ≤ stop)
    (hkept : ∀ o ∈ h, ¬ o.event.Releases a hw) : (p.run c h).Promised a hw t stop := by
  apply run_induction (I := fun q => q.Promised a hw t stop) hp
  intro q o ho hq
  exact hq.apply (hstart o ho) (hend o ho) (hkept o ho)

/-- At the end of a promise the client still has the address. -/
theorem isLeasedTo (hp : p.Promised a hw t stop) : p.isLeasedTo stop a hw = true := by
  obtain ⟨k, l, hk, hl, hhw, hstop, -⟩ := hp
  rw [Pool.isLeasedTo, leaseOf?_eq_some.2 ⟨k, hk, hl, hhw, hstop⟩]
  rfl

/-- While a promise is kept, only its client is offered or granted the address. -/
theorem hw_of_offer_or_ack (hp : p.Promised a hw t stop) (hsound : p.Sound) {now : Instant}
    {m r : Message} (h : (c.answer now p m).reply = .ok (some r))
    (hkind : r.kind? = some .offer ∨ r.kind? = some .ack) (ha : r.yiaddr = a) : m.hw = hw := by
  obtain ⟨k, l, hk, hl, hhw, -⟩ := hp
  obtain ⟨j, hj, hown⟩ := Config.client_of_offer_or_ack hsound h hkind
  rw [ha, hk] at hj
  cases hj
  rw [← hhw, hown l hl]

/-- An ACK makes a promise for the seconds that it tells, however long the lease is in full. -/
theorem of_ack {m r : Message} {L : Nat} (hsound : p.Sound)
    (hreply : (c.answer t p m).reply = .ok (some r)) (hack : r.kind? = some .ack)
    (htime : r.leaseSeconds? = some L) (hL : stop.nanos ≤ t.nanos + L * 1000000000) :
    (p.apply c ⟨t, .message m⟩).Promised r.yiaddr m.hw t stop := by
  obtain ⟨k, l, hk, hget, -, hw, hexpiry, htold⟩ := Config.lease_of_ack hsound hreply hack
  have hseconds : L = l.term.word.toNat := by
    have hword := Message.leaseSeconds?_of_leaseTime? htold
    rw [htime, Span.word_ofWord] at hword
    exact Option.some.inj hword
  have hstop : stop ≤ t.after l.term := Instant.le_after_of_le_word (hseconds ▸ hL)
  exact ⟨k, l, hk, hget, hw, hexpiry ▸ hstop, hstop⟩

end Promised

/-- **An ACK is kept.**  Let a message at the time `t` be answered with an ACK that tells `L`
seconds, in a history in which the clock is never put back.  At every later time that is at most
`L` seconds after `t` the client holds the address, unless it has given it back since, and no
message since then has been answered with an OFFER or an ACK of that address to another
client. -/
theorem ack_promise (c : Config) {server : Address} {fresh : Pool}
    (hnew : new? server = some fresh) (before after : History) {t now : Instant}
    {m r : Message} {L : Nat}
    (hchron : (before ++ ⟨t, .message m⟩ :: after).Chronological)
    (hnow : ∀ o ∈ before ++ ⟨t, .message m⟩ :: after, o.now ≤ now)
    (hreply : (c.answer t (fresh.run c before) m).reply = .ok (some r))
    (hack : r.kind? = some .ack) (htime : r.leaseSeconds? = some L)
    (hL : now.nanos ≤ t.nanos + L * 1000000000)
    (hkept : ∀ o ∈ after, ¬ o.event.Releases r.yiaddr m.hw) :
    (fresh.run c (before ++ ⟨t, .message m⟩ :: after)).isLeasedTo now r.yiaddr m.hw = true ∧
    ∀ mid t' m' rest r', after = mid ++ ⟨t', .message m'⟩ :: rest →
      (c.answer t' (fresh.run c (before ++ ⟨t, .message m⟩ :: mid)) m').reply =
        .ok (some r') →
      r'.kind? = some .offer ∨ r'.kind? = some .ack → r'.yiaddr = r.yiaddr → m'.hw = m.hw := by
  have hstart : ∀ o ∈ after, t ≤ o.now := by
    intro o ho
    have hpair := (List.pairwise_append.1 hchron).2.1
    exact (List.pairwise_cons.1 hpair).1 o ho
  have hend : ∀ o ∈ after, o.now ≤ now := by
    intro o ho
    exact hnow o (List.mem_append_right before (List.mem_cons_of_mem _ ho))
  have hsound := (Sound.new hnew).run c before
  have hfirst := Promised.of_ack hsound hreply hack htime hL
  -- what the ACK promises is kept by every part of the history after it
  have hpart : ∀ mid, mid ⊆ after →
      (fresh.run c (before ++ ⟨t, .message m⟩ :: mid)).Promised r.yiaddr m.hw t now := by
    intro mid hmid
    rw [run_append, run_cons]
    exact hfirst.run (fun o ho => hstart o (hmid ho)) (fun o ho => hend o (hmid ho))
      (fun o ho => hkept o (hmid ho))
  refine ⟨(hpart after (List.Subset.refl after)).isLeasedTo, ?_⟩
  rintro mid t' m' rest r' rfl hreply' hkind ha
  have hsound' := (Sound.new hnew).run c (before ++ ⟨t, .message m⟩ :: mid)
  exact (hpart mid (List.subset_append_left ..)).hw_of_offer_or_ack hsound' hreply' hkind ha

/-- An ACK of the usual four hours is kept to their end, while another client asks for the
address, its own extends the lease, and leases that have expired are swept. -/
theorem ack_promise_four_hours :
    ∃ fresh r, new? ⟨192, 168, 4, 1⟩ = some fresh ∧
      (Config.answer {} (.clamp 0) fresh (.asking ⟨192, 168, 4, 7⟩ (.ofOctets [1]))).reply =
        .ok (some r) ∧
      r.kind? = some .ack ∧ r.yiaddr = ⟨192, 168, 4, 7⟩ ∧
      r.leaseSeconds? = some 14400 ∧
      (fresh.run {} [⟨.clamp 0, .message (.asking ⟨192, 168, 4, 7⟩ (.ofOctets [1]))⟩,
        ⟨.clamp 1, .request ⟨192, 168, 4, 7⟩ (.ofOctets [2]) .zero⟩,
        ⟨.clamp 2, .renew ⟨192, 168, 4, 7⟩ (.ofOctets [1])⟩,
        ⟨.clamp 14400000000000, .sweep⟩]).isLeasedTo
          (.clamp 14400000000000) ⟨192, 168, 4, 7⟩ (.ofOctets [1]) = true := by
  refine ⟨_, _, rfl, rfl, rfl, rfl, rfl, ?_⟩
  let h : History := [⟨.clamp 0, .message (.asking ⟨192, 168, 4, 7⟩ (.ofOctets [1]))⟩,
    ⟨.clamp 1, .request ⟨192, 168, 4, 7⟩ (.ofOctets [2]) .zero⟩,
    ⟨.clamp 2, .renew ⟨192, 168, 4, 7⟩ (.ofOctets [1])⟩, ⟨.clamp 14400000000000, .sweep⟩]
  have hnew : new? ⟨192, 168, 4, 1⟩ = some _ := rfl
  have hchron : History.Chronological h := by
    unfold History.Chronological
    decide
  have hnow : ∀ o ∈ h, o.now ≤ .clamp 14400000000000 := by decide
  have hpromise := ack_promise {} hnew [] h.tail (L := 14400) hchron hnow rfl rfl rfl
    (by decide) (by decide)
  exact hpromise.1

end Pool

end Dhcp
