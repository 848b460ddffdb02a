import Mailroom.Proofs.Relay.Authenticity
import Mailroom.Proofs.Relay.Delivery

/-!
# A client is announced before it is heard

A session that takes an id looks up whom to tell of it before it does anything else, and it hands the
announcement over before it reads on. So everyone who was there before gets the announcement first
and then whatever else comes from that connection. The connection that had the same id before has
done all that it ever does by then: it gives its id up last of all.
-/

namespace Mailroom

open History

/-- A registration is announced to the others as it is encoded. -/
theorem Inbound.relayed_of_registration {f : Inbound} {i : Identity}
    (registration : f.envelope = .registration i) : f.relayed = Frame.encode (.registration i) := by
  rw [relayed, registration]

variable {conn target : ConnId} {own before after : History} {st : Standing} {i : Identity}

/-- After it has registered, a session first looks up whom to tell of it. -/
theorem Course.addressed_first (course : Course conn own st)
    (split : own = before ++ .registered conn i :: after) :
    (after = [] ∧ st.activity = .joining) ∨
      ∃ G rest, after = .addressed conn (reads before conn) G :: rest := by
  induction course generalizing after with
  | arrives idle => simp at split
  | @turns own st st' e? G G' course turn ih =>
    cases e? with
    | none =>
      rw [Option.toList_none, List.append_nil] at split
      obtain ⟨-, joining⟩ | addressed := ih split
      · -- a session that is about to tell the others does not turn silently
        cases turn <;> cases joining
      · exact .inr addressed
    | some e =>
      rw [Option.toList_some] at split
      obtain rfl | ⟨earlier, last, rfl⟩ := List.eq_nil_or_concat after
      · obtain ⟨-, same⟩ := List.append_inj' split rfl
        cases same
        cases turn
        exact .inl ⟨rfl, rfl⟩
      · rw [List.concat_eq_append, ← List.cons_append, ← List.append_assoc] at split
        obtain ⟨whole, same⟩ := List.append_inj' split rfl
        cases same
        obtain ⟨rfl, joining⟩ | ⟨G₀, rest, rfl⟩ := ih whole
        · have quiet : reads own conn = reads before conn := by
            rw [whole, reads_concat_of_not_read rfl]
          rw [← quiet]
          cases turn with
          | joins => exact .inr ⟨G, [], rfl⟩
          | _ => cases joining
        · exact .inr ⟨G₀, rest.concat e, by simp⟩

namespace Relay

variable {limits : Limits} {h : History} {r : Relay} {earlier : ConnId} {n : Nat} {j : Identity}
  {j? : Option Identity} {f : Inbound} {G : Registry} {frame : Bytes}

/-- A session registers with the frame that it has read last, on a connection on which nobody has
registered before, and under an id that is free. -/
theorem registered_of_split (reached : Reaches limits h r)
    (split : h = before ++ .registered conn i :: after) :
    identities before conn = [] ∧
      (∃ f, .read conn (reads before conn) none f ∈ before ∧ f.envelope = .registration i) ∧
      ∃ r₁, Reaches limits before r₁ ∧ r₁.registry.find? i.id = none := by
  obtain ⟨r₁, st, st', G', reached₁, found, turn⟩ := turn_of_split conn reached split rfl
  have course₁ := (course reached₁ found).identities_eq
  have hand := inHand reached₁ found
  cases turn with
  | registers free =>
    cases hand with
    | idle idle => cases idle
    | @registering _ f read registration named unaddressed =>
      refine ⟨?_, ⟨f, (mem_ofConn.mp read).1, registration⟩, r₁, reached₁, ?_⟩
      · rw [← identities_ofConn, course₁, Option.toList_none]
      · exact (Registry.register_eq_ok free).1

theorem number_le {e : Event} (reached : Reaches limits h r) (made : e ∈ h) :
    e.number ≤ reads h e.conn := by
  obtain ⟨st, -, course⟩ := course_of_mem e.conn reached made rfl
  rw [← reads_ofConn]
  exact course.number_le e (mem_ofConn.mpr ⟨made, rfl⟩)

/-- Where a frame goes is looked up when it is the last one that was read. -/
theorem number_of_addressed (reached : Reaches limits h r)
    (split : h = before ++ .addressed conn n G :: after) : n = reads before conn := by
  obtain ⟨r₁, st, st', G', reached₁, found, turn⟩ := turn_of_split conn reached split rfl
  exact (turn.addressing (inHand reached₁ found) List.mem_cons_self).1

/-- Whatever is queued of a frame was looked up after its connection had registered. -/
theorem addressed_of_queued (reached : Reaches limits h r)
    (queued : .queued conn n target frame ∈ h) :
    ∃ G before after i, h = before ++ .addressed conn n G :: after ∧ .registered conn i ∈ before := by
  have tried := (receivers_sublist_attempts h conn n).subset (mem_receivers.mpr ⟨frame, queued⟩)
  obtain ⟨G, addressed⟩ := addressed_of_attempt reached tried
  obtain ⟨before, after, split⟩ := List.append_of_mem addressed
  obtain ⟨r₁, i, j?, f, reached₁, -, -, -, registered, -⟩ := lookup_of_split reached split
  exact ⟨G, before, after, i, split, registered⟩

theorem not_queued_of_awaiting (reached : Reaches limits h r) (awaiting : identities h conn = []) :
    .queued conn n target frame ∉ h := by
  intro queued
  obtain ⟨G, before, after, i, split, registered⟩ := addressed_of_queued reached queued
  have known : i ∈ identities h conn :=
    mem_identities.mpr (split ▸ List.mem_append_left _ registered)
  rw [awaiting] at known
  cases known

/-- Of a connection nothing is queued that it has read before its registration. -/
theorem le_number_of_queued (reached : Reaches limits h r)
    (split : h = before ++ .registered conn i :: after)
    (queued : .queued conn n target frame ∈ h) : reads before conn ≤ n := by
  obtain ⟨awaiting, -⟩ := registered_of_split reached split
  obtain ⟨G, before', after', j, looked, registered⟩ := addressed_of_queued reached queued
  rw [number_of_addressed reached looked]
  obtain ⟨more, rfl, -⟩ | ⟨more, rfl, -⟩ := List.append_eq_append_iff.mp (split.symm.trans looked)
  · rw [reads_append]
    exact Nat.le_add_right _ _
  · have known := mem_identities.mpr (List.mem_append_left more registered)
    rw [awaiting] at known
    cases known

/-- What is read while a registration is awaited is not read after the registration. -/
theorem number_le_of_awaited (reached : Reaches limits h r)
    (split : h = before ++ .registered conn i :: after) (read : .read conn n none f ∈ h) :
    n ≤ reads before conn := by
  rw [split, List.mem_append, List.mem_cons] at read
  obtain earlier | same | later := read
  · obtain ⟨-, -, r₁, reached₁, -⟩ := registered_of_split reached split
    exact number_le reached₁ earlier
  · cases same
  · obtain ⟨meanwhile, rest, rfl⟩ := List.append_of_mem later
    rw [← List.cons_append, ← List.append_assoc] at split
    have awaiting := ((frames_reach_their_targets reached).numbered _ _ _ _ _ _ split).2
    have known : i ∈ identities (before ++ .registered conn i :: meanwhile) conn :=
      mem_identities.mpr (List.mem_append_right _ List.mem_cons_self)
    rw [awaiting] at known
    cases known

/-- A registration is passed on only if it was read while one was awaited. -/
theorem awaited_of_addressed (reached : Reaches limits h r) (addressed : .addressed conn n G ∈ h)
    (read : .read conn n j? f ∈ h) (registration : f.envelope = .registration j) : j? = none := by
  obtain ⟨before, after, split⟩ := List.append_of_mem addressed
  obtain ⟨r₁, st, st', G', reached₁, found, turn⟩ := turn_of_split conn reached split rfl
  obtain ⟨now, -, course⟩ := course_of_mem conn reached read rfl
  have hand := inHand reached₁ found
  have unique : ∀ {k? g}, .read conn n k? g ∈ History.ofConn before conn → j? = k? ∧ f = g := by
    intro k? g last
    refine course.read_unique (mem_ofConn.mpr ⟨read, rfl⟩) ?_
    rw [split, ofConn_append]
    exact List.mem_append_left _ last
  cases turn with
  | joins =>
    cases hand with
    | idle idle => cases idle
    | joining last => exact (unique last).1
  | routes dispatched =>
    cases hand with
    | idle idle => cases idle
    | routing last payload =>
      obtain ⟨-, rfl⟩ := unique last
      exact absurd (congrArg Envelope.kind registration) payload

/-- A session does nothing after it has left. -/
theorem silent_of_unregistered {e : Event} (reached : Reaches limits h r)
    (split : h = before ++ after) (left : .unregistered conn ∈ before) (made : e ∈ after) :
    e.conn ≠ conn := by
  intro mine
  obtain ⟨meanwhile, later, rfl⟩ := List.append_of_mem made
  rw [← List.append_assoc] at split
  obtain ⟨r₁, st, st', G', reached₁, found, turn⟩ := turn_of_split conn reached split mine
  have own := mem_ofConn.mpr ⟨List.mem_append_left meanwhile left, rfl⟩
  exact turn.activity_ne_gone ((course reached₁ found).gone_of_unregistered own)

/-- A client whose id is taken by another one has left before. -/
theorem unregistered_of_successor (reached : Reaches limits h r)
    (split : h = before ++ .registered conn i :: after) (held : .registered earlier j ∈ before)
    (same : j.id = i.id) : .unregistered earlier ∈ before := by
  obtain ⟨-, -, r₁, reached₁, free⟩ := registered_of_split reached split
  by_cases left : .unregistered earlier ∈ before
  · exact left
  · have holder := find?_of_registered reached₁ held left
    rw [same, free] at holder
    cases holder

/-- A registration that is passed on is the one with which its connection has registered. -/
theorem number_of_announcement (reached : Reaches limits h r)
    (split : h = before ++ .registered conn i :: after) (queued : .queued conn n target frame ∈ h)
    (decoded : Frame.decode frame = .ok (.registration j)) :
    n = reads before conn ∧ j = i ∧ frame = Frame.encode (.registration i) := by
  obtain ⟨j?, f, read, rfl⟩ := relayed_of_queued reached queued
  obtain ⟨st, -, course⟩ := course_of_mem conn reached read rfl
  have registration : f.envelope = .registration j := by
    have back := Inbound.decode_relayed (course.decode_of_read (mem_ofConn.mpr ⟨read, rfl⟩))
    exact Except.ok.inj (back.symm.trans decoded)
  obtain ⟨G, before', after', k, looked, -⟩ := addressed_of_queued reached queued
  have addressed : .addressed conn n G ∈ h := looked ▸ List.mem_append_right _ List.mem_cons_self
  obtain rfl := awaited_of_addressed reached addressed read registration
  obtain ⟨-, ⟨g, last, same⟩, -⟩ := registered_of_split reached split
  have number : n = reads before conn :=
    Nat.le_antisymm (number_le_of_awaited reached split read)
      (le_number_of_queued reached split queued)
  subst number
  obtain rfl := read_unique reached read (split ▸ List.mem_append_left _ last)
  rw [registration] at same
  obtain rfl := Envelope.registration.inj same
  exact ⟨rfl, rfl, Inbound.relayed_of_registration registration⟩

/-- A session that has registered and does not know yet whom to tell. -/
def IsJoining (r : Relay) (conn : ConnId) : Prop :=
  ∃ s, r.session? conn = some s ∧ s.activity = .joining

theorem addressed_of_registered (reached : Reaches limits h r)
    (split : h = before ++ .registered conn i :: after) :
    (r.IsJoining conn ∧ after.ofConn conn = []) ∨
      ∃ G meanwhile rest, after = meanwhile ++ .addressed conn (reads before conn) G :: rest := by
  have registered : .registered conn i ∈ h := split ▸ List.mem_append_right _ List.mem_cons_self
  obtain ⟨st, found, course⟩ := course_of_mem conn reached registered rfl
  have own : h.ofConn conn = before.ofConn conn ++ .registered conn i :: after.ofConn conn := by
    rw [split, ofConn_append]
    congr 1
    exact List.filter_cons_of_pos (decide_eq_true rfl)
  obtain ⟨none, joining⟩ | ⟨G, rest, first⟩ := course.addressed_first own
  · obtain ⟨s, session, rfl⟩ := Option.map_eq_some_iff.mp found
    exact .inl ⟨⟨s, session, joining⟩, none⟩
  · have looked : .addressed conn (reads before conn) G ∈ after.ofConn conn := by
      rw [first, reads_ofConn]
      exact List.mem_cons_self
    obtain ⟨meanwhile, rest, whole⟩ := List.append_of_mem (mem_ofConn.mp looked).1
    exact .inr ⟨G, meanwhile, rest, whole⟩

end Relay

/-- A frame is queued for a target once, before all other frames of its connection. -/
def History.LedBy (h : History) (conn target : ConnId) (n : Nat) (frame : Bytes) : Prop :=
  ∃ earlier later, h = earlier ++ .queued conn n target frame :: later ∧
    (∀ m other, .queued conn m target other ∉ earlier) ∧ ∀ other, .queued conn n target other ∉ later

theorem History.ledBy_of_least {h : History} {n : Nat} {frame : Bytes}
    (increasing : (numbersFor h conn target).Pairwise (· < ·))
    (least : ∀ m ∈ numbersFor h conn target, n ≤ m) (queued : .queued conn n target frame ∈ h) :
    h.LedBy conn target n frame := by
  obtain ⟨earlier, later, split⟩ := List.append_of_mem queued
  have own : (Event.queued conn n target frame).numberFor? conn target = some n :=
    Event.numberFor?_eq_some.mpr ⟨frame, rfl⟩
  rw [split, numbersFor_append, numbersFor_cons, own, Option.toList_some,
    List.singleton_append] at increasing least
  obtain ⟨-, after, before⟩ := List.pairwise_append.mp increasing
  refine ⟨earlier, later, split, ?_, ?_⟩
  · intro m other there
    have among := mem_numbersFor.mpr ⟨other, there⟩
    have below := before m among n List.mem_cons_self
    have above := least m (List.mem_append_left _ among)
    omega
  · intro other there
    have beyond := (List.pairwise_cons.mp after).1 n (mem_numbersFor.mpr ⟨other, there⟩)
    omega

namespace Relay

variable {limits : Limits} {h : History} {r : Relay} {k : Identity}

/-- As long as a session does not know whom to tell of its registration, nobody gets anything of it. -/
theorem numbersFor_of_joining (reached : Reaches limits h r)
    (split : h = before ++ .registered conn i :: after) (none : after.ofConn conn = [])
    (target : ConnId) : numbersFor h conn target = [] := by
  obtain ⟨awaiting, -, r₁, reached₁, -⟩ := registered_of_split reached split
  refine List.eq_nil_iff_forall_not_mem.mpr fun m among => ?_
  obtain ⟨frame, queued⟩ := mem_numbersFor.mp among
  rw [split, List.mem_append, List.mem_cons] at queued
  obtain earlier | same | later := queued
  · exact not_queued_of_awaiting reached₁ awaiting earlier
  · cases same
  · have own : .queued conn m target frame ∈ after.ofConn conn := mem_ofConn.mpr ⟨later, rfl⟩
    rw [none] at own
    cases own

/-- Who gets nothing before frame `n` and does not get that either, though it is the last, gets
nothing. -/
theorem numbersFor_of_untouched {n : Nat} (reached : Reaches limits h r)
    (least : ∀ m ∈ numbersFor h conn target, n ≤ m) (last : n = reads h conn)
    (untouched : target ∉ receivers h conn n) : numbersFor h conn target = [] := by
  refine List.eq_nil_iff_forall_not_mem.mpr fun m among => ?_
  obtain ⟨frame, queued⟩ := mem_numbersFor.mp among
  have above := least m among
  have below : m ≤ reads h conn := number_le reached queued
  obtain rfl : m = n := by omega
  exact untouched (mem_receivers.mpr ⟨frame, queued⟩)

/-- A client that was there before, stays, and is not missed, gets the announcement before anything
else that comes from the connection. -/
theorem announced_first (reached : Reaches limits h r)
    (split : h = before ++ .registered conn i :: after) (there : .registered target k ∈ before)
    (stays : .unregistered target ∉ h) (hit : .missed conn (reads before conn) target ∉ h) :
    h.LedBy conn target (reads before conn) (Frame.encode (.registration i)) ∨
      numbersFor h conn target = [] ∧ (r.IsJoining conn ∨ r.Hands conn target) := by
  obtain ⟨awaiting, ⟨f, last, registration⟩, r₁, reached₁, -⟩ := registered_of_split reached split
  have read : .read conn (reads before conn) none f ∈ h := split ▸ List.mem_append_left _ last
  have least : ∀ m ∈ numbersFor h conn target, reads before conn ≤ m := by
    intro m among
    obtain ⟨frame, queued⟩ := mem_numbersFor.mp among
    exact le_number_of_queued reached split queued
  have other : conn ≠ target := by
    rintro rfl
    have known := mem_identities.mpr there
    rw [awaiting] at known
    cases known
  obtain ⟨joining, none⟩ | ⟨G, meanwhile, rest, rfl⟩ := addressed_of_registered reached split
  · exact .inr ⟨numbersFor_of_joining reached split none target, .inl joining⟩
  · have looked : h = (before ++ .registered conn i :: meanwhile) ++
        .addressed conn (reads before conn) G :: rest := by
      rw [split, List.append_assoc, List.cons_append]
    have broadcast : f.envelope.recipient? = Option.none := by
      rw [registration]
      rfl
    obtain once | ⟨untouched, number, hands⟩ := count_receivers_of_addressed reached looked read
      broadcast (List.mem_append_left _ there) stays hit other
    · have got : target ∈ receivers h conn (reads before conn) :=
        List.count_pos_iff.mp (by omega)
      obtain ⟨frame, queued⟩ := mem_receivers.mp got
      obtain ⟨j?, g, again, rfl⟩ := relayed_of_queued reached queued
      obtain rfl := read_unique reached read again
      rw [Inbound.relayed_of_registration registration] at queued
      exact .inl (ledBy_of_least (numbersFor_increasing reached conn target) least queued)
    · exact .inr ⟨numbersFor_of_untouched reached least number untouched, .inr hands⟩

/-- How it shows that a client has registered, given what has happened before and after. -/
structure Announcement (h before after : History) (r : Relay) (conn : ConnId) (i : Identity) :
    Prop where
  /-- Nothing that comes from the connection is queued before. -/
  silent : ∀ n target frame, .queued conn n target frame ∉ before
  /-- The only registration that is ever queued from the connection is the announcement. -/
  sole : ∀ n target frame j, .queued conn n target frame ∈ h →
    Frame.decode frame = .ok (.registration j) →
    n = reads before conn ∧ j = i ∧ frame = Frame.encode (.registration i)
  /-- A client that was there before, stays and is not missed gets the announcement once and before
  anything else from the connection. Until then it gets nothing, and the session is still announcing.
  -/
  first : ∀ target k, .registered target k ∈ before → .unregistered target ∉ h →
    .missed conn (reads before conn) target ∉ h →
    h.LedBy conn target (reads before conn) (Frame.encode (.registration i)) ∨
      numbersFor h conn target = [] ∧ (r.IsJoining conn ∨ r.Hands conn target)
  own : ∀ n frame j, .queued conn n conn frame ∈ h → Frame.decode frame ≠ .ok (.registration j)
  /-- Another connection that has registered the same id before has left, and does nothing more. -/
  vacated : ∀ earlier j, .registered earlier j ∈ before → j.id = i.id →
    .unregistered earlier ∈ before ∧ ∀ e ∈ after, e.conn ≠ earlier

/-- Who has registered is announced to all who were there before, and is heard only afterwards. -/
theorem clients_are_announced_first (reached : Reaches limits h r)
    (split : h = before ++ .registered conn i :: after) : Announcement h before after r conn i where
  silent n target frame := by
    obtain ⟨awaiting, -, r₁, reached₁, -⟩ := registered_of_split reached split
    exact not_queued_of_awaiting reached₁ awaiting
  sole n target frame j queued decoded := number_of_announcement reached split queued decoded
  first target k there stays hit := announced_first reached split there stays hit
  own n frame j queued decoded := by
    obtain ⟨rfl, -, -⟩ := number_of_announcement reached split queued decoded
    obtain ⟨-, ⟨f, last, registration⟩, -⟩ := registered_of_split reached split
    have read : .read conn (reads before conn) none f ∈ h := split ▸ List.mem_append_left _ last
    have broadcast : f.envelope.recipient? = none := by
      rw [registration]
      rfl
    exact (receivers_of_broadcast reached read broadcast).1 (mem_receivers.mpr ⟨frame, queued⟩)
  vacated earlier j held same := by
    have left := unregistered_of_successor reached split held same
    have past : .unregistered earlier ∈ before ++ [.registered conn i] :=
      List.mem_append_left _ left
    refine ⟨left, fun e made => silent_of_unregistered reached ?_ past made⟩
    rw [split, List.append_assoc, List.singleton_append]

/-- Two clients are there; the second one leaves, and another one comes with the same id and greets
everyone. -/
def succession : List Step :=
  enters 0 ann ++ enters 1 bob ++ [.enqueue 1 0, .finish 1, .read 1, .hangUp 1, .unregister 1] ++
    enters 2 bob ++ [.enqueue 2 0, .arrive 2 (.bytes (Frame.encode (.chat ⟨bob.id, none, "again"⟩))),
      .read 2, .route 2, .enqueue 2 0]

theorem clients_are_announced_first_succession :
    (outcome ⟨4, 50, 1000⟩ succession).1.LedBy 2 0 1 (Frame.encode (.registration bob)) ∧
      ∀ e ∈ (outcome ⟨4, 50, 1000⟩ succession).1.drop 10, e.conn ≠ 1 := by
  have reached := reaches_outcome ⟨4, 50, 1000⟩ succession (by decide +kernel)
  have split : (outcome ⟨4, 50, 1000⟩ succession).1 =
      (outcome ⟨4, 50, 1000⟩ succession).1.take 9 ++
        .registered 2 bob :: (outcome ⟨4, 50, 1000⟩ succession).1.drop 10 := by decide +kernel
  have shown := clients_are_announced_first reached split
  have number : reads ((outcome ⟨4, 50, 1000⟩ succession).1.take 9) 2 = 1 := by decide +kernel
  have past : numbersFor (outcome ⟨4, 50, 1000⟩ succession).1 2 0 = [1, 2] := by decide +kernel
  have led := shown.first 0 ann (by decide +kernel) (by decide +kernel)
    (by rw [number]; decide +kernel)
  rw [number] at led
  refine ⟨led.resolve_right fun waiting => ?_,
    (shown.vacated 1 bob (by decide +kernel) rfl).2⟩
  rw [past] at waiting
  cases waiting.1

end Relay

end Mailroom
