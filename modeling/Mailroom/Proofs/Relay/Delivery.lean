import Mailroom.Proofs.Relay.Ledger
import Mailroom.Proofs.Relay.Outlets
import Mailroom.Proofs.Relay.Ownership

/-!
# Who gets a frame

Where a frame goes is looked up once, and every target gets it once at most. What is for one client
goes to the connection that has its id; what is for everyone else goes to every connection that has
an entry then, but never back. The frames of one connection come in the order in which they were
read. A client that stays registered, and for whom no frame is missed, gets all that the others send
to everyone.
-/

namespace Mailroom

open History

namespace Registry

variable {G : Registry} {conn target : ConnId} {i : Identity} {e : Envelope} {id : String}

theorem others_sublist (G : Registry) (id : String) :
    (G.others id).Sublist (G.entries.map Registered.conn) := List.filter_sublist.map _

theorem destinations_nodup (single : (G.entries.map Registered.conn).Nodup) (e : Envelope) :
    (G.destinations e).Nodup := by
  unfold destinations
  split
  · exact single.sublist (G.others_sublist _)
  next id _ => cases G.lookup id <;> simp

/-- Only connections that have an entry get anything. -/
theorem entry_of_mem_destinations (there : target ∈ G.destinations e) :
    ∃ i, ⟨i, target⟩ ∈ G.entries := by
  unfold destinations at there
  split at there
  · obtain ⟨entry, kept, rfl⟩ := List.mem_map.mp there
    exact ⟨entry.identity, (List.mem_filter.mp kept).1⟩
  next id _ =>
    rw [Option.mem_toList] at there
    obtain ⟨entry, found, rfl⟩ := Option.map_eq_some_iff.mp there
    exact ⟨entry.identity, (mem_of_find? found).1⟩

theorem mem_others (there : ⟨i, target⟩ ∈ G.entries) (other : i.id ≠ id) :
    target ∈ G.others id := by
  refine List.mem_map.mpr ⟨⟨i, target⟩, List.mem_filter.mpr ⟨there, ?_⟩, rfl⟩
  exact decide_eq_true other

/-- Nothing goes back to the one connection that has the id of the sender. -/
theorem self_notMem_others (own : G.owned conn = [⟨i, conn⟩]) : conn ∉ G.others i.id := by
  intro there
  obtain ⟨entry, kept, mine⟩ := List.mem_map.mp there
  obtain ⟨listed, other⟩ := List.mem_filter.mp kept
  have only : entry ∈ G.owned conn := mem_owned.mpr ⟨listed, mine⟩
  rw [own, List.mem_singleton] at only
  subst only
  simp at other

end Registry

theorem Turn.activity_ne_gone {G G' : Registry} {conn : ConnId} {n : Nat} {st st' : Standing}
    {e? : Option Event} (turn : Turn G conn n st e? st' G') : st.activity ≠ .gone := by
  cases turn <;> exact nofun

namespace Relay

variable {limits : Limits} {h before after : History} {r : Relay} {conn target : ConnId} {n : Nat}
  {G G' : Registry} {i j : Identity} {j? : Option Identity} {f : Inbound} {e : Event} {frame : Bytes}

/-- Where a frame goes is looked up in the registry of the moment, after the frame was read and
while the client that it names has its entry. -/
theorem lookup_of_split (reached : Reaches limits h r)
    (split : h = before ++ .addressed conn n G :: after) :
    ∃ r₁ i j? f, Reaches limits before r₁ ∧ r₁.registry = G ∧ .read conn n j? f ∈ before ∧
      f.envelope.senderId = i.id ∧ .registered conn i ∈ before ∧ .unregistered conn ∉ before := by
  obtain ⟨r₁, st, st', G', reached₁, found, turn⟩ := turn_of_split conn reached split rfl
  have course₁ := course reached₁ found
  obtain ⟨rfl, rfl, -, i, j?, f, known, read, honest, -⟩ :=
    turn.addressing (inHand reached₁ found) List.mem_cons_self
  refine ⟨r₁, i, j?, f, reached₁, rfl, (mem_ofConn.mp read).1, honest, ?_, ?_⟩
  · rw [← mem_identities, ← identities_ofConn]
    exact course₁.identities_eq ▸ by simp [known]
  · intro left
    exact turn.activity_ne_gone (course₁.gone_of_unregistered (mem_ofConn.mpr ⟨left, rfl⟩))

theorem read_unique {g : Inbound} {k? : Option Identity} (reached : Reaches limits h r)
    (read : .read conn n j? f ∈ h) (again : .read conn n k? g ∈ h) : f = g := by
  obtain ⟨st, -, course⟩ := course_of_mem conn reached read rfl
  exact (course.read_unique (mem_ofConn.mpr ⟨read, rfl⟩) (mem_ofConn.mpr ⟨again, rfl⟩)).2

/-- The client that a frame names has its entry when it is looked up where the frame goes. -/
theorem sender_of_split (reached : Reaches limits h r)
    (split : h = before ++ .addressed conn n G :: after) (read : .read conn n j? f ∈ h) :
    ∃ r₁ i, Reaches limits before r₁ ∧ r₁.registry = G ∧ f.envelope.senderId = i.id ∧
      .registered conn i ∈ before ∧ .unregistered conn ∉ before := by
  obtain ⟨r₁, i, k?, g, reached₁, same, earlier, honest, holder⟩ := lookup_of_split reached split
  cases read_unique reached read (split ▸ List.mem_append_left _ earlier)
  exact ⟨r₁, i, reached₁, same, honest, holder⟩

theorem addressed_unique (reached : Reaches limits h r) (addressed : .addressed conn n G ∈ h)
    (again : .addressed conn n G' ∈ h) : G = G' := by
  obtain ⟨st, -, course⟩ := course_of_mem conn reached addressed rfl
  exact course.addressed_unique (mem_ofConn.mpr ⟨addressed, rfl⟩) (mem_ofConn.mpr ⟨again, rfl⟩)

/-- Whoever was tried was looked up. -/
theorem addressed_of_attempt (reached : Reaches limits h r) (tried : target ∈ attempts h conn n) :
    ∃ G, .addressed conn n G ∈ h := by
  by_cases known : ∃ G, .addressed conn n G ∈ h
  · exact known
  · obtain ⟨e, made, shown⟩ := List.mem_filterMap.mp tried
    have mine : e.conn = conn := by
      rcases Event.attempt?_eq_some.mp shown with ⟨frame, rfl⟩ | rfl <;> rfl
    obtain ⟨st, -, course⟩ := course_of_mem conn reached made mine
    have unaddressed : Unaddressed (h.ofConn conn) conn n := by
      intro G addressed
      exact known ⟨G, (mem_ofConn.mp addressed).1⟩
    rw [← attempts_ofConn, course.attempts_eq_nil unaddressed] at tried
    cases tried

/-- As often as a target was tried and is still due it is a destination of the frame. -/
theorem count_attempts (reached : Reaches limits h r) (addressed : .addressed conn n G ∈ h)
    (read : .read conn n j? f ∈ h) (target : ConnId) :
    ∃ st, r.standing? conn = some st ∧
      (attempts h conn n).count target + (due (h.ofConn conn) conn st n).count target =
        (G.destinations f.envelope).count target := by
  obtain ⟨st, found, course⟩ := course_of_mem conn reached addressed rfl
  have whole := course.attempts_perm (mem_ofConn.mpr ⟨addressed, rfl⟩) (mem_ofConn.mpr ⟨read, rfl⟩)
  refine ⟨st, found, ?_⟩
  rw [← whole.count_eq, List.count_append, attempts_ofConn]

theorem count_receivers_le (reached : Reaches limits h r) (addressed : .addressed conn n G ∈ h)
    (read : .read conn n j? f ∈ h) (target : ConnId) :
    (receivers h conn n).count target ≤ (G.destinations f.envelope).count target := by
  obtain ⟨st, -, whole⟩ := count_attempts reached addressed read target
  have := (receivers_sublist_attempts h conn n).count_le target
  omega

/-- Whoever has got a frame is one of its destinations. -/
theorem destination_of_receiver (reached : Reaches limits h r) (read : .read conn n j? f ∈ h)
    (got : target ∈ receivers h conn n) :
    ∃ G, .addressed conn n G ∈ h ∧ target ∈ G.destinations f.envelope := by
  obtain ⟨G, addressed⟩ :=
    addressed_of_attempt reached ((receivers_sublist_attempts h conn n).subset got)
  refine ⟨G, addressed, List.count_pos_iff.mp ?_⟩
  exact Nat.lt_of_lt_of_le (List.count_pos_iff.mpr got)
    (count_receivers_le reached addressed read target)

/-- Nobody gets a frame twice. -/
theorem receivers_nodup (reached : Reaches limits h r) (conn : ConnId) (n : Nat) :
    (receivers h conn n).Nodup := by
  rw [List.nodup_iff_count]
  intro target
  by_cases got : target ∈ receivers h conn n
  · obtain ⟨G, addressed⟩ :=
      addressed_of_attempt reached ((receivers_sublist_attempts h conn n).subset got)
    obtain ⟨before, after, split⟩ := List.append_of_mem addressed
    obtain ⟨r₁, i, j?, f, reached₁, rfl, read, -⟩ := lookup_of_split reached split
    have there : .read conn n j? f ∈ h := split ▸ List.mem_append_left _ read
    exact Nat.le_trans (count_receivers_le reached addressed there target)
      (List.nodup_iff_count.mp (Registry.destinations_nodup (conns_nodup reached₁) _) target)
  · rw [List.count_eq_zero.mpr got]
    omega

theorem relayed_of_queued (reached : Reaches limits h r) (queued : .queued conn n target frame ∈ h) :
    ∃ j? f, .read conn n j? f ∈ h ∧ frame = f.relayed := by
  obtain ⟨st, -, course⟩ := course_of_mem conn reached queued rfl
  obtain ⟨j?, f, read, same⟩ := course.relayed_of_queued (mem_ofConn.mpr ⟨queued, rfl⟩)
  exact ⟨j?, f, (mem_ofConn.mp read).1, same⟩

/-- A frame for one client is queued for nobody or once, for the connection that has the id. -/
theorem receivers_of_direct {id : String} (reached : Reaches limits h r)
    (read : .read conn n j? f ∈ h) (direct : f.envelope.recipient? = some id) :
    receivers h conn n = [] ∨
      ∃ G t, .addressed conn n G ∈ h ∧ G.lookup id = some t ∧ receivers h conn n = [t] := by
  have sole : ∀ t ∈ receivers h conn n, ∃ G, .addressed conn n G ∈ h ∧ G.lookup id = some t := by
    intro t got
    obtain ⟨G, addressed, there⟩ := destination_of_receiver reached read got
    rw [Registry.destinations, direct] at there
    exact ⟨G, addressed, Option.mem_toList.mp there⟩
  have single := receivers_nodup reached conn n
  rcases got : receivers h conn n with _ | ⟨t, _ | ⟨u, others⟩⟩
  · exact .inl rfl
  · obtain ⟨G, addressed, found⟩ := sole t (got ▸ List.mem_cons_self)
    exact .inr ⟨G, t, addressed, found, rfl⟩
  · obtain ⟨G, addressed, found⟩ := sole t (by simp [got])
    obtain ⟨G', again, found'⟩ := sole u (by simp [got])
    cases addressed_unique reached addressed again
    have same : t = u := Option.some.inj (found.symm.trans found')
    rw [got, same] at single
    simp at single

/-- What is for everyone else never goes back. -/
theorem receivers_of_broadcast (reached : Reaches limits h r) (read : .read conn n j? f ∈ h)
    (broadcast : f.envelope.recipient? = none) :
    conn ∉ receivers h conn n ∧ ∀ t ∈ receivers h conn n,
      ∃ G i, .addressed conn n G ∈ h ∧ ⟨i, t⟩ ∈ G.entries := by
  constructor
  · intro got
    obtain ⟨G, addressed, there⟩ := destination_of_receiver reached read got
    obtain ⟨before, after, split⟩ := List.append_of_mem addressed
    obtain ⟨r₁, i, reached₁, rfl, honest, registered, stays⟩ := sender_of_split reached split read
    rw [Registry.destinations, broadcast, honest] at there
    exact Registry.self_notMem_others (owned_of_registered reached₁ registered stays) there
  · intro t got
    obtain ⟨G, addressed, there⟩ := destination_of_receiver reached read got
    obtain ⟨i, entry⟩ := Registry.entry_of_mem_destinations there
    exact ⟨G, i, addressed, entry⟩

/-- Nothing was ever queued for a connection on which nobody has registered. -/
theorem framesFor_eq_nil (reached : Reaches limits h r) (awaiting : identities h target = []) :
    framesFor h target = [] := by
  rw [List.eq_nil_iff_forall_not_mem]
  intro frame there
  obtain ⟨conn, n, queued⟩ := mem_framesFor.mp there
  obtain ⟨j?, f, read, -⟩ := relayed_of_queued reached queued
  obtain ⟨G, addressed, there⟩ :=
    destination_of_receiver reached read (mem_receivers.mpr ⟨frame, queued⟩)
  obtain ⟨before, after, split⟩ := List.append_of_mem addressed
  obtain ⟨r₁, i, k?, g, reached₁, rfl, -⟩ := lookup_of_split reached split
  obtain ⟨j, entry⟩ := Registry.entry_of_mem_destinations there
  have earlier : identities before target = [] := by
    rw [split, identities, List.filterMap_append] at awaiting
    exact (List.append_eq_nil_iff.mp awaiting).1
  have own := Registry.mem_owned.mpr ⟨entry, rfl⟩
  rw [owned_of_awaiting reached₁ earlier] at own
  cases own

theorem numbersFor_increasing (reached : Reaches limits h r) (conn target : ConnId) :
    (numbersFor h conn target).Pairwise (· < ·) := by
  have once : (numbersFor h conn target).Nodup := by
    rw [List.nodup_iff_count]
    intro m
    rw [count_numbersFor]
    exact List.nodup_iff_count.mp (receivers_nodup reached conn m) target
  have order : (numbersFor h conn target).Pairwise (· ≤ ·) := by
    cases found : r.standing? conn with
    | none =>
      rw [← numbersFor_ofConn, (course_of_reaches reached conn).1 found]
      exact .nil
    | some st =>
      rw [← numbersFor_ofConn]
      exact (course reached found).numbersFor_pairwise target
  exact (order.and once).imp fun ⟨le, ne⟩ => Nat.lt_of_le_of_ne le ne

/-- Nothing was queued for, taken or written to a client that has not registered. -/
theorem outlet_of_awaiting {o : Outlet} (reached : Reaches limits h r)
    (awaiting : identities h target = []) (found : r.outlet? target = some o) :
    o.queue.frames = [] ∧ o.writer.written ++ o.writer.unwritten = [] := by
  obtain ⟨taken, left, whole, bytes, still⟩ := (outlet_carries reached target).2 o found
  rw [framesFor_eq_nil reached awaiting] at whole
  obtain ⟨rfl, rfl⟩ := List.append_eq_nil_iff.mp whole.symm
  refine ⟨?_, bytes⟩
  rcases still with still | ⟨-, still⟩ <;> exact still

/-- A session that has its frame in hand still to be tried on a target. -/
def Owes (r : Relay) (conn target : ConnId) : Prop :=
  ∃ s, r.session? conn = some s ∧ ((∃ f, s.activity = .routing f) ∨
    ∃ d, s.activity = .posting d ∧ target ∈ d.targets)

/-- A session that is handing a frame over which is still to be tried on a target. -/
def Hands (r : Relay) (conn target : ConnId) : Prop :=
  ∃ s d, r.session? conn = some s ∧ s.activity = .posting d ∧ target ∈ d.targets

theorem Hands.owes (hands : r.Hands conn target) : r.Owes conn target := by
  obtain ⟨s, d, found, activity, there⟩ := hands
  exact ⟨s, found, .inr ⟨d, activity, there⟩⟩

theorem hands_of_due {st : Standing} (found : r.standing? conn = some st)
    (there : target ∈ due (h.ofConn conn) conn st n) : n = reads h conn ∧ r.Hands conn target := by
  rw [due, reads_ofConn] at there
  split at there
  next last =>
    refine ⟨last, ?_⟩
    obtain ⟨s, session, rfl⟩ := Option.map_eq_some_iff.mp found
    rw [Session.standing, Standing.pending] at there
    split at there
    next d activity => exact ⟨s, d, session, activity, there⟩
    next => cases there
  next => cases there

/-- It is found out where a frame goes only after the frame was read. -/
theorem addressed_after_read (reached : Reaches limits h r)
    (split : h = before ++ .read conn n j? f :: after) (addressed : .addressed conn n G ∈ h) :
    .addressed conn n G ∈ after := by
  obtain ⟨r₁, st, st', G', reached₁, found, turn⟩ := turn_of_split conn reached split rfl
  have fresh := turn.number_of_read List.mem_cons_self
  rw [split] at addressed
  rcases List.mem_append.mp addressed with earlier | later
  · have bound := (course reached₁ found).number_le _ (mem_ofConn.mpr ⟨earlier, rfl⟩)
    rw [reads_ofConn, Event.number] at bound
    omega
  · rcases List.mem_cons.mp later with same | later
    · cases same
    · exact later

/-- A client that is registered when something for everyone else is looked up is among the others. -/
theorem count_destinations_of_registered (reached : Reaches limits h r)
    (split : h = before ++ .addressed conn n G :: after) (read : .read conn n j? f ∈ h)
    (broadcast : f.envelope.recipient? = none) (registered : .registered target i ∈ before)
    (stays : .unregistered target ∉ h) (other : conn ≠ target) :
    (G.destinations f.envelope).count target = 1 := by
  obtain ⟨r₁, k, reached₁, rfl, honest, holder, remains⟩ := sender_of_split reached split read
  have there : .unregistered target ∉ before := fun left =>
    stays (split ▸ List.mem_append_left _ left)
  have entry := find?_of_registered reached₁ registered there
  have differs : i.id ≠ f.envelope.senderId := by
    intro same
    rw [same, honest, find?_of_registered reached₁ holder remains] at entry
    cases entry
    exact other rfl
  have among : target ∈ r₁.registry.destinations f.envelope := by
    rw [Registry.destinations, broadcast]
    exact Registry.mem_others (Registry.mem_of_find? entry).1 differs
  have once := Registry.destinations_nodup (conns_nodup reached₁) f.envelope
  have := List.nodup_iff_count.mp once target
  have := List.count_pos_iff.mpr among
  omega

/-- When it is found out where something for everyone else goes, a client that is registered and
stays so gets it exactly once, unless it is missed, as soon as it is tried. -/
theorem count_receivers_of_addressed (reached : Reaches limits h r)
    (split : h = before ++ .addressed conn n G :: after) (read : .read conn n j? f ∈ h)
    (broadcast : f.envelope.recipient? = none) (registered : .registered target i ∈ before)
    (stays : .unregistered target ∉ h) (hit : .missed conn n target ∉ h) (other : conn ≠ target) :
    (receivers h conn n).count target = 1 ∨
      target ∉ receivers h conn n ∧ n = reads h conn ∧ r.Hands conn target := by
  have addressed : .addressed conn n G ∈ h := split ▸ List.mem_append_right _ List.mem_cons_self
  have sole := count_destinations_of_registered reached split read broadcast registered stays other
  obtain ⟨st, found, whole⟩ := count_attempts reached addressed read target
  rw [sole] at whole
  by_cases owed : target ∈ due (h.ofConn conn) conn st n
  · have some := List.count_pos_iff.mpr owed
    have untried : target ∉ attempts h conn n := List.count_eq_zero.mp (by omega)
    exact .inr ⟨fun got => untried ((receivers_sublist_attempts h conn n).subset got),
      hands_of_due found owed⟩
  · rw [List.count_eq_zero.mpr owed] at whole
    exact .inl ((count_receivers_of_not_missed hit).trans whole)

/-- A client that stays registered, and for whom no frame is missed, gets what another client has
sent to everyone else exactly once, as soon as the session of that client is done with it. -/
theorem count_receivers_of_broadcast (reached : Reaches limits h r) (split : h = before ++ after)
    (registered : .registered target i ∈ before) (stays : .unregistered target ∉ h)
    (hit : ∀ c m, .missed c m target ∉ h) (read : .read conn n (some j) f ∈ after)
    (payload : f.envelope.kind ≠ .registration) (honest : f.envelope.senderId = j.id)
    (broadcast : f.envelope.recipient? = none) (other : conn ≠ target) :
    (receivers h conn n).count target = 1 ∨ n = reads h conn ∧ r.Owes conn target := by
  have there : .read conn n (some j) f ∈ h := split ▸ List.mem_append_right _ read
  obtain ⟨st, found, course⟩ := course_of_mem conn reached there rfl
  rcases course.addressed_of_broadcast (mem_ofConn.mpr ⟨there, rfl⟩) payload honest broadcast
    with ⟨last, routing⟩ | ⟨G, addressed⟩
  · obtain ⟨s, session, rfl⟩ := Option.map_eq_some_iff.mp found
    rw [reads_ofConn] at last
    exact .inr ⟨last, s, session, .inl ⟨f, routing⟩⟩
  · have addressed := (mem_ofConn.mp addressed).1
    obtain ⟨meanwhile, rest, rfl⟩ := List.append_of_mem read
    rw [← List.append_assoc] at split
    obtain ⟨later, latest, rfl⟩ :=
      List.append_of_mem (addressed_after_read reached split addressed)
    have looked : h = (before ++ (meanwhile ++ .read conn n (some j) f :: later)) ++
        .addressed conn n G :: latest := by
      rw [split]
      simp
    rcases count_receivers_of_addressed reached looked there broadcast
      (List.mem_append_left _ registered) stays (hit conn n) other with once | ⟨-, last, hands⟩
    · exact .inl once
    · exact .inr ⟨last, hands.owes⟩

/-- Who gets what, in all that has happened so far. -/
structure Deliveries (limits : Limits) (h : History) (r : Relay) : Prop where
  /-- The frames of a connection are numbered as they are read, each under the identity that has been
  registered on the connection. -/
  numbered : ∀ before conn n j? f after, h = before ++ .read conn n j? f :: after →
    n = reads before conn + 1 ∧ identities before conn = j?.toList
  /-- Where a frame goes is looked up once, in the registry of the moment. -/
  lookedUp : ∀ before conn n G after, h = before ++ .addressed conn n G :: after →
    (∃ r₁, Reaches limits before r₁ ∧ r₁.registry = G) ∧ ∀ G', .addressed conn n G' ∈ h → G' = G
  relayed : ∀ conn n target frame, .queued conn n target frame ∈ h →
    ∃ j? f, .read conn n j? f ∈ h ∧ frame = f.relayed
  /-- What is for one client is queued for nobody or once, for the connection that has the id. -/
  direct : ∀ conn n j? f id, .read conn n j? f ∈ h → f.envelope.recipient? = some id →
    receivers h conn n = [] ∨
      ∃ G t, .addressed conn n G ∈ h ∧ G.lookup id = some t ∧ receivers h conn n = [t]
  /-- What is for everyone else is queued once at most for a connection that has an entry, and never
  for the one that it comes from. -/
  broadcast : ∀ conn n j? f, .read conn n j? f ∈ h → f.envelope.recipient? = none →
    (receivers h conn n).Nodup ∧ conn ∉ receivers h conn n ∧
      ∀ t ∈ receivers h conn n, ∃ G i, .addressed conn n G ∈ h ∧ ⟨i, t⟩ ∈ G.entries
  /-- A connection on which nobody has registered has received nothing. -/
  awaiting : ∀ target, identities h target = [] → framesFor h target = [] ∧
    ∀ o, r.outlet? target = some o →
      o.queue.frames = [] ∧ o.writer.written ++ o.writer.unwritten = []
  /-- The frames of one connection are queued for another one in the order in which they were read.
  -/
  ordered : ∀ conn target, (numbersFor h conn target).Pairwise (· < ·)
  /-- A queue has the frames that were queued last. -/
  queue : ∀ target c, r.connection? target = some c → c.queue.frames <:+ framesFor h target
  /-- A client that stays registered, and for whom no frame is missed, gets once what each other
  client sends to everyone, as soon as that client's session is done with it, and nothing of its own.
  -/
  complete : ∀ before after target i, h = before ++ after → .registered target i ∈ before →
    .unregistered target ∉ h → (∀ c m, .missed c m target ∉ h) →
    ∀ conn n j f, .read conn n (some j) f ∈ after → f.envelope.kind ≠ .registration →
      f.envelope.senderId = j.id → f.envelope.recipient? = none →
      (conn ≠ target →
        (receivers h conn n).count target = 1 ∨ n = reads h conn ∧ r.Owes conn target) ∧
      (conn = target → target ∉ receivers h conn n)

/-- Every frame gets to those for whom it is, once and in order, and to nobody else. -/
theorem frames_reach_their_targets (reached : Reaches limits h r) : Deliveries limits h r where
  numbered before conn n j? f after split := by
    obtain ⟨r₁, st, st', G', reached₁, found, turn⟩ := turn_of_split conn reached split rfl
    refine ⟨turn.number_of_read List.mem_cons_self, ?_⟩
    rw [← identities_ofConn, (course reached₁ found).identities_eq,
      turn.identity_of_read List.mem_cons_self]
  lookedUp before conn n G after split := by
    obtain ⟨r₁, i, j?, f, reached₁, same, -⟩ := lookup_of_split reached split
    have addressed : .addressed conn n G ∈ h := split ▸ List.mem_append_right _ List.mem_cons_self
    exact ⟨⟨r₁, reached₁, same⟩, fun G' again => addressed_unique reached again addressed⟩
  relayed conn n target frame queued := relayed_of_queued reached queued
  direct conn n j? f id read direct := receivers_of_direct reached read direct
  broadcast conn n j? f read broadcast :=
    ⟨receivers_nodup reached conn n, receivers_of_broadcast reached read broadcast⟩
  awaiting target awaiting :=
    ⟨framesFor_eq_nil reached awaiting, fun _ found => outlet_of_awaiting reached awaiting found⟩
  ordered conn target := numbersFor_increasing reached conn target
  queue target c found := frames_suffix reached found
  complete before after target i split registered stays hit conn n j f read payload honest
      broadcast := by
    have there : .read conn n (some j) f ∈ h := split ▸ List.mem_append_right _ read
    constructor
    · exact count_receivers_of_broadcast reached split registered stays hit read payload honest
        broadcast
    · rintro rfl
      exact (receivers_of_broadcast reached there broadcast).1

theorem frames_reach_their_targets_greeting :
    (receivers (outcome ⟨4, 50, 1000⟩ greeting).1 0 2).count 1 = 1 ∧
      (receivers (outcome ⟨4, 50, 1000⟩ greeting).1 0 2).count 0 = 0 := by
  have reached := reaches_outcome ⟨4, 50, 1000⟩ greeting (by decide +kernel)
  have deliveries := frames_reach_their_targets reached
  have read : .read 0 2 (some ann) ⟨hello, Frame.encode hello⟩ ∈
      (outcome ⟨4, 50, 1000⟩ greeting).1.drop 7 := by decide +kernel
  have idle : ((outcome ⟨4, 50, 1000⟩ greeting).2.session? 0).map Session.activity =
      some .reading := by decide +kernel
  have sure : ((outcome ⟨4, 50, 1000⟩ greeting).1.filterMap fun
      | .missed c m t => some (c, m, t)
      | _ => none) = [] := by decide +kernel
  have hit : ∀ c m, .missed c m 1 ∉ (outcome ⟨4, 50, 1000⟩ greeting).1 := by
    intro c m missed
    have there : (c, m, 1) ∈ ([] : List (ConnId × Nat × ConnId)) :=
      sure ▸ List.mem_filterMap.mpr ⟨_, missed, rfl⟩
    cases there
  have gets := (deliveries.complete _ _ 1 bob (List.take_append_drop 7 _).symm (by decide +kernel)
    (by decide +kernel) hit 0 2 ann _ read (by decide) rfl rfl).1 (by decide)
  have back := (deliveries.broadcast 0 2 _ _ (List.mem_of_mem_drop read) rfl).2.1
  refine ⟨gets.resolve_right ?_, List.count_eq_zero.mpr back⟩
  rintro ⟨-, s, found, owes⟩
  rw [found, Option.map_some, Option.some.injEq] at idle
  simp [idle] at owes

end Relay

end Mailroom
