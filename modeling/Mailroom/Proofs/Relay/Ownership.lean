import Mailroom.Proofs.Registry.Entries
import Mailroom.Proofs.Relay.Course

/-!
# Who has which entry of the registry

A session that has registered keeps one entry of the registry, under the identity that it has, until
it leaves; a session that has not registered keeps none. No id is there twice, and none is empty.
The turns of other sessions do not touch an entry, in whatever order they come.
-/

namespace Mailroom

open History

/-- The entries that a session keeps in the registry. -/
def Standing.entries (st : Standing) (conn : ConnId) : List Registered :=
  if st.activity = .gone then [] else st.identity?.toList.map fun i => ⟨i, conn⟩

variable {G G' : Registry} {conn other : ConnId} {n : Nat} {st st' : Standing} {e? : Option Event}
  {own : History}

theorem Standing.entries_ofDispatch (i? : Option Identity) (d : Dispatch) :
    Standing.entries ⟨i?, .ofDispatch d⟩ conn = i?.toList.map fun i => ⟨i, conn⟩ := by
  unfold Activity.ofDispatch Standing.entries
  split <;> exact if_neg nofun

namespace Turn

/-- The entries of other connections stay. -/
theorem owned_of_ne (turn : Turn G conn n st e? st' G') (differs : other ≠ conn) :
    G'.owned other = G.owned other := by
  cases turn with
  | registers free => rw [Registry.owned_of_register free, if_neg differs]
  | leaves => rw [Registry.owned_unregister, if_neg differs]
  | _ => rfl

theorem owned_self (turn : Turn G conn n st e? st' G') (hand : InHand own conn n st)
    (before : G.owned conn = st.entries conn) : G'.owned conn = st'.entries conn := by
  cases turn with
  | registers free =>
    cases hand with
    | idle idle => cases idle
    | registering read registration named unaddressed =>
      rw [Registry.owned_of_register free, if_pos rfl, before]
      simp [Standing.entries]
  | joins => rw [before, Standing.entries_ofDispatch, Standing.entries, if_neg nofun]
  | routes dispatched => rw [before, Standing.entries_ofDispatch, Standing.entries, if_neg nofun]
  | queues due => rw [before, Standing.entries_ofDispatch, Standing.entries, if_neg nofun]
  | misses due => rw [before, Standing.entries_ofDispatch, Standing.entries, if_neg nofun]
  | @leaves i? =>
    rw [Registry.owned_unregister, if_pos rfl, before]
    cases i? <;> simp [Standing.entries]
  | _ => simp [before, Standing.entries]

/-- An id that is free is not there, so that no id comes twice. -/
theorem ids_nodup (turn : Turn G conn n st e? st' G') (distinct : G.ids.Nodup) : G'.ids.Nodup := by
  cases turn with
  | @registers _ i _ free =>
    obtain ⟨absent, rfl⟩ := Registry.register_eq_ok free
    have unlike : i.id ∉ G.ids := by
      intro there
      obtain ⟨e, there, same⟩ := List.mem_map.mp there
      exact List.find?_eq_none.mp absent e there (decide_eq_true same)
    rw [Registry.ids, List.map_append]
    refine List.nodup_append.mpr ⟨distinct, by simp, ?_⟩
    rintro id there id' new rfl
    rw [List.map_singleton, List.mem_singleton] at new
    exact unlike (new ▸ there)
  | leaves => exact distinct.sublist ((Registry.unregister_sublist G conn).map _)
  | _ => exact distinct

/-- Only a registration that names an id is entered. -/
theorem ids_ne_empty (turn : Turn G conn n st e? st' G') (hand : InHand own conn n st)
    (named : "" ∉ G.ids) : "" ∉ G'.ids := by
  cases turn with
  | registers free =>
    obtain ⟨-, rfl⟩ := Registry.register_eq_ok free
    cases hand with
    | idle idle => cases idle
    | registering read registration filled unaddressed =>
      simpa [Registry.ids, filled.symm] using named
  | leaves => exact fun there => named (((Registry.unregister_sublist G conn).map _).subset there)
  | _ => exact named

end Turn

namespace Relay

variable {limits : Limits} {h : History} {r r' : Relay} {s : Session} {f : Inbound} {i : Identity}
  {reader : FrameReader}

/-- Only turns change the registry. -/
theorem registry_invariant {P : Registry → Prop} (empty : P .empty)
    (turns : ∀ G conn own n st e? st' G', Turn G conn n st e? st' G' → InHand own conn n st →
      P G → P G')
    (reached : Reaches limits h r) : P r.registry := by
  induction reached with
  | fresh => exact empty
  | @step h r r' s reached notClear taken ih =>
    have move : Move h r r' (r.event? h s) := step_moves taken notClear
    cases move with
    | quiet silent registry standing => exact registry ▸ ih
    | arrival silent registry unknown idle arrived others => exact registry ▸ ih
    | turn before turn after others => exact turns _ _ _ _ _ _ _ _ turn (inHand reached before) ih

theorem ids_nodup (reached : Reaches limits h r) : r.registry.ids.Nodup :=
  registry_invariant .nil (fun _ _ _ _ _ _ _ _ turn _ => turn.ids_nodup) reached

theorem ids_ne_empty (reached : Reaches limits h r) : "" ∉ r.registry.ids :=
  registry_invariant List.not_mem_nil (fun _ _ _ _ _ _ _ _ turn hand => turn.ids_ne_empty hand)
    reached

theorem owned_eq (reached : Reaches limits h r) (conn : ConnId) :
    r.registry.owned conn = ((r.standing? conn).map (Standing.entries · conn)).getD [] := by
  induction reached with
  | fresh => rfl
  | @step h r r' s reached notClear taken ih =>
    have move : Move h r r' (r.event? h s) := step_moves taken notClear
    cases move with
    | quiet silent registry standing => rw [registry, standing conn, ih]
    | @arrival c a silent registry unknown idle arrived others =>
      rw [registry, ih]
      by_cases self : conn = c
      · subst self
        rw [unknown, arrived]
        simp [Standing.entries]
      · rw [others conn self]
    | @turn c st st' before turn after others =>
      by_cases self : conn = c
      · subst self
        rw [before] at ih
        rw [after]
        exact turn.owned_self (inHand reached before) ih
      · rw [turn.owned_of_ne self, ih, others conn self]

/-- A session has the one identity that was registered on its connection. -/
theorem identities_eq (reached : Reaches limits h r) (found : r.session? conn = some s) :
    identities h conn = s.identity?.toList := by
  rw [← identities_ofConn]
  exact (course reached (standing?_of_session? found)).identities_eq

/-- A connection on which a client has registered has a session with this identity, and the session
is gone when it has left. -/
theorem session_of_registered (reached : Reaches limits h r) (registered : .registered conn i ∈ h) :
    ∃ s, r.session? conn = some s ∧ s.identity? = some i ∧
      (s.activity = .gone → .unregistered conn ∈ h) := by
  obtain ⟨st, standing, course⟩ := course_of_mem conn reached registered rfl
  obtain ⟨s, found, rfl⟩ := Option.map_eq_some_iff.mp standing
  have known : s.identity? = some i := by
    have shown := mem_identities.mpr registered
    rw [identities_eq reached found, Option.mem_toList] at shown
    exact shown
  refine ⟨s, found, known, fun gone => ?_⟩
  exact (mem_ofConn.mp (course.unregistered_of_gone gone known)).1

theorem owned_of_registered (reached : Reaches limits h r) (registered : .registered conn i ∈ h)
    (stays : .unregistered conn ∉ h) : r.registry.owned conn = [⟨i, conn⟩] := by
  obtain ⟨s, found, known, left⟩ := session_of_registered reached registered
  have present : s.activity ≠ .gone := fun gone => stays (left gone)
  rw [owned_eq reached, standing?_of_session? found]
  simp [Standing.entries, Session.standing, known, present]

/-- The entry of a client is found under its id as long as the client stays. -/
theorem find?_of_registered (reached : Reaches limits h r) (registered : .registered conn i ∈ h)
    (stays : .unregistered conn ∉ h) : r.registry.find? i.id = some ⟨i, conn⟩ := by
  have own : ⟨i, conn⟩ ∈ r.registry.owned conn := by
    rw [owned_of_registered reached registered stays]
    exact List.mem_singleton_self _
  exact Registry.find?_of_mem (ids_nodup reached) (Registry.mem_owned.mp own).1

theorem owned_of_unregistered (reached : Reaches limits h r) (left : .unregistered conn ∈ h) :
    r.registry.owned conn = [] := by
  obtain ⟨st, standing, course⟩ := course_of_mem conn reached left rfl
  have gone := course.gone_of_unregistered (mem_ofConn.mpr ⟨left, rfl⟩)
  rw [owned_eq reached, standing]
  simp [Standing.entries, gone]

theorem owned_of_awaiting (reached : Reaches limits h r) (awaiting : identities h conn = []) :
    r.registry.owned conn = [] := by
  rw [owned_eq reached, standing?]
  cases found : r.session? conn with
  | none => rfl
  | some s =>
    rw [identities_eq reached found] at awaiting
    simp [Standing.entries, Session.standing, awaiting]

theorem conns_nodup (reached : Reaches limits h r) :
    (r.registry.entries.map Registered.conn).Nodup := by
  rw [List.nodup_iff_count]
  intro conn
  have length : (r.registry.entries.map Registered.conn).count conn =
      (r.registry.owned conn).length := by
    rw [List.count, List.countP_map, List.countP_eq_length_filter, Registry.owned]
    rfl
  rw [length, owned_eq reached]
  cases r.standing? conn with
  | none => simp
  | some st =>
    simp only [Option.map_some, Option.getD_some, Standing.entries]
    split
    · simp
    · cases st.identity? <;> simp

end Relay

/-- A frame with which a session does nothing: awaiting a registration it is none with an id, and
afterwards it is a registration. -/
def Session.Ignores (s : Session) (f : Inbound) : Prop :=
  match s.identity? with
  | none => ∀ i, f.envelope = .registration i → i.id = ""
  | some _ => ∃ i, f.envelope = .registration i

theorem Session.actOn_of_ignores {s : Session} {f : Inbound} (ignored : s.Ignores f) :
    s.actOn f = .reading := by
  obtain ⟨identity?, activity, reader, writer⟩ := s
  obtain ⟨e, raw⟩ := f
  cases identity? with
  | none =>
    cases e with
    | registration i => exact if_pos (ignored i rfl)
    | _ => rfl
  | some known =>
    obtain ⟨i, rfl⟩ := ignored
    rfl

namespace Relay

variable {limits : Limits} {h : History} {r : Relay} {s : Session} {f : Inbound} {i : Identity}
  {reader : FrameReader}

/-- How the registry fits together with what has happened. -/
structure Ownership (h : History) (r : Relay) : Prop where
  /-- No connection has two entries. -/
  single : (r.registry.entries.map Registered.conn).Nodup
  distinct : r.registry.ids.Nodup
  named : "" ∉ r.registry.ids
  /-- A session has the identity that was registered on its connection, which happens once at most.
  -/
  identity : ∀ conn s, r.session? conn = some s → identities h conn = s.identity?.toList
  registered : ∀ conn i, .registered conn i ∈ h → .unregistered conn ∉ h →
    identities h conn = [i] ∧ r.registry.owned conn = [⟨i, conn⟩] ∧
      r.registry.find? i.id = some ⟨i, conn⟩
  awaiting : ∀ conn, identities h conn = [] → r.registry.owned conn = []
  left : ∀ conn, .unregistered conn ∈ h → r.registry.owned conn = []

/-- What the frames do that register nobody: the session reads on, and nothing else changes. -/
structure Refusals (r : Relay) : Prop where
  ignored : ∀ conn s f reader, r.session? conn = some s → s.activity = .reading →
    s.reader.next = (.frame f, reader) → s.Ignores f →
    r.step (.read conn) = some (r.setSession conn { s with reader })
  /-- A registration with an id is taken up. -/
  applied : ∀ conn s f i reader, r.session? conn = some s → s.activity = .reading →
    s.reader.next = (.frame f, reader) → s.identity? = none → f.envelope = .registration i →
    i.id ≠ "" →
    r.step (.read conn) = some (r.setSession conn { s with activity := .registering i, reader })
  /-- It is given up if the id is not free. -/
  taken : ∀ conn s i, r.session? conn = some s → s.activity = .registering i →
    (r.registry.find? i.id).isSome → s.identity? = none ∧
      r.step (.register conn) = some (r.setSession conn { s with activity := .reading })

theorem ownership (reached : Reaches limits h r) : Ownership h r where
  single := conns_nodup reached
  distinct := ids_nodup reached
  named := ids_ne_empty reached
  identity _ _ found := identities_eq reached found
  registered conn i registered stays := by
    obtain ⟨s, found, known, -⟩ := session_of_registered reached registered
    refine ⟨?_, owned_of_registered reached registered stays,
      find?_of_registered reached registered stays⟩
    rw [identities_eq reached found, known, Option.toList_some]
  awaiting _ awaiting := owned_of_awaiting reached awaiting
  left _ left := owned_of_unregistered reached left

theorem step_read_of_frame (found : r.session? conn = some s) (activity : s.activity = .reading)
    (read : s.reader.next = (.frame f, reader)) :
    r.step (.read conn) = some (r.setSession conn { s with activity := s.actOn f, reader }) := by
  simp [step, updateSession, found, Session.read?, activity, read]

theorem step_register_of_taken (found : r.session? conn = some s)
    (activity : s.activity = .registering i) (taken : (r.registry.find? i.id).isSome) :
    r.step (.register conn) = some (r.setSession conn { s with activity := .reading }) := by
  have refused : r.exchange.registry.register i conn = .error ⟨i.id⟩ :=
    Registry.register_eq_error_iff.mpr ⟨taken, rfl⟩
  simp [step, register?, found, activity, Exchange.register, refused]

theorem refusals (reached : Reaches limits h r) : Refusals r where
  ignored conn s f reader found activity read ignored := by
    rw [step_read_of_frame found activity read, Session.actOn_of_ignores ignored, ← activity]
  applied conn s f i reader found activity read awaiting registration named := by
    rw [step_read_of_frame found activity read]
    simp [Session.actOn, awaiting, registration, named]
  taken conn s i found activity taken := by
    have hand := inHand reached (standing?_of_session? found)
    refine ⟨?_, step_register_of_taken found activity taken⟩
    rw [standing_eq rfl activity] at hand
    cases h : s.identity? with
    | none => rfl
    | some j =>
      rw [h] at hand
      cases hand with
      | idle idle => cases idle

/-- In every state that a relay can come to, each session has the entry of the registry that it has
registered, and frames that register nobody change nothing. -/
theorem sessions_own_their_entries (reached : Reaches limits h r) : Ownership h r ∧ Refusals r :=
  ⟨ownership reached, refusals reached⟩

/-- Of two clients with the same id one has registered, and the other is about to. -/
def contest : List Step :=
  enters 0 ann ++ (enters 1 ⟨ann.id, "bob"⟩).take 3

theorem sessions_own_their_entries_contest :
    ∃ s, (outcome ⟨4, 50, 1000⟩ contest).2.session? 1 = some s ∧
      (outcome ⟨4, 50, 1000⟩ contest).2.registry.owned 0 = [⟨ann, 0⟩] ∧
      (outcome ⟨4, 50, 1000⟩ contest).2.step (.register 1) =
        some ((outcome ⟨4, 50, 1000⟩ contest).2.setSession 1 { s with activity := .reading }) := by
  have reached := reaches_outcome ⟨4, 50, 1000⟩ contest (by decide +kernel)
  obtain ⟨owns, refuses⟩ := sessions_own_their_entries reached
  have registered : .registered 0 ann ∈ (outcome ⟨4, 50, 1000⟩ contest).1 := by decide +kernel
  have stays : .unregistered 0 ∉ (outcome ⟨4, 50, 1000⟩ contest).1 := by decide +kernel
  have tries : ((outcome ⟨4, 50, 1000⟩ contest).2.session? 1).map Session.activity =
      some (.registering ⟨ann.id, "bob"⟩) := by decide +kernel
  obtain ⟨s, found, activity⟩ := Option.map_eq_some_iff.mp tries
  obtain ⟨-, owned, holder⟩ := owns.registered 0 ann registered stays
  refine ⟨s, found, owned, (refuses.taken 1 s _ found activity ?_).2⟩
  exact Option.isSome_of_eq_some holder

end Relay

end Mailroom
