import Mailroom.Proofs.Config.Variables
import Mailroom.Proofs.Relay.Awaiting
import Mailroom.Proofs.Relay.Delivery
import Mathlib.Data.List.Induction

/-!
# Configured limits at work

A configuration that is read promises a frame limit and room for a frame. It does not promise that a
queue of its capacity can be made: from a certain capacity on the handling of every connection breaks
off at once, and up to there that of none ever does.
-/

namespace Mailroom

/-- Only leaving brings a session to its end. -/
theorem Turn.unregistered_of_gone {G G' : Registry} {conn : ConnId} {n : Nat} {st st' : Standing}
    {e? : Option Event} (turn : Turn G conn n st e? st' G') (gone : st'.activity = .gone) :
    e? = some (.unregistered conn) := by
  have goesOn (d : Dispatch) : Activity.ofDispatch d ≠ .gone := by
    rw [Activity.ofDispatch]
    split <;> exact nofun
  cases turn with
  | leaves => rfl
  | joins | routes | queues | misses => exact absurd gone (goesOn _)
  | _ => cases gone

namespace Relay

variable {limits : Limits} {r r' : Relay} {steps : List Step} {step : Step} {conn : ConnId}
  {st st' : Standing}

/-- The handling of a connection broke off: the session is over, but nobody has let go of the
connection. -/
def BreaksOff (steps : List Step) (r : Relay) (conn : ConnId) : Prop :=
  (∃ st, r.standing? conn = some st ∧ st.activity = .gone) ∧ .unregister conn ∉ steps

theorem standing?_accept (r : Relay) (peer : Address) (conn : ConnId) :
    (r.accept peer).standing? conn =
      if conn = r.sessions.length then
        some ⟨none, if Outbound.isUsableCapacity r.limits.outboundCapacity then .reading else .gone⟩
      else r.standing? conn := by
  by_cases new : conn = r.sessions.length
  · subst new
    rw [if_pos rfl, accept]
    split
    · simp [standing?, session?, Session.standing, Session.fresh]
    · simp [standing?, session?, Session.standing, Session.refused, Session.fresh]
  · rw [if_neg new, accept]
    split <;> exact standing?_append_of_ne _ new

/-- A session is new, or it was there before the step. Then, if it was over, it is as it was, and if
it is over only now, the step was to let go of its connection. -/
theorem standing_of_step (taken : r.step step = some r') (found : r'.standing? conn = some st') :
    st' = ⟨none, if Outbound.isUsableCapacity r.limits.outboundCapacity then .reading else .gone⟩ ∨
      ∃ st, r.standing? conn = some st ∧
        (st' = st ∨ st.activity ≠ .gone ∧ (st'.activity = .gone → step = .unregister conn)) := by
  have kept (same : r'.standing? conn = r.standing? conn) :
      ∃ st, r.standing? conn = some st ∧
        (st' = st ∨ st.activity ≠ .gone ∧ (st'.activity = .gone → step = .unregister conn)) :=
    ⟨st', same ▸ found, .inl rfl⟩
  by_cases clears : step = .clear
  · subst clears
    exact .inr (kept (standing?_of_clear taken conn))
  by_cases accepts : step.isAccept
  · cases step with
    | accept peer =>
      simp only [Relay.step] at taken
      split at taken <;> cases taken
      rw [standing?_accept] at found
      split at found
      · cases found
        exact .inl rfl
      · exact .inr ⟨st', found, .inl rfl⟩
    | _ => cases accepts
  have move : Move [] r r' (r.event? [] step) := step_moves taken clears
  cases move with
  | quiet silent registry same => exact .inr (kept (same conn))
  | @arrival c a silent registry unknown idle arrived others =>
    have none : r.sessions.length ≤ c := by simpa [standing?, session?] using unknown
    have there : c < r'.sessions.length := by
      obtain ⟨s, arrived, -⟩ := Option.map_eq_some_iff.mp arrived
      exact (List.getElem?_eq_some_iff.mp arrived).1
    rw [(step_keeps taken).2, if_neg accepts] at there
    exact absurd there (Nat.not_lt_of_le none)
  | @turn c before after there turn now others =>
    by_cases self : conn = c
    · subst self
      cases now.symm.trans found
      refine .inr ⟨before, there, .inr ⟨turn.activity_ne_gone, fun gone => ?_⟩⟩
      cases shows_of_event? (turn.unregistered_of_gone gone)
      rfl
    · exact .inr (kept (others conn self))

theorem limits_of_run (ran : (fresh limits).run steps = some r) : r.limits = limits :=
  (run_keeps ran).1

/-- Where queues can be made, a session is over only after its connection was let go of. -/
theorem unregistered_of_run (usable : Outbound.isUsableCapacity limits.outboundCapacity)
    (ran : (fresh limits).run steps = some r) (found : r.standing? conn = some st)
    (gone : st.activity = .gone) : .unregister conn ∈ steps := by
  induction steps using List.reverseRecOn generalizing r st with
  | nil =>
    cases ran
    cases found
  | append_singleton steps step ih =>
    rw [run_concat] at ran
    obtain ⟨before, ran, taken⟩ := Option.bind_eq_some_iff.mp ran
    rw [List.mem_append, List.mem_singleton]
    obtain rfl | ⟨st₀, found₀, rfl | ⟨-, leaves⟩⟩ := standing_of_step taken found
    · rw [limits_of_run ran, if_pos usable] at gone
      cases gone
    · exact .inl (ih ran found₀ gone)
    · exact .inr (leaves gone).symm

/-- Where no queue can be made, every session is over from its beginning. -/
theorem gone_of_run (unusable : Outbound.isUsableCapacity limits.outboundCapacity = false)
    (ran : (fresh limits).run steps = some r) :
    (∀ conn st, r.standing? conn = some st → st.activity = .gone) ∧
      ∀ conn, .unregister conn ∉ steps := by
  induction steps using List.reverseRecOn generalizing r with
  | nil =>
    cases ran
    exact ⟨nofun, fun _ => List.not_mem_nil⟩
  | append_singleton steps step ih =>
    rw [run_concat] at ran
    obtain ⟨before, ran, taken⟩ := Option.bind_eq_some_iff.mp ran
    obtain ⟨gone, stayed⟩ := ih ran
    constructor
    · intro conn st found
      obtain rfl | ⟨st₀, found₀, rfl | ⟨alive, -⟩⟩ := standing_of_step taken found
      · rw [limits_of_run ran, unusable]
        rfl
      · exact gone conn _ found₀
      · exact absurd (gone conn _ found₀) alive
    · intro conn there
      rw [List.mem_append, List.mem_singleton] at there
      obtain earlier | rfl := there
      · exact stayed conn earlier
      · obtain ⟨s, found, leaving, -⟩ := unregister_cases taken
        have ended := gone conn _ (standing?_of_session? found)
        rw [Session.standing, leaving] at ended
        cases ended

/-- Connections break off if no queue can be made for them, and then each of them does. -/
theorem breaksOff_iff (ran : (fresh limits).run steps = some r) :
    BreaksOff steps r conn ↔
      conn < r.sessions.length ∧ Outbound.isUsableCapacity limits.outboundCapacity = false := by
  constructor
  · rintro ⟨⟨st, found, gone⟩, stayed⟩
    obtain ⟨s, there, -⟩ := Option.map_eq_some_iff.mp found
    refine ⟨(List.getElem?_eq_some_iff.mp there).1, ?_⟩
    by_contra usable
    exact stayed (unregistered_of_run (by simpa using usable) ran found gone)
  · rintro ⟨there, unusable⟩
    obtain ⟨gone, stayed⟩ := gone_of_run unusable ran
    have found := standing?_of_session? (r := r) (List.getElem?_eq_getElem there)
    exact ⟨⟨_, found, gone conn _ found⟩, stayed conn⟩

end Relay

namespace Config

/-- What limits are good for. -/
structure Serves (limits : Limits) : Prop where
  frames : minFrameSize ≤ limits.maxFrameSize ∧ limits.maxFrameSize < UInt64.size
  room : 1 ≤ limits.outboundCapacity ∧ limits.outboundCapacity < UInt64.size
  /-- With a capacity that no queue can have connections are accepted all the same, and each of them
  breaks off. -/
  handles : ∀ (steps : List Relay.Step) (r : Relay) (conn : ConnId),
    (Relay.fresh limits).run steps = some r →
      (Relay.BreaksOff steps r conn ↔
        conn < r.sessions.length ∧ Outbound.maxCapacity < limits.outboundCapacity)

theorem loaded_limits_serve {lookup : String → Option String} {c : Config}
    (loaded : load lookup = .ok c) : Serves c.limits := by
  have gives := load_eq_ok.mp loaded
  obtain ⟨frames, enough⟩ := gives .frameLimit
  obtain ⟨capacity, room⟩ := gives .capacity
  refine ⟨⟨enough, frames.small⟩, ⟨room, capacity.small⟩, fun steps r conn ran => ?_⟩
  have tooLarge : Outbound.isUsableCapacity c.limits.outboundCapacity = false ↔
      Outbound.maxCapacity < c.limits.outboundCapacity := by
    have some : 1 ≤ c.limits.outboundCapacity := room
    simp [Outbound.isUsableCapacity, some]
  rw [Relay.breaksOff_iff ran, tooLarge]

/-- The variables of a relay that is started with a capacity and nothing else. -/
def withCapacity (capacity key : String) : Option String :=
  if key = capacityKey then some capacity else none

/-- The largest capacity of a queue. -/
theorem loaded_limits_serve_most :
    ∃ c, load (withCapacity "2305843009213693951") = .ok c ∧
      c.limits.outboundCapacity = Outbound.maxCapacity ∧ Serves c.limits := by
  have loaded : load (withCapacity "2305843009213693951") =
      .ok ⟨.v4 0 0 0 0 8080, ⟨2305843009213693951, 5000, Frame.defaultLimit⟩⟩ := by rfl
  exact ⟨_, loaded, by decide, loaded_limits_serve loaded⟩

/-- The next one is read as well, and the first connection that is accepted breaks off. -/
theorem loaded_capacity_breaks_off :
    ∃ c r, load (withCapacity "2305843009213693952") = .ok c ∧
      ¬ c.limits.outboundCapacity ≤ Outbound.maxCapacity ∧
      (Relay.fresh c.limits).run [.accept (.v4 127 0 0 1 9)] = some r ∧
      Relay.BreaksOff [.accept (.v4 127 0 0 1 9)] r 0 := by
  have loaded : load (withCapacity "2305843009213693952") =
      .ok ⟨.v4 0 0 0 0 8080, ⟨2305843009213693952, 5000, Frame.defaultLimit⟩⟩ := by rfl
  exact ⟨_, _, loaded, by decide, rfl, ⟨⟨none, .gone⟩, rfl, rfl⟩, by decide⟩

end Config

end Mailroom
