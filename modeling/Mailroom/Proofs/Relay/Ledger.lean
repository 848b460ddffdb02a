import Mailroom.Proofs.Relay.Course

/-!
# The ledger of a session

What has become of the frames that one session has read. A frame is tried on nobody before it is
known where it goes. From then on the targets that it was tried on and those that are still due are,
together, the destinations that the registry named: none is left out and none comes twice. What is
for everyone else is never dropped when it comes from the client that it names.
-/

namespace Mailroom

open History

variable {G G' : Registry} {conn target : ConnId} {n : Nat} {st st' : Standing}
  {e? : Option Event} {own : History} {i? j? : Option Identity} {f : Inbound} {frame : Bytes}

namespace History

theorem attempts_append (h h' : History) (conn : ConnId) (n : Nat) :
    attempts (h ++ h') conn n = attempts h conn n ++ attempts h' conn n := List.filterMap_append

theorem numbersFor_append (h h' : History) (conn target : ConnId) :
    numbersFor (h ++ h') conn target = numbersFor h conn target ++ numbersFor h' conn target :=
  List.filterMap_append

theorem filterMap_cons_toList {α : Type} (g : Event → Option α) (e : Event) (h : History) :
    (e :: h).filterMap g = (g e).toList ++ h.filterMap g := by
  rw [List.filterMap_cons]
  cases g e <;> rfl

theorem receivers_cons (e : Event) (h : History) (conn : ConnId) (n : Nat) :
    receivers (e :: h) conn n = (e.receiver? conn n).toList ++ receivers h conn n :=
  filterMap_cons_toList _ e h

theorem attempts_cons (e : Event) (h : History) (conn : ConnId) (n : Nat) :
    attempts (e :: h) conn n = (e.attempt? conn n).toList ++ attempts h conn n :=
  filterMap_cons_toList _ e h

theorem numbersFor_cons (e : Event) (h : History) (conn target : ConnId) :
    numbersFor (e :: h) conn target = (e.numberFor? conn target).toList ++ numbersFor h conn target :=
  filterMap_cons_toList _ e h

/-- The targets that got a frame are among those it was tried on. -/
theorem receivers_sublist_attempts (h : History) (conn : ConnId) (n : Nat) :
    (receivers h conn n).Sublist (attempts h conn n) := by
  induction h with
  | nil => exact .slnil
  | cons e h ih =>
    rw [receivers_cons, attempts_cons]
    refine List.Sublist.append ?_ ih
    cases e with
    | missed c m target => exact List.nil_sublist _
    | _ => exact .refl _

/-- Who is never missed gets all that is tried. -/
theorem count_receivers_of_not_missed {h : History} (hit : .missed conn n target ∉ h) :
    (receivers h conn n).count target = (attempts h conn n).count target := by
  induction h with
  | nil => rfl
  | cons e h ih =>
    obtain ⟨now, later⟩ := not_or.mp (mt List.mem_cons.mpr hit)
    rw [receivers_cons, attempts_cons, List.count_append, List.count_append, ih later]
    congr 1
    cases e with
    | missed c m t =>
      by_cases mine : c = conn ∧ m = n
      · have other : t ≠ target := by
          rintro rfl
          exact now (by rw [mine.1, mine.2])
        simp [Event.receiver?, Event.attempt?, mine, other]
      · simp [Event.receiver?, Event.attempt?, mine]
    | _ => rfl

/-- A frame was queued for a target as often as the target got the frame. -/
theorem count_numbersFor (h : History) (conn target : ConnId) (n : Nat) :
    (numbersFor h conn target).count n = (receivers h conn n).count target := by
  induction h with
  | nil => rfl
  | cons e h ih =>
    rw [receivers_cons, numbersFor_cons, List.count_append, List.count_append, ih]
    congr 1
    cases e with
    | queued c m t frame =>
      by_cases mine : c = conn
      · by_cases same : m = n <;> by_cases here : t = target <;>
          simp [Event.receiver?, Event.numberFor?, mine, same, here]
      · simp [Event.receiver?, Event.numberFor?, mine]
    | _ => rfl

end History

/-- The targets that the frame in hand is still to be tried on. -/
def Standing.pending (st : Standing) : List ConnId :=
  match st.activity with
  | .posting d => d.targets
  | _ => []

@[simp]
theorem Standing.pending_ofDispatch (i? : Option Identity) (d : Dispatch) :
    Standing.pending ⟨i?, .ofDispatch d⟩ = d.targets := by
  unfold Activity.ofDispatch
  split
  next none => exact (List.isEmpty_iff.mp none).symm
  next => rfl

/-- The targets that a frame is still to be tried on, which is none unless it is in hand. -/
def due (own : History) (conn : ConnId) (st : Standing) (n : Nat) : List ConnId :=
  if n = reads own conn then st.pending else []

theorem due_of_pending_eq_nil (none : st.pending = []) : due own conn st n = [] := by
  rw [due, none, ite_self]

theorem due_of_ne (other : n ≠ reads own conn) : due own conn st n = [] := if_neg other

/-- To try a target is to move it from those that are due to those that were tried. -/
theorem due_posted {d : Dispatch} {e : Event} (there : target ∈ d.targets)
    (quiet : e.isReadBy conn = false)
    (tried : e.attempt? conn n = if n = reads own conn then some target else none) :
    (attempts [e] conn n ++ due (own ++ [e]) conn
      ⟨i?, .ofDispatch { d with targets := d.targets.erase target }⟩ n).Perm
    (due own conn ⟨i?, .posting d⟩ n) := by
  rw [attempts_cons, tried]
  by_cases last : n = reads own conn
  · simp only [due, reads_concat_of_not_read quiet, if_pos last, Standing.pending_ofDispatch]
    exact (List.perm_cons_erase there).symm
  · rw [due_of_ne last, due_of_ne (by rwa [reads_concat_of_not_read quiet]), if_neg last]
    exact .refl _

/-- When it is found out where a frame goes, the frame is the one in hand, nothing was found out
about it before, and it names the client that is registered. -/
theorem Turn.addressing {m : Nat} {G₀ : Registry} (turn : Turn G conn n st e? st' G')
    (hand : InHand own conn n st) (made : .addressed conn m G₀ ∈ e?.toList) :
    m = n ∧ G₀ = G ∧ Unaddressed own conn n ∧ ∃ i j? f, st.identity? = some i ∧
      .read conn n j? f ∈ own ∧ f.envelope.senderId = i.id ∧
      st'.pending = G.destinations f.envelope := by
  cases turn with
  | @joins i =>
    cases List.mem_singleton.mp made
    cases hand with
    | idle idle => cases idle
    | @joining i f read registration unaddressed =>
      refine ⟨rfl, rfl, unaddressed, i, none, f, rfl, read, ?_, ?_⟩
      · rw [registration, Envelope.senderId]
      · rw [Standing.pending_ofDispatch, Registry.dispatchJoin_eq registration]
  | @routes i f d dispatched =>
    cases List.mem_singleton.mp made
    obtain ⟨honest, rfl⟩ := Registry.of_dispatch_eq_ok dispatched
    cases hand with
    | idle idle => cases idle
    | routing read payload unaddressed =>
      exact ⟨rfl, rfl, unaddressed, i, some i, f, rfl, read, honest,
        Standing.pending_ofDispatch _ _⟩
  | _ => simp at made

namespace Course

/-- A frame is tried on nobody before it is known where it goes. -/
theorem attempts_eq_nil (course : Course conn own st) (unaddressed : Unaddressed own conn n) :
    attempts own conn n = [] := by
  induction course with
  | arrives idle => rfl
  | @turns own st st' e? G G' course turn ih =>
    have before : Unaddressed own conn n := fun G made =>
      unaddressed G (List.mem_append_left _ made)
    have hand := course.inHand
    rw [attempts_append, ih before, List.nil_append]
    cases turn with
    | queues due =>
      cases hand with
      | idle idle => cases idle
      | @posting _ _ _ G _ read addressed frame honest =>
        have other : reads own conn ≠ n := fun same => before G (same ▸ addressed)
        simp [attempts, Event.attempt?, other]
    | misses due =>
      cases hand with
      | idle idle => cases idle
      | @posting _ _ _ G _ read addressed frame honest =>
        have other : reads own conn ≠ n := fun same => before G (same ▸ addressed)
        simp [attempts, Event.attempt?, other]
    | _ => rfl

/-- It is found out once where a frame goes. -/
theorem addressed_unique (course : Course conn own st) (addressed : .addressed conn n G ∈ own)
    (again : .addressed conn n G' ∈ own) : G = G' := by
  induction course with
  | arrives idle => cases addressed
  | turns course turn ih =>
    rcases List.mem_append.mp addressed with before | now <;>
      rcases List.mem_append.mp again with before' | now'
    · exact ih before before'
    · obtain ⟨rfl, -, unaddressed, -⟩ := turn.addressing course.inHand now'
      exact absurd before (unaddressed G)
    · obtain ⟨rfl, -, unaddressed, -⟩ := turn.addressing course.inHand now
      exact absurd before' (unaddressed G')
    · obtain ⟨-, rfl, -, -⟩ := turn.addressing course.inHand now
      obtain ⟨-, rfl, -, -⟩ := turn.addressing course.inHand now'
      rfl

/-- The bytes that are queued are those that are passed on of the frame. -/
theorem relayed_of_queued (course : Course conn own st)
    (queued : .queued conn n target frame ∈ own) :
    ∃ j? f, .read conn n j? f ∈ own ∧ frame = f.relayed := by
  induction course with
  | arrives idle => cases queued
  | turns course turn ih =>
    rcases List.mem_append.mp queued with before | now
    · obtain ⟨j?, f, read, same⟩ := ih before
      exact ⟨j?, f, List.mem_append_left _ read, same⟩
    · have hand := course.inHand
      cases turn with
      | queues due =>
        cases List.mem_singleton.mp now
        cases hand with
        | idle idle => cases idle
        | posting read addressed frame honest =>
          exact ⟨_, _, List.mem_append_left _ read, frame⟩
      | _ => simp at now

/-- What is for everyone else is addressed when it comes from the client that it names, at the
latest when the next frame is read. -/
theorem addressed_of_broadcast {j : Identity} (course : Course conn own st)
    (read : .read conn n (some j) f ∈ own) (payload : f.envelope.kind ≠ .registration)
    (honest : f.envelope.senderId = j.id) (broadcast : f.envelope.recipient? = none) :
    (n = reads own conn ∧ st.activity = .routing f) ∨ ∃ G, .addressed conn n G ∈ own := by
  induction course with
  | arrives idle => cases read
  | @turns own st st' e? G G' course turn ih =>
    rcases List.mem_append.mp read with before | now
    · rcases ih before with ⟨rfl, routing⟩ | ⟨G, addressed⟩
      · have hand := course.inHand
        cases turn with
        | routes dispatched => exact .inr ⟨G, List.mem_append_right _ List.mem_cons_self⟩
        | drops dropped =>
          -- the session is registered as the client that the frame was read of
          cases routing
          cases hand with
          | idle idle => cases idle
          | routing last =>
            obtain ⟨same, -⟩ := course.read_unique before last
            cases same
            rw [Registry.dispatch_of_broadcast payload honest broadcast] at dropped
            cases dropped
        | _ => cases routing
      · exact .inr ⟨G, List.mem_append_left _ addressed⟩
    · have number := turn.number_of_read now
      cases turn with
      | ignores decoded unusable again =>
        simp at now
        obtain ⟨-, rfl, rfl⟩ := now
        exact absurd (again nofun) payload
      | accepts =>
        simp at now
        obtain ⟨-, rfl, rfl⟩ := now
        rw [Option.toList_some, reads_concat_read]
        exact .inl ⟨number, rfl⟩
      | _ => simp at now

/-- A turn keeps the account of a frame of which it was known before where it goes. -/
theorem balance (course : Course conn own st) (turn : Turn G conn (reads own conn) st e? st' G')
    {G₀ : Registry} (addressed : .addressed conn n G₀ ∈ own) :
    (attempts (own ++ e?.toList) conn n ++ due (own ++ e?.toList) conn st' n).Perm
      (attempts own conn n ++ due own conn st n) := by
  have other : ∀ {m G₁}, .addressed conn m G₁ ∈ e?.toList → n ≠ reads own conn := by
    intro m G₁ made
    obtain ⟨-, -, unaddressed, -⟩ := turn.addressing course.inHand made
    rintro rfl
    exact unaddressed G₀ addressed
  rw [attempts_append, List.append_assoc]
  refine List.Perm.append_left _ ?_
  cases turn with
  | queues there => exact due_posted there rfl (by simp [Event.attempt?, eq_comm])
  | misses there => exact due_posted there rfl (by simp [Event.attempt?, eq_comm])
  | joins =>
    have differs := other List.mem_cons_self
    rw [Option.toList_some, due_of_ne differs, due_of_ne (by rwa [reads_concat_of_not_read rfl])]
    exact .refl _
  | routes =>
    have differs := other List.mem_cons_self
    rw [Option.toList_some, due_of_ne differs, due_of_ne (by rwa [reads_concat_of_not_read rfl])]
    exact .refl _
  | _ =>
    rw [due_of_pending_eq_nil rfl, due_of_pending_eq_nil rfl]
    exact .refl _

/-- The targets that a frame was tried on and those that are due are its destinations. -/
theorem attempts_perm (course : Course conn own st) (addressed : .addressed conn n G ∈ own)
    (read : .read conn n j? f ∈ own) :
    (attempts own conn n ++ due own conn st n).Perm (G.destinations f.envelope) := by
  induction course with
  | arrives idle => cases read
  | @turns own st st' e? G₁ G' course turn ih =>
    rcases List.mem_append.mp addressed with before | now
    · have bound : n ≤ reads own conn := course.number_le _ before
      have earlier : .read conn n j? f ∈ own := by
        rcases List.mem_append.mp read with earlier | now
        · exact earlier
        · have := turn.number_of_read now
          omega
      exact (course.balance turn before).trans (ih before earlier)
    · obtain ⟨rfl, rfl, unaddressed, i, k?, g, -, last, -, pending⟩ :=
        turn.addressing course.inHand now
      have same := (turns course turn).read_unique read (List.mem_append_left _ last)
      have untried : attempts e?.toList conn (reads own conn) = [] := by
        cases turn <;> simp at now <;> rfl
      have quiet : reads e?.toList conn = 0 := by
        cases turn <;> simp at now <;> rfl
      rw [attempts_append, course.attempts_eq_nil unaddressed, untried, List.nil_append,
        List.nil_append, due, reads_append, quiet, Nat.add_zero, if_pos rfl,
        pending, same.2]

/-- The frames that are queued for one target come in the order in which they were read. -/
theorem numbersFor_pairwise (course : Course conn own st) (target : ConnId) :
    (numbersFor own conn target).Pairwise (· ≤ ·) := by
  induction course with
  | arrives idle => exact .nil
  | @turns own st st' e? G G' course turn ih =>
    have bound : ∀ m ∈ numbersFor own conn target, m ≤ reads own conn := by
      intro m there
      obtain ⟨e, made, shown⟩ := List.mem_filterMap.mp there
      obtain ⟨frame, rfl⟩ := Event.numberFor?_eq_some.mp shown
      exact course.number_le _ made
    have added : numbersFor e?.toList conn target = [] ∨
        numbersFor e?.toList conn target = [reads own conn] := by
      cases turn with
      | @queues i? d t there =>
        by_cases here : t = target
        · exact .inr (by simp [numbersFor, Event.numberFor?, here])
        · exact .inl (by simp [numbersFor, Event.numberFor?, here])
      | _ => exact .inl rfl
    rw [numbersFor_append]
    rcases added with none | last
    · rw [none, List.append_nil]
      exact ih
    · rw [last, List.pairwise_append]
      refine ⟨ih, List.pairwise_singleton _ _, ?_⟩
      intro m there k now
      rw [List.mem_singleton.mp now]
      exact bound m there

end Course

end Mailroom
