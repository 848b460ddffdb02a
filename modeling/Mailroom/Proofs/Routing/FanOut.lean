import Mailroom.Proofs.Routing
import Mathlib.Data.List.Nodup

/-!
# Handing a frame over to many

A frame is handed over with one attempt for each connection that it goes to, and the attempts are
under way at the same time. An attempt is over at once if the queue is closed or has room; if the
queue is full it is over when the time of its connection has run out. When and in which order the
attempts end is left open here: `FanOut.run` goes through any course of them.

The statement is that the courses cannot be told apart. What comes of an attempt, and when it can be
over, is for its own connection alone to say, and all courses end with the counts and the queues
that one attempt after the other leads to.
-/

namespace Mailroom

/-- What comes of an attempt to queue a frame on a connection, and the connection after it. -/
inductive Connection.Attempt (c : Connection) (frame : Bytes) :
    Except DeliveryError Unit → Connection → Prop
  | queued (receiving : c.queue.receivingEnd = .receiving)
      (room : c.queue.frames.length < c.queue.capacity) :
      Attempt c frame (.ok ())
        { c with queue := { c.queue with frames := c.queue.frames ++ [frame] } }
  | late (receiving : c.queue.receivingEnd = .receiving)
      (full : c.queue.capacity ≤ c.queue.frames.length) :
      Attempt c frame (.error (.timeout c.timeoutMs)) c
  | refused (closed : c.queue.receivingEnd ≠ .receiving) : Attempt c frame (.error .closed) c

namespace Connection

variable {c c' : Connection} {frame : Bytes} {result : Except DeliveryError Unit}

theorem attempt_send (c : Connection) (frame : Bytes) :
    c.Attempt frame (c.send frame).1 (c.send frame).2 := by
  cases closed : c.queue.isClosed with
  | true =>
    rw [send, if_pos closed]
    exact .refused (of_decide_eq_true closed)
  | false =>
    have receiving := Decidable.not_not.mp (of_decide_eq_false closed)
    rw [send, if_neg (ne_true_of_eq_false closed)]
    cases full : c.queue.isFull with
    | true =>
      rw [if_pos rfl]
      exact .late receiving (of_decide_eq_true full)
    | false =>
      rw [if_neg Bool.false_ne_true]
      exact .queued receiving (Nat.lt_of_not_le (of_decide_eq_false full))

/-- A connection has one answer to a frame. -/
theorem Attempt.eq_send (attempt : c.Attempt frame result c') : c.send frame = (result, c') := by
  cases attempt with
  | queued receiving room =>
    exact send_eq_ok_iff.mpr ⟨by simp [Outbound.isClosed, receiving],
      decide_eq_false (Nat.not_le_of_lt room), rfl⟩
  | late receiving full => simp [send, Outbound.isClosed, receiving, Outbound.isFull, full]
  | refused closed => simp [send, Outbound.isClosed, closed]

end Connection

/-- The counts that results add up to. -/
def Delivery.ofResults (results : List (Except DeliveryError Unit)) : Delivery :=
  ⟨results.countP Except.isOk, results.countP fun result => !result.isOk⟩

theorem Delivery.ofResults_perm {results results' : List (Except DeliveryError Unit)}
    (perm : results.Perm results') : ofResults results = ofResults results' := by
  rw [ofResults, ofResults, perm.countP_eq, perm.countP_eq]

theorem Delivery.sum_ofResults (results : List (Except DeliveryError Unit)) :
    (ofResults results).delivered + (ofResults results).failed = results.length := by
  rw [List.length_eq_countP_add_countP Except.isOk]
  simp [ofResults]

namespace Exchange

/-- What comes of an attempt on one of the connections, and that connection after it. -/
inductive Attempt (x : Exchange) (conn : ConnId) (frame : Bytes) :
    Except DeliveryError Unit → Option Connection → Prop
  | made {c c' : Connection} {result : Except DeliveryError Unit}
      (found : x.connection? conn = some c) (attempt : c.Attempt frame result c') :
      Attempt x conn frame result (some c')
  | absent (missing : x.connection? conn = none) : Attempt x conn frame (.error .closed) none

variable {x y : Exchange} {conn other : ConnId} {frame : Bytes}
  {result result' : Except DeliveryError Unit} {c? c?' : Option Connection}

/-- Exchanges are told apart by their registries and their connections. -/
theorem ext_connections (registry : x.registry = y.registry)
    (connections : ∀ conn, x.connection? conn = y.connection? conn) : x = y := by
  obtain ⟨G, cs⟩ := x
  obtain ⟨G', cs'⟩ := y
  cases registry
  exact congrArg _ (List.ext_getElem? connections)

theorem registry_post (x : Exchange) (conn : ConnId) (frame : Bytes) :
    (x.post conn frame).2.registry = x.registry := by
  rw [post]
  split <;> rfl

theorem connection?_post_of_ne (x : Exchange) (frame : Bytes) (differs : other ≠ conn) :
    (x.post conn frame).2.connection? other = x.connection? other := by
  rw [post]
  split
  · rfl
  · exact List.getElem?_set_ne (Ne.symm differs)

theorem attempt_post (x : Exchange) (conn : ConnId) (frame : Bytes) :
    x.Attempt conn frame (x.post conn frame).1 ((x.post conn frame).2.connection? conn) := by
  cases found : x.connection? conn with
  | none =>
    rw [post, found]
    dsimp only
    rw [found]
    exact .absent found
  | some c =>
    obtain ⟨inside, -⟩ := List.getElem?_eq_some_iff.mp found
    have here : (x.post conn frame).2.connection? conn = some (c.send frame).2 := by
      rw [post, found]
      exact List.getElem?_set_self inside
    rw [here, post, found]
    exact .made found (c.attempt_send frame)

theorem Attempt.of_same (same : x.connection? conn = y.connection? conn)
    (attempt : x.Attempt conn frame result c?) : y.Attempt conn frame result c? := by
  cases attempt with
  | made found attempt => exact .made (same ▸ found) attempt
  | absent missing => exact .absent (same ▸ missing)

theorem Attempt.unique (attempt : x.Attempt conn frame result c?)
    (attempt' : x.Attempt conn frame result' c?') : result = result' ∧ c? = c?' := by
  cases attempt with
  | made found attempt =>
    cases attempt' with
    | made found' attempt' =>
      cases found.symm.trans found'
      cases attempt.eq_send.symm.trans attempt'.eq_send
      exact ⟨rfl, rfl⟩
    | absent missing => cases found.symm.trans missing
  | absent missing =>
    cases attempt' with
    | made found attempt' => cases missing.symm.trans found
    | absent missing' => exact ⟨rfl, rfl⟩

/-- One attempt after the other is the first one and then the others. -/
theorem postAll_cons {results : List (Except DeliveryError Unit)} {conns : List ConnId}
    (others : (x.post conn frame).2.postAll frame conns = (.ofResults results, y)) :
    x.postAll frame (conn :: conns) = (.ofResults ((x.post conn frame).1 :: results), y) := by
  rcases posted : x.post conn frame with ⟨e | ⟨⟨⟩⟩, x'⟩
  all_goals
    rw [posted] at others
    dsimp only at others
    rw [postAll, posted]
    dsimp only
    rw [others]
    simp [Delivery.ofResults, Except.isOk, Except.toBool, List.countP_cons]

end Exchange

/-- A frame that is being handed over. -/
structure FanOut where
  exchange : Exchange
  /-- The time since all attempts were begun. -/
  elapsedMs : Nat
  /-- The connections on which the attempt is not over. -/
  waiting : List ConnId
  /-- What came of the attempts that are over. -/
  results : List (ConnId × Except DeliveryError Unit)

namespace FanOut

inductive Step where
  | wait (ms : Nat)
  /-- The attempt on a connection is over. -/
  | settle (conn : ConnId)
  deriving DecidableEq

def fresh (x : Exchange) (targets : List ConnId) : FanOut := ⟨x, 0, targets, []⟩

/-- It takes the time of a connection to find that it had too little. -/
def isDue (elapsedMs : Nat) : Except DeliveryError Unit → Bool
  | .error (.timeout afterMs) => afterMs ≤ elapsedMs
  | _ => true

def step (frame : Bytes) (s : FanOut) : Step → Option FanOut
  | .wait ms => some { s with elapsedMs := s.elapsedMs + ms }
  | .settle conn =>
    let (result, exchange) := s.exchange.post conn frame
    if conn ∈ s.waiting && isDue s.elapsedMs result then
      some { s with
        exchange
        waiting := s.waiting.erase conn
        results := s.results ++ [(conn, result)] }
    else none

def run (frame : Bytes) (s : FanOut) : List Step → Option FanOut
  | [] => some s
  | t :: steps => do (← s.step frame t).run frame steps

/-- How far a frame has got, some attempts being over and some not. -/
structure Midway (x : Exchange) (frame : Bytes) (targets : List ConnId) (s : FanOut) : Prop where
  /-- There is one attempt for each target. -/
  each : (s.waiting ++ s.results.map Prod.fst).Perm targets
  /-- What came of an attempt was for its own connection to say, as it was at the start. -/
  own : ∀ conn result, (conn, result) ∈ s.results →
    x.Attempt conn frame result (s.exchange.connection? conn)
  untouched : ∀ conn, conn ∉ s.results.map Prod.fst →
    s.exchange.connection? conn = x.connection? conn
  registry_eq : s.exchange.registry = x.registry

variable {x : Exchange} {frame : Bytes} {targets : List ConnId} {s s' : FanOut} {conn : ConnId}
  {steps : List Step} {t : Step}

theorem settle_eq_some : s.step frame (.settle conn) = some s' ↔
    conn ∈ s.waiting ∧ isDue s.elapsedMs (s.exchange.post conn frame).1 ∧
      s' = { s with
        exchange := (s.exchange.post conn frame).2
        waiting := s.waiting.erase conn
        results := s.results ++ [(conn, (s.exchange.post conn frame).1)] } := by
  rw [step, Option.ite_none_right_eq_some, Bool.and_eq_true, decide_eq_true_iff, and_assoc,
    Option.some_inj, eq_comm (b := s')]

theorem midway_fresh (x : Exchange) (frame : Bytes) (targets : List ConnId) :
    Midway x frame targets (fresh x targets) where
  each := by simp [fresh]
  own := nofun
  untouched _ _ := rfl
  registry_eq := rfl

theorem Midway.not_tried (midway : Midway x frame targets s) (distinct : targets.Nodup)
    (waits : conn ∈ s.waiting) : conn ∉ s.results.map Prod.fst := by
  have apart := List.nodup_append.mp (midway.each.nodup_iff.mpr distinct)
  exact fun tried => apart.2.2 conn waits conn tried rfl

/-- While an attempt is not over, its connection is as it was. -/
theorem Midway.connection?_waiting (midway : Midway x frame targets s) (distinct : targets.Nodup)
    (waits : conn ∈ s.waiting) : s.exchange.connection? conn = x.connection? conn :=
  midway.untouched conn (midway.not_tried distinct waits)

theorem Midway.settle (midway : Midway x frame targets s) (distinct : targets.Nodup)
    (settled : s.step frame (.settle conn) = some s') : Midway x frame targets s' := by
  obtain ⟨waits, -, rfl⟩ := settle_eq_some.mp settled
  have same := midway.connection?_waiting distinct waits
  constructor
  case each =>
    refine .trans ?_ midway.each
    rw [List.map_append, ← List.append_assoc]
    refine List.perm_append_comm.trans ?_
    exact ((List.perm_cons_erase waits).append_right _).symm
  case own =>
    intro other result there
    rcases List.mem_append.mp there with earlier | now
    · have differs : other ≠ conn := by
        rintro rfl
        exact midway.not_tried distinct waits (List.mem_map_of_mem earlier)
      rw [s.exchange.connection?_post_of_ne frame differs]
      exact midway.own other result earlier
    · cases List.mem_singleton.mp now
      exact .of_same same (s.exchange.attempt_post conn frame)
  case untouched =>
    intro other absent
    rw [List.map_append, List.mem_append, not_or] at absent
    have differs : other ≠ conn := fun here => absent.2 (List.mem_singleton.mpr here)
    rw [s.exchange.connection?_post_of_ne frame differs]
    exact midway.untouched other absent.1
  case registry_eq => exact (s.exchange.registry_post conn frame).trans midway.registry_eq

theorem Midway.of_step (midway : Midway x frame targets s) (distinct : targets.Nodup)
    (taken : s.step frame t = some s') : Midway x frame targets s' := by
  cases t with
  | wait ms =>
    cases taken
    exact ⟨midway.each, midway.own, midway.untouched, midway.registry_eq⟩
  | settle conn => exact midway.settle distinct taken

theorem Midway.of_run (midway : Midway x frame targets s) (distinct : targets.Nodup)
    (ran : s.run frame steps = some s') : Midway x frame targets s' := by
  induction steps generalizing s with
  | nil =>
    cases ran
    exact midway
  | cons t steps ih =>
    obtain ⟨s₁, taken, ran⟩ := Option.bind_eq_some_iff.mp ran
    exact ih (midway.of_step distinct taken) ran

theorem isDue_iff {elapsedMs : Nat} {result : Except DeliveryError Unit} :
    isDue elapsedMs result ↔ ∀ ms, result = .error (.timeout ms) → ms ≤ elapsedMs := by
  rcases result with (_ | _) | _ <;> simp [isDue]

/-- An attempt can be over at once, unless it is to fail for want of time; then it takes the time of
its connection. -/
theorem Midway.isSome_settle_iff (midway : Midway x frame targets s) (distinct : targets.Nodup)
    (waits : conn ∈ s.waiting) :
    (s.step frame (.settle conn)).isSome ↔
      ∀ ms c?, x.Attempt conn frame (.error (.timeout ms)) c? → ms ≤ s.elapsedMs := by
  have attempt := (s.exchange.attempt_post conn frame).of_same
    (midway.connection?_waiting distinct waits)
  rw [Option.isSome_iff_exists]
  simp only [settle_eq_some, isDue_iff]
  constructor
  · rintro ⟨s', -, due, -⟩ ms c? late
    exact due ms (attempt.unique late).1
  · intro enough
    refine ⟨_, waits, fun ms late => ?_, rfl⟩
    rw [late] at attempt
    exact enough ms _ attempt

/-- If there was time enough, the attempts can be over one after the other. -/
theorem Midway.run_settle (midway : Midway x frame targets s) (distinct : targets.Nodup)
    (enough : ∀ conn ∈ s.waiting, ∀ ms c?,
      x.Attempt conn frame (.error (.timeout ms)) c? → ms ≤ s.elapsedMs) :
    ∃ s' results, s.run frame (s.waiting.map .settle) = some s' ∧ s'.waiting = [] ∧
      s'.elapsedMs = s.elapsedMs ∧ s'.results = s.results ++ results ∧
      s.exchange.postAll frame s.waiting = (.ofResults (results.map Prod.snd), s'.exchange) := by
  generalize left : s.waiting = waiting
  induction waiting generalizing s with
  | nil => exact ⟨s, [], rfl, left, rfl, by simp, rfl⟩
  | cons conn waiting ih =>
    have waits : conn ∈ s.waiting := left ▸ List.mem_cons_self
    obtain ⟨s₁, settled⟩ := Option.isSome_iff_exists.mp
      ((midway.isSome_settle_iff distinct waits).mpr (enough conn waits))
    have midway₁ := midway.settle distinct settled
    obtain ⟨-, -, rfl⟩ := settle_eq_some.mp settled
    obtain ⟨s', results, ran, ended, elapsed, later, all⟩ :=
      ih midway₁ (fun conn there => enough conn (List.mem_of_mem_erase there)) (by simp [left])
    refine ⟨s', (conn, (s.exchange.post conn frame).1) :: results, ?_, ended, elapsed, ?_,
      Exchange.postAll_cons all⟩
    · rw [List.map_cons, run, settled]
      exact ran
    · rw [later, List.append_assoc, List.singleton_append]

/-- What comes of an attempt does not depend on who else the frame is for, nor on how they are. -/
theorem Midway.same_outcome {y : Exchange} {targets' : List ConnId}
    {result result' : Except DeliveryError Unit} (midway : Midway x frame targets s)
    (midway' : Midway y frame targets' s') (same : x.connection? conn = y.connection? conn)
    (there : (conn, result) ∈ s.results) (there' : (conn, result') ∈ s'.results) :
    result = result' ∧ s.exchange.connection? conn = s'.exchange.connection? conn :=
  ((midway.own conn _ there).of_same same).unique (midway'.own conn _ there')

/-- All courses come to the same. -/
theorem Midway.agree (midway : Midway x frame targets s) (midway' : Midway x frame targets s')
    (distinct : targets.Nodup) (ended : s.waiting = []) (ended' : s'.waiting = []) :
    s.exchange = s'.exchange ∧ s.results.Perm s'.results := by
  have each := midway.each
  have each' := midway'.each
  rw [ended, List.nil_append] at each
  rw [ended', List.nil_append] at each'
  have tried : ∀ conn, conn ∈ s.results.map Prod.fst ↔ conn ∈ s'.results.map Prod.fst :=
    fun conn => each.mem_iff.trans each'.mem_iff.symm
  constructor
  · refine Exchange.ext_connections (midway.registry_eq.trans midway'.registry_eq.symm) ?_
    intro conn
    by_cases here : conn ∈ s.results.map Prod.fst
    · obtain ⟨⟨_, result'⟩, there', rfl⟩ := List.mem_map.mp ((tried conn).mp here)
      obtain ⟨⟨_, result⟩, there, rfl⟩ := List.mem_map.mp here
      exact (midway.same_outcome midway' rfl there there').2
    · rw [midway.untouched conn here, midway'.untouched conn (mt (tried conn).mpr here)]
  · have single := (each.nodup_iff.mpr distinct).of_map Prod.fst
    have single' := (each'.nodup_iff.mpr distinct).of_map Prod.fst
    refine (List.perm_ext_iff_of_nodup single single').mpr ?_
    rintro ⟨conn, result⟩
    constructor
    · intro there
      obtain ⟨⟨_, result'⟩, there', rfl⟩ :=
        List.mem_map.mp ((tried conn).mp (List.mem_map_of_mem there))
      rwa [(midway.same_outcome midway' rfl there there').1]
    · intro there'
      obtain ⟨⟨_, result⟩, there, rfl⟩ :=
        List.mem_map.mp ((tried conn).mpr (List.mem_map_of_mem there'))
      rwa [← (midway.same_outcome midway' rfl there there').1]

/-- Of the attempts that are to fail for want of time, one takes the longest, or there are none. -/
theorem exists_longest (x : Exchange) (frame : Bytes) (targets : List ConnId) :
    ∃ longest, (longest = 0 ∨
        ∃ conn ∈ targets, ∃ c?, x.Attempt conn frame (.error (.timeout longest)) c?) ∧
      ∀ conn ∈ targets, ∀ ms c?, x.Attempt conn frame (.error (.timeout ms)) c? → ms ≤ longest := by
  induction targets with
  | nil => exact ⟨0, .inl rfl, nofun⟩
  | cons conn targets ih =>
    obtain ⟨longest, taken, bound⟩ := ih
    by_cases longer : ∃ ms c?, x.Attempt conn frame (.error (.timeout ms)) c? ∧ longest < ms
    · obtain ⟨ms, c?, late, longer⟩ := longer
      refine ⟨ms, .inr ⟨conn, List.mem_cons_self, c?, late⟩, List.forall_mem_cons.mpr ⟨?_, ?_⟩⟩
      · intro ms' c?' late'
        cases (late.unique late').1
        exact Nat.le_refl ms
      · intro other there ms' c?' late'
        exact Nat.le_trans (bound other there ms' c?' late') (Nat.le_of_lt longer)
    · refine ⟨longest, ?_, List.forall_mem_cons.mpr ⟨?_, bound⟩⟩
      · rcases taken with none | ⟨other, there, late⟩
        · exact .inl none
        · exact .inr ⟨other, List.mem_cons_of_mem conn there, late⟩
      · intro ms c? late
        exact Nat.le_of_not_lt fun more => longer ⟨ms, c?, late, more⟩

/-- A frame is handed over to these connections, and this is what it comes to. -/
structure HandsOver (x : Exchange) (frame : Bytes) (targets : List ConnId)
    (outcome : Delivery × Exchange) : Prop where
  distinct : targets.Nodup
  /-- No attempt has anything to do with the others, at any moment of any course. -/
  midway : ∀ steps s, (fresh x targets).run frame steps = some s → Midway x frame targets s
  /-- Nor does it wait for any of them. -/
  settles : ∀ steps s, (fresh x targets).run frame steps = some s → ∀ conn ∈ s.waiting,
    ((s.step frame (.settle conn)).isSome ↔
      ∀ ms c?, x.Attempt conn frame (.error (.timeout ms)) c? → ms ≤ s.elapsedMs)
  /-- Whatever the other connections are like, and whoever else the frame is for, the same comes of
  an attempt. -/
  independent : ∀ y targets' steps s steps' s', targets'.Nodup →
    (fresh x targets).run frame steps = some s → (fresh y targets').run frame steps' = some s' →
    ∀ conn result result', x.connection? conn = y.connection? conn →
      (conn, result) ∈ s.results → (conn, result') ∈ s'.results →
        result = result' ∧ s.exchange.connection? conn = s'.exchange.connection? conn
  /-- All attempts can be over by the time that one of them takes. -/
  ends : ∃ steps s, (fresh x targets).run frame steps = some s ∧ s.waiting = [] ∧
    (s.elapsedMs = 0 ∨
      ∃ conn ∈ targets, ∃ c?, x.Attempt conn frame (.error (.timeout s.elapsedMs)) c?)
  /-- In the end, what came of the attempts is counted. -/
  counts : ∀ steps s, (fresh x targets).run frame steps = some s → s.waiting = [] →
    outcome = (.ofResults (s.results.map Prod.snd), s.exchange)
  sum : outcome.1.delivered + outcome.1.failed = targets.length

theorem handsOver_postAll (x : Exchange) (frame : Bytes) (distinct : targets.Nodup) :
    HandsOver x frame targets (x.postAll frame targets) := by
  have fresh_midway := midway_fresh x frame targets
  have midway : ∀ steps s, (fresh x targets).run frame steps = some s →
      Midway x frame targets s := fun _ _ ran => fresh_midway.of_run distinct ran
  obtain ⟨longest, taken, bound⟩ := exists_longest x frame targets
  -- The one course in which all time is waited for first, and then the attempts come in their order.
  have waited : Midway x frame targets { fresh x targets with elapsedMs := 0 + longest } :=
    fresh_midway.of_step distinct (t := .wait longest) rfl
  obtain ⟨s, results, ran, ended, elapsed, all, posted⟩ :=
    waited.run_settle distinct fun conn there => by simpa using bound conn there
  have course : (fresh x targets).run frame (.wait longest :: targets.map .settle) = some s := ran
  have counted : x.postAll frame targets = (.ofResults (s.results.map Prod.snd), s.exchange) := by
    rw [all]
    exact posted
  have counts : ∀ steps s', (fresh x targets).run frame steps = some s' → s'.waiting = [] →
      x.postAll frame targets = (.ofResults (s'.results.map Prod.snd), s'.exchange) := by
    intro steps s' ran' ended'
    obtain ⟨same, perm⟩ :=
      (midway _ _ course).agree (midway _ _ ran') distinct ended ended'
    rw [counted, same, Delivery.ofResults_perm (perm.map Prod.snd)]
  constructor
  case distinct => exact distinct
  case midway => exact midway
  case settles =>
    intro steps s ran conn waits
    exact (midway _ _ ran).isSome_settle_iff distinct waits
  case independent =>
    intro y targets' steps s steps' s' distinct' ran ran' conn result result' same
    exact (midway _ _ ran).same_outcome ((midway_fresh y frame targets').of_run distinct' ran') same
  case ends =>
    refine ⟨_, s, course, ended, ?_⟩
    rw [elapsed]
    simpa using taken
  case counts => exact counts
  case sum =>
    have each := (midway _ _ course).each.length_eq
    rw [ended, List.nil_append, List.length_map] at each
    rw [counted, Delivery.sum_ofResults, List.length_map, each]

end FanOut

namespace Exchange

/-- However a frame is handed over, it goes to the connections it is for, to each by an attempt of
its own. -/
structure FansOut (x : Exchange) : Prop where
  targets : ∀ senderId conn, conn ∈ x.registry.others senderId ↔
    ∃ e ∈ x.registry.snapshot, e.identity.id ≠ senderId ∧ e.conn = conn
  broadcast : ∀ senderId frame, FanOut.HandsOver x frame (x.registry.others senderId)
    (x.postAll frame (x.registry.others senderId))
  joins : ∀ identity, FanOut.HandsOver x (Frame.encode (.registration identity))
    (x.registry.others identity.id) (x.announceJoin identity)
  routesToAll : ∀ sender f delivery x', x.route sender f = (.ok delivery, x') →
    f.envelope.recipient? = none →
    FanOut.HandsOver x f.relayed (x.registry.others sender.id) (delivery, x')
  routesToOne : ∀ sender f delivery x' id, x.route sender f = (.ok delivery, x') →
    f.envelope.recipient? = some id →
    ∃ conn, x.registry.lookup id = some conn ∧
      FanOut.HandsOver x f.relayed [conn] (delivery, x')

/-- Where every connection is registered once at most, frames are handed over to each client that
they are for, and what becomes of one has nothing to do with the others. -/
theorem targets_are_attempted_apart {x : Exchange}
    (single : (x.registry.entries.map Registered.conn).Nodup) : x.FansOut := by
  have distinct : ∀ senderId, (x.registry.others senderId).Nodup := fun senderId =>
    single.sublist (List.filter_sublist.map _)
  constructor
  case targets =>
    intro senderId conn
    simp only [Registry.others, List.mem_map, List.mem_filter, decide_eq_true_eq, and_assoc]
  case broadcast =>
    intro senderId frame
    exact FanOut.handsOver_postAll x frame (distinct senderId)
  case joins =>
    intro identity
    exact FanOut.handsOver_postAll x _ (distinct identity.id)
  case routesToAll =>
    intro sender f delivery x' routed toAll
    obtain ⟨d, fate, posted⟩ := route_eq_ok.mp routed
    rw [← posted]
    cases fate with
    | toOne _ _ toOne _ => cases toOne.symm.trans toAll
    | toAll => exact FanOut.handsOver_postAll x f.relayed (distinct sender.id)
  case routesToOne =>
    intro sender f delivery x' id routed toOne
    obtain ⟨d, fate, posted⟩ := route_eq_ok.mp routed
    rw [← posted]
    cases fate with
    | toOne _ _ toOne' found =>
      cases toOne'.symm.trans toOne
      exact ⟨_, found, FanOut.handsOver_postAll x f.relayed (List.nodup_singleton _)⟩
    | toAll _ _ toAll => cases toAll.symm.trans toOne

/-- A client `a` and three others: a queue that is full, one that is closed and one with room. -/
def ofFour : Exchange where
  registry := ⟨[⟨⟨"a", "A"⟩, 0⟩, ⟨⟨"b", "B"⟩, 1⟩, ⟨⟨"c", "C"⟩, 2⟩, ⟨⟨"d", "D"⟩, 3⟩]⟩
  connections := [
    ⟨.v4 127 0 0 1 1, ⟨4, [], .receiving⟩, 50, false⟩,
    ⟨.v4 127 0 0 1 2, ⟨1, [[5]], .receiving⟩, 50, false⟩,
    ⟨.v4 127 0 0 1 3, ⟨4, [], .closed⟩, 50, false⟩,
    ⟨.v4 127 0 0 1 4, ⟨4, [[6]], .receiving⟩, 50, false⟩]

theorem targets_are_attempted_apart_four :
    (ofFour.registry.entries.map Registered.conn).Nodup ∧
      ∃ s, (FanOut.fresh ofFour [1, 2, 3]).run [7] [.settle 3, .settle 2, .wait 50, .settle 1] =
          some s ∧
        ofFour.postAll [7] (ofFour.registry.others "a") = (⟨1, 2⟩, s.exchange) ∧
        s.exchange.connections.map (fun c => c.queue.frames) = [[], [[5]], [], [[6], [7]]] := by
  have single : (ofFour.registry.entries.map Registered.conn).Nodup := by decide
  have goes : ((FanOut.fresh ofFour [1, 2, 3]).run [7]
      [.settle 3, .settle 2, .wait 50, .settle 1]).isSome := by decide +kernel
  obtain ⟨s, ran⟩ := Option.isSome_iff_exists.mp goes
  have others : ofFour.registry.others "a" = [1, 2, 3] := by decide +kernel
  have handed := (targets_are_attempted_apart single).broadcast "a" [7]
  rw [others] at handed ⊢
  have counted := handed.counts _ s ran
  cases ran
  exact ⟨single, _, rfl, counted rfl, rfl⟩

end Exchange

end Mailroom
