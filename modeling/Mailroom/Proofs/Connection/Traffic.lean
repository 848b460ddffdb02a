import Mailroom.Connection.Writer

/-!
# The traffic of one connection

Any number of callers at a time want to have a frame queued on one connection, and one writer takes
the frames out and writes each of them in pieces. Whatever one of them does is a step, and the steps
come in any order: a call may wait while others are served, its time may run out in the moment in
which there is room, and the writer may stop in the middle of a frame.

A frame that was accepted is written as a whole, or it is the one that is begun, or it waits in the
queue, or it is lost with a writer that has stopped. A close that was only requested stops nothing:
the writer goes on until it sees the request.
-/

namespace Mailroom

/-- A queue for so many frames does not have more. -/
structure Outbound.Fits (capacity : Nat) (q : Outbound) : Prop where
  sized : q.capacity = capacity
  bounded : q.frames.length ≤ capacity

namespace Outbound

variable {capacity : Nat} {q q' : Outbound} {frame : Bytes}

theorem fits_ofCapacity (capacity : Nat) : Fits capacity (.ofCapacity capacity) :=
  ⟨rfl, Nat.zero_le _⟩

theorem Fits.push (fits : q.Fits capacity) (room : q.isFull = false) (frame : Bytes) :
    (q.push frame).Fits capacity := by
  have below := of_decide_eq_false room
  have sized := fits.sized
  refine ⟨sized, ?_⟩
  simp only [Outbound.push, List.length_append, List.length_singleton]
  omega

theorem Fits.take (fits : q.Fits capacity) (first : q.take = (.frame frame, q')) :
    q'.Fits capacity := by
  have front := congrArg List.length (frames_of_take first)
  have kept := q.capacity_take
  rw [List.length_cons] at front
  rw [first] at kept
  have bounded := fits.bounded
  refine ⟨kept.trans fits.sized, ?_⟩
  omega

theorem Fits.drop (fits : q.Fits capacity) : q.drop.Fits capacity := ⟨fits.sized, Nat.zero_le _⟩

end Outbound

/-- A call that wants to have a frame queued. -/
structure Call where
  frame : Bytes
  /-- What the call came to, unless it still waits. -/
  result? : Option (Except DeliveryError Unit)

/-- A connection with its writer and its callers. -/
structure Traffic where
  connection : Connection
  writer : Writer
  /-- All calls that were ever made, which are numbered from zero. -/
  calls : List Call
  /-- The calls that were accepted, with their frames, in the order in which these were queued. -/
  accepted : List (Nat × Bytes)

namespace Traffic

inductive Step where
  | call (frame : Bytes)
  /-- A call that waits tries to queue its frame. It waits on if there is no room. -/
  | attempt (k : Nat)
  /-- The time of a call that waits runs out. There may be room then, which others were promised. -/
  | expire (k : Nat)
  | requestClose
  | take
  | write (n : Nat)
  /-- The writer sees that closing was requested. -/
  | stop
  /-- Writing fails. -/
  | fail
  /-- The writer stops for whatever other reason, and its queue is dropped later. -/
  | quit
  | release
  deriving DecidableEq

def fresh (peer : Address) (capacity timeoutMs : Nat) : Traffic :=
  ⟨.fresh peer capacity timeoutMs, .fresh, [], []⟩

/-- The frame of a call that still waits. -/
def waiting? (t : Traffic) (k : Nat) : Option Bytes :=
  match t.calls[k]? with
  | some ⟨frame, none⟩ => some frame
  | _ => none

/-- A call comes to something. -/
def settle (t : Traffic) (k : Nat) (result : Except DeliveryError Unit) : Traffic :=
  { t with calls := t.calls.modify k fun call => { call with result? := some result } }

/-- Changes the writer together with the connection. -/
def updateWriter (t : Traffic) (f : Writer → Connection → Option (Writer × Connection)) :
    Option Traffic :=
  (f t.writer t.connection).map fun (writer, connection) => { t with writer, connection }

def step (t : Traffic) : Step → Option Traffic
  | .call frame => some { t with calls := t.calls ++ [⟨frame, none⟩] }
  | .attempt k => do
    let frame ← t.waiting? k
    match t.connection.send frame with
    | (.ok (), connection) =>
      some { t.settle k (.ok ()) with connection, accepted := t.accepted ++ [(k, frame)] }
    | (.error .closed, _) => some (t.settle k (.error .closed))
    | (.error (.timeout _), _) => none
  | .expire k => do
    let _ ← t.waiting? k
    if t.connection.queue.isClosed then none
    else some (t.settle k (.error (.timeout t.connection.timeoutMs)))
  | .requestClose => some { t with connection := t.connection.requestClose }
  | .take => t.updateWriter Writer.take?
  | .write n => t.updateWriter fun w c => (w.write? n).map fun w => (w, c)
  | .stop => t.updateWriter Writer.stop?
  | .fail => t.updateWriter Writer.fail?
  | .quit =>
    if t.writer.isRunning then some { t with writer := { t.writer with isRunning := false } }
    else none
  | .release =>
    if t.writer.isRunning then none
    else some { t with connection := { t.connection with queue := t.connection.queue.drop } }

def run (t : Traffic) : List Step → Option Traffic
  | [] => some t
  | s :: steps => do (← t.step s).run steps

/-- The frames that were accepted, in the order in which they were queued. -/
def acceptedFrames (t : Traffic) : List Bytes := t.accepted.map Prod.snd

/-- What a step does. -/
inductive Change (t t' : Traffic) : Prop
  | calls (frame : Bytes) (now : t' = { t with calls := t.calls ++ [⟨frame, none⟩] })
  | accepts {k : Nat} {frame : Bytes} (waiting : t.calls[k]? = some ⟨frame, none⟩)
      (lets : t.connection.queue.isClosed = false) (room : t.connection.queue.isFull = false)
      (now : t' = { t.settle k (.ok ()) with
        connection := { t.connection with queue := t.connection.queue.push frame }
        accepted := t.accepted ++ [(k, frame)] })
  | fails {k : Nat} {frame : Bytes} {e : DeliveryError}
      (waiting : t.calls[k]? = some ⟨frame, none⟩) (now : t' = t.settle k (.error e))
  | requests (now : t' = { t with connection := t.connection.requestClose })
  | takes {frame : Bytes} {q : Outbound} (runs : t.writer.isRunning)
      (done : t.writer.unwritten = []) (first : t.connection.queue.take = (.frame frame, q))
      (now : t' = { t with
        connection := { t.connection with queue := q }
        writer := { t.writer with unwritten := frame } })
  | writes {n : Nat} (runs : t.writer.isRunning) (bound : n ≤ t.writer.unwritten.length)
      (now : t' = { t with
        writer := { t.writer with
          unwritten := t.writer.unwritten.drop n
          written := t.writer.written ++ t.writer.unwritten.take n } })
  /-- The writer has stopped, and the queue may be dropped. -/
  | halts {q : Outbound} (either : q = t.connection.queue ∨ q = t.connection.queue.drop)
      (now : t' = { t with
        connection := { t.connection with queue := q }
        writer := { t.writer with isRunning := false } })

variable {t t' : Traffic} {s : Step} {k : Nat} {frame : Bytes}

theorem waiting?_eq_some : t.waiting? k = some frame ↔ t.calls[k]? = some ⟨frame, none⟩ := by
  unfold waiting?
  split
  next f there => simp [there]
  next other =>
    simp only [reduceCtorEq, false_iff]
    exact other frame

theorem attempt_cases (taken : t.step (.attempt k) = some t') :
    ∃ frame, t.calls[k]? = some ⟨frame, none⟩ ∧
      ((∃ c, t.connection.send frame = (.ok (), c) ∧
        t' = { t.settle k (.ok ()) with connection := c, accepted := t.accepted ++ [(k, frame)] }) ∨
      t' = t.settle k (.error .closed)) := by
  obtain ⟨frame, waiting, taken⟩ := Option.bind_eq_some_iff.mp taken
  refine ⟨frame, waiting?_eq_some.mp waiting, ?_⟩
  split at taken
  next c sent =>
    cases taken
    exact .inl ⟨c, sent, rfl⟩
  next =>
    cases taken
    exact .inr rfl
  next => cases taken

theorem updateWriter_cases {f : Writer → Connection → Option (Writer × Connection)}
    (taken : t.updateWriter f = some t') :
    ∃ w c, f t.writer t.connection = some (w, c) ∧
      t' = { t with writer := w, connection := c } := by
  obtain ⟨⟨w, c⟩, changed, rfl⟩ := Option.map_eq_some_iff.mp taken
  exact ⟨w, c, changed, rfl⟩

theorem change_of_halt {f : Writer → Connection → Option (Writer × Connection)}
    (halt : ∀ w c p, f w c = some p → p = w.halt c) (taken : t.updateWriter f = some t') :
    Change t t' := by
  obtain ⟨w, c, changed, rfl⟩ := updateWriter_cases taken
  cases halt _ _ _ changed
  exact .halts (.inr rfl) rfl

theorem change_of_step (taken : t.step s = some t') : Change t t' := by
  cases s with
  | call frame =>
    cases taken
    exact .calls frame rfl
  | attempt k =>
    obtain ⟨frame, waiting, ⟨c, sent, rfl⟩ | rfl⟩ := attempt_cases taken
    · obtain ⟨lets, room, rfl⟩ := Connection.send_eq_ok_iff.mp sent
      exact .accepts waiting lets room rfl
    · exact .fails waiting rfl
  | expire k =>
    obtain ⟨frame, waiting, taken⟩ := Option.bind_eq_some_iff.mp taken
    split at taken <;> cases taken
    exact .fails (waiting?_eq_some.mp waiting) rfl
  | requestClose =>
    cases taken
    exact .requests rfl
  | take =>
    obtain ⟨w, c, changed, rfl⟩ := updateWriter_cases taken
    obtain ⟨runs, done, frame, q, first, rfl, rfl⟩ := Writer.take?_cases changed
    exact .takes runs done first rfl
  | write n =>
    simp only [step] at taken
    obtain ⟨w, c, changed, rfl⟩ := updateWriter_cases taken
    obtain ⟨w', wrote, same⟩ := Option.map_eq_some_iff.mp changed
    cases same
    obtain ⟨runs, -, bound, rfl⟩ := Writer.write?_cases wrote
    exact .writes runs bound rfl
  | stop => exact change_of_halt (fun w c p stopped => (Writer.stop?_cases stopped).2.2) taken
  | fail => exact change_of_halt (fun w c p failed => (Writer.fail?_cases failed).2.2) taken
  | quit =>
    simp only [step] at taken
    split at taken <;> cases taken
    exact .halts (.inl rfl) rfl
  | release =>
    simp only [step] at taken
    split at taken
    next => cases taken
    next stopped =>
      cases taken
      refine .halts (.inr rfl) ?_
      rw [Bool.not_eq_true] at stopped
      rw [← stopped]

/-- A frame that is begun: a part of it is written, and there is more to be written. Or there is no
such frame, and nothing to be written. -/
inductive Begun : Option Bytes → (part rest : Bytes) → Prop
  | none : Begun none [] []
  | some {frame part rest : Bytes} (whole : frame = part ++ rest) (more : rest ≠ []) :
      Begun (some frame) part rest

/-- Frames that were accepted are written one after the other, each one as a whole but for the one
that is begun. The others are left, and while the writer runs they are in the queue. -/
def Conveys (frames : List Bytes) (w : Writer) (q : Outbound) : Prop :=
  ∃ done begun part left, frames = done ++ begun.toList ++ left ∧
    w.written = done.flatten ++ part ∧ Begun begun part w.unwritten ∧
    (w.isRunning → q.frames = left)

variable {frames done left : List Bytes} {w : Writer} {q : Outbound} {part rest : Bytes} {n : Nat}

/-- A frame of which there is no more to be written is written. -/
theorem conveys_of_part (whole : frames = done ++ frame :: left)
    (written : w.written = done.flatten ++ part) (parts : frame = part ++ w.unwritten)
    (queued : w.isRunning → q.frames = left) : Conveys frames w q := by
  by_cases more : w.unwritten = []
  · refine ⟨done ++ [frame], none, [], left, ?_, ?_, ?_, queued⟩
    · rw [whole, Option.toList_none, List.append_nil, List.append_assoc, List.singleton_append]
    · rw [written, parts, more, List.append_nil, List.append_nil, List.flatten_append,
        List.flatten_singleton]
    · rw [more]
      exact .none
  · refine ⟨done, some frame, part, left, ?_, written, .some parts more, queued⟩
    rw [whole, Option.toList_some, List.append_assoc, List.singleton_append]

theorem Conveys.push (conveys : Conveys frames w q) (frame : Bytes) :
    Conveys (frames ++ [frame]) w (q.push frame) := by
  obtain ⟨done, begun, part, left, whole, written, begins, queued⟩ := conveys
  refine ⟨done, begun, part, left ++ [frame], ?_, written, begins, fun runs => ?_⟩
  · rw [whole, List.append_assoc _ left]
  · rw [Outbound.push, queued runs]

theorem Conveys.take {q' : Outbound} (conveys : Conveys frames w q) (runs : w.isRunning)
    (done : w.unwritten = []) (first : q.take = (.frame frame, q')) :
    Conveys frames { w with unwritten := frame } q' := by
  obtain ⟨earlier, begun, part, left, whole, written, begins, queued⟩ := conveys
  have front := (queued runs).symm.trans (Outbound.frames_of_take first)
  rw [done] at begins
  cases begins with
  | none =>
    rw [Option.toList_none, List.append_nil, front] at whole
    exact conveys_of_part whole written rfl fun _ => rfl
  | some parts more => exact absurd rfl more

theorem Conveys.write (conveys : Conveys frames w q) (n : Nat) :
    Conveys frames { w with
      unwritten := w.unwritten.drop n
      written := w.written ++ w.unwritten.take n } q := by
  obtain ⟨done, begun, part, left, whole, written, begins, queued⟩ := conveys
  generalize unwritten : w.unwritten = rest at begins
  cases begins with
  | none =>
    refine ⟨done, none, [], left, whole, ?_, ?_, queued⟩
    · rw [written, List.take_nil, List.append_nil]
    · rw [List.drop_nil]
      exact .none
  | @some frame part rest parts more =>
    rw [Option.toList_some, List.append_assoc, List.singleton_append] at whole
    have longer : w.written ++ rest.take n = done.flatten ++ (part ++ rest.take n) := by
      rw [written, List.append_assoc]
    refine conveys_of_part whole longer ?_ queued
    rw [List.append_assoc, List.take_append_drop, parts]

theorem Conveys.halt (conveys : Conveys frames w q) (q' : Outbound) :
    Conveys frames { w with isRunning := false } q' := by
  obtain ⟨done, begun, part, left, whole, written, begins, -⟩ := conveys
  exact ⟨done, begun, part, left, whole, written, begins, nofun⟩

theorem getElem?_settle (t : Traffic) (k m : Nat) (result : Except DeliveryError Unit) :
    (t.settle k result).calls[m]? =
      if m = k then t.calls[m]?.map fun call => { call with result? := some result }
      else t.calls[m]? := by
  rw [settle, List.getElem?_modify]
  by_cases same : m = k
  · simp [same]
  · simp [same, Ne.symm same]

theorem getElem?_settle_self {result : Except DeliveryError Unit}
    (waiting : t.calls[k]? = some ⟨frame, none⟩) :
    (t.settle k result).calls[k]? = some ⟨frame, some result⟩ := by
  rw [getElem?_settle, if_pos rfl, waiting]
  rfl

theorem getElem?_settle_of_ne {m : Nat} {result : Except DeliveryError Unit} (other : m ≠ k) :
    (t.settle k result).calls[m]? = t.calls[m]? := by rw [getElem?_settle, if_neg other]

/-- What is true of the traffic at any time. -/
structure Intact (capacity : Nat) (t : Traffic) : Prop where
  fits : t.connection.queue.Fits capacity
  once : (t.accepted.map Prod.fst).Nodup
  /-- The calls that are accepted are those that have returned so. -/
  returned : ∀ k frame, (k, frame) ∈ t.accepted ↔ t.calls[k]? = some ⟨frame, some (.ok ())⟩
  conveyed : Conveys t.acceptedFrames t.writer t.connection.queue

variable {capacity : Nat} {peer : Address} {timeoutMs : Nat} {steps : List Step} {t'' : Traffic}

theorem intact_fresh (peer : Address) (capacity timeoutMs : Nat) :
    Intact capacity (fresh peer capacity timeoutMs) where
  fits := Outbound.fits_ofCapacity capacity
  once := .nil
  returned k frame := by simp [fresh]
  conveyed := ⟨[], none, [], [], rfl, rfl, .none, fun _ => rfl⟩

theorem Intact.of_calls (intact : Intact capacity t) (frame : Bytes) :
    Intact capacity { t with calls := t.calls ++ [⟨frame, none⟩] } where
  fits := intact.fits
  once := intact.once
  returned k other := by
    rw [intact.returned, List.getElem?_append]
    split
    · rfl
    next beyond =>
      rw [List.getElem?_eq_none (Nat.le_of_not_lt beyond)]
      cases k - t.calls.length <;> simp
  conveyed := intact.conveyed

theorem Intact.of_accepts (intact : Intact capacity t) (waiting : t.calls[k]? = some ⟨frame, none⟩)
    (room : t.connection.queue.isFull = false) :
    Intact capacity { t.settle k (.ok ()) with
      connection := { t.connection with queue := t.connection.queue.push frame }
      accepted := t.accepted ++ [(k, frame)] } where
  fits := intact.fits.push room frame
  once := by
    have fresh : k ∉ t.accepted.map Prod.fst := by
      intro there
      obtain ⟨⟨k, other⟩, among, rfl⟩ := List.mem_map.mp there
      rw [(intact.returned k other).mp among] at waiting
      cases waiting
    rw [List.map_append]
    refine List.nodup_append.mpr ⟨intact.once, by simp, ?_⟩
    rintro m there m' last rfl
    obtain rfl : m = k := List.mem_singleton.mp last
    exact fresh there
  returned m other := by
    rw [List.mem_append, List.mem_singleton, Prod.mk.injEq, intact.returned]
    by_cases same : m = k
    · subst same
      rw [getElem?_settle_self waiting, waiting]
      simp [eq_comm]
    · rw [getElem?_settle_of_ne same]
      simp [same]
  conveyed := by
    rw [acceptedFrames, List.map_append]
    exact intact.conveyed.push frame

theorem Intact.of_fails {e : DeliveryError} (intact : Intact capacity t)
    (waiting : t.calls[k]? = some ⟨frame, none⟩) : Intact capacity (t.settle k (.error e)) where
  fits := intact.fits
  once := intact.once
  returned m other := by
    by_cases same : m = k
    · subst same
      rw [getElem?_settle_self waiting]
      have still := intact.returned m other
      rw [waiting] at still
      simpa [settle] using still
    · rw [getElem?_settle_of_ne same]
      exact intact.returned m other
  conveyed := intact.conveyed

theorem Intact.of_change (intact : Intact capacity t) (change : Change t t') :
    Intact capacity t' := by
  cases change with
  | calls frame now =>
    subst now
    exact intact.of_calls frame
  | accepts waiting lets room now =>
    subst now
    exact intact.of_accepts waiting room
  | fails waiting now =>
    subst now
    exact intact.of_fails waiting
  | requests now =>
    subst now
    exact ⟨intact.fits, intact.once, intact.returned, intact.conveyed⟩
  | @takes frame q runs done first now =>
    subst now
    exact ⟨intact.fits.take first, intact.once, intact.returned,
      intact.conveyed.take runs done first⟩
  | @writes n runs bound now =>
    subst now
    exact ⟨intact.fits, intact.once, intact.returned, intact.conveyed.write n⟩
  | @halts q either now =>
    subst now
    obtain rfl | rfl := either
    · exact ⟨intact.fits, intact.once, intact.returned, intact.conveyed.halt _⟩
    · exact ⟨intact.fits.drop, intact.once, intact.returned, intact.conveyed.halt _⟩

/-- What stays true when the traffic goes on. -/
structure Onward (t t' : Traffic) : Prop where
  returned : ∀ (k : Nat) (frame : Bytes) (result : Except DeliveryError Unit),
    t.calls[k]? = some ⟨frame, some result⟩ →
    t'.calls[k]? = some ⟨frame, some result⟩
  accepted : t.accepted <+: t'.accepted
  written : t.writer.written <+: t'.writer.written
  /-- A writer that has stopped writes no more. -/
  stopped : t.writer.isRunning = false →
    t'.writer.isRunning = false ∧ t'.writer.written = t.writer.written

theorem onward_refl (t : Traffic) : Onward t t :=
  ⟨fun _ _ _ => id, List.prefix_rfl, List.prefix_rfl, fun stopped => ⟨stopped, rfl⟩⟩

theorem Onward.trans (first : Onward t t') (second : Onward t' t'') : Onward t t'' where
  returned k frame result := second.returned k frame result ∘ first.returned k frame result
  accepted := first.accepted.trans second.accepted
  written := first.written.trans second.written
  stopped stopped := by
    obtain ⟨still, same⟩ := first.stopped stopped
    obtain ⟨last, same'⟩ := second.stopped still
    exact ⟨last, same'.trans same⟩

/-- To settle a call that waits changes no call that has returned. -/
theorem returned_settle {result : Except DeliveryError Unit}
    (waiting : t.calls[k]? = some ⟨frame, none⟩) (m : Nat) (other : Bytes)
    (result' : Except DeliveryError Unit) (there : t.calls[m]? = some ⟨other, some result'⟩) :
    (t.settle k result).calls[m]? = some ⟨other, some result'⟩ := by
  by_cases same : m = k
  · subst same
    rw [waiting] at there
    cases there
  · rwa [getElem?_settle_of_ne same]

theorem onward_of_change (change : Change t t') : Onward t t' := by
  cases change with
  | calls frame now =>
    subst now
    refine ⟨fun k other result there => ?_, List.prefix_rfl, List.prefix_rfl,
      fun stopped => ⟨stopped, rfl⟩⟩
    rwa [List.getElem?_append_left (List.getElem?_eq_some_iff.mp there).1]
  | accepts waiting lets room now =>
    subst now
    exact ⟨returned_settle waiting, List.prefix_append _ _, List.prefix_rfl,
      fun stopped => ⟨stopped, rfl⟩⟩
  | fails waiting now =>
    subst now
    exact ⟨returned_settle waiting, List.prefix_rfl, List.prefix_rfl,
      fun stopped => ⟨stopped, rfl⟩⟩
  | requests now =>
    subst now
    exact ⟨fun _ _ _ => id, List.prefix_rfl, List.prefix_rfl, fun stopped => ⟨stopped, rfl⟩⟩
  | takes runs done first now =>
    subst now
    exact ⟨fun _ _ _ => id, List.prefix_rfl, List.prefix_rfl, fun stopped => ⟨stopped, rfl⟩⟩
  | writes runs bound now =>
    subst now
    refine ⟨fun _ _ _ => id, List.prefix_rfl, List.prefix_append _ _, fun stopped => ?_⟩
    rw [stopped] at runs
    cases runs
  | halts either now =>
    subst now
    exact ⟨fun _ _ _ => id, List.prefix_rfl, List.prefix_rfl, fun _ => ⟨rfl, rfl⟩⟩

theorem intact_of_run (intact : Intact capacity t) (ran : t.run steps = some t') :
    Intact capacity t' ∧ Onward t t' := by
  induction steps generalizing t with
  | nil =>
    cases ran
    exact ⟨intact, onward_refl _⟩
  | cons s steps ih =>
    obtain ⟨next, taken, ran⟩ := Option.bind_eq_some_iff.mp ran
    have change := change_of_step taken
    obtain ⟨intact', onward⟩ := ih (intact.of_change change) ran
    exact ⟨intact', (onward_of_change change).trans onward⟩

/-- However callers and the writer interfere, the queue never has more frames than it has room for,
and the frames of the calls that were accepted, in the order in which they were queued, are first
those that are written as a whole, then one at most that is begun, and then those that are left,
which are in the queue while the writer runs. The bytes on the socket are the whole frames and a part
of the one that is begun. From then on no call that has returned changes its result, so that one that
was not accepted never adds a byte, and a writer that has stopped, for whatever reason, writes nothing
more. -/
theorem frames_are_written_whole (ran : (fresh peer capacity timeoutMs).run steps = some t) :
    Intact capacity t ∧ ∀ more t', t.run more = some t' →
      Intact capacity t' ∧ Onward t t' ∧
        ∀ (k : Nat) (frame : Bytes) (e : DeliveryError),
          t.calls[k]? = some ⟨frame, some (.error e)⟩ → k ∉ t'.accepted.map Prod.fst := by
  obtain ⟨intact, -⟩ := intact_of_run (intact_fresh peer capacity timeoutMs) ran
  refine ⟨intact, fun more t' went => ?_⟩
  obtain ⟨intact', onward⟩ := intact_of_run intact went
  refine ⟨intact', onward, fun k frame e failed there => ?_⟩
  obtain ⟨⟨k, other⟩, among, rfl⟩ := List.mem_map.mp there
  have still := onward.returned k frame (.error e) failed
  rw [(intact'.returned k other).mp among] at still
  cases still

/-- Three calls for a queue with room for one frame. The second one finds room when the writer has
taken the first frame, and the time of the third one runs out. -/
def crowd : List Step :=
  [.call [1, 2], .call [3], .call [4], .attempt 0, .take, .attempt 1, .write 1, .expire 2]

theorem frames_are_written_whole_crowd :
    ∃ t, (fresh (.v4 127 0 0 1 0) 1 50).run crowd = some t ∧ t.writer.written = [1] ∧
      t.acceptedFrames = [[1, 2], [3]] ∧ t.connection.queue.frames.length ≤ 1 ∧
      ∀ more t', t.run more = some t' → 2 ∉ t'.accepted.map Prod.fst := by
  have goes : ((fresh (.v4 127 0 0 1 0) 1 50).run crowd).isSome := by decide +kernel
  obtain ⟨t, ran⟩ := Option.isSome_iff_exists.mp goes
  obtain ⟨intact, later⟩ := frames_are_written_whole ran
  cases ran
  exact ⟨_, rfl, rfl, rfl, intact.fits.bounded,
    fun more t' went => (later more t' went).2.2 2 [4] _ rfl⟩

end Traffic

end Mailroom
