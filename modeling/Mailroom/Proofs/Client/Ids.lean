import Mailroom.Client.IdSource
import Mailroom.Proofs.Address.Numbers
import Mathlib.Data.List.Nodup
import Mathlib.Logic.Function.Basic

/-!
# Ids tell calls apart

An id is made up of a name, a process and a number, and tells all three: after each of its last two
underscores there are only digits, whatever underscores and digits the name has.

The numbers of a process go up by one from call to call and begin again after `UInt64.size` of them,
which is the only way for two calls to get the same id. Calls are made in several processes at a
time. They are listed in the order in which they take their numbers; it makes no difference to an id
when its call returns.

Nothing is said of a process that has the process id of an earlier one.
-/

namespace Mailroom.IdSource

open Address (cut_before_digits digits_toString)

/-- A call for an id. -/
@[ext] structure Call where
  process : Nat
  /-- The name of the client that the id is for. -/
  name : String
  deriving DecidableEq

/-- A call with the id that it gets. -/
structure Answer where
  call : Call
  id : String
  deriving DecidableEq

/-- What the calls of one process get. -/
def ofCaller (process : Nat) (answers : List Answer) : List Answer :=
  answers.filter fun a => a.call.process = process

/-- Some processes, by how many ids each has given out. -/
structure Processes where
  given : Nat → UInt64

namespace Processes

def draw (ps : Processes) (c : Call) : Answer × Processes :=
  let (id, source) := IdSource.draw ⟨c.process, ps.given c.process⟩ c.name
  (⟨c, id⟩, ⟨Function.update ps.given c.process source.given⟩)

/-- What calls get, one after the other. -/
def answers : Processes → List Call → List Answer
  | _, [] => []
  | ps, c :: calls =>
    let (a, ps) := ps.draw c
    a :: ps.answers calls

end Processes

variable {name name' : String} {process process' n n' : Nat} {ps : Processes} {c : Call}
  {calls : List Call} {a a' : Answer} {earlier between later : List Answer}

/-! ## One id -/

theorem toList_render (name : String) (process n : Nat) :
    (render name process n).toList =
      ((stem name).toList ++ '_' :: (toString process).toList) ++ '_' :: (toString n).toList := by
  simp [render]

/-- A number does not have an underscore, so it begins after the last one. -/
theorem cut_before_number {s s' : List Char}
    (same : s ++ '_' :: (toString n).toList = s' ++ '_' :: (toString n').toList) :
    s = s' ∧ n = n' := by
  have digits := digits_toString n
  have digits' := digits_toString n'
  obtain ⟨front, number⟩ := cut_before_digits (by decide) digits.digits digits'.digits same
  rw [number] at digits
  exact ⟨front, digits.unique digits'⟩

theorem render_eq_iff :
    render name process n = render name' process' n' ↔
      name = name' ∧ process = process' ∧ n = n' := by
  constructor
  · intro same
    have parts := congrArg String.toList same
    rw [toList_render, toList_render] at parts
    -- A name may have underscores too, so the id is taken apart from its end.
    obtain ⟨front, numbers⟩ := cut_before_number parts
    obtain ⟨stems, processes⟩ := cut_before_number front
    have names : stem name = stem name' := String.toList_inj.mp stems
    exact ⟨(String.append_right_inj _).mp names, processes, numbers⟩
  · rintro ⟨rfl, rfl, rfl⟩
    rfl

/-! ## The numbers of a process -/

theorem ofCaller_append (process : Nat) (earlier later : List Answer) :
    ofCaller process (earlier ++ later) = ofCaller process earlier ++ ofCaller process later :=
  List.filter_append ..

theorem ofCaller_cons_of_eq (own : a.call.process = process) (later : List Answer) :
    ofCaller process (a :: later) = a :: ofCaller process later :=
  List.filter_cons_of_pos (by simpa using own)

theorem ofCaller_cons_of_ne (other : a.call.process ≠ process) (later : List Answer) :
    ofCaller process (a :: later) = ofCaller process later :=
  List.filter_cons_of_neg (by simpa using other)

theorem mem_ofCaller {answers : List Answer} :
    a ∈ ofCaller process answers ↔ a ∈ answers ∧ a.call.process = process := by
  simp [ofCaller]

/-- A number comes again when all have been given out. -/
theorem number_eq_iff (given : UInt64) (before between : Nat) :
    (given + UInt64.ofNat before).toNat = (given + UInt64.ofNat (before + between)).toNat ↔
      UInt64.size ∣ between := by
  rw [UInt64.toNat_add, UInt64.toNat_add, UInt64.toNat_ofNat', UInt64.toNat_ofNat', UInt64.size]
  omega

namespace Processes

theorem given_draw_of_eq (own : c.process = process) :
    (ps.draw c).2.given process = ps.given process + 1 := by
  subst own
  exact Function.update_self ..

theorem given_draw_of_ne (other : c.process ≠ process) :
    (ps.draw c).2.given process = ps.given process :=
  Function.update_of_ne other.symm ..

theorem answers_cons (ps : Processes) (c : Call) (calls : List Call) :
    ps.answers (c :: calls) = (ps.draw c).1 :: (ps.draw c).2.answers calls := rfl

theorem map_call_answers (ps : Processes) (calls : List Call) :
    (ps.answers calls).map Answer.call = calls := by
  induction calls generalizing ps with
  | nil => rfl
  | cons c calls ih =>
    rw [answers_cons, List.map_cons, ih]
    rfl

/-- A call is numbered by the calls of its process before it. -/
theorem id_of_split (split : ps.answers calls = earlier ++ a :: later) :
    a.id = render a.call.name a.call.process
      (ps.given a.call.process +
        UInt64.ofNat (ofCaller a.call.process earlier).length).toNat := by
  induction calls generalizing ps earlier with
  | nil => simp [answers] at split
  | cons c calls ih =>
    rw [answers_cons] at split
    cases earlier with
    | nil =>
      cases split
      simp [draw, IdSource.draw, ofCaller]
    | cons first earlier =>
      obtain ⟨rfl, rest⟩ := List.cons.inj split
      rw [ih rest]
      by_cases own : c.process = a.call.process
      · have one_more (before : Nat) : ps.given a.call.process + 1 + UInt64.ofNat before =
            ps.given a.call.process + UInt64.ofNat (before + 1) := by
          rw [UInt64.ofNat_add, UInt64.add_assoc, UInt64.add_comm 1]
          rfl
        rw [ofCaller_cons_of_eq own, given_draw_of_eq own, one_more, List.length_cons]
      · rw [ofCaller_cons_of_ne own, given_draw_of_ne own]

theorem exists_id_of_mem (there : a ∈ ps.answers calls) :
    ∃ n, a.id = render a.call.name a.call.process n := by
  obtain ⟨earlier, later, split⟩ := List.append_of_mem there
  exact ⟨_, id_of_split split⟩

/-- Two calls get the same id if they are alike and their process gives out every number, once or
several times, from the one to the other. -/
theorem same_id_iff (split : ps.answers calls = earlier ++ a :: (between ++ a' :: later)) :
    a.id = a'.id ↔
      a.call = a'.call ∧ UInt64.size ∣ (ofCaller a.call.process (a :: between)).length := by
  have split' : ps.answers calls = (earlier ++ a :: between) ++ a' :: later := by
    rw [split, List.append_assoc, List.cons_append]
  rw [id_of_split split, id_of_split split', render_eq_iff]
  constructor
  · rintro ⟨names, callers, numbers⟩
    rw [← callers, ofCaller_append, List.length_append, number_eq_iff] at numbers
    exact ⟨Call.ext callers names, numbers⟩
  · rintro ⟨alike, apart⟩
    rw [← alike, ofCaller_append, List.length_append, number_eq_iff]
    exact ⟨rfl, rfl, apart⟩

/-- An id does not come again as long as its process has numbers left. -/
theorem id_ne_of_few (split : ps.answers calls = earlier ++ a :: (between ++ a' :: later))
    (few : (ofCaller a.call.process (ps.answers calls)).length ≤ UInt64.size) : a.id ≠ a'.id := by
  intro same
  obtain ⟨alike, round⟩ := (same_id_iff split).mp same
  have first : 0 < (ofCaller a.call.process (a :: between)).length := by
    simp [ofCaller_cons_of_eq rfl]
  have second : 0 < (ofCaller a.call.process (a' :: later)).length := by
    simp [ofCaller_cons_of_eq (congrArg Call.process alike).symm]
  have counted : (ofCaller a.call.process (a :: between)).length +
      (ofCaller a.call.process (a' :: later)).length ≤ UInt64.size := by
    rw [split, ← List.cons_append, ofCaller_append, ofCaller_append, List.length_append,
      List.length_append] at few
    omega
  exact Nat.not_dvd_of_pos_of_lt first (by omega) round

theorem nodup_ofCaller (few : (ofCaller process (ps.answers calls)).length ≤ UInt64.size) :
    ((ofCaller process (ps.answers calls)).map Answer.id).Nodup := by
  induction calls generalizing ps with
  | nil => exact List.nodup_nil
  | cons c calls ih =>
    by_cases own : c.process = process
    · have later : ofCaller process (ps.answers (c :: calls)) =
          (ps.draw c).1 :: ofCaller process ((ps.draw c).2.answers calls) :=
        ofCaller_cons_of_eq own _
      rw [later, List.map_cons, List.nodup_cons]
      refine ⟨fun again => ?_, ih ?_⟩
      · obtain ⟨a', there, same⟩ := List.mem_map.mp again
        obtain ⟨between, rest, split⟩ := List.append_of_mem (mem_ofCaller.mp there).1
        have split' : ps.answers (c :: calls) = [] ++ (ps.draw c).1 :: (between ++ a' :: rest) :=
          congrArg ((ps.draw c).1 :: ·) split
        subst own
        exact id_ne_of_few split' few same.symm
      · rw [later, List.length_cons] at few
        exact Nat.le_of_succ_le few
    · have later : ofCaller process (ps.answers (c :: calls)) =
          ofCaller process ((ps.draw c).2.answers calls) :=
        ofCaller_cons_of_ne own _
      rw [later] at few ⊢
      exact ih few

end Processes

/-- How ids tell the calls apart that get them. -/
structure TellApart (answers : List Answer) : Prop where
  /-- An id comes again with a call that is alike when all numbers have been given out since. -/
  same_iff : ∀ earlier a between a' later, answers = earlier ++ a :: (between ++ a' :: later) →
    (a.id = a'.id ↔
      a.call = a'.call ∧ UInt64.size ∣ (ofCaller a.call.process (a :: between)).length)
  /-- The ids of one process are distinct as long as it has numbers for them. -/
  within : ∀ process, (ofCaller process answers).length ≤ UInt64.size →
    ((ofCaller process answers).map Answer.id).Nodup
  /-- Those of two processes always are. -/
  across : ∀ a ∈ answers, ∀ a' ∈ answers, a.call.process ≠ a'.call.process → a.id ≠ a'.id

/-- An id tells its name, its process and its number. So the calls of one process get distinct ids
until it runs out of numbers, and calls of two processes always do. -/
theorem ids_tell_calls_apart (ps : Processes) (calls : List Call) :
    (∀ name name' process process' n n', render name process n = render name' process' n' ↔
      name = name' ∧ process = process' ∧ n = n') ∧
    (ps.answers calls).map Answer.call = calls ∧ TellApart (ps.answers calls) := by
  refine ⟨fun _ _ _ _ _ _ => render_eq_iff, ps.map_call_answers calls, ?_⟩
  constructor
  case same_iff =>
    intro earlier a between a' later split
    exact Processes.same_id_iff split
  case within =>
    intro process few
    exact Processes.nodup_ofCaller few
  case across =>
    intro a there a' there' other same
    obtain ⟨n, shown⟩ := Processes.exists_id_of_mem there
    obtain ⟨n', shown'⟩ := Processes.exists_id_of_mem there'
    rw [shown, shown'] at same
    exact other (render_eq_iff.mp same).2.1

/-- A process comes to its last number, and a name goes on like a process id. -/
theorem ids_tell_calls_apart_last :
    let ps : Processes := ⟨fun process => if process = 7 then 18446744073709551615 else 0⟩
    let answers := ps.answers [⟨7, "ann"⟩, ⟨71, "ann"⟩, ⟨7, "ann_7"⟩, ⟨7, "ann"⟩]
    answers.map Answer.id =
        ["client_ann_7_18446744073709551615", "client_ann_71_0", "client_ann_7_7_0",
          "client_ann_7_1"] ∧
      (ofCaller 7 answers).length ≤ UInt64.size ∧ ((ofCaller 7 answers).map Answer.id).Nodup := by
  intro ps answers
  have few : (ofCaller 7 answers).length ≤ UInt64.size := by decide
  have apart : TellApart answers := (ids_tell_calls_apart ps _).2.2
  exact ⟨by decide, few, apart.within 7 few⟩

end Mailroom.IdSource
