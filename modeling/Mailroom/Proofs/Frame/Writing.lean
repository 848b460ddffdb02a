import Mailroom.Frame.Writer
import Mailroom.Proofs.Results

/-!
# What a sink holds

Frames are written to a sink one after the other, and now and then a write gets nowhere: the sink
has no room left or is shut down. What it holds is then the frames that it took whole, in order, and
after them the beginning of the first one that it did not. From that moment on, and from the moment
it is shut down, it takes nothing more. How many bytes it takes at a time makes no difference.

A frame that is taken can still be reported as failed, when flushing fails.
-/

namespace Mailroom

namespace Sink

/-- The sink with more bytes in it. -/
def wrote (k : Sink) (s : Bytes) : Sink := { k with held := k.held ++ s }

/-- How many of `n` bytes the sink can take in all. -/
def fits (k : Sink) (n : Nat) : Nat :=
  if k.isShut then 0
  else
    match k.room with
    | some room => min n (room - k.held.length)
    | none => n

/-- Why it takes no more. -/
def reason (k : Sink) : String :=
  if k.isShut then "sink is shut down" else k.refusal.getD "write zero"

/-- A course of writes of some bytes, until all are taken or a write fails. Each write takes as many
bytes as the sink likes, of those that fit, but at least one. -/
inductive Puts : Sink → Bytes → Except String Unit × Sink → Prop where
  | all (k : Sink) : Puts k [] (.ok (), k)
  | fails {k : Sink} {s : Bytes} : s ≠ [] → k.fits s.length = 0 → Puts k s (.error k.reason, k)
  | goesOn {k : Sink} {s : Bytes} {n : Nat} {o : Except String Unit × Sink} : 0 < n →
      n ≤ k.fits s.length → Puts (k.wrote (s.take n)) (s.drop n) o → Puts k s o

variable {k : Sink} {s : Bytes} {n m : Nat} {o : Except String Unit × Sink}

theorem wrote_wrote (k : Sink) (s s' : Bytes) : (k.wrote s).wrote s' = k.wrote (s ++ s') := by
  simp [wrote]

theorem wrote_nil (k : Sink) : k.wrote [] = k := by simp [wrote]

theorem fits_le (k : Sink) (n : Nat) : k.fits n ≤ n := by
  rw [fits]
  split
  · exact Nat.zero_le n
  · split
    · exact Nat.min_le_left n _
    · exact Nat.le_refl n

/-- What fits when some of it has been written is the rest. -/
theorem fits_wrote (inside : s.length ≤ k.fits n) :
    (k.wrote s).fits (n - s.length) = k.fits n - s.length := by
  rw [fits] at inside ⊢
  rw [fits, wrote]
  split
  · next shut =>
    rw [if_pos shut] at inside
    omega
  · next shut =>
    rw [if_neg shut] at inside
    dsimp only
    split
    · next limited =>
      rw [limited] at inside
      rw [List.length_append]
      dsimp only at inside
      omega
    · rfl

theorem unshut_of_fits (roomy : 0 < k.fits n) : k.isShut = false := by
  cases shut : k.isShut with
  | false => rfl
  | true => simp [fits, shut] at roomy

theorem taken_le_fits (unshut : k.isShut = false) (n : Nat) : k.taken n ≤ k.fits n := by
  rw [taken, fits, unshut, if_neg Bool.false_ne_true]
  cases k.room <;> cases k.perWrite
  all_goals
    dsimp only
    omega

/-- A sink that takes some bytes at a time takes some of those that fit. -/
theorem taken_pos (takes : k.perWrite ≠ some 0) (roomy : 0 < k.fits n) : 0 < k.taken n := by
  have positive : ∀ most, k.perWrite = some most → 0 < most := by
    intro most capped
    refine Nat.pos_of_ne_zero fun zero => takes ?_
    rw [capped, zero]
  rw [fits] at roomy
  rw [taken]
  split at roomy
  · omega
  · cases limited : k.room <;> cases capped : k.perWrite
    all_goals
      rw [limited] at roomy
      dsimp only at roomy ⊢
    case none.none | some.none => omega
    case none.some most | some.some most =>
      have some := positive most capped
      omega

theorem isFull_eq (unshut : k.isShut = false) (given : 0 < n) :
    k.isFull = decide (k.fits n = 0) := by
  rw [isFull, fits, unshut, if_neg Bool.false_ne_true]
  cases k.room with
  | none =>
    have some : n ≠ 0 := by omega
    simp [some]
  | some room =>
    dsimp only
    congr 1
    simp only [eq_iff_iff]
    omega

/-- A write gets nowhere exactly when nothing fits. -/
theorem obstacle?_eq (takes : k.perWrite ≠ some 0) (given : 0 < n) :
    k.obstacle? n = if k.fits n = 0 then some k.reason else none := by
  rw [obstacle?]
  cases shut : k.isShut with
  | true => simp [fits, reason, shut]
  | false =>
    rw [isFull_eq shut given, reason, shut]
    by_cases full : k.fits n = 0
    · have nothing : k.taken n = 0 := Nat.le_zero.mp (full ▸ taken_le_fits shut n)
      cases k.refusal <;> simp [full, nothing]
    · have some := taken_pos takes (Nat.pos_of_ne_zero full)
      have moves : k.taken n ≠ 0 := by omega
      simp [full, moves]

/-- What is written whole is one of the courses that writes can take. -/
theorem puts_writeAllWith {fuel : Nat} (takes : k.perWrite ≠ some 0) (enough : s.length ≤ fuel) :
    Puts k s (writeAllWith fuel k s) := by
  induction fuel generalizing k s with
  | zero =>
    obtain rfl := List.length_eq_zero_iff.mp (Nat.le_zero.mp enough)
    exact .all k
  | succ fuel ih =>
    cases s with
    | nil => exact .all k
    | cons b s =>
      have given : 0 < (b :: s).length := Nat.succ_pos s.length
      rw [writeAllWith, ← List.length_cons (a := b), obstacle?_eq takes given]
      by_cases full : k.fits (b :: s).length = 0
      · rw [if_pos full]
        exact .fails (List.cons_ne_nil b s) full
      · rw [if_neg full]
        have some := Nat.pos_of_ne_zero full
        have inside := taken_le_fits (unshut_of_fits some) (b :: s).length
        have moves := taken_pos takes some
        have rest : ((b :: s).drop (k.taken (b :: s).length)).length ≤ fuel := by
          rw [List.length_drop]
          omega
        exact .goesOn moves inside (ih takes rest)

theorem puts_writeAll (takes : k.perWrite ≠ some 0) (s : Bytes) : Puts k s (k.writeAll s) :=
  puts_writeAllWith takes (Nat.le_refl s.length)

/-- Whatever the sizes of the writes, what fits is written. -/
theorem eq_of_puts (puts : Puts k s o) :
    o = (if k.fits s.length = s.length then .ok () else .error k.reason,
      k.wrote (s.take (k.fits s.length))) := by
  induction puts with
  | all k =>
    have nothing : k.fits 0 = 0 := Nat.le_zero.mp (k.fits_le 0)
    simp [nothing, wrote_nil]
  | @fails k s given full =>
    have short : ¬ 0 = s.length := fun zero => given (List.length_eq_zero_iff.mp zero.symm)
    rw [full, if_neg short, List.take_zero, wrote_nil]
  | @goesOn k s n o moves inside _ ih =>
    have bound := k.fits_le s.length
    have length : (s.take n).length = n := by
      rw [List.length_take]
      omega
    have later : (k.wrote (s.take n)).fits (s.drop n).length = k.fits s.length - n := by
      have rest := fits_wrote (k := k) (s := s.take n) (n := s.length) (by omega)
      rwa [length, ← List.length_drop] at rest
    have parts : s.take n ++ (s.drop n).take (k.fits s.length - n) = s.take (k.fits s.length) := by
      rw [← List.take_add, Nat.add_sub_cancel' inside]
    have whole : k.fits s.length - n = (s.drop n).length ↔ k.fits s.length = s.length := by
      rw [List.length_drop]
      omega
    rw [ih, later, wrote_wrote, parts]
    simp only [whole]
    rfl

/-- What is written to a sink that takes some bytes at a time. -/
theorem writeAll_eq (takes : k.perWrite ≠ some 0) (s : Bytes) :
    k.writeAll s = (if k.fits s.length = s.length then .ok () else .error k.reason,
      k.wrote (s.take (k.fits s.length))) := eq_of_puts (puts_writeAll takes s)

/-- What a writer is asked to do. -/
inductive Order where
  | send (e : Envelope)
  | sendRaw (frame : Bytes)
  | shutDown

/-- The frame that is to be written for it. -/
def Order.frame? : Order → Option Bytes
  | .send e => some (Frame.encode e)
  | .sendRaw frame => some frame
  | .shutDown => none

def Order.bytes (o : Order) : Bytes := o.frame?.getD []

theorem Order.flatten_frame? (o : Order) : o.frame?.toList.flatten = o.bytes := by
  cases o <;> simp [bytes, frame?]

/-- An order, and why flushing fails then, if it does. -/
structure Call where
  order : Order
  flushFailure : Option String

def call (k : Sink) (c : Call) : Except FrameError Unit × Sink :=
  match c.order with
  | .send e => { k with flushFailure := c.flushFailure }.send e
  | .sendRaw frame => { k with flushFailure := c.flushFailure }.sendRaw frame
  | .shutDown => (.ok (), k.shutDown)

/-- The sink after these calls. -/
def after (k : Sink) (calls : List Call) : Sink := calls.foldl (fun k c => (k.call c).2) k

/-- All bytes of a call get into the sink. -/
def TakesAll (k : Sink) (c : Call) : Prop := (k.call c).2.held = k.held ++ c.order.bytes

instance (k : Sink) (c : Call) : Decidable (k.TakesAll c) := inferInstanceAs (Decidable (_ = _))

/-- The frames that are taken whole, in order. -/
def whole (k : Sink) : List Call → List Bytes
  | [] => []
  | c :: calls =>
    (if k.TakesAll c then c.order.frame?.toList else []) ++ (k.call c).2.whole calls

/-- The first frame that is not taken whole. -/
def torn? (k : Sink) : List Call → Option Bytes
  | [] => none
  | c :: calls => if k.TakesAll c then (k.call c).2.torn? calls else c.order.frame?

variable {c : Call} {calls : List Call}

theorem after_cons (k : Sink) (c : Call) (calls : List Call) :
    k.after (c :: calls) = (k.call c).2.after calls := rfl

theorem after_append (k : Sink) (calls later : List Call) :
    k.after (calls ++ later) = (k.after calls).after later := List.foldl_append

theorem call_of_ne (goesOn : c.order ≠ .shutDown) :
    k.call c = { k with flushFailure := c.flushFailure }.sendRaw c.order.bytes := by
  rw [call, Order.bytes]
  cases order : c.order with
  | send e => rfl
  | sendRaw frame => rfl
  | shutDown => exact absurd order goesOn

/-- A call shuts the sink down, or writes what fits of its bytes. -/
theorem call_cases (takes : k.perWrite ≠ some 0) (c : Call) :
    (c.order = .shutDown ∧ k.call c = (.ok (), k.shutDown)) ∨
    (c.order ≠ .shutDown ∧ ∃ result,
      k.call c = (result, { k with flushFailure := c.flushFailure }.wrote
        (c.order.bytes.take (k.fits c.order.bytes.length))) ∧
      (result = .ok () ↔ k.fits c.order.bytes.length = c.order.bytes.length ∧
        c.flushFailure = none)) := by
  by_cases ends : c.order = .shutDown
  · refine .inl ⟨ends, ?_⟩
    rw [call, ends]
  · let k' : Sink := { k with flushFailure := c.flushFailure }
    have written := writeAll_eq (k := k') takes c.order.bytes
    have same : k'.fits c.order.bytes.length = k.fits c.order.bytes.length := rfl
    rw [same] at written
    refine .inr ⟨ends, ?_⟩
    rw [call_of_ne ends, sendRaw, written]
    by_cases all : k.fits c.order.bytes.length = c.order.bytes.length
    · rw [if_pos all]
      refine ⟨_, rfl, ?_⟩
      rw [mapError_eq_ok]
      cases failure : c.flushFailure <;> simp [flush, wrote, k', failure, all]
    · rw [if_neg all]
      exact ⟨_, rfl, nofun, fun both => absurd both.1 all⟩

theorem held_call (takes : k.perWrite ≠ some 0) (c : Call) :
    (k.call c).2.held = k.held ++ c.order.bytes.take (k.fits c.order.bytes.length) := by
  obtain ⟨ends, called⟩ | ⟨-, _, called, -⟩ := call_cases takes c
  · have nothing : c.order.bytes = [] := by rw [ends]; rfl
    rw [called, nothing, List.take_nil, List.append_nil, shutDown]
  · rw [called, wrote]

theorem perWrite_call (takes : k.perWrite ≠ some 0) (c : Call) :
    (k.call c).2.perWrite = k.perWrite := by
  obtain ⟨-, called⟩ | ⟨-, _, called, -⟩ := call_cases takes c
  · rw [called, shutDown]
  · rw [called, wrote]

theorem takesAll_iff (takes : k.perWrite ≠ some 0) :
    k.TakesAll c ↔ k.fits c.order.bytes.length = c.order.bytes.length := by
  have bound := k.fits_le c.order.bytes.length
  rw [TakesAll, held_call takes, List.append_right_inj]
  constructor
  · intro all
    have length := congrArg List.length all
    rw [List.length_take] at length
    omega
  · intro all
    rw [all, List.take_length]

/-- Nothing fits in the sink. -/
def IsSpent (k : Sink) : Prop := ∀ n, k.fits n = 0

/-- If some bytes do not fit at all, none do. -/
theorem isSpent_of_fits (some : 0 < n) (full : k.fits n = 0) : k.IsSpent := by
  intro m
  rw [fits] at full ⊢
  split
  · rfl
  · next unshut =>
    rw [if_neg unshut] at full
    split at full
    · omega
    · omega

/-- A sink is spent when it has been shut down, and when it has not taken all of a frame. -/
theorem isSpent_call (takes : k.perWrite ≠ some 0) (stops : c.order = .shutDown ∨ ¬ k.TakesAll c) :
    (k.call c).2.IsSpent := by
  obtain ⟨ends, called⟩ | ⟨goesOn, _, called, -⟩ := call_cases takes c
  · intro n
    rw [called]
    rfl
  · have torn := mt (takesAll_iff takes).mpr (stops.resolve_left goesOn)
    have bound := k.fits_le c.order.bytes.length
    have length : (c.order.bytes.take (k.fits c.order.bytes.length)).length =
        k.fits c.order.bytes.length := by
      rw [List.length_take]
      omega
    have later := fits_wrote (k := { k with flushFailure := c.flushFailure }) (Nat.le_of_eq length)
    rw [called]
    refine isSpent_of_fits ?_ (later.trans ?_)
    · omega
    · rw [length]
      exact Nat.sub_self _

theorem IsSpent.call (spent : k.IsSpent) (takes : k.perWrite ≠ some 0) (c : Call) :
    (k.call c).2.IsSpent ∧ (k.call c).2.held = k.held := by
  constructor
  · obtain ⟨ends, called⟩ | ⟨-, _, called, -⟩ := call_cases takes c
    · exact isSpent_call takes (.inl ends)
    · intro n
      rw [called, spent, List.take_zero, wrote_nil]
      exact spent n
  · rw [held_call takes, spent, List.take_zero, List.append_nil]

/-- A spent sink stays as it is. -/
theorem IsSpent.after (spent : k.IsSpent) (takes : k.perWrite ≠ some 0) (calls : List Call) :
    (k.after calls).held = k.held ∧ (k.whole calls).flatten = [] := by
  induction calls generalizing k with
  | nil => exact ⟨rfl, rfl⟩
  | cons c calls ih =>
    obtain ⟨spent', same⟩ := spent.call takes c
    obtain ⟨held, nothing⟩ := ih spent' (perWrite_call takes c ▸ takes)
    refine ⟨held.trans same, ?_⟩
    rw [whole, List.flatten_append, nothing, List.append_nil]
    split
    · next all =>
      rw [TakesAll, same] at all
      rw [c.order.flatten_frame?]
      exact List.self_eq_append_right.mp all
    · rfl

theorem perWrite_after (takes : k.perWrite ≠ some 0) (calls : List Call) :
    (k.after calls).perWrite = k.perWrite := by
  induction calls generalizing k with
  | nil => rfl
  | cons c calls ih =>
    have same := perWrite_call takes c
    exact (ih (same ▸ takes)).trans same

/-- Frames that were taken whole, and after them a part of the first one that was not. -/
theorem exists_part (takes : k.perWrite ≠ some 0) (calls : List Call) :
    ∃ part, (k.after calls).held = k.held ++ (k.whole calls).flatten ++ part ∧
      match k.torn? calls with
      | some frame => part <+: frame ∧ part ≠ frame
      | none => part = [] := by
  induction calls generalizing k with
  | nil => exact ⟨[], by simp [whole, after], rfl⟩
  | cons c calls ih =>
    have takes' : (k.call c).2.perWrite ≠ some 0 := perWrite_call takes c ▸ takes
    rw [after_cons, whole, torn?]
    by_cases all : k.TakesAll c
    · obtain ⟨part, held, shape⟩ := ih takes'
      refine ⟨part, ?_, by rwa [if_pos all]⟩
      have first : (k.call c).2.held = k.held ++ c.order.bytes := all
      rw [held, first, if_pos all, List.flatten_append, c.order.flatten_frame?]
      simp only [List.append_assoc]
    · have spent := isSpent_call takes (.inr all)
      obtain ⟨same, nothing⟩ := spent.after takes' calls
      have short := mt (takesAll_iff takes).mpr all
      refine ⟨c.order.bytes.take (k.fits c.order.bytes.length), ?_, ?_⟩
      · rw [same, if_neg all, List.nil_append, nothing, List.append_nil, held_call takes]
      · rw [if_neg all]
        cases frame : c.order.frame? with
        | none =>
          have nothing : c.order.bytes = [] := by rw [Order.bytes, frame]; rfl
          rw [nothing] at short
          exact absurd (Nat.le_zero.mp (k.fits_le 0)) short
        | some f =>
          have bytes : c.order.bytes = f := by rw [Order.bytes, frame]; rfl
          rw [bytes] at short ⊢
          refine ⟨List.take_prefix _ f, fun same => short ?_⟩
          have length := congrArg List.length same
          have bound := k.fits_le f.length
          rw [List.length_take] at length
          omega

/-- The number of bytes that are taken at a time makes no difference to a call. -/
theorem call_with_perWrite {most : Option Nat} (takes : k.perWrite ≠ some 0)
    (takes' : most ≠ some 0) (c : Call) :
    { k with perWrite := most }.call c = ((k.call c).1, { (k.call c).2 with perWrite := most }) := by
  by_cases ends : c.order = .shutDown
  · rw [call, call, ends]
    rfl
  · let k₁ : Sink := { k with flushFailure := c.flushFailure }
    let k₂ : Sink := { k₁ with perWrite := most }
    have written : k₁.writeAll c.order.bytes = _ := writeAll_eq (k := k₁) takes c.order.bytes
    have written' : k₂.writeAll c.order.bytes = _ := writeAll_eq (k := k₂) takes' c.order.bytes
    have same : k₂.fits c.order.bytes.length = k₁.fits c.order.bytes.length := rfl
    rw [call_of_ne ends, call_of_ne ends, sendRaw, sendRaw, written, written', same]
    by_cases all : k₁.fits c.order.bytes.length = c.order.bytes.length
    · rw [if_pos all, if_pos all]
      rfl
    · rw [if_neg all, if_neg all]
      rfl

theorem after_with_perWrite {most : Option Nat} (takes : k.perWrite ≠ some 0)
    (takes' : most ≠ some 0) (calls : List Call) :
    { k with perWrite := most }.after calls = { k.after calls with perWrite := most } := by
  induction calls generalizing k with
  | nil => rfl
  | cons c calls ih =>
    rw [after_cons, after_cons, call_with_perWrite takes takes']
    exact ih (perWrite_call takes c ▸ takes)

/-- How a sink fares in the course of these calls. -/
structure Fares (k : Sink) (calls : List Call) : Prop where
  /-- It holds whole frames, and after them at most a part of the first one that it did not take
  whole. -/
  held : ∃ part, (k.after calls).held = k.held ++ (k.whole calls).flatten ++ part ∧
    match k.torn? calls with
    | some frame => part <+: frame ∧ part ≠ frame
    | none => part = []
  /-- A call is answered well when all its bytes are taken and flushing works. Shutting down always
  works. -/
  answered : ∀ c, ((k.after calls).call c).1 = .ok () ↔
    (k.after calls).TakesAll c ∧ (c.order = .shutDown ∨ c.flushFailure = none)
  /-- Nothing comes in after a frame was not taken whole, or after the sink was shut down. -/
  silent : ∀ before c later, calls = before ++ c :: later →
    c.order = .shutDown ∨ ¬ (k.after before).TakesAll c →
      (k.after calls).held = (k.after (before ++ [c])).held
  /-- The number of bytes that are taken at a time makes no difference. -/
  steady : ∀ most, most ≠ some 0 →
    { k with perWrite := most }.after calls = { k.after calls with perWrite := most }
  /-- Nor does it if it is another number each time. -/
  puts : ∀ s o, Puts (k.after calls) s o → o = (k.after calls).writeAll s

/-- A sink that takes some bytes at a time never holds more than one frame that is not whole, and
that one is the last. -/
theorem only_the_last_frame_is_torn (takes : k.perWrite ≠ some 0) (calls : List Call) :
    k.Fares calls := by
  have takes' : (k.after calls).perWrite ≠ some 0 := perWrite_after takes calls ▸ takes
  constructor
  case held => exact exists_part takes calls
  case answered =>
    intro c
    rw [takesAll_iff takes']
    obtain ⟨ends, called⟩ | ⟨goesOn, result, called, answer⟩ := call_cases takes' c
    · have nothing : c.order.bytes.length = 0 := by rw [ends]; rfl
      have none := Nat.le_zero.mp ((k.after calls).fits_le 0)
      rw [called, nothing, none]
      simp [ends]
    · rw [called, answer]
      simp [goesOn]
  case silent =>
    rintro before c later rfl stops
    have takes'' : (k.after before).perWrite ≠ some 0 := perWrite_after takes before ▸ takes
    have spent := isSpent_call takes'' stops
    rw [after_append, after_append, after_cons, after_cons]
    exact (spent.after (perWrite_call takes'' c ▸ takes'') later).1
  case steady =>
    intro most some
    exact after_with_perWrite takes some calls
  case puts =>
    intro s o puts
    rw [writeAll_eq takes']
    exact eq_of_puts puts

/-- There is room for one frame and a part of the next one, and flushing fails once. -/
def cramped : List Call :=
  [⟨.sendRaw [111, 110, 101, 10], some "broken"⟩, ⟨.sendRaw [116, 119, 111, 10], none⟩,
    ⟨.sendRaw [51, 10], none⟩, ⟨.sendRaw [], none⟩]

theorem only_the_last_frame_is_torn_cramped :
    let k : Sink := ⟨some 3, some 6, none, none, [], false⟩
    k.perWrite ≠ some 0 ∧ k.whole cramped = [[111, 110, 101, 10], []] ∧
      k.torn? cramped = some [116, 119, 111, 10] ∧
      (k.after cramped).held = [111, 110, 101, 10, 116, 119] ∧ k.Fares cramped := by
  intro k
  have takes : k.perWrite ≠ some 0 := by decide
  exact ⟨takes, by decide, by decide, by decide, only_the_last_frame_is_torn takes cramped⟩

end Sink

end Mailroom
