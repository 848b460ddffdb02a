import Mailroom.Proofs.Frame.Arrivals

/-!
# How a stream of frames ends

A stream gives the frames at its beginning, and then it ends: well, if all of it is complete lines
that can be read, and otherwise with the error of the first line that cannot be read or with that of
the first failing read, whichever comes first. A stream has one account of this kind, and whatever
has arrived when a reader is asked, what it gives goes by the account of the whole stream.
-/

namespace Mailroom

open Ascii

namespace ByteStream

/-- Why the first of these reads fails that does. -/
def failure? : List Read → Option String
  | [] => none
  | .bytes _ :: reads => failure? reads
  | .failure reason :: _ => some reason

/-- Right after the bytes `good`, a stream of these reads ends with this error. -/
inductive FailsWith (limit : Nat) (sent : List Read) (good : Bytes) : FrameError → Prop
  /-- A line needs more bytes than the limit. -/
  | tooLarge {line rest : Bytes} (inside : lineFeed ∉ line) (full : line.length = limit)
      (stream : received sent = good ++ (line ++ rest)) :
      FailsWith limit sent good (.tooLarge limit)
  /-- A complete line, which is not blank, does not decode. -/
  | malformed {line rest : Bytes} {reason : Malformed} (inside : lineFeed ∉ line)
      (fits : line.length < limit) (shown : (line ++ [lineFeed]).isBlank = false)
      (undecodable : Frame.decode (line ++ [lineFeed]) = .error reason)
      (stream : received sent = good ++ (line ++ lineFeed :: rest)) :
      FailsWith limit sent good (.malformed reason)
  /-- The stream ends within a line. -/
  | truncated {line : Bytes} (inside : lineFeed ∉ line) (fits : line.length < limit)
      (given : line ≠ []) (unfailing : failure? sent = none)
      (stream : received sent = good ++ line) : FailsWith limit sent good .truncated
  /-- A read fails within a line or before its first byte. -/
  | broken {line : Bytes} {reason : String} (inside : lineFeed ∉ line)
      (fits : line.length < limit) (failed : failure? sent = some reason)
      (stream : received sent = good ++ line) :
      FailsWith limit sent good (.transport reason)

/-- A stream of these reads gives these frames and then ends, with this error or with none. -/
inductive Account (limit : Nat) (sent : List Read) (fs : List Inbound) : Option FrameError → Prop
  | whole (lines : FrameLines limit (received sent) fs) (unfailing : failure? sent = none) :
      Account limit sent fs none
  | failing {good : Bytes} {e : FrameError} (lines : FrameLines limit good fs)
      (fails : FailsWith limit sent good e) : Account limit sent fs (some e)

/-- These outcomes, of which a read failed after the last one if there is a failure, come to this
error or to none. -/
inductive EndsWith (failure? : Option String) : List Reading → Option FrameError → Prop
  | ended (unfailing : failure? = none) : EndsWith failure? [] none
  | failed {e : FrameError} {others : List Reading} (whole : e ≠ .truncated) :
      EndsWith failure? (.failed e :: others) (some e)
  | truncated (unfailing : failure? = none) :
      EndsWith failure? [.failed .truncated] (some .truncated)
  | between {reason : String} (failed : failure? = some reason) :
      EndsWith failure? [] (some (.transport reason))
  | within {reason : String} (failed : failure? = some reason) :
      EndsWith failure? [.failed .truncated] (some (.transport reason))

/-- What a reader makes of a stream of these reads. -/
def Reads (limit : Nat) (sent : List Read) (fs : List Inbound) (e? : Option FrameError) : Prop :=
  ∃ others, outcomes limit (received sent) = fs.map .frame ++ others ∧
    EndsWith (failure? sent) others e?

section

variable {limit : Nat} {sent : List Read} {good line s : Bytes} {fs fs' : List Inbound}
  {e? e?' : Option FrameError} {e : FrameError} {others others' : List Reading}
  {failed? : Option String}

theorem failure?_eq_none : failure? sent = none ↔ ∀ reason, .failure reason ∉ sent := by
  induction sent with
  | nil => simp [failure?]
  | cons read sent ih =>
    cases read with
    | bytes b => simp [failure?, ih]
    | failure reason => simpa [failure?] using ⟨reason, fun other => absurd rfl other⟩

theorem EndsWith.unique (ends : EndsWith failed? others e?) (ends' : EndsWith failed? others e?') :
    e? = e?' := by
  cases ends <;> cases ends' <;> simp_all

theorem EndsWith.leading_eq_nil (ends : EndsWith failed? others e?) : leading others = [] := by
  cases ends <;> rfl

theorem leading_append (fs : List Inbound) (others : List Reading) :
    leading (fs.map .frame ++ others) = fs ++ leading others := by
  induction fs with
  | nil => rfl
  | cons f fs ih => exact congrArg (f :: ·) ih

/-- What a reader makes of a stream is determined by the stream. -/
theorem Reads.unique (reads : Reads limit sent fs e?) (reads' : Reads limit sent fs' e?') :
    fs = fs' ∧ e? = e?' := by
  obtain ⟨others, split, ends⟩ := reads
  obtain ⟨others', split', ends'⟩ := reads'
  have same := split.symm.trans split'
  have frames := congrArg leading same
  rw [leading_append, leading_append, ends.leading_eq_nil, ends'.leading_eq_nil,
    List.append_nil, List.append_nil] at frames
  subst frames
  rw [List.append_cancel_left same] at ends
  exact ⟨rfl, ends.unique ends'⟩

theorem outcomes_append (lines : FrameLines limit good fs) (rest : Bytes) :
    outcomes limit (good ++ rest) = fs.map .frame ++ outcomes limit rest := by
  induction lines with
  | nil => rfl
  | @blank line s fs inside fits blank others ih =>
    rw [List.append_assoc, List.cons_append, outcomes_of_line inside fits, outcome?_line,
      if_pos blank]
    exact ih
  | @frame line s e fs inside fits decoded others ih =>
    have shown := FrameReader.not_isBlank_of_decode decoded
    rw [List.append_assoc, List.cons_append, outcomes_of_line inside fits,
      outcome?_line, shown, FrameReader.interpret, decoded]
    exact congrArg (List.cons _) ih

theorem outcomes_of_frameLines (lines : FrameLines limit s fs) :
    outcomes limit s = fs.map .frame := by
  have whole := outcomes_append lines []
  rwa [List.append_nil, outcomes_nil, List.append_nil] at whole

/-- A reader goes by the account of a stream. -/
theorem Account.reads (positive : 0 < limit) (account : Account limit sent fs e?) :
    Reads limit sent fs e? := by
  cases account with
  | whole lines unfailing =>
    refine ⟨[], ?_, .ended unfailing⟩
    rw [outcomes_of_frameLines lines, List.append_nil]
  | failing lines fails =>
    cases fails with
    | @tooLarge line rest inside full stream =>
      have split := outcomes_append lines (line ++ rest)
      rw [← stream, outcomes_of_full inside full positive] at split
      exact ⟨_, split, .failed (by intro same; cases same)⟩
    | @malformed line rest reason inside fits shown undecodable stream =>
      have split := outcomes_append lines (line ++ lineFeed :: rest)
      rw [← stream, outcomes_of_line inside fits, outcome?_line, shown, FrameReader.interpret,
        undecodable] at split
      exact ⟨_, split, .failed (by intro same; cases same)⟩
    | @truncated line inside fits given unfailing stream =>
      have split := outcomes_append lines line
      rw [← stream, outcomes_of_end inside fits given] at split
      exact ⟨_, split, .truncated unfailing⟩
    | @broken line reason inside fits failed stream =>
      have split := outcomes_append lines line
      rw [← stream] at split
      by_cases empty : line = []
      · rw [empty, outcomes_nil] at split
        exact ⟨_, split, .between failed⟩
      · rw [outcomes_of_end inside fits empty] at split
        exact ⟨_, split, .within failed⟩

/-- Every stream has an account. -/
theorem exists_account (limit : Nat) (sent : List Read) :
    ∃ fs e?, Account limit sent fs e? := by
  obtain ⟨good, rest, fs, stream, lines, stops⟩ := lines_then_stops limit (received sent)
  cases stops with
  | tooLarge inside full => exact ⟨fs, _, .failing lines (.tooLarge inside full stream)⟩
  | malformed inside fits shown undecodable =>
    exact ⟨fs, _, .failing lines (.malformed inside fits shown undecodable stream)⟩
  | rest inside fits =>
    cases failed : failure? sent with
    | some reason => exact ⟨fs, _, .failing lines (.broken inside fits failed stream)⟩
    | none =>
      by_cases empty : rest = []
      · rw [empty, List.append_nil] at stream
        exact ⟨fs, none, .whole (stream ▸ lines) failed⟩
      · exact ⟨fs, _, .failing lines (.truncated inside fits empty failed stream)⟩

/-- A stream has one account. -/
theorem Account.unique (positive : 0 < limit) (account : Account limit sent fs e?)
    (account' : Account limit sent fs' e?') : fs = fs' ∧ e? = e?' :=
  (account.reads positive).unique (account'.reads positive)

end

end ByteStream

open ByteStream

namespace FrameReader

/-- How a reader goes on in a stream of which these are the outcomes ahead, with this failure after
them if there is one. What is ahead of the reader then counts as if `more` arrives. -/
inductive Goes (limit : Nat) (more : List Read) (ahead : List Reading) (failed? : Option String) :
    Reading × FrameReader → Prop
  | frame {f : Inbound} {r' : FrameReader}
      (first : ahead = .frame f :: outcomes limit (received (r'.ahead ++ more)))
      (same : failure? (r'.ahead ++ more) = failed?) : Goes limit more ahead failed? (.frame f, r')
  /-- All that has arrived is used up. -/
  | waiting {r' : FrameReader} (isOpen : r'.isOpen = true) (read : r'.reads = [])
      (first : ahead = outcomes limit (received (r'.ahead ++ more)))
      (same : failure? (r'.ahead ++ more) = failed?) : Goes limit more ahead failed? (.waiting, r')
  | ended {r' : FrameReader} (ends : EndsWith failed? ahead none) :
      Goes limit more ahead failed? (.ended, r')
  | failed {e : FrameError} {r' : FrameReader} (ends : EndsWith failed? ahead (some e)) :
      Goes limit more ahead failed? (.failed e, r')

section

variable {limit : Nat} {isOpen : Bool} {sent more reads : List Read} {ahead : List Reading}
  {failed? : Option String} {fs : List Inbound} {r : FrameReader}

theorem goes_of_cut (segment : Segment) (rest : Bytes)
    (first : ahead =
      interpret limit segment :: outcomes limit (rest ++ received (reads ++ more)))
    (same : failure? (reads ++ more) = failed?) :
    Goes limit more ahead failed? (interpret limit segment, ⟨limit, [], rest, reads, isOpen⟩) := by
  cases segment with
  | tooLarge =>
    subst first
    exact .failed (.failed (by intro same; cases same))
  | line raw =>
    cases decoded : Frame.decode raw with
    | ok e =>
      simp only [interpret, decoded] at first ⊢
      exact .frame first same
    | error reason =>
      simp only [interpret, decoded] at first ⊢
      subst first
      exact .failed (.failed (by intro same; cases same))

theorem goes_of_end {line : Bytes} (closed : isOpen = false → more = []) (inside : lineFeed ∉ line)
    (fits : line.length < limit) :
    Goes limit more (outcomes limit (line.reverse ++ received more)) (failure? more)
      (atEnd isOpen line, ⟨limit, if isOpen then line else [], [], [], isOpen⟩) := by
  cases isOpen with
  | true =>
    refine .waiting rfl rfl ?_ rfl
    simp [FrameReader.ahead, received]
  | false =>
    rw [closed rfl, received, List.append_nil]
    by_cases empty : line = []
    · subst empty
      rw [List.reverse_nil, outcomes_nil]
      exact .ended (.ended rfl)
    · have cut := outcomes_of_end (mt List.mem_reverse.mp inside) (by simpa using fits)
        (mt List.reverse_eq_nil_iff.mp empty)
      have ends : atEnd false line = .failed .truncated := by simp [atEnd, empty]
      rw [cut, ends]
      exact .failed (.truncated rfl)

theorem pull_goes {seen : Bytes} (reads : List Read) (closed : isOpen = false → more = [])
    (inside : lineFeed ∉ seen) (fits : seen.length < limit) (pending : Bytes) :
    Goes limit more (outcomes limit (seen.reverse ++ (pending ++ received (reads ++ more))))
      (failure? (reads ++ more)) (pull limit isOpen reads seen (limit - seen.length) pending) := by
  induction reads generalizing seen pending with
  | nil =>
    rw [pull]
    apply scan_outcomes pending (received ([] ++ more)) inside fits
    · intro line inside fits same
      rw [same]
      exact goes_of_end closed inside fits
    · intro segment rest first
      exact goes_of_cut segment rest first rfl
  | cons read reads ih =>
    rw [pull]
    apply scan_outcomes pending (received (read :: reads ++ more)) inside fits
    · intro line inside fits same
      rw [same]
      cases read with
      | bytes b => exact ih inside fits b
      | failure reason =>
        have unended : lineFeed ∉ line.reverse := mt List.mem_reverse.mp inside
        rw [List.cons_append, received, List.append_nil]
        by_cases empty : line = []
        · subst empty
          rw [List.reverse_nil, outcomes_nil]
          exact .failed (.between rfl)
        · rw [outcomes_of_end unended (by simpa using fits) (mt List.reverse_eq_nil_iff.mp empty)]
          exact .failed (.within rfl)
    · intro segment rest first
      exact goes_of_cut segment rest first rfl

/-- A call gives the first outcome of what is ahead, or it gives the end of the stream. -/
theorem next_goes (positive : 0 < r.limit) (between : Between r)
    (closed : r.isOpen = false → more = []) :
    Goes r.limit more (outcomes r.limit (received (r.ahead ++ more))) (failure? (r.ahead ++ more))
      r.next := by
  have := between.fits
  rw [next, if_neg (by omega), received_ahead]
  exact pull_goes r.reads closed between.inside (by omega) r.pending

/-- A reader has given these frames of the stream that consists of the reads `sent`, of which `more`
are still to arrive. -/
structure Progress (limit : Nat) (isOpen : Bool) (sent more : List Read) (fs : List Inbound)
    (r : FrameReader) : Prop where
  limit_eq : r.limit = limit
  isOpen_eq : r.isOpen = isOpen
  between : Between r
  closed : isOpen = false → more = []
  outcomes_eq : outcomes limit (received sent) =
    fs.map .frame ++ outcomes limit (received (r.ahead ++ more))
  failure_eq : failure? (r.ahead ++ more) = failure? sent

theorem progress_fresh (limit : Nat) (sent : List Read) :
    Progress limit true sent sent [] (fresh limit) :=
  ⟨rfl, rfl, ⟨List.not_mem_nil, Nat.zero_le _⟩, nofun, rfl, rfl⟩

theorem Progress.push {read : Read} (progress : Progress limit isOpen sent (read :: more) fs r) :
    Progress limit isOpen sent more fs (r.push read) := by
  have shifted : (r.push read).ahead ++ more = r.ahead ++ read :: more := by
    simp [FrameReader.ahead, FrameReader.push]
  obtain ⟨limit_eq, isOpen_eq, between, closed, outcomes_eq, failure_eq⟩ := progress
  rw [← shifted] at outcomes_eq failure_eq
  exact ⟨limit_eq, isOpen_eq, ⟨between.inside, between.fits⟩,
    fun none => absurd (closed none) (List.cons_ne_nil read more), outcomes_eq, failure_eq⟩

theorem Progress.close (progress : Progress limit isOpen sent [] fs r) :
    Progress limit false sent [] fs r.close :=
  ⟨progress.limit_eq, rfl, ⟨progress.between.inside, progress.between.fits⟩, fun _ => rfl,
    progress.outcomes_eq, progress.failure_eq⟩

/-- What comes of a call: another frame, nothing yet, or the end of the stream. -/
theorem Progress.next (positive : 0 < limit) (progress : Progress limit isOpen sent more fs r) :
    (∃ f, r.next.1 = .frame f ∧ Progress limit isOpen sent more (fs ++ [f]) r.next.2) ∨
    (r.next.1 = .waiting ∧ isOpen = true ∧ (more = [] → failure? sent = none) ∧
      Progress limit isOpen sent more fs r.next.2) ∨
    (r.next.1 = .ended ∧ Reads limit sent fs none) ∨
    (∃ e, r.next.1 = .failed e ∧ Reads limit sent fs (some e)) := by
  obtain ⟨rfl, rfl, between, closed, outcomes_eq, failure_eq⟩ := progress
  have goes := next_goes positive between closed
  obtain ⟨limit_eq, isOpen_eq, between', -, -, -⟩ := next_leads between closed
  rw [failure_eq] at goes
  generalize r.next = result at *
  cases goes with
  | @frame f _ first same =>
    refine .inl ⟨f, rfl, limit_eq, isOpen_eq, between', closed, ?_, same⟩
    rw [outcomes_eq, first, List.map_append, List.append_assoc]
    rfl
  | waiting isOpen read first same =>
    refine .inr (.inl ⟨rfl, isOpen_eq.symm.trans isOpen, ?_, limit_eq, isOpen_eq, between', closed,
      first ▸ outcomes_eq, same⟩)
    rintro rfl
    rw [← same, FrameReader.ahead, read]
    rfl
  | ended ends => exact .inr (.inr (.inl ⟨rfl, _, outcomes_eq, ends⟩))
  | failed ends => exact .inr (.inr (.inr ⟨_, rfl, _, outcomes_eq, ends⟩))

/-- Scanning leaves fewer bytes where it comes to a segment. -/
theorem scan_shortens {ρ : Type} {P : ρ → Prop} {wait : Bytes → Nat → ρ}
    {cut : Segment → Bytes → ρ} {seen s : Bytes} {room : Nat}
    (waits : ∀ seen room, P (wait seen room))
    (cuts : ∀ segment rest, rest.length < s.length → P (cut segment rest)) :
    P (scan limit wait cut seen room s) := by
  induction s generalizing seen room with
  | nil => exact waits seen room
  | cons b s ih =>
    have later : ∀ segment rest, rest.length < s.length → P (cut segment rest) :=
      fun segment rest less => cuts segment rest (Nat.lt_succ_of_lt less)
    rw [scan]
    split
    · dsimp only
      split
      · exact ih later
      · exact cuts _ s (Nat.lt_succ_self _)
    · split
      · exact cuts _ s (Nat.lt_succ_self _)
      · exact ih later

/-- How many bytes and failures there are in these reads. -/
def extent : List Read → Nat
  | [] => 0
  | read :: reads => read.size + extent reads

theorem backlog_eq (r : FrameReader) : r.backlog = r.pending.length + extent r.reads := by
  have total (n : Nat) (reads : List Read) :
      reads.foldl (fun n read => n + read.size) n = n + extent reads := by
    induction reads generalizing n with
    | nil => rfl
    | cons read reads ih =>
      rw [List.foldl_cons, ih, extent]
      omega
  exact total _ _

/-- Less than this is left to be taken in after a frame. -/
def Shortens (n : Nat) (result : Reading × FrameReader) : Prop :=
  ∀ f, result.1 = .frame f → result.2.backlog < n

theorem pull_shortens (reads : List Read) (seen : Bytes) (room : Nat) (pending : Bytes) :
    Shortens (pending.length + extent reads)
      (pull limit isOpen reads seen room pending) := by
  induction reads generalizing seen room pending with
  | nil =>
    rw [pull]
    apply scan_shortens
    · intro seen _ f given
      exact absurd given (atEnd_ne_frame isOpen seen f)
    · intro segment rest less f _
      rw [backlog_eq]
      exact Nat.add_lt_add_right less _
  | cons read reads ih =>
    rw [pull]
    apply scan_shortens
    · intro seen room f given
      cases read with
      | bytes b =>
        apply Nat.lt_of_lt_of_le (ih seen room b f given)
        rw [extent, Read.size]
        omega
      | failure reason => cases given
    · intro segment rest less f _
      rw [backlog_eq]
      exact Nat.add_lt_add_right less _

/-- A frame has a byte at least. -/
theorem next_shortens (r : FrameReader) : Shortens r.backlog r.next := by
  rw [next, backlog_eq]
  split
  · intro f given
    cases given
  · exact pull_shortens r.reads r.seen _ r.pending

end

end FrameReader

end Mailroom
