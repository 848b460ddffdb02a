import Mailroom.Proofs.Frame.Segments

/-!
# Frames of a stream that is still arriving

A reader is asked for frames while more of its stream may arrive, and a read may fail. Whatever has
arrived when it is asked, the frames that it gives are those at the beginning of the whole stream,
and it gives no more after the first line that is none.

A stream fails at a line that is too long, that does not decode, that is cut off by the end or that
is cut off by a failing read. What comes before that line are complete lines, and the frames of the
stream are among them. Every stream fails at some line or consists of complete lines.
-/

namespace Mailroom

open Ascii

namespace ByteStream

/-- The bytes of these reads, up to the first one that fails. -/
def received : List Read → Bytes
  | [] => []
  | .bytes b :: reads => b ++ received reads
  | .failure _ :: _ => []

/-- The frames before the first reading that is none. -/
def leading : List Reading → List Inbound
  | .frame f :: readings => f :: leading readings
  | _ => []

/-- The frames at the beginning of a stream. -/
def firstFrames (limit : Nat) (s : Bytes) : List Inbound := leading (outcomes limit s)

theorem mem_of_mem_leading {f : Inbound} {readings : List Reading} (given : f ∈ leading readings) :
    .frame f ∈ readings := by
  induction readings with
  | nil => cases given
  | cons reading readings ih =>
    cases reading with
    | frame g =>
      rcases List.mem_cons.mp given with rfl | later
      · exact List.mem_cons_self
      · exact List.mem_cons_of_mem _ (ih later)
    | _ => cases given

theorem lineFeed_notMem_of_segment {limit : Nat} {s line : Bytes}
    (ends : segment limit s = line ++ [lineFeed]) : lineFeed ∉ line := by
  induction line generalizing limit s with
  | nil => exact List.not_mem_nil
  | cons c line ih =>
    cases limit with
    | zero => cases ends
    | succ limit =>
      cases s with
      | nil => cases ends
      | cons b s =>
        rw [segment] at ends
        split at ends
        · obtain ⟨-, none⟩ := List.cons.inj ends
          simp at none
        next other =>
          obtain ⟨rfl, rest⟩ := List.cons.inj ends
          exact mt List.mem_cons.mp (not_or.mpr ⟨Ne.symm other, ih rest⟩)

theorem exists_of_mem_segments {limit : Nat} {s part : Bytes} (mem : part ∈ segments limit s) :
    ∃ s', part = segment limit s' := by
  fun_induction segments limit s with
  | case1 s empty => cases mem
  | case2 s given ih =>
    rcases List.mem_cons.mp mem with rfl | later
    · exact ⟨s, rfl⟩
    · exact ih later

/-- A frame is a segment with a line feed at its end. -/
theorem segment_of_mem_firstFrames {limit : Nat} {s : Bytes} {f : Inbound}
    (given : f ∈ firstFrames limit s) :
    (∃ s', segment limit s' = f.raw) ∧ f.raw.getLast? = some lineFeed ∧
      Frame.decode f.raw = .ok f.envelope := by
  obtain ⟨part, mem, read⟩ := List.mem_filterMap.mp (mem_of_mem_leading given)
  obtain ⟨s', rfl⟩ := exists_of_mem_segments mem
  rw [outcome?] at read
  split at read
  · cases read
  next ends =>
    split at read
    · cases read
    · split at read
      next e decoded =>
        cases read
        exact ⟨⟨s', rfl⟩, Decidable.not_not.mp ends, decoded⟩
      next => cases read

theorem length_le_of_mem_firstFrames {limit : Nat} {s : Bytes} {f : Inbound}
    (given : f ∈ firstFrames limit s) : f.raw.length ≤ limit := by
  obtain ⟨⟨s', whole⟩, -, -⟩ := segment_of_mem_firstFrames given
  rw [← whole]
  exact length_segment_le limit s'

/-- A frame has a line feed at its end and no other. -/
theorem line_of_mem_firstFrames {limit : Nat} {s : Bytes} {f : Inbound}
    (given : f ∈ firstFrames limit s) :
    (∃ line, f.raw = line ++ [lineFeed] ∧ lineFeed ∉ line) ∧
      Frame.decode f.raw = .ok f.envelope := by
  obtain ⟨⟨s', whole⟩, ends, decoded⟩ := segment_of_mem_firstFrames given
  obtain ⟨line, parts⟩ := List.getLast?_eq_some_iff.mp ends
  exact ⟨⟨line, parts, lineFeed_notMem_of_segment (whole.trans parts)⟩, decoded⟩

theorem received_bytes (pieces : List Bytes) : received (pieces.map .bytes) = pieces.flatten := by
  induction pieces with
  | nil => rfl
  | cons piece pieces ih => rw [List.map_cons, received, ih, List.flatten_cons]

theorem firstFrames_nil (limit : Nat) : firstFrames limit [] = [] := by
  rw [firstFrames, outcomes_nil]
  rfl

theorem firstFrames_of_limit_zero (s : Bytes) : firstFrames 0 s = [] := by
  rw [firstFrames, outcomes, segments, if_pos (segment.eq_1 s)]
  rfl

/-- A line that has not ended gives no frame. -/
theorem firstFrames_of_end {limit : Nat} {line : Bytes} (inside : lineFeed ∉ line)
    (fits : line.length < limit) : firstFrames limit line = [] := by
  by_cases empty : line = []
  · rw [empty, firstFrames_nil]
  · rw [firstFrames, outcomes_of_end inside fits empty]
    rfl

end ByteStream

open ByteStream

namespace FrameReader

/-- What is there of the current line, and all that is still to be taken in. -/
def ahead (r : FrameReader) : List Read := .bytes (r.seen.reverse ++ r.pending) :: r.reads

/-- A reader between two calls, within a line that may have more bytes. -/
structure Between (r : FrameReader) : Prop where
  inside : lineFeed ∉ r.seen
  fits : r.seen.length ≤ r.limit - 1

/-- A call leads on in a stream, of which there are these bytes ahead if `more` arrives. -/
structure Leads (limit : Nat) (isOpen : Bool) (more : List Read) (s : Bytes)
    (result : Reading × FrameReader) : Prop where
  limit_eq : result.2.limit = limit
  isOpen_eq : result.2.isOpen = isOpen
  between : Between result.2
  frame : ∀ f, result.1 = .frame f →
    firstFrames limit s = f :: firstFrames limit (received (result.2.ahead ++ more))
  noFrame : result.1 ≠ .waiting → (∀ f, result.1 ≠ .frame f) → firstFrames limit s = []
  waiting : result.1 = .waiting → isOpen = true

variable {limit : Nat} {isOpen : Bool} {more reads : List Read} {s : Bytes}

theorem atEnd_ne_frame (isOpen : Bool) (seen : Bytes) (f : Inbound) :
    atEnd isOpen seen ≠ .frame f := by
  unfold atEnd
  split
  · exact nofun
  · split <;> exact nofun

theorem isOpen_of_atEnd {isOpen : Bool} {seen : Bytes} (waits : atEnd isOpen seen = .waiting) :
    isOpen = true := by
  unfold atEnd at waits
  split at waits
  · assumption
  · split at waits <;> cases waits

/-- A segment leads on if it is the first one. -/
theorem leads_of_cut (segment : Segment) (rest : Bytes)
    (first : outcomes limit s =
      interpret limit segment :: outcomes limit (rest ++ received (reads ++ more))) :
    Leads limit isOpen more s (interpret limit segment, ⟨limit, [], rest, reads, isOpen⟩) where
  limit_eq := rfl
  isOpen_eq := rfl
  between := ⟨List.not_mem_nil, Nat.zero_le _⟩
  frame f read := by
    dsimp only at read
    rw [read] at first
    rw [firstFrames, first]
    rfl
  noFrame _ other := by
    rw [firstFrames, first, leading]
    exact fun f _ same => other f (List.cons.inj same).1
  waiting waits := by
    cases segment with
    | tooLarge => cases waits
    | line raw =>
      dsimp only [interpret] at waits
      split at waits <;> cases waits

/-- To lead on depends on the outcomes of what is ahead only. -/
theorem Leads.of_outcomes {s' : Bytes} {result : Reading × FrameReader}
    (leads : Leads limit isOpen more s' result) (same : outcomes limit s = outcomes limit s') :
    Leads limit isOpen more s result where
  limit_eq := leads.limit_eq
  isOpen_eq := leads.isOpen_eq
  between := leads.between
  frame f read := by
    rw [firstFrames, same]
    exact leads.frame f read
  noFrame arrived other := by
    rw [firstFrames, same]
    exact leads.noFrame arrived other
  waiting := leads.waiting

/-- Where all that has arrived is used up, there is no frame unless more arrives. -/
theorem leads_of_end {line : Bytes} (closed : isOpen = false → more = [])
    (inside : lineFeed ∉ line) (fits : line.length < limit) :
    Leads limit isOpen more (line.reverse ++ received more)
      (atEnd isOpen line, ⟨limit, if isOpen then line else [], [], [], isOpen⟩) where
  limit_eq := rfl
  isOpen_eq := rfl
  between := by
    cases isOpen with
    | true => exact ⟨inside, Nat.le_sub_one_of_lt fits⟩
    | false => exact ⟨List.not_mem_nil, Nat.zero_le _⟩
  frame f read := absurd read (atEnd_ne_frame isOpen line f)
  noFrame arrived _ := by
    cases isOpen with
    | true => exact absurd rfl arrived
    | false =>
      rw [closed rfl, received, List.append_nil]
      exact firstFrames_of_end (mt List.mem_reverse.mp inside) (by simpa using fits)
  waiting waits := isOpen_of_atEnd waits

theorem pull_leads {seen : Bytes} (reads : List Read) (closed : isOpen = false → more = [])
    (inside : lineFeed ∉ seen) (fits : seen.length < limit) (pending : Bytes) :
    Leads limit isOpen more (seen.reverse ++ (pending ++ received (reads ++ more)))
      (pull limit isOpen reads seen (limit - seen.length) pending) := by
  induction reads generalizing seen pending with
  | nil =>
    rw [pull]
    apply scan_outcomes pending (received ([] ++ more)) inside fits
    · intro line inside fits same
      exact (leads_of_end closed inside fits).of_outcomes same
    · intro segment rest first
      exact leads_of_cut segment rest first
  | cons read reads ih =>
    rw [pull]
    apply scan_outcomes pending (received (read :: reads ++ more)) inside fits
    · intro line inside fits same
      cases read with
      | bytes b => exact (ih inside fits b).of_outcomes same
      | failure reason =>
        constructor
        · rfl
        · rfl
        · exact ⟨List.not_mem_nil, Nat.zero_le _⟩
        · intro f read
          cases read
        · intro arrived other
          rw [firstFrames, same, List.cons_append, received, List.append_nil]
          exact firstFrames_of_end (mt List.mem_reverse.mp inside) (by simpa using fits)
        · intro waits
          cases waits
    · intro segment rest first
      exact leads_of_cut segment rest first

variable {r : FrameReader}

theorem received_ahead (r : FrameReader) (more : List Read) :
    received (r.ahead ++ more) =
      r.seen.reverse ++ (r.pending ++ received (r.reads ++ more)) := by
  rw [ahead, List.cons_append, received, List.append_assoc]

/-- What a call gives is the first frame of what is ahead, if it gives one. If it gives none and
does not wait for more to arrive, then there is none. -/
theorem next_leads (between : Between r) (closed : r.isOpen = false → more = []) :
    Leads r.limit r.isOpen more (received (r.ahead ++ more)) r.next := by
  rw [next, received_ahead]
  by_cases none : r.limit = 0
  · rw [if_pos none]
    have nothing : ∀ s, firstFrames r.limit s = [] := by
      rw [none]
      exact firstFrames_of_limit_zero
    constructor
    · rfl
    · rfl
    · exact between
    · intro f read
      cases read
    · intro arrived other
      exact nothing _
    · intro waits
      cases waits
  · rw [if_neg none]
    have := between.fits
    exact pull_leads r.reads closed between.inside (by omega) r.pending

/-- These are the frames that a reader is still to give if `more` arrives. -/
structure Expects (r : FrameReader) (more : List Read) (fs : List Inbound) : Prop where
  between : Between r
  closed : r.isOpen = false → more = []
  frames : firstFrames r.limit (received (r.ahead ++ more)) = fs

variable {fs : List Inbound}

theorem expects_fresh (limit : Nat) (more : List Read) :
    Expects (fresh limit) more (firstFrames limit (received more)) :=
  ⟨⟨List.not_mem_nil, Nat.zero_le _⟩, nofun, rfl⟩

theorem Expects.push {read : Read} (expects : Expects r (read :: more) fs) :
    Expects (r.push read) more fs where
  between := ⟨expects.between.inside, expects.between.fits⟩
  closed none := absurd (expects.closed none) (List.cons_ne_nil read more)
  frames := by
    have shifted : (r.push read).ahead ++ more = r.ahead ++ read :: more := by
      simp [ahead, FrameReader.push]
    rw [shifted]
    exact expects.frames

theorem Expects.close (expects : Expects r [] fs) : Expects r.close [] fs :=
  ⟨⟨expects.between.inside, expects.between.fits⟩, fun _ => rfl, expects.frames⟩

/-- What a reader is asked for is the first of the frames that are expected of it, or there is
none, unless the reader waits. -/
theorem Expects.next (expects : Expects r more fs) (arrived : r.next.1 ≠ .waiting) :
    (fs = [] ∧ ∀ f, r.next.1 ≠ .frame f) ∨
      ∃ f fs', fs = f :: fs' ∧ r.next.1 = .frame f ∧ Expects r.next.2 more fs' := by
  have leads := next_leads expects.between expects.closed
  have frames := expects.frames
  by_cases given : ∃ f, r.next.1 = .frame f
  · obtain ⟨f, given⟩ := given
    rw [leads.frame f given, ← leads.limit_eq] at frames
    refine .inr ⟨f, _, frames.symm, given, leads.between, ?_, rfl⟩
    rw [leads.isOpen_eq]
    exact expects.closed
  · have none := not_exists.mp given
    exact .inl ⟨frames.symm.trans (leads.noFrame arrived none), none⟩

theorem Expects.not_waiting (expects : Expects r more fs) (closed : r.isOpen = false) :
    r.next.1 ≠ .waiting := by
  intro waits
  have isOpen := (next_leads expects.between expects.closed).waiting waits
  rw [closed] at isOpen
  cases isOpen

end FrameReader

namespace ByteStream

/-- Complete lines that are blank or decode, with the frames among them. -/
inductive FrameLines (limit : Nat) : Bytes → List Inbound → Prop
  | nil : FrameLines limit [] []
  | blank {line s : Bytes} {fs : List Inbound} (inside : lineFeed ∉ line)
      (fits : line.length < limit) (blank : (line ++ [lineFeed]).isBlank)
      (others : FrameLines limit s fs) : FrameLines limit (line ++ lineFeed :: s) fs
  | frame {line s : Bytes} {e : Envelope} {fs : List Inbound} (inside : lineFeed ∉ line)
      (fits : line.length < limit) (decoded : Frame.decode (line ++ [lineFeed]) = .ok e)
      (others : FrameLines limit s fs) :
      FrameLines limit (line ++ lineFeed :: s) (⟨e, line ++ [lineFeed]⟩ :: fs)

/-- A line that cannot be read comes in a stream of these reads right after the bytes `good`. -/
inductive FailsAfter (limit : Nat) (sent : List Read) (good : Bytes) : Prop
  | tooLarge {line rest : Bytes} (positive : 0 < limit) (inside : lineFeed ∉ line)
      (full : line.length = limit) (stream : received sent = good ++ (line ++ rest))
  | malformed {line rest : Bytes} {reason : Malformed} (inside : lineFeed ∉ line)
      (fits : line.length < limit) (shown : (line ++ [lineFeed]).isBlank = false)
      (undecodable : Frame.decode (line ++ [lineFeed]) = .error reason)
      (stream : received sent = good ++ (line ++ lineFeed :: rest))
  /-- The stream ends within the line. -/
  | truncated {line : Bytes} (inside : lineFeed ∉ line) (fits : line.length < limit)
      (given : line ≠ []) (unfailing : ∀ reason, .failure reason ∉ sent)
      (stream : received sent = good ++ line)
  /-- A read fails within the line or before its first byte. -/
  | broken {line : Bytes} {reason : String} (inside : lineFeed ∉ line)
      (fits : line.length < limit) (failed : .failure reason ∈ sent)
      (stream : received sent = good ++ line)

/-- A frame is the decoding of a line of a stream, from the beginning of the stream or from right
after a line feed up to the next line feed. -/
structure StandsIn (s : Bytes) (f : Inbound) : Prop where
  line : ∃ before line after, s = before ++ line ++ lineFeed :: after ∧ lineFeed ∉ line ∧
    (before = [] ∨ before.getLast? = some lineFeed) ∧ f.raw = line ++ [lineFeed]
  decodes : Frame.decode f.raw = .ok f.envelope

variable {limit : Nat} {sent : List Read} {good line s : Bytes} {fs : List Inbound} {f : Inbound}

/-- A frame that stands in a stream still does when there is a line in front of it. -/
theorem StandsIn.cons (stands : StandsIn s f) (line : Bytes) :
    StandsIn (line ++ lineFeed :: s) f where
  line := by
    obtain ⟨before, own, after, rfl, inside, starts, raw⟩ := stands.line
    refine ⟨line ++ lineFeed :: before, own, after, by simp, inside, .inr ?_, raw⟩
    rcases starts with rfl | last
    · simp
    · rw [List.getLast?_append, List.getLast?_cons, last]
      rfl
  decodes := stands.decodes

theorem FrameLines.standsIn (lines : FrameLines limit s fs) : ∀ f ∈ fs, StandsIn s f := by
  induction lines with
  | nil => exact nofun
  | @blank line s fs inside fits blank others ih =>
    intro f mem
    exact (ih f mem).cons line
  | @frame line s e fs inside fits decoded others ih =>
    intro f mem
    rcases List.mem_cons.mp mem with rfl | later
    · exact ⟨⟨[], line, s, rfl, inside, .inl rfl, rfl⟩, decoded⟩
    · exact (ih f later).cons line

theorem firstFrames_append (lines : FrameLines limit good fs) (rest : Bytes) :
    firstFrames limit (good ++ rest) = fs ++ firstFrames limit rest := by
  induction lines with
  | nil => rfl
  | @blank line s fs inside fits blank others ih =>
    rw [List.append_assoc, List.cons_append, firstFrames, outcomes_of_line inside fits,
      outcome?_line, if_pos blank]
    exact ih
  | @frame line s e fs inside fits decoded others ih =>
    have shown := FrameReader.not_isBlank_of_decode decoded
    rw [List.append_assoc, List.cons_append, firstFrames, outcomes_of_line inside fits,
      outcome?_line, shown, FrameReader.interpret, decoded]
    exact congrArg (List.cons _) ih

theorem firstFrames_of_lines (lines : FrameLines limit good fs) : firstFrames limit good = fs := by
  have whole := firstFrames_append lines []
  rw [List.append_nil, firstFrames_nil, List.append_nil] at whole
  exact whole

/-- The frames at the beginning of a stream that fails are those before the line that fails. -/
theorem firstFrames_of_fails (lines : FrameLines limit good fs)
    (fails : FailsAfter limit sent good) : firstFrames limit (received sent) = fs := by
  cases fails with
  | tooLarge positive inside full stream =>
    rw [stream, firstFrames_append lines, firstFrames, outcomes_of_full inside full positive]
    exact List.append_nil fs
  | malformed inside fits shown undecodable stream =>
    rw [stream, firstFrames_append lines, firstFrames, outcomes_of_line inside fits,
      outcome?_line, shown, FrameReader.interpret, undecodable]
    exact List.append_nil fs
  | truncated inside fits given unfailing stream =>
    rw [stream, firstFrames_append lines, firstFrames_of_end inside fits, List.append_nil]
  | broken inside fits failed stream =>
    rw [stream, firstFrames_append lines, firstFrames_of_end inside fits, List.append_nil]

/-- How the complete lines at the beginning of a stream come to their end. -/
inductive Stops (limit : Nat) : Bytes → Prop
  | rest {line : Bytes} (inside : lineFeed ∉ line) (fits : line.length < limit) : Stops limit line
  | tooLarge {line rest : Bytes} (inside : lineFeed ∉ line) (full : line.length = limit) :
      Stops limit (line ++ rest)
  | malformed {line rest : Bytes} {reason : Malformed} (inside : lineFeed ∉ line)
      (fits : line.length < limit) (shown : (line ++ [lineFeed]).isBlank = false)
      (undecodable : Frame.decode (line ++ [lineFeed]) = .error reason) :
      Stops limit (line ++ lineFeed :: rest)

/-- Within the limit a stream has a line feed, or there is no complete line at its beginning. -/
theorem line_or_stops (limit : Nat) (s : Bytes) :
    (∃ line rest, s = line ++ lineFeed :: rest ∧ lineFeed ∉ line ∧ line.length < limit) ∨
      Stops limit s := by
  by_cases ends : lineFeed ∈ s.take limit
  · obtain ⟨line, between, front, inside⟩ := List.eq_append_cons_of_mem ends
    have whole : s = line ++ lineFeed :: (between ++ s.drop limit) := by
      rw [← List.cons_append, ← List.append_assoc, ← front, List.take_append_drop]
    have short := congrArg List.length front
    rw [List.length_take, List.length_append, List.length_cons] at short
    exact .inl ⟨line, _, whole, inside, by omega⟩
  · right
    by_cases fits : s.length < limit
    · rw [List.take_of_length_le (by omega)] at ends
      exact .rest ends fits
    · rw [← List.take_append_drop limit s]
      exact .tooLarge ends (by rw [List.length_take]; omega)

/-- A stream begins with complete lines, as far as its lines can be read. -/
theorem lines_then_stops (limit : Nat) (s : Bytes) :
    ∃ good rest fs, s = good ++ rest ∧ FrameLines limit good fs ∧ Stops limit rest := by
  rcases line_or_stops limit s with ⟨line, rest, rfl, inside, fits⟩ | stops
  · obtain ⟨good, stop, fs, whole, lines, stops⟩ := lines_then_stops limit rest
    cases blank : (line ++ [lineFeed]).isBlank with
    | true =>
      refine ⟨line ++ lineFeed :: good, stop, fs, ?_, .blank inside fits blank lines, stops⟩
      rw [whole, List.append_assoc, List.cons_append]
    | false =>
      cases decoded : Frame.decode (line ++ [lineFeed]) with
      | ok e =>
        refine ⟨line ++ lineFeed :: good, stop, _, ?_, .frame inside fits decoded lines, stops⟩
        rw [whole, List.append_assoc, List.cons_append]
      | error reason => exact ⟨[], _, [], rfl, .nil, .malformed inside fits blank decoded⟩
  · exact ⟨[], s, [], rfl, .nil, stops⟩
termination_by s.length

/-- Every stream consists of complete lines, or it fails after such lines. -/
theorem lines_or_fails (positive : 0 < limit) (sent : List Read) :
    ∃ good fs, FrameLines limit good fs ∧
      ((received sent = good ∧ ∀ reason, .failure reason ∉ sent) ∨ FailsAfter limit sent good) := by
  obtain ⟨good, rest, fs, stream, lines, stops⟩ := lines_then_stops limit (received sent)
  refine ⟨good, fs, lines, ?_⟩
  cases stops with
  | tooLarge inside full => exact .inr (.tooLarge positive inside full stream)
  | malformed inside fits shown undecodable =>
    exact .inr (.malformed inside fits shown undecodable stream)
  | rest inside fits =>
    by_cases failed : ∃ reason, .failure reason ∈ sent
    · obtain ⟨reason, failed⟩ := failed
      exact .inr (.broken inside fits failed stream)
    · have unfailing := not_exists.mp failed
      by_cases empty : rest = []
      · rw [empty, List.append_nil] at stream
        exact .inl ⟨stream, unfailing⟩
      · exact .inr (.truncated inside fits empty unfailing stream)

end ByteStream

end Mailroom
