import Mailroom.Frame.Reader

/-!
# The segments of a stream

What a reader makes of a stream depends on the bytes of the stream and on its limit, and not on the
reads in which the bytes arrive. The stream falls into segments, each up to the next line feed, to
the limit or to the end of the stream, whichever comes first. A blank line is passed over; every
other segment has one outcome, and successive readings are these outcomes in their order.

The segments and their outcomes are computed from the whole stream here, without a reader. Streams
with failing reads are not treated.
-/

namespace Mailroom

open Ascii

namespace ByteStream

/-- The shortest prefix that has a line feed at its end, if it has one within the limit, and else
as much as there is up to the limit. -/
def segment : (limit : Nat) → Bytes → Bytes
  | 0, _ => []
  | _ + 1, [] => []
  | limit + 1, b :: s => if b = lineFeed then [b] else b :: segment limit s

theorem segment_append_drop (limit : Nat) (s : Bytes) :
    segment limit s ++ s.drop (segment limit s).length = s := by
  induction limit generalizing s with
  | zero => rfl
  | succ limit ih =>
    cases s with
    | nil => rfl
    | cons b s =>
      by_cases ends : b = lineFeed
      · simp [segment, ends]
      · simp [segment, ends, ih s]

theorem segment_eq_nil_iff {limit : Nat} (positive : 0 < limit) (s : Bytes) :
    segment limit s = [] ↔ s = [] := by
  obtain ⟨limit, rfl⟩ := Nat.exists_eq_add_one.mpr positive
  constructor
  · intro empty
    cases s with
    | nil => rfl
    | cons b s =>
      rw [segment] at empty
      split at empty <;> cases empty
  · rintro rfl
    rfl

theorem length_segment_le (limit : Nat) (s : Bytes) : (segment limit s).length ≤ limit := by
  induction limit generalizing s with
  | zero => exact Nat.le_refl 0
  | succ limit ih =>
    cases s with
    | nil => exact Nat.zero_le _
    | cons b s =>
      rw [segment]
      split
      · exact Nat.succ_le_succ (Nat.zero_le limit)
      · exact Nat.succ_le_succ (ih s)

/-- All segments, each of which starts right after the one before it. -/
def segments (limit : Nat) (s : Bytes) : List Bytes :=
  if segment limit s = [] then []
  else segment limit s :: segments limit (s.drop (segment limit s).length)
termination_by s.length
decreasing_by
  next given =>
    have parts := congrArg List.length (segment_append_drop limit s)
    have positive := List.length_pos_iff.mpr given
    rw [List.length_append] at parts
    omega

/-- What a segment is read as, if it is not passed over. -/
def outcome? (limit : Nat) (part : Bytes) : Option Reading :=
  if part.getLast? ≠ some lineFeed then
    some (.failed (if part.length = limit then .tooLarge limit else .truncated))
  else if part.isBlank then none
  else match Frame.decode part with
    | .ok envelope => some (.frame ⟨envelope, part⟩)
    | .error reason => some (.failed (.malformed reason))

def outcomes (limit : Nat) (s : Bytes) : List Reading :=
  (segments limit s).filterMap (outcome? limit)

/-- Nothing is lost, and nothing is there twice or in another place. -/
theorem flatten_segments {limit : Nat} (positive : 0 < limit) (s : Bytes) :
    (segments limit s).flatten = s := by
  fun_induction segments limit s with
  | case1 s empty => exact ((segment_eq_nil_iff positive s).mp empty).symm
  | case2 s given ih =>
    rw [List.flatten_cons, ih]
    exact segment_append_drop limit s

variable {limit : Nat} {line rest s : Bytes} {b : UInt8}

theorem segment_of_line (inside : lineFeed ∉ line) (fits : line.length < limit) (rest : Bytes) :
    segment limit (line ++ lineFeed :: rest) = line ++ [lineFeed] := by
  induction line generalizing limit with
  | nil =>
    obtain ⟨limit, rfl⟩ := Nat.exists_eq_add_one.mpr (by omega : 0 < limit)
    simp [segment]
  | cons c line ih =>
    obtain ⟨limit, rfl⟩ := Nat.exists_eq_add_one.mpr (by omega : 0 < limit)
    have other : c ≠ lineFeed := fun same => inside (same ▸ List.mem_cons_self)
    have shorter : line.length < limit := by simpa using fits
    have tail := ih (fun later => inside (List.mem_cons_of_mem c later)) shorter
    rw [List.cons_append, segment, if_neg other, tail]
    rfl

theorem segment_of_full (inside : lineFeed ∉ line) (full : line.length = limit) (rest : Bytes) :
    segment limit (line ++ rest) = line := by
  induction line generalizing limit with
  | nil =>
    obtain rfl : 0 = limit := full
    rfl
  | cons c line ih =>
    obtain ⟨limit, rfl⟩ : ∃ n, limit = n + 1 := ⟨line.length, full.symm⟩
    have other : c ≠ lineFeed := fun same => inside (same ▸ List.mem_cons_self)
    have shorter : line.length = limit := by simpa using full
    have tail := ih (fun later => inside (List.mem_cons_of_mem c later)) shorter
    rw [List.cons_append, segment, if_neg other, tail]

theorem segment_of_end (inside : lineFeed ∉ line) (fits : line.length < limit) :
    segment limit line = line := by
  induction line generalizing limit with
  | nil =>
    obtain ⟨limit, rfl⟩ := Nat.exists_eq_add_one.mpr (by omega : 0 < limit)
    rfl
  | cons c line ih =>
    obtain ⟨limit, rfl⟩ := Nat.exists_eq_add_one.mpr (by omega : 0 < limit)
    have other : c ≠ lineFeed := fun same => inside (same ▸ List.mem_cons_self)
    have shorter : line.length < limit := by simpa using fits
    rw [segment, if_neg other, ih (fun later => inside (List.mem_cons_of_mem c later)) shorter]

theorem outcomes_cons {part : Bytes} (first : segment limit s = part) (given : part ≠ []) :
    outcomes limit s = (outcome? limit part).toList ++ outcomes limit (s.drop part.length) := by
  rw [outcomes, segments, first, if_neg given, List.filterMap_cons, outcomes]
  cases outcome? limit part <;> rfl

theorem outcomes_nil (limit : Nat) : outcomes limit [] = [] := by
  have empty : segment limit [] = [] := by cases limit <;> rfl
  rw [outcomes, segments, if_pos empty]
  rfl

/-- What the reader does about a line is what the outcome of its segment says. -/
theorem outcome?_line (limit : Nat) (line : Bytes) :
    outcome? limit (line ++ [lineFeed]) =
      if (line ++ [lineFeed]).isBlank then none
      else some (FrameReader.interpret limit (.line (line ++ [lineFeed]))) := by
  rw [outcome?, List.getLast?_concat, FrameReader.interpret]
  simp only [ne_eq, not_true, if_false]
  cases Frame.decode (line ++ [lineFeed]) <;> rfl

theorem outcomes_of_line (inside : lineFeed ∉ line) (fits : line.length < limit) (rest : Bytes) :
    outcomes limit (line ++ lineFeed :: rest) =
      (outcome? limit (line ++ [lineFeed])).toList ++ outcomes limit rest := by
  have first := segment_of_line inside fits rest
  rw [outcomes_cons first (List.append_ne_nil_of_right_ne_nil line (List.cons_ne_nil _ _))]
  have parts : line ++ lineFeed :: rest = (line ++ [lineFeed]) ++ rest := by simp
  rw [parts, List.drop_left]

theorem outcomes_of_full (inside : lineFeed ∉ line) (full : line.length = limit)
    (positive : 0 < limit) (rest : Bytes) :
    outcomes limit (line ++ rest) = .failed (.tooLarge limit) :: outcomes limit rest := by
  have given : line ≠ [] := List.ne_nil_of_length_pos (by omega)
  have unfinished : line.getLast? ≠ some lineFeed :=
    fun last => inside (List.mem_of_getLast? last)
  rw [outcomes_cons (segment_of_full inside full rest) given, outcome?, if_pos unfinished,
    if_pos full, List.drop_left]
  rfl

theorem outcomes_of_end (inside : lineFeed ∉ line) (fits : line.length < limit)
    (given : line ≠ []) :
    outcomes limit line = [.failed .truncated] := by
  have unfinished : line.getLast? ≠ some lineFeed :=
    fun last => inside (List.mem_of_getLast? last)
  have short : line.length ≠ limit := by omega
  rw [outcomes_cons (segment_of_end inside fits) given, outcome?, if_pos unfinished, if_neg short,
    List.drop_length, outcomes_nil]
  rfl

end ByteStream

namespace FrameReader

open ByteStream

variable {limit : Nat}

/-- The reading that call number `n` gives, the first call being number zero. -/
def nth (r : FrameReader) : (n : Nat) → Reading
  | 0 => r.next.1
  | n + 1 => r.next.2.nth n

/-- A reader between two calls, of a stream that ends and of which no read fails, before these
bytes. -/
structure Precedes (limit : Nat) (r : FrameReader) (s : Bytes) : Prop where
  limit_eq : r.limit = limit
  closed : r.isOpen = false
  fresh : r.seen = []
  ahead : ∃ pieces : List Bytes, r.reads = pieces.map .bytes ∧ s = r.pending ++ pieces.flatten

/-- A reading is the first outcome of a stream and leaves the others, or there are none. -/
def Takes (limit : Nat) (s : Bytes) (result : Reading × FrameReader) : Prop :=
  ∃ rest, Precedes limit result.2 rest ∧
    (outcomes limit s = result.1 :: outcomes limit rest ∨
      outcomes limit s = [] ∧ result.1 = .ended ∧ outcomes limit rest = [])

/-- Scanning leads either to a longer line, with the bytes used up, or to a segment that has an
outcome. The bytes `later` are those of the reads that follow. -/
theorem scan_outcomes {ρ : Type} {P : ρ → Prop} {limit : Nat} {wait : Bytes → Nat → ρ}
    {cut : Segment → Bytes → ρ} {seen : Bytes} (s later : Bytes)
    (inside : lineFeed ∉ seen) (fits : seen.length < limit)
    (waits : ∀ line, lineFeed ∉ line → line.length < limit →
      outcomes limit (seen.reverse ++ (s ++ later)) = outcomes limit (line.reverse ++ later) →
      P (wait line (limit - line.length)))
    (cuts : ∀ segment rest,
      outcomes limit (seen.reverse ++ (s ++ later)) =
        interpret limit segment :: outcomes limit (rest ++ later) →
      P (cut segment rest)) :
    P (scan limit wait cut seen (limit - seen.length) s) := by
  induction s generalizing seen with
  | nil => exact waits seen inside fits rfl
  | cons b s ih =>
    have unseen : lineFeed ∉ seen.reverse := by simpa using inside
    rw [scan]
    by_cases ends : b = lineFeed
    · subst ends
      have line := outcomes_of_line unseen (by simpa using fits) (s ++ later)
      rw [outcome?_line] at line
      rw [if_pos rfl, List.reverse_cons]
      by_cases blank : Bytes.isBlank (seen.reverse ++ [lineFeed])
      · rw [if_pos blank] at line
        rw [if_pos blank]
        have same : outcomes limit (seen.reverse ++ (lineFeed :: s ++ later)) =
            outcomes limit (List.reverse [] ++ (s ++ later)) := line
        rw [same] at waits cuts
        exact ih List.not_mem_nil (by rw [List.length_nil]; omega) waits cuts
      · rw [if_neg blank] at line
        rw [if_neg blank]
        exact cuts _ s line
    · rw [if_neg ends]
      have inside' : lineFeed ∉ b :: seen := by simp [inside, Ne.symm ends]
      have shifted : seen.reverse ++ (b :: s ++ later) = (b :: seen).reverse ++ (s ++ later) := by
        simp
      rw [shifted] at waits cuts
      by_cases last : limit - seen.length ≤ 1
      · rw [if_pos last]
        have full : (b :: seen).reverse.length = limit := by
          rw [List.length_reverse, List.length_cons]
          omega
        exact cuts .tooLarge s
          (outcomes_of_full (mt List.mem_reverse.mp inside') full (by omega) (s ++ later))
      · rw [if_neg last]
        have room : limit - seen.length - 1 = limit - (b :: seen).length := by
          rw [List.length_cons]
          omega
        rw [room]
        exact ih inside' (by rw [List.length_cons]; omega) waits cuts

theorem pull_takes {seen : Bytes} (pieces : List Bytes) (inside : lineFeed ∉ seen)
    (fits : seen.length < limit) (pending : Bytes) :
    Takes limit (seen.reverse ++ (pending ++ pieces.flatten))
      (pull limit false (pieces.map .bytes) seen (limit - seen.length) pending) := by
  induction pieces generalizing seen pending with
  | nil =>
    rw [List.map_nil, pull]
    apply scan_outcomes pending [].flatten inside fits
    · intro line inside fits same
      rw [Takes, same]
      refine ⟨[], ⟨rfl, rfl, rfl, [], rfl, rfl⟩, ?_⟩
      by_cases empty : line = []
      · subst empty
        exact .inr ⟨outcomes_nil limit, rfl, outcomes_nil limit⟩
      · have unfinished : outcomes limit line.reverse = [.failed .truncated] :=
          outcomes_of_end (by simpa using inside) (by simpa using fits) (by simpa using empty)
        refine .inl ?_
        rw [List.flatten_nil, List.append_nil, unfinished, outcomes_nil, atEnd]
        simp [empty]
    · intro segment rest first
      exact ⟨rest ++ [], ⟨rfl, rfl, rfl, [], rfl, rfl⟩, .inl first⟩
  | cons piece pieces ih =>
    rw [List.map_cons, pull]
    apply scan_outcomes pending (piece :: pieces).flatten inside fits
    · intro line inside fits same
      have more := ih inside fits piece
      rw [Takes, same, List.flatten_cons]
      exact more
    · intro segment rest first
      exact ⟨rest ++ (piece :: pieces).flatten, ⟨rfl, rfl, rfl, piece :: pieces, rfl, rfl⟩,
        .inl first⟩

theorem next_takes (positive : 0 < limit) {r : FrameReader} {s : Bytes}
    (precedes : Precedes limit r s) : Takes limit s r.next := by
  obtain ⟨rfl, closed, fresh, pieces, reads, rfl⟩ := precedes
  rw [next, if_neg (by omega), closed, fresh, reads]
  exact pull_takes pieces List.not_mem_nil positive r.pending

theorem nth_eq (positive : 0 < limit) {r : FrameReader} {s : Bytes}
    (precedes : Precedes limit r s) (n : Nat) :
    r.nth n = (outcomes limit s)[n]?.getD .ended := by
  induction n generalizing r s with
  | zero =>
    obtain ⟨rest, -, first | ⟨none, ended, -⟩⟩ := next_takes positive precedes
    · simp [nth, first]
    · simp [nth, none, ended]
  | succ n ih =>
    obtain ⟨rest, after, first | ⟨none, -, noMore⟩⟩ := next_takes positive precedes
    · simp [nth, ih after, first]
    · simp [nth, ih after, none, noMore]

theorem precedes_ofReads (limit : Nat) (pieces : List Bytes) :
    Precedes limit (ofReads limit (pieces.map .bytes)) pieces.flatten :=
  ⟨rfl, rfl, rfl, pieces, rfl, rfl⟩

theorem not_isBlank_of_decode {s : Bytes} {e : Envelope} (decoded : Frame.decode s = .ok e) :
    s.isBlank = false := by
  cases blank : s.isBlank with
  | false => rfl
  | true =>
    have all : ∀ b ∈ s.reverse, isBlank b := by simpa [Bytes.isBlank] using blank
    have dropped : (s.reverse ++ []).dropWhile isBlank = [].dropWhile isBlank :=
      List.dropWhile_append_of_pos all
    have nothing : s.trimEnd = [] := by
      rw [Bytes.trimEnd, ← List.append_nil s.reverse, dropped]
      rfl
    rw [Frame.decode, nothing] at decoded
    cases decoded

/-- In whatever pieces a stream arrives, successive readings are the outcomes of its segments, in
their order and up to the end. The segments make up the stream. A frame that needs no more bytes
than the limit, its line feed included, is accepted with its own bytes, and a longer one is not. -/
theorem readings_are_outcomes_of_segments {limit : Nat} (positive : 0 < limit)
    (pieces : List Bytes) :
    (∀ n, (ofReads limit (pieces.map .bytes)).nth n =
      (outcomes limit pieces.flatten)[n]?.getD .ended) ∧
    (segments limit pieces.flatten).flatten = pieces.flatten ∧
    ∀ line rest e, lineFeed ∉ line → pieces.flatten = line ++ lineFeed :: rest →
      Frame.decode (line ++ [lineFeed]) = .ok e →
      (ofReads limit (pieces.map .bytes)).nth 0 =
        if line.length + 1 ≤ limit then .frame ⟨e, line ++ [lineFeed]⟩
        else .failed (.tooLarge limit) := by
  have same := nth_eq positive (precedes_ofReads limit pieces)
  refine ⟨same, flatten_segments positive _, ?_⟩
  intro line rest e inside stream decoded
  rw [same 0, stream]
  by_cases fits : line.length + 1 ≤ limit
  · have shown := not_isBlank_of_decode decoded
    rw [if_pos fits, outcomes_of_line inside fits, outcome?_line, interpret, decoded]
    simp [shown]
  · have parts : line ++ lineFeed :: rest =
        line.take limit ++ (line.drop limit ++ lineFeed :: rest) := by
      rw [← List.append_assoc, List.take_append_drop]
    have inside' : lineFeed ∉ line.take limit := fun h => inside (List.mem_of_mem_take h)
    have full : (line.take limit).length = limit := by
      rw [List.length_take]
      omega
    rw [if_neg fits, parts, outcomes_of_full inside' full positive]
    rfl

/-- A blank line, a line beyond the limit whose rest is a line of its own, and a line without
end. -/
theorem readings_are_outcomes_of_segments_cut :
    0 < 4 ∧ ∀ n, (ofReads 4 ([[32], [10, 65, 65], [65, 65, 65, 10, 65]].map .bytes)).nth n =
      [.failed (.tooLarge 4), .failed (.malformed (.json .expectedValue)),
        .failed .truncated][n]?.getD .ended := by
  have positive : 0 < 4 := by decide
  have same := (readings_are_outcomes_of_segments positive
    [[32], [10, 65, 65], [65, 65, 65, 10, 65]]).1
  refine ⟨positive, fun n => (same n).trans ?_⟩
  have parts : outcomes 4 [32, 10, 65, 65, 65, 65, 65, 10, 65] =
      [.failed (.tooLarge 4), .failed (.malformed (.json .expectedValue)),
        .failed .truncated] := by
    have cut : segments 4 [32, 10, 65, 65, 65, 65, 65, 10, 65] =
        [[32, 10], [65, 65, 65, 65], [65, 10], [65]] := by
      cbv
    rw [outcomes, cut]
    rfl
  exact congrArg (fun l => l[n]?.getD .ended) parts

end FrameReader

end Mailroom
