import Mailroom.Proofs.Frame.RoundTrip
import Mailroom.Proofs.Frame.Segments

/-!
# Streams of frames

A stream that is made of frames is read as these frames, one after the other, whatever the pieces
are in which it arrives. Every encoded envelope is such a frame, if the limit leaves room for it.
-/

namespace Mailroom

open Ascii ByteStream

/-- A line that decodes and is not longer than the limit. -/
structure IsFrame (limit : Nat) (w : Bytes) : Prop where
  line : ∃ line, w = line ++ [lineFeed] ∧ lineFeed ∉ line
  fits : w.length ≤ limit
  decodes : ∃ e, Frame.decode w = .ok e

/-- A frame from its bytes. -/
def Inbound.ofBytes? (w : Bytes) : Option Inbound :=
  match Frame.decode w with
  | .ok e => some ⟨e, w⟩
  | .error _ => none

theorem Inbound.ofBytes?_of_decode {w : Bytes} {e : Envelope} (decoded : Frame.decode w = .ok e) :
    Inbound.ofBytes? w = some ⟨e, w⟩ := by
  rw [ofBytes?, decoded]

theorem Inbound.ofBytes?_eq_some {w : Bytes} {f : Inbound} (found : Inbound.ofBytes? w = some f) :
    Frame.decode w = .ok f.envelope ∧ f.raw = w := by
  rw [ofBytes?] at found
  split at found
  · cases found
    exact ⟨by assumption, rfl⟩
  · cases found

theorem Frame.encode_isLine (e : Envelope) :
    ∃ line, encode e = line ++ [lineFeed] ∧ lineFeed ∉ line :=
  ⟨Wire.write e, rfl, Wire.lineFeed_notMem_write e⟩

variable {limit : Nat} {w : Bytes} {ws : List Bytes}

theorem ByteStream.outcomes_of_frame (isFrame : IsFrame limit w) {f : Inbound}
    (found : Inbound.ofBytes? w = some f) (rest : Bytes) :
    outcomes limit (w ++ rest) = .frame f :: outcomes limit rest := by
  obtain ⟨⟨line, rfl, inside⟩, fits, -⟩ := isFrame
  obtain ⟨decoded, raw⟩ := Inbound.ofBytes?_eq_some found
  have shorter : line.length < limit := by
    rw [List.length_append, List.length_singleton] at fits
    omega
  have shown := FrameReader.not_isBlank_of_decode decoded
  have parts : line ++ [lineFeed] ++ rest = line ++ lineFeed :: rest := by simp
  rw [parts, outcomes_of_line inside shorter, outcome?_line, FrameReader.interpret, decoded, shown,
    ← raw]
  rfl

theorem ByteStream.outcomes_of_frames (framed : ∀ w ∈ ws, IsFrame limit w) :
    outcomes limit ws.flatten = (ws.filterMap Inbound.ofBytes?).map .frame := by
  induction ws with
  | nil => exact outcomes_nil limit
  | cons w ws ih =>
    have isFrame := framed w List.mem_cons_self
    obtain ⟨e, decoded⟩ := isFrame.decodes
    have found := Inbound.ofBytes?_of_decode decoded
    have others := ih fun w h => framed w (List.mem_cons_of_mem _ h)
    rw [List.flatten_cons, outcomes_of_frame isFrame found, others, List.filterMap_cons, found]
    rfl

namespace FrameReader

/-- The frames that successive calls give, up to the first call that gives none. -/
def frames (r : FrameReader) : (calls : Nat) → List Inbound
  | 0 => []
  | calls + 1 =>
    match r.next with
    | (.frame f, r) => f :: r.frames calls
    | _ => []

/-- The frames of a stream that arrives in these pieces. Each has a byte at least. -/
def framesOf (limit : Nat) (pieces : List Bytes) : List Inbound :=
  (ofReads limit (pieces.map .bytes)).frames (pieces.flatten.length + 1)

theorem frames_of_next {r : FrameReader} {f : Inbound} (given : r.next.1 = .frame f) (calls : Nat) :
    r.frames (calls + 1) = f :: r.next.2.frames calls := by
  rw [frames]
  split
  next f' r' same =>
    rw [same] at given ⊢
    cases given
    rfl
  next other => exact (other f r.next.2 (Prod.ext given rfl)).elim

theorem frames_of_ended {r : FrameReader} (ended : r.next.1 = .ended) (calls : Nat) :
    r.frames (calls + 1) = [] := by
  rw [frames]
  split
  next f r' same =>
    rw [same] at ended
    cases ended
  next => rfl

/-- If all outcomes of a stream are frames, then these are what is read. -/
theorem frames_of_outcomes (positive : 0 < limit) {r : FrameReader} {s : Bytes}
    {fs : List Inbound} (precedes : Precedes limit r s) (stream : outcomes limit s = fs.map .frame)
    {calls : Nat} (enough : fs.length < calls) : r.frames calls = fs := by
  induction fs generalizing r s calls with
  | nil =>
    obtain ⟨calls, rfl⟩ := Nat.exists_eq_add_one.mpr enough
    obtain ⟨rest, -, first | ⟨-, ended, -⟩⟩ := next_takes positive precedes
    · rw [stream] at first
      cases first
    · exact frames_of_ended ended calls
  | cons f fs ih =>
    obtain ⟨calls, rfl⟩ := Nat.exists_eq_add_one.mpr (Nat.zero_lt_of_lt enough)
    obtain ⟨rest, after, first | ⟨nothing, -, -⟩⟩ := next_takes positive precedes
    · rw [stream, List.map_cons] at first
      obtain ⟨given, others⟩ := List.cons.inj first
      have fewer : fs.length < calls := by
        rw [List.length_cons] at enough
        omega
      rw [frames_of_next given.symm, ih after others.symm fewer]
    · rw [stream] at nothing
      cases nothing

theorem length_le_of_framed (framed : ∀ w ∈ ws, IsFrame limit w) :
    ws.length ≤ ws.flatten.length := by
  induction ws with
  | nil => exact Nat.le_refl 0
  | cons w ws ih =>
    have others := ih fun w h => framed w (List.mem_cons_of_mem _ h)
    obtain ⟨line, rfl, -⟩ := (framed w List.mem_cons_self).line
    rw [List.flatten_cons, List.length_cons, List.length_append, List.length_append,
      List.length_singleton]
    omega

/-- Frames that are sent one after the other are the frames that are read. -/
theorem framesOf_eq (positive : 0 < limit) (framed : ∀ w ∈ ws, IsFrame limit w)
    {pieces : List Bytes} (stream : pieces.flatten = ws.flatten) :
    framesOf limit pieces = ws.filterMap Inbound.ofBytes? := by
  have precedes := precedes_ofReads limit pieces
  rw [stream] at precedes
  have some := length_le_of_framed framed
  have enough := List.length_filterMap_le Inbound.ofBytes? ws
  rw [framesOf, stream]
  exact frames_of_outcomes positive precedes (outcomes_of_frames framed) (by omega)

end FrameReader

end Mailroom
