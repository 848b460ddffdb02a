import Mailroom.Proofs.Frame.Lines
import Mailroom.Proofs.Relay.Authenticity
import Mailroom.Proofs.Relay.Awaiting
import Mailroom.Proofs.Relay.Ledger
import Mathlib.Data.List.Forall2

/-!
# What a client reads of what the relay passes on

Whatever the relay queues for a client is a line that reads back as the envelope that was read from
the sender. The bytes are those of the sender for the parts of a file, in whatever way they are
spelled, and are encoded anew for everything else. A client can therefore cut the stream of all
frames that are queued for it into the same frames, in their order, and in whatever pieces the
stream arrives.

All runs are considered here, also those in which the relay shuts down.
-/

namespace Mailroom

open Ascii ByteStream History

/-- The bytes that are queued for a frame. -/
structure Conveys (w : Bytes) (f : Inbound) : Prop where
  line : ∃ line, w = line ++ [lineFeed] ∧ lineFeed ∉ line
  shown : w.isBlank = false
  decodes : Frame.decode w = .ok f.envelope
  verbatim : f.envelope.kind = .announcement ∨ f.envelope.kind = .chunk → w = f.raw
  encoded : f.envelope.kind = .chat ∨ f.envelope.kind = .registration →
    w = Frame.encode f.envelope

/-- A frame that is queued for a client. -/
structure Passed where
  /-- The connection that the frame comes from, and its number there. -/
  conn : ConnId
  number : Nat
  bytes : Bytes
  deriving DecidableEq

namespace Event

/-- What is queued for a client. -/
def passed? (target : ConnId) : Event → Option Passed
  | .queued conn n t frame => if t = target then some ⟨conn, n, frame⟩ else none
  | _ => none

end Event

namespace History

/-- What was queued for a client, whoever sent it, oldest first. -/
def passedTo (h : History) (target : ConnId) : List Passed := h.filterMap (Event.passed? target)

variable {h : History} {target : ConnId} {q : Passed}

theorem mem_passedTo : q ∈ passedTo h target ↔ .queued q.conn q.number target q.bytes ∈ h := by
  obtain ⟨conn, n, frame⟩ := q
  rw [passedTo, List.mem_filterMap]
  constructor
  · rintro ⟨e, made, same⟩
    cases e with
    | queued c m t w =>
      simp only [Event.passed?] at same
      split at same <;> cases same
      next here =>
        rw [here] at made
        exact made
    | _ => cases same
  · intro made
    exact ⟨_, made, if_pos rfl⟩

theorem map_bytes_passedTo (h : History) (target : ConnId) :
    (passedTo h target).map Passed.bytes = framesFor h target := by
  rw [passedTo, framesFor, List.map_filterMap]
  congr 1
  funext e
  cases e with
  | queued c n t w => by_cases here : t = target <;> simp [Event.passed?, Event.frameFor?, here]
  | _ => rfl

end History

/-- What is passed on of a frame conveys it. -/
theorem Inbound.conveys_relayed {f : Inbound}
    (line : ∃ line, f.raw = line ++ [lineFeed] ∧ lineFeed ∉ line)
    (decoded : Frame.decode f.raw = .ok f.envelope) : Conveys f.relayed f := by
  have decodes := Inbound.decode_relayed decoded
  refine ⟨?_, FrameReader.not_isBlank_of_decode decodes, decodes, ?_, ?_⟩
  · obtain ⟨e, raw⟩ := f
    cases e with
    | registration i => exact Frame.encode_isLine _
    | chat c => exact Frame.encode_isLine _
    | announcement a => exact line
    | chunk c => exact line
  · obtain ⟨e, raw⟩ := f
    rintro (kind | kind) <;> cases e <;> first | rfl | cases kind
  · obtain ⟨e, raw⟩ := f
    rintro (kind | kind) <;> cases e <;> first | rfl | cases kind

/-- A line that decodes to an envelope. -/
structure LineOf (w : Bytes) (e : Envelope) : Prop where
  line : ∃ line, w = line ++ [lineFeed] ∧ lineFeed ∉ line
  decodes : Frame.decode w = .ok e

namespace FrameReader

variable {limit : Nat} {ws : List Bytes} {es : List Envelope}

theorem nth_of_limit_zero {r : FrameReader} (none : r.limit = 0) (n : Nat) :
    r.nth n = .ended := by
  have now : r.next = (.ended, r) := by rw [next, if_pos none]
  induction n with
  | zero => rw [nth, now]
  | succ n ih => rw [nth, now, ih]

/-- The frames of lines that decode, each of its own bytes. -/
def framesOfLines (ws : List Bytes) (es : List Envelope) : List Reading :=
  List.zipWith (fun w e => .frame ⟨e, w⟩) ws es

theorem outcomes_of_lines (lines : List.Forall₂ LineOf ws es)
    (fits : ∀ w ∈ ws, w.length ≤ limit) :
    outcomes limit ws.flatten = framesOfLines ws es := by
  induction lines with
  | nil => exact outcomes_nil limit
  | @cons w e ws es head tail ih =>
    have isFrame : IsFrame limit w := ⟨head.line, fits w List.mem_cons_self, e, head.decodes⟩
    have found := Inbound.ofBytes?_of_decode head.decodes
    have others := ih fun w mem => fits w (List.mem_cons_of_mem _ mem)
    rw [List.flatten_cons, outcomes_of_frame isFrame found, others]
    rfl

/-- A stream of lines that decode is read as what they decode to, and then it ends. -/
theorem nth_of_lines (lines : List.Forall₂ LineOf ws es) (fits : ∀ w ∈ ws, w.length ≤ limit)
    {pieces : List Bytes} (stream : pieces.flatten = ws.flatten) (n : Nat) :
    (ofReads limit (pieces.map .bytes)).nth n = (framesOfLines ws es)[n]?.getD .ended := by
  rcases Nat.eq_zero_or_pos limit with rfl | positive
  · -- no line is as short as that
    cases lines with
    | nil => exact nth_of_limit_zero rfl n
    | cons head tail =>
      obtain ⟨line, rfl, -⟩ := head.line
      have short := fits _ List.mem_cons_self
      simp at short
  · rw [nth_eq positive (precedes_ofReads limit pieces), stream, outcomes_of_lines lines fits]

end FrameReader

namespace Relay

variable {limits : Limits} {h h' : History} {r r' : Relay} {conn target : ConnId} {n : Nat}
  {steps : List Step} {i? : Option Identity} {f : Inbound} {w : Bytes}

theorem mem_firstFrames_of_read (recorded : record [] (.fresh limits) steps = some (h, r))
    (read : .read conn n i? f ∈ h) : ∃ s, f ∈ firstFrames limits.maxFrameSize s := by
  have mine : f ∈ readFrom h conn := List.mem_filterMap.mpr ⟨_, read, if_pos rfl⟩
  have accepted : conn < r.sessions.length := by
    apply Nat.lt_of_not_le
    intro unknown
    rw [(record_of_unknown recorded unknown).1] at mine
    cases mine
  have nothing : .finish conn ∈ steps → ([] : List Read) = [] := fun _ => rfl
  obtain ⟨fs, whole, -⟩ := record_awaits_fresh recorded accepted nothing
  have first := List.mem_append_left fs mine
  rw [whole] at first
  exact ⟨_, first⟩

theorem line_of_read (recorded : record [] (.fresh limits) steps = some (h, r))
    (read : .read conn n i? f ∈ h) :
    (∃ line, f.raw = line ++ [lineFeed] ∧ lineFeed ∉ line) ∧
      Frame.decode f.raw = .ok f.envelope := by
  obtain ⟨s, first⟩ := mem_firstFrames_of_read recorded read
  exact line_of_mem_firstFrames first

theorem conveys_of_queued (recorded : record [] (.fresh limits) steps = some (h, r))
    (queued : .queued conn n target w ∈ h) :
    ∃ j? f, .read conn n j? f ∈ h ∧ Conveys w f := by
  have mine : .queued conn n target w ∈ h.ofConn conn := mem_ofConn.mpr ⟨queued, rfl⟩
  have onCourse : OnCourse h r conn := onCourse_of_record recorded (onCourse_fresh limits conn)
  cases found : r.standing? conn with
  | none =>
    rw [onCourse.1 found] at mine
    cases mine
  | some st =>
    obtain ⟨j?, f, read, rfl⟩ := (onCourse.2 st found).relayed_of_queued mine
    have there := (mem_ofConn.mp read).1
    obtain ⟨line, decoded⟩ := line_of_read recorded there
    exact ⟨j?, f, there, Inbound.conveys_relayed line decoded⟩

/-- Each frame that was queued for a client conveys one that was read. -/
theorem conveys_passedTo (recorded : record [] (.fresh limits) steps = some (h, r))
    (target : ConnId) :
    ∃ fs, List.Forall₂ (fun q f => (∃ j?, .read q.conn q.number j? f ∈ h) ∧ Conveys q.bytes f)
      (passedTo h target) fs := by
  have each : ∀ q ∈ passedTo h target,
      ∃ f, (∃ j?, .read q.conn q.number j? f ∈ h) ∧ Conveys q.bytes f := by
    intro q mem
    obtain ⟨j?, f, read, conveys⟩ := conveys_of_queued recorded (mem_passedTo.mp mem)
    exact ⟨f, ⟨j?, read⟩, conveys⟩
  generalize passedTo h target = qs at each ⊢
  induction qs with
  | nil => exact ⟨[], .nil⟩
  | cons q qs ih =>
    obtain ⟨f, holds⟩ := each q List.mem_cons_self
    obtain ⟨fs, others⟩ := ih fun q mem => each q (List.mem_cons_of_mem _ mem)
    exact ⟨f :: fs, .cons holds others⟩

/-- A client whose limit leaves room for all that was queued for it reads what is conveyed. -/
theorem nth_of_conveys {fs : List Inbound} {good : Passed → Inbound → Prop} {limit : Nat}
    (convey : List.Forall₂ (fun q f => good q f ∧ Conveys q.bytes f) (passedTo h target) fs)
    (fits : ∀ w ∈ framesFor h target, w.length ≤ limit) {pieces : List Bytes}
    (stream : pieces.flatten = (framesFor h target).flatten) (n : Nat) :
    (FrameReader.ofReads limit (pieces.map .bytes)).nth n =
      (FrameReader.framesOfLines (framesFor h target)
        (fs.map Inbound.envelope))[n]?.getD .ended := by
  apply FrameReader.nth_of_lines _ fits stream
  rw [← map_bytes_passedTo, List.forall₂_map_left_iff, List.forall₂_map_right_iff]
  exact convey.imp fun q f holds => ⟨holds.2.line, holds.2.decodes⟩

/-- Whatever is queued was read on some connection, and the bytes that are queued convey it: they
are a line that reads back as the envelope that was read, with the bytes that were read if it is a
part of a file, and encoded otherwise. A client whose limit leaves room for all that was queued for
it reads the same envelopes of the stream of these bytes, in the order in which they were queued and
in whatever pieces the stream arrives, and then its end. -/
theorem relaying_is_transparent (recorded : record [] (.fresh limits) steps = some (h, r)) :
    (∀ conn n target w, .queued conn n target w ∈ h →
      ∃ j? f, .read conn n j? f ∈ h ∧ Conveys w f) ∧
    ∀ target, ∃ fs : List Inbound,
      List.Forall₂ (fun q f => (∃ j?, .read q.conn q.number j? f ∈ h) ∧ Conveys q.bytes f)
        (passedTo h target) fs ∧
      ∀ (limit : Nat) (pieces : List Bytes), (∀ w ∈ framesFor h target, w.length ≤ limit) →
        pieces.flatten = (framesFor h target).flatten →
        ∀ n, (FrameReader.ofReads limit (pieces.map .bytes)).nth n =
          (FrameReader.framesOfLines (framesFor h target)
            (fs.map Inbound.envelope))[n]?.getD .ended := by
  constructor
  · intro conn n target w queued
    exact conveys_of_queued recorded queued
  · intro target
    obtain ⟨fs, convey⟩ := conveys_passedTo recorded target
    exact ⟨fs, convey, fun limit pieces fits stream n => nth_of_conveys convey fits stream n⟩

/-- An announcement with blanks at its end. -/
def spelled : Bytes :=
  Wire.write (.announcement ⟨ann.id, none, "notes.txt", 3, 3⟩) ++ [32, 13, lineFeed]

/-- A client announces a file, and the registry is cleared before the announcement is queued. -/
def sharing : List Step :=
  enters 0 ann ++ enters 1 bob ++ [.enqueue 1 0, .arrive 0 (.bytes spelled), .read 0, .route 0,
    .requestShutdown, .stopAccepting, .clear, .enqueue 0 1]

/-- The blanks are passed on and read again. -/
theorem relaying_is_transparent_sharing :
    ∃ h r f, record [] (.fresh ⟨4, 50, 1000⟩) sharing = some (h, r) ∧
      framesFor h 1 = [spelled] ∧ Conveys spelled f ∧
      ∀ pieces : List Bytes, pieces.flatten = spelled →
        ∀ n, (FrameReader.ofReads 1000 (pieces.map .bytes)).nth n =
          [.frame ⟨f.envelope, spelled⟩][n]?.getD .ended := by
  have ran : (record [] (.fresh ⟨4, 50, 1000⟩) sharing).map (fun p => passedTo p.1 1) =
      some [⟨0, 2, spelled⟩] := by decide +kernel
  obtain ⟨⟨h, r⟩, recorded, passed⟩ := Option.map_eq_some_iff.mp ran
  dsimp only at passed
  have frames : framesFor h 1 = [spelled] := by
    rw [← map_bytes_passedTo, passed]
    rfl
  obtain ⟨fs, convey, reading⟩ := (relaying_is_transparent recorded).2 1
  rw [passed] at convey
  rw [frames] at reading
  obtain ⟨f, rest, head, tail, rfl⟩ := List.forall₂_cons_left_iff.mp convey
  obtain rfl := List.forall₂_nil_left_iff.mp tail
  have fits : ∀ w ∈ [spelled], w.length ≤ 1000 := by decide +kernel
  refine ⟨h, r, f, recorded, frames, head.2, fun pieces whole => ?_⟩
  exact reading 1000 pieces fits (by rw [whole, List.flatten_singleton])

end Relay

end Mailroom
