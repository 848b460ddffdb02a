import Mailroom.Proofs.Frame.Lengths
import Mailroom.Proofs.Relay.Transparency

/-!
# Limits on the way through the relay

A frame that the relay reads is no longer than the limit of the relay, and what is queued for it is
as long as the frame or a little longer: the parts of a file are passed on as they came, but a
registration or a chat that came as a list grows when it is encoded anew. A client is safe if its
limit leaves room for the growth, or if nothing that is queued for it came as a list.
-/

namespace Mailroom

open Ascii ByteStream History

/-- How long the bytes are that are queued for a frame, which was read under a limit. -/
structure Stretches (limit : Nat) (w : Bytes) (f : Inbound) : Prop where
  accepted : f.raw.length ≤ limit
  verbatim : f.envelope.kind = .announcement ∨ f.envelope.kind = .chunk → w = f.raw
  /-- What came as objects does not grow. -/
  objects : f.envelope.IsEncodedAnew → Frame.SpellsObjects f.raw f.envelope →
    w.length ≤ f.raw.length
  bounded : w.length ≤ f.raw.length + f.envelope.stretch

namespace FrameReader

theorem nth_ne_failed_of_frames {ws : List Bytes} {es : List Envelope} (n : Nat) (e : FrameError) :
    (framesOfLines ws es)[n]?.getD .ended ≠ .failed e := by
  rw [framesOfLines, List.getElem?_zipWith]
  cases ws[n]? <;> cases es[n]? <;> exact nofun

end FrameReader

namespace Relay

variable {limits : Limits} {h : History} {r : Relay} {conn target : ConnId} {n : Nat}
  {steps : List Step} {i? : Option Identity} {f : Inbound} {w : Bytes}

theorem stretches_of_conveys (recorded : record [] (.fresh limits) steps = some (h, r))
    (read : .read conn n i? f ∈ h) (conveys : Conveys w f) :
    Stretches limits.maxFrameSize w f := by
  obtain ⟨s, first⟩ := mem_firstFrames_of_read recorded read
  obtain ⟨-, ended, decoded⟩ := segment_of_mem_firstFrames first
  have form := Frame.decode_eq_ok.mp decoded
  refine ⟨length_le_of_mem_firstFrames first, conveys.verbatim, ?_, ?_⟩
  · intro anew objects
    rw [conveys.encoded anew]
    exact Frame.length_encode_le_of_objects anew ended objects
  · rcases f.envelope.isEncodedAnew_or with anew | file
    · rw [conveys.encoded anew]
      exact Frame.length_encode_le anew ended form
    · rw [conveys.verbatim file]
      exact Nat.le_add_right _ _

/-- No number is given to two frames, also in a run that clears the registry. -/
theorem read_unique_of_record {g : Inbound} {j? : Option Identity}
    (recorded : record [] (.fresh limits) steps = some (h, r)) (read : .read conn n i? f ∈ h)
    (again : .read conn n j? g ∈ h) : f = g := by
  have mine : .read conn n i? f ∈ h.ofConn conn := mem_ofConn.mpr ⟨read, rfl⟩
  have onCourse : OnCourse h r conn := onCourse_of_record recorded (onCourse_fresh limits conn)
  cases found : r.standing? conn with
  | none =>
    rw [onCourse.1 found] at mine
    cases mine
  | some st => exact ((onCourse.2 st found).read_unique mine (mem_ofConn.mpr ⟨again, rfl⟩)).2

theorem stretches_of_queued (recorded : record [] (.fresh limits) steps = some (h, r))
    (read : .read conn n i? f ∈ h) (queued : .queued conn n target w ∈ h) :
    Stretches limits.maxFrameSize w f := by
  obtain ⟨j?, g, there, conveys⟩ := conveys_of_queued recorded queued
  obtain rfl := read_unique_of_record recorded read there
  exact stretches_of_conveys recorded read conveys

/-- Whatever is queued for a client came as objects, as far as it was encoded anew. -/
def CameAsObjects (h : History) (target : ConnId) : Prop :=
  ∀ conn n w j? f, .queued conn n target w ∈ h → .read conn n j? f ∈ h →
    f.envelope.IsEncodedAnew → Frame.SpellsObjects f.raw f.envelope

theorem fits_of_limit (recorded : record [] (.fresh limits) steps = some (h, r)) {limit : Nat}
    (room : limits.maxFrameSize + 37 ≤ limit ∨
      limits.maxFrameSize ≤ limit ∧ CameAsObjects h target) :
    ∀ w ∈ framesFor h target, w.length ≤ limit := by
  intro w mem
  obtain ⟨conn, n, queued⟩ := mem_framesFor.mp mem
  obtain ⟨j?, f, read, -⟩ := conveys_of_queued recorded queued
  have stretches := stretches_of_queued recorded read queued
  have accepted := stretches.accepted
  rcases room with room | ⟨room, objects⟩
  · have bounded := stretches.bounded
    have stretch := f.envelope.stretch_le
    omega
  · rcases f.envelope.isEncodedAnew_or with anew | file
    · have short := stretches.objects anew (objects conn n w j? f queued read anew)
      omega
    · rw [stretches.verbatim file]
      exact Nat.le_trans accepted room

/-- What is queued for a frame is as long as the frame if it is a part of a file, no longer than the
frame if that came as objects, and longer by a few bytes at most otherwise, and the frame itself is
within the limit of the relay. A client whose limit has room for these bytes reads the stream of all
that is queued for it without a failure, and so does one with the limit of the relay if all of it
came as objects. -/
theorem relayed_frames_outgrow_by_stretch
    (recorded : record [] (.fresh limits) steps = some (h, r)) :
    (∀ conn n target w, .queued conn n target w ∈ h → ∃ j? f, .read conn n j? f ∈ h) ∧
    (∀ conn n j? f target w, .read conn n j? f ∈ h → .queued conn n target w ∈ h →
      Stretches limits.maxFrameSize w f) ∧
    ∀ target limit, limits.maxFrameSize + 37 ≤ limit ∨
        limits.maxFrameSize ≤ limit ∧ CameAsObjects h target →
      ∀ pieces : List Bytes, pieces.flatten = (framesFor h target).flatten →
        ∀ n e, (FrameReader.ofReads limit (pieces.map .bytes)).nth n ≠ .failed e := by
  refine ⟨?_, ?_, ?_⟩
  · intro conn n target w queued
    obtain ⟨j?, f, read, -⟩ := conveys_of_queued recorded queued
    exact ⟨j?, f, read⟩
  · intro conn n j? f target w read queued
    exact stretches_of_queued recorded read queued
  · intro target limit room pieces stream n e
    obtain ⟨fs, convey⟩ := conveys_passedTo recorded target
    rw [nth_of_conveys convey (fits_of_limit recorded room) stream n]
    exact FrameReader.nth_ne_failed_of_frames n e

/-- A chat for one client. -/
def ferry : Envelope :=
  .chat ⟨ann.id, some bob.id, "the ferry leaves at noon and is back at dusk"⟩

/-- The chat as lists. -/
def ferryLists : Bytes := Wire.writeLists ferry ++ [lineFeed]

/-- The chat arrives as lists. -/
def ferrying : List Step :=
  enters 0 ann ++ enters 1 bob ++ [.enqueue 1 0, .arrive 0 (.bytes ferryLists), .read 0, .route 0,
    .enqueue 0 1]

/-- The chat grows by as much as a chat can. What the first client is told was written by the second
one as objects. -/
theorem relayed_frames_outgrow_by_stretch_ferry :
    ∃ h r, record [] (.fresh ⟨4, 50, 71⟩) ferrying = some (h, r) ∧
      Stretches 71 (Frame.encode ferry) ⟨ferry, ferryLists⟩ ∧
      (Frame.encode ferry).length = 71 + 37 ∧
      (∀ pieces : List Bytes, pieces.flatten = Frame.encode ferry →
        ∀ n e, (FrameReader.ofReads (71 + 37) (pieces.map .bytes)).nth n ≠ .failed e) ∧
      ∀ pieces : List Bytes, pieces.flatten = Frame.encode (.registration bob) →
        ∀ n e, (FrameReader.ofReads 71 (pieces.map .bytes)).nth n ≠ .failed e := by
  have ran : (record [] (.fresh ⟨4, 50, 71⟩) ferrying).map (fun p => decide
      (.read 0 2 (some ann) ⟨ferry, ferryLists⟩ ∈ p.1 ∧ .queued 0 2 1 (Frame.encode ferry) ∈ p.1 ∧
        framesFor p.1 1 = [Frame.encode ferry] ∧
        passedTo p.1 0 = [⟨1, 1, Frame.encode (.registration bob)⟩] ∧
        readFrom p.1 1 = [⟨.registration bob, Frame.encode (.registration bob)⟩])) = some true := by
    decide +kernel
  obtain ⟨⟨h, r⟩, recorded, seen⟩ := Option.map_eq_some_iff.mp ran
  obtain ⟨read, queued, second, passed, sent⟩ := of_decide_eq_true seen
  have first : framesFor h 0 = [Frame.encode (.registration bob)] := by
    rw [← map_bytes_passedTo, passed]
    rfl
  have objects : CameAsObjects h 0 := by
    intro conn n w j? f queued read anew
    have mem : ⟨conn, n, w⟩ ∈ passedTo h 0 := mem_passedTo.mpr queued
    rw [passed] at mem
    cases List.mem_singleton.mp mem
    have mine : f ∈ readFrom h 1 := List.mem_filterMap.mpr ⟨_, read, rfl⟩
    rw [sent] at mine
    cases List.mem_singleton.mp mine
    exact Frame.spellsObjects_encode _
  obtain ⟨-, bounds, reading⟩ := relayed_frames_outgrow_by_stretch recorded
  refine ⟨h, r, recorded, ?_, by decide +kernel, fun pieces whole => ?_, fun pieces whole => ?_⟩
  · exact bounds 0 2 (some ann) ⟨ferry, ferryLists⟩ 1 _ read queued
  · exact reading 1 _ (.inl (Nat.le_refl _)) pieces (by rw [whole, second, List.flatten_singleton])
  · exact reading 0 71 (.inr ⟨Nat.le_refl _, objects⟩) pieces
      (by rw [whole, first, List.flatten_singleton])

/-- The limit has room for the chat as it comes, and not for its encoding. -/
theorem not_all_relayed_frames_fit :
    ∃ h r, record [] (.fresh ⟨4, 50, 71⟩) ferrying = some (h, r) ∧
      .read 0 2 (some ann) ⟨ferry, ferryLists⟩ ∈ h ∧ .queued 0 2 1 (Frame.encode ferry) ∈ h ∧
      71 < (Frame.encode ferry).length ∧
      (FrameReader.ofReads 71 [.bytes (Frame.encode ferry)]).nth 0 = .failed (.tooLarge 71) := by
  have ran : (record [] (.fresh ⟨4, 50, 71⟩) ferrying).map (fun p => decide
      (.read 0 2 (some ann) ⟨ferry, ferryLists⟩ ∈ p.1 ∧
        .queued 0 2 1 (Frame.encode ferry) ∈ p.1)) = some true := by decide +kernel
  obtain ⟨⟨h, r⟩, recorded, seen⟩ := Option.map_eq_some_iff.mp ran
  obtain ⟨read, queued⟩ := of_decide_eq_true seen
  exact ⟨h, r, recorded, read, queued, by decide +kernel, by decide +kernel⟩

end Relay

end Mailroom
