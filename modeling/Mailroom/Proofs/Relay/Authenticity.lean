import Mailroom.Proofs.Frame.RoundTrip
import Mailroom.Proofs.Relay.Outlets
import Mailroom.Proofs.Relay.Ownership

/-!
# Whom a frame comes from

Every frame that is queued for a client names the client that has sent it: under the id that it
names, that client has registered on the connection that the frame came from, and it still has this
id when the frame is queued. Chats and announcements are encoded by the relay, files pass as they
came; either way the bytes read back as the frame whose sender was checked.
-/

namespace Mailroom

open History

/-- What is passed on of a frame reads back as the frame. -/
theorem Inbound.decode_relayed {f : Inbound} (decoded : Frame.decode f.raw = .ok f.envelope) :
    Frame.decode f.relayed = .ok f.envelope := by
  obtain ⟨e, raw⟩ := f
  cases e with
  | registration i => exact Frame.decode_encode _
  | chat c => exact Frame.decode_encode _
  | announcement a => exact decoded
  | chunk c => exact decoded

namespace Relay

variable {limits : Limits} {h : History} {r : Relay} {conn : ConnId} {i : Identity} {d : Dispatch}
  {s : Session}

/-- What a session hands over is a frame that it has read, of the client that is registered. -/
theorem read_of_posting (reached : Reaches limits h r) (found : r.session? conn = some s)
    (activity : s.activity = .posting d) :
    ∃ i j? f, s.identity? = some i ∧ .read conn (reads h conn) j? f ∈ h ∧
      Frame.decode f.raw = .ok f.envelope ∧ d.frame = f.relayed ∧ f.envelope.senderId = i.id := by
  have standing := standing?_of_session? found
  have hand := inHand reached standing
  rw [standing_eq rfl activity] at hand
  generalize known : s.identity? = i? at hand
  cases hand with
  | idle idle => cases idle
  | @posting i j? f G d read addressed frame honest =>
    exact ⟨i, j?, f, rfl, (mem_ofConn.mp read).1, (course reached standing).decode_of_read read,
      frame, honest⟩

/-- A session that has not gone holds the id that it has registered. -/
theorem holds_of_identity (reached : Reaches limits h r) (found : r.session? conn = some s)
    (known : s.identity? = some i) (present : s.activity ≠ .gone) :
    .registered conn i ∈ h ∧ i.id ≠ "" ∧ r.registry.lookup i.id = some conn := by
  have registered : .registered conn i ∈ h := by
    rw [← mem_identities, identities_eq reached found, known]
    exact List.mem_singleton_self i
  have stays : .unregistered conn ∉ h := by
    intro left
    have own := mem_ofConn.mpr ⟨left, rfl⟩
    exact present ((course reached (standing?_of_session? found)).gone_of_unregistered own)
  have holder := find?_of_registered reached registered stays
  refine ⟨registered, ?_, by rw [Registry.lookup, holder]; rfl⟩
  intro empty
  refine ids_ne_empty reached (List.mem_map.mpr ⟨_, (Registry.mem_of_find? holder).1, empty⟩)

/-- No client passes for another one. Whatever is in a queue was queued at some time, and whenever a
frame is queued it is passed on from a frame that was read, and reads back as an envelope of the
client that has registered on the connection it comes from. At that moment the id of this client is
not empty and belongs to that connection. -/
theorem queued_frames_name_their_sender (reached : Reaches limits h r) :
    (∀ target c, r.connection? target = some c → ∀ frame ∈ c.queue.frames,
      ∃ sender n, .queued sender n target frame ∈ h) ∧
    ∀ before sender n target frame after,
      h = before ++ .queued sender n target frame :: after →
      ∃ r₁ r₂ c c' i j? f, Reaches limits before r₁ ∧
        r₁.step (.enqueue sender target) = some r₂ ∧
        r₁.connection? target = some c ∧ r₂.connection? target = some c' ∧
        c'.queue.frames = c.queue.frames ++ [frame] ∧
        .read sender n j? f ∈ before ∧ .registered sender i ∈ before ∧
        Frame.decode frame = .ok f.envelope ∧ f.envelope.senderId = i.id ∧ i.id ≠ "" ∧
        r₁.registry.lookup i.id = some sender := by
  constructor
  · intro target c found frame there
    exact mem_framesFor.mp ((frames_suffix reached found).subset there)
  · intro before sender n target frame after split
    obtain ⟨r₁, step, r₂, reached₁, notClear, taken, made⟩ := step_of_reaches reached split
    obtain ⟨rfl, rfl, s, d, c, posting, rfl⟩ := event?_queued made
    obtain ⟨found, connected, activity, -⟩ := posting?_cases posting
    obtain ⟨i, j?, f, known, read, decoded, same, honest⟩ :=
      read_of_posting reached₁ found activity
    have present : s.activity ≠ .gone := by rw [activity]; exact nofun
    obtain ⟨registered, named, holds⟩ := holds_of_identity reached₁ found known present
    obtain ⟨s', d', c₀, c', posting', sent, rfl⟩ := enqueue_cases taken
    cases posting.symm.trans posting'
    obtain ⟨-, -, rfl⟩ := Connection.send_eq_ok_iff.mp sent
    refine ⟨r₁, _, c, _, i, j?, f, reached₁, taken, connected, connection?_replace _ connected, rfl,
      read, registered, ?_, honest, named, holds⟩
    rw [same]
    exact Inbound.decode_relayed decoded

/-- When the greeting is queued its sender has the id that it names. -/
theorem queued_frames_name_their_sender_greeting :
    ∃ before r₁, Reaches ⟨4, 50, 1000⟩ before r₁ ∧ .registered 0 ann ∈ before ∧
      r₁.registry.lookup hello.senderId = some 0 := by
  have reached := reaches_outcome ⟨4, 50, 1000⟩ greeting (by decide +kernel)
  have split : (outcome ⟨4, 50, 1000⟩ greeting).1 =
      (outcome ⟨4, 50, 1000⟩ greeting).1.dropLast ++
        .queued 0 2 1 (Frame.encode hello) :: [] := by decide +kernel
  obtain ⟨r₁, r₂, c, c', i, j?, f, reached₁, -, -, -, -, -, registered, decoded, honest, -, holds⟩ :=
    (queued_frames_name_their_sender reached).2 _ 0 2 1 _ [] split
  have same : hello = f.envelope := Except.ok.inj ((Frame.decode_encode hello).symm.trans decoded)
  have known : .registered 0 ann ∈ (outcome ⟨4, 50, 1000⟩ greeting).1.dropLast := by decide +kernel
  refine ⟨_, r₁, reached₁, known, ?_⟩
  rw [same, honest]
  exact holds

end Relay

end Mailroom
