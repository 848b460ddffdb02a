import Mailroom.Proofs.Frame.Lines
import Mailroom.Proofs.Relay.Authenticity
import Mailroom.Proofs.Transfer.Receiving
import Mathlib.Data.List.Basic

/-!
# The journey of a file

A file is cut into chunks, which are encoded as frames and read by the relay; the relay passes them
on as they came, and they are read again and put together by the receiver. On the way there may be
frames of chats and of other files anywhere in between, and either stream may arrive in any pieces.
What the receiver stores in the end is what the sender has read.
-/

namespace Mailroom

open Transfer

/-- The transfer that an envelope belongs to. -/
def Envelope.transfer? (e : Envelope) : Option Key := (Operation.ofEnvelope? e).map Operation.key

/-- The transfer that an encoded envelope belongs to. -/
def Frame.transfer? (w : Bytes) : Option Key :=
  (Inbound.ofBytes? w).bind fun f => f.envelope.transfer?

namespace Transfer.Sender

/-- The announcement of a source and its chunks, up to a number of them. -/
def envelopes (s : Sender) (size : UInt64) (calls : Nat) : List Envelope :=
  .announcement (s.announcement size) :: (s.chunks calls).map .chunk

end Transfer.Sender

/-- What is left out can be left out before. -/
theorem filter_filterMap_eq {α β : Type} {f : α → Option β} {p : β → Bool} {q : α → Bool}
    {l : List α} (agree : ∀ a ∈ l, ∀ b, f a = some b → p b = q a) :
    (l.filterMap f).filter p = (l.filter q).filterMap f := by
  rw [List.filter_filterMap, List.filterMap_filter]
  apply List.filterMap_congr
  intro a here
  cases found : f a with
  | none => simp
  | some b => simp [Option.filter, agree a here b found]

variable {key : Key} {e : Envelope}

theorem Frame.transfer?_of_decode {w : Bytes} (decoded : decode w = .ok e) :
    transfer? w = e.transfer? := by
  rw [transfer?, Inbound.ofBytes?_of_decode decoded]
  rfl

/-- What a connection gets of a frame. -/
def Registry.forwarded (G : Registry) (sender : Identity) (target : ConnId) (f : Inbound) :
    Option Bytes :=
  match G.dispatch sender f with
  | .ok d => if target ∈ d.targets then some d.frame else none
  | .error _ => none

/-- What a connection gets of successive frames, each with the registry as it is at its turn. -/
def Registry.passed (sender : Identity) (target : ConnId) (turns : List (Registry × Inbound)) :
    List Bytes :=
  turns.filterMap fun turn => turn.1.forwarded sender target turn.2

namespace Registry

variable {G : Registry} {i : Identity} {target : ConnId} {f : Inbound} {w : Bytes}

theorem of_forwarded (given : G.forwarded i target f = some w) : w = f.relayed := by
  rw [forwarded] at given
  split at given
  next d dispatched =>
    obtain ⟨-, rfl⟩ := of_dispatch_eq_ok dispatched
    split at given
    · exact (Option.some.inj given).symm
    · cases given
  next => cases given

/-- A frame that belongs to a transfer is passed on as it came, to all it is for. -/
theorem forwarded_of_file (belongs : f.envelope.transfer? = some key)
    (honest : f.envelope.senderId = i.id) (addressed : target ∈ G.destinations f.envelope) :
    G.forwarded i target f = some f.raw := by
  obtain ⟨e, raw⟩ := f
  have file : e.kind ≠ .registration ∧ (⟨e, raw⟩ : Inbound).relayed = raw := by
    cases e with
    | registration i => cases belongs
    | chat c => cases belongs
    | announcement a => exact ⟨nofun, rfl⟩
    | chunk c => exact ⟨nofun, rfl⟩
  have there : G.targets i.id e.recipient? = .ok (G.destinations e) := by
    rw [← honest, targets_eq]
    split
    · rfl
    next id direct =>
      rw [destinations, direct] at addressed
      dsimp only at addressed
      split
      next absent =>
        rw [absent] at addressed
        cases addressed
      · rfl
  rw [forwarded, dispatch_eq file.1, if_neg (Decidable.not_not.mpr honest), there, file.2]
  exact if_pos addressed

/-- The frames of a transfer that are passed on are the ones that were read, with their bytes. -/
theorem filter_passed {turns : List (Registry × Inbound)}
    (decoded : ∀ turn ∈ turns, Frame.decode turn.2.raw = .ok turn.2.envelope)
    (file : ∀ turn ∈ turns, turn.2.envelope.transfer? = some key →
      turn.1.forwarded i target turn.2 = some turn.2.raw) :
    (passed i target turns).filter (fun w => Frame.transfer? w = some key) =
      ((turns.map Prod.snd).filter fun f => f.envelope.transfer? = some key).map Inbound.raw := by
  have same : ∀ turn ∈ turns, ∀ w, turn.1.forwarded i target turn.2 = some w →
      decide (Frame.transfer? w = some key) = decide (turn.2.envelope.transfer? = some key) := by
    intro turn here w given
    rw [of_forwarded given,
      Frame.transfer?_of_decode (Inbound.decode_relayed (decoded turn here))]
  rw [passed, filter_filterMap_eq same, List.filter_map, List.map_map]
  apply List.filterMap_eq_map_iff_forall_eq_some.mpr
  intro turn here
  obtain ⟨there, belongs⟩ := List.mem_filter.mp here
  exact file turn there (by simpa using belongs)

end Registry

/-- A stream of frames, looked at for one transfer. -/
theorem Inbound.filter_ofBytes? (ws : List Bytes) (key : Key) :
    (ws.filterMap ofBytes?).filter (fun f => f.envelope.transfer? = some key) =
      (ws.filter fun w => Frame.transfer? w = some key).filterMap ofBytes? := by
  apply filter_filterMap_eq
  intro w _ f found
  rw [Frame.transfer?, found]
  rfl

theorem Inbound.filterMap_encode (es : List Envelope) :
    (es.map Frame.encode).filterMap ofBytes? = es.map fun e => ⟨e, Frame.encode e⟩ := by
  rw [List.filterMap_map]
  apply List.filterMap_eq_map_iff_forall_eq_some.mpr
  intro e _
  exact ofBytes?_of_decode (Frame.decode_encode e)

/-- The operations on one transfer that come with a stream of frames. -/
theorem Transfer.Operation.filter_ofFrames (fs : List Inbound) (key : Key) :
    (fs.filterMap fun f => ofEnvelope? f.envelope).filter (fun o => o.key = key) =
      (fs.filter fun f => f.envelope.transfer? = some key).filterMap fun f =>
        ofEnvelope? f.envelope := by
  apply filter_filterMap_eq
  intro f _ o found
  rw [Envelope.transfer?, found]
  simp

/-- All envelopes of a source name its sender. -/
theorem Transfer.Sender.senderId_of_mem {s : Sender} {size : UInt64} {calls : Nat} {source : Bytes}
    (carries : Carries s.key s.toId s.nextSeq source (s.chunks calls))
    (here : e ∈ s.envelopes size calls) : e.senderId = s.key.fromId := by
  rcases List.mem_cons.mp here with rfl | later
  · rfl
  · obtain ⟨c, given, rfl⟩ := List.mem_map.mp later
    exact congrArg Key.fromId (carries.key_of_mem given)

theorem Transfer.Sender.filterMap_envelopes (s : Sender) (size : UInt64) (calls : Nat) :
    (s.envelopes size calls).filterMap Operation.ofEnvelope? =
      .announce (s.announcement size) :: (s.chunks calls).map .accept := by
  rw [envelopes, List.filterMap_cons, List.filterMap_map, ← List.filterMap_eq_map]
  rfl

section

variable {limit : Nat} {ws pieces : List Bytes} {es : List Envelope}

theorem Frame.filter_encode (es : List Envelope) (key : Key) :
    (es.map encode).filter (fun w => transfer? w = some key) =
      (es.filter fun e => e.transfer? = some key).map encode := by
  rw [List.filter_map]
  congr 2
  funext e
  exact congrArg (fun k? => decide (k? = some key)) (transfer?_of_decode (decode_encode e))

theorem isFrame_encode (fit : ∀ e ∈ es, (Frame.encode e).length ≤ limit) :
    ∀ w ∈ es.map Frame.encode, IsFrame limit w := by
  intro w here
  obtain ⟨e, there, rfl⟩ := List.mem_map.mp here
  exact ⟨Frame.encode_isLine e, fit e there, e, Frame.decode_encode e⟩

/-- The frames of a transfer in a stream, among those of others. -/
theorem FrameReader.framesOf_transfer (framed : ∀ w ∈ ws, IsFrame limit w)
    (stream : pieces.flatten = ws.flatten) (given : es ≠ [])
    (own : ws.filter (fun w => Frame.transfer? w = some key) = es.map Frame.encode) :
    framesOf limit pieces = ws.filterMap Inbound.ofBytes? ∧
      (framesOf limit pieces).filter (fun f => f.envelope.transfer? = some key) =
        es.map fun e => ⟨e, Frame.encode e⟩ := by
  have positive : 0 < limit := by
    obtain ⟨e, es, rfl⟩ := List.exists_cons_of_ne_nil given
    have among : Frame.encode e ∈ ws.filter fun w => Frame.transfer? w = some key := by
      rw [own]
      exact List.mem_cons_self
    have here := (List.mem_filter.mp among).1
    obtain ⟨line, parts, -⟩ := (framed _ here).line
    have fits := (framed _ here).fits
    rw [parts, List.length_append, List.length_singleton] at fits
    omega
  have frames := framesOf_eq positive framed stream
  refine ⟨frames, ?_⟩
  rw [frames, Inbound.filter_ofBytes?, own, Inbound.filterMap_encode]

end

/-- A file arrives as it was sent. The relay gets the announcement and the chunks among any other
frames, and its registry has the receiver, on the connection `target`, as one whom they are for
whenever one of them is read. The receiver gets what is passed on of them in its order, again among
any other frames. No other frame belongs to the transfer, and none is longer than the limits. The
length of a source is a number of 64 bits; the last conclusion, that no chunk is out of order, needs
that, because otherwise the sequence numbers could run out. -/
theorem file_arrives_whole {σ : Type} [Storage σ]
    (pieces : List Bytes) (key : Key) (toId : Option String) (chunkSize : Nat) (size : UInt64)
    {es : List Envelope}
    (sent : (Sender.ofReads (pieces.map .bytes) key toId chunkSize).envelopes size
      (pieces.flatten.length + 1) = es)
    {limit₁ : Nat} {ws₁ pieces₁ : List Bytes} (framed₁ : ∀ w ∈ ws₁, IsFrame limit₁ w)
    (own₁ : ws₁.filter (fun w => Frame.transfer? w = some key) = es.map Frame.encode)
    (stream₁ : pieces₁.flatten = ws₁.flatten)
    {turns : List (Registry × Inbound)}
    (read : turns.map Prod.snd = FrameReader.framesOf limit₁ pieces₁)
    {i : Identity} (honest : i.id = key.fromId) {target : ConnId}
    (addressed : ∀ turn ∈ turns, turn.2.envelope.transfer? = some key →
      target ∈ turn.1.destinations turn.2.envelope)
    {limit₂ : Nat} {ws₂ pieces₂ : List Bytes} (framed₂ : ∀ w ∈ ws₂, IsFrame limit₂ w)
    (own₂ : ws₂.filter (fun w => Frame.transfer? w = some key) =
      (Registry.passed i target turns).filter fun w => Frame.transfer? w = some key)
    (stream₂ : pieces₂.flatten = ws₂.flatten)
    {good : σ → Prop} {read? : σ → (path : String) → Option Bytes} {r : Receiver σ}
    (works : Storage.Works good read? r.downloadDir) (sound : good r.storage)
    {os : List Operation}
    (taken : (FrameReader.framesOf limit₂ pieces₂).filterMap
      (fun f => Operation.ofEnvelope? f.envelope) = os) :
    Delivers read? r.downloadDir key pieces.flatten (pieces.flatten.length < UInt64.size)
      ((r.handlings os).filter fun h => h.key = key) := by
  have carries := Sender.carries_ofReads pieces key toId chunkSize
  have given : es ≠ [] := sent ▸ List.cons_ne_nil _ _
  obtain ⟨frames₁, file₁⟩ := FrameReader.framesOf_transfer framed₁ stream₁ given own₁
  -- What the relay passes on of this transfer is what the sender has encoded.
  have passed : (Registry.passed i target turns).filter (fun w => Frame.transfer? w = some key) =
      es.map Frame.encode := by
    have decoded : ∀ turn ∈ turns, Frame.decode turn.2.raw = .ok turn.2.envelope := by
      intro turn here
      have among : turn.2 ∈ turns.map Prod.snd := List.mem_map_of_mem here
      rw [read, frames₁] at among
      obtain ⟨w, -, found⟩ := List.mem_filterMap.mp among
      obtain ⟨decoded, same⟩ := Inbound.ofBytes?_eq_some found
      rw [same]
      exact decoded
    have file : ∀ turn ∈ turns, turn.2.envelope.transfer? = some key →
        turn.1.forwarded i target turn.2 = some turn.2.raw := by
      intro turn here belongs
      have among : turn.2 ∈ (turns.map Prod.snd).filter fun f => f.envelope.transfer? = some key :=
        List.mem_filter.mpr ⟨List.mem_map_of_mem here, by simpa using belongs⟩
      rw [read, file₁, ← sent] at among
      obtain ⟨e, from', same⟩ := List.mem_map.mp among
      have envelope : turn.2.envelope = e := same ▸ rfl
      have claims : turn.2.envelope.senderId = i.id := by
        rw [envelope, Sender.senderId_of_mem carries from', honest]
        rfl
      exact Registry.forwarded_of_file belongs claims (addressed turn here belongs)
    rw [Registry.filter_passed decoded file, read, file₁, List.map_map]
    rfl
  -- So the receiver performs the operations of this transfer in their order.
  obtain ⟨-, file₂⟩ := FrameReader.framesOf_transfer framed₂ stream₂ given (own₂.trans passed)
  have operations : os.filter (fun o => o.key = key) = es.filterMap Operation.ofEnvelope? := by
    rw [← taken, Operation.filter_ofFrames, file₂, List.filterMap_map]
    rfl
  rw [← sent, Sender.filterMap_envelopes] at operations
  exact Receiver.delivers_transfer works ⟨sound, rfl⟩ rfl carries operations

/-- The three bytes of Ann with a chat of hers and a chunk of another file in between. -/
def crowd : List Envelope :=
  (trio.envelopes 3 4).flatMap fun e =>
    [.chat ⟨"ann", none, "hi"⟩, .chunk ⟨"ann", none, "duo", 7, "?", false⟩, e]

def annAndBob : Registry := ⟨[⟨⟨"ann", "Ann"⟩, 0⟩, ⟨⟨"bob", "Bob"⟩, 1⟩]⟩

/-- What Bob gets, a chat of somebody else among it. -/
def forBob : List Envelope := .chat ⟨"cat", some "bob", "hello"⟩ :: crowd

theorem file_arrives_whole_crowd :
    let key : Key := ⟨"ann", "trio"⟩
    let es := trio.envelopes 3 4
    let ws₁ := crowd.map Frame.encode
    let ws₂ := forBob.map Frame.encode
    let turns : List (Registry × Inbound) := crowd.map fun e => (annAndBob, ⟨e, Frame.encode e⟩)
    let os := (FrameReader.framesOf Frame.defaultLimit ws₂).filterMap
      fun f => Operation.ofEnvelope? f.envelope
    (∀ w ∈ ws₁, IsFrame Frame.defaultLimit w) ∧
    ws₁.filter (fun w => Frame.transfer? w = some key) = es.map Frame.encode ∧
    [ws₁.flatten].flatten = ws₁.flatten ∧
    turns.map Prod.snd = FrameReader.framesOf Frame.defaultLimit [ws₁.flatten] ∧
    (∀ turn ∈ turns, turn.2.envelope.transfer? = some key →
      1 ∈ turn.1.destinations turn.2.envelope) ∧
    (∀ w ∈ ws₂, IsFrame Frame.defaultLimit w) ∧
    ws₂.filter (fun w => Frame.transfer? w = some key) =
      (Registry.passed ⟨"ann", "Ann"⟩ 1 turns).filter (fun w => Frame.transfer? w = some key) ∧
    Delivers Memory.read? "downloads" key [1, 2, 3] (3 < UInt64.size)
      (((Receiver.fresh Memory.empty "downloads").handlings os).filter fun h => h.key = key) := by
  intro key es ws₁ ws₂ turns os
  have framed₁ : ∀ w ∈ ws₁, IsFrame Frame.defaultLimit w := isFrame_encode (by decide +kernel)
  have framed₂ : ∀ w ∈ ws₂, IsFrame Frame.defaultLimit w := isFrame_encode (by decide +kernel)
  have mine : crowd.filter (fun e => e.transfer? = some key) = es := by decide
  have own₁ : ws₁.filter (fun w => Frame.transfer? w = some key) = es.map Frame.encode := by
    rw [Frame.filter_encode, mine]
  have stream₁ : [ws₁.flatten].flatten = ws₁.flatten := List.append_nil _
  have read : turns.map Prod.snd = FrameReader.framesOf Frame.defaultLimit [ws₁.flatten] := by
    rw [FrameReader.framesOf_eq (by decide) framed₁ stream₁, Inbound.filterMap_encode, List.map_map]
    rfl
  have reachable : ∀ e ∈ crowd, e.transfer? = some key → 1 ∈ annAndBob.destinations e := by decide
  have addressed : ∀ turn ∈ turns, turn.2.envelope.transfer? = some key →
      1 ∈ turn.1.destinations turn.2.envelope := List.forall_mem_map.mpr reachable
  have own₂ : ws₂.filter (fun w => Frame.transfer? w = some key) =
      (Registry.passed ⟨"ann", "Ann"⟩ 1 turns).filter (fun w => Frame.transfer? w = some key) := by
    have passed : Registry.passed ⟨"ann", "Ann"⟩ 1 turns = ws₁ := rfl
    have others : forBob.filter (fun e => e.transfer? = some key) = es := by decide
    rw [passed, own₁, Frame.filter_encode, others]
  have works := Memory.works "downloads"
  have whole := file_arrives_whole (r := .fresh Memory.empty "downloads") [[1], [2, 3]] key none 2 3
    rfl framed₁ own₁ stream₁ read rfl addressed framed₂ own₂ rfl works trivial rfl
  exact ⟨framed₁, own₁, stream₁, read, addressed, framed₂, own₂, whole⟩

end Mailroom
