import Mailroom.Frame
import Mailroom.Proofs.Json.WrittenObjects

/-!
# Written frames read back

Every envelope has one written frame, and decoding that frame gives the envelope again. The only
line feed of the frame is the one at its end, whatever the texts of the envelope are.
-/

namespace Mailroom

namespace Wire

open Json Json.Fields Ascii

variable {αs : List Type} {fields : Fields αs} {slots : Slots αs} {t : Tuple αs}
  {members : List (String × Bytes)}

theorem awaits_recipient (toId : Option String) (others : Awaits fields slots t members) :
    Awaits (.cons (optionalText "to_id") fields) (none, slots) (toId, t)
      (writeRecipient toId ++ members) := by
  cases toId with
  | none => exact .leftOut rfl others
  | some id =>
    have back : ReadsBack (readNullable readText) (Text.write id) (some id) :=
      readsBack_nullable (by decide) (by decide) (readsBack_text id)
    exact .due back others

theorem readsBack_identity (i : Identity) :
    ReadsBack readIdentity (writeObject (payloadMembers (.registration i))) i := by
  intro rest _
  have awaits : Awaits identityFields identityFields.noneYet (i.id, i.name, ())
      (payloadMembers (.registration i)) :=
    .due (readsBack_text i.id) <| .due (readsBack_text i.name) .nil
  have read := read_writeObject (by decide) awaits (List.cons_ne_nil _ _) "ClientIdentity" rest
  simp only [readIdentity, read, Except.map]

theorem readsBack_chat (c : Chat) :
    ReadsBack readChat (writeObject (payloadMembers (.chat c))) c := by
  intro rest _
  have awaits : Awaits chatFields chatFields.noneYet (c.fromId, c.toId, c.message, ())
      (payloadMembers (.chat c)) :=
    .due (readsBack_text c.fromId) <| awaits_recipient c.toId <|
      .due (readsBack_text c.message) .nil
  have read := read_writeObject (by decide) awaits (List.cons_ne_nil _ _) "ChatMessage" rest
  simp only [readChat, read, Except.map]

theorem readsBack_announcement (a : Announcement) :
    ReadsBack readAnnouncement (writeObject (payloadMembers (.announcement a))) a := by
  intro rest _
  have awaits : Awaits announcementFields announcementFields.noneYet
      (a.fromId, a.toId, a.name, a.size, a.chunkSize, ()) (payloadMembers (.announcement a)) :=
    .due (readsBack_text a.fromId) <| awaits_recipient a.toId <|
      .due (readsBack_text a.name) <| .due (readsBack_natural a.size) <|
      .due (readsBack_natural a.chunkSize) .nil
  have read := read_writeObject (by decide) awaits (List.cons_ne_nil _ _) "FileAnnouncement" rest
  simp only [readAnnouncement, read, Except.map]

theorem readsBack_chunk (c : Chunk) :
    ReadsBack readChunk (writeObject (payloadMembers (.chunk c))) c := by
  intro rest _
  have awaits : Awaits chunkFields chunkFields.noneYet
      (c.fromId, c.toId, c.fileName, c.seq, c.data, c.isLast, ()) (payloadMembers (.chunk c)) :=
    .due (readsBack_text c.fromId) <| awaits_recipient c.toId <|
      .due (readsBack_text c.fileName) <| .due (readsBack_natural c.seq) <|
      .due (readsBack_text c.data) <| .due (readsBack_flag c.isLast) .nil
  have read := read_writeObject (by decide) awaits (List.cons_ne_nil _ _) "FileChunk" rest
  simp only [readChunk, read, Except.map]

theorem readsBack_kind (k : Kind) : ReadsBack readKind (Text.write k.tag) k := by
  intro rest _
  have named : readVariant.variant (Kind.all.map fun k => (k.tag, k)) k.tag = .ok k := by
    cases k <;> rfl
  have text := Text.read_tail_write k.tag rest
  rw [Text.write_eq_cons, List.cons_append, readKind, readVariant, skipSpace_cons (by decide)]
  simp only [if_true, text, bind, Except.bind, named]

/-- A payload is an object, which is neither white space nor null. -/
theorem readsBack_payload {α : Type} {read : Reader α} {a : α} {members : List (String × Bytes)}
    (back : ReadsBack read (writeObject members) a) :
    ReadsBack (readNullable read) (writeObject members) (some a) := by
  have shown : writeObject members = openBrace :: (writeObject members).tail := rfl
  rw [shown] at back ⊢
  exact readsBack_nullable (by decide) (by decide) back

/-- The payloads that are written for an envelope. -/
def Payloads.ofEnvelope (e : Envelope) : Payloads :=
  match e with
  | .registration i => ⟨.registration, some i, none, none, none⟩
  | .chat c => ⟨.chat, none, some c, none, none⟩
  | .announcement a => ⟨.announcement, none, none, some a, none⟩
  | .chunk c => ⟨.chunk, none, none, none, some c⟩

theorem toEnvelope_ofEnvelope (e : Envelope) : (Payloads.ofEnvelope e).toEnvelope = .ok e := by
  cases e <;> rfl

theorem readPayloads_write (e : Envelope) (rest : Bytes) :
    readPayloads (write e ++ rest) = .ok (Payloads.ofEnvelope e, rest) := by
  have awaits : ∃ t, Awaits payloadFields payloadFields.noneYet t
      [("type", Text.write e.kind.tag), (e.kind.tag, writeObject (payloadMembers e))] ∧
      t = ((Payloads.ofEnvelope e).kind, (Payloads.ofEnvelope e).registration,
        (Payloads.ofEnvelope e).chat, (Payloads.ofEnvelope e).announcement,
        (Payloads.ofEnvelope e).chunk, ()) := by
    cases e with
    | registration i =>
      exact ⟨_, .due (readsBack_kind .registration) <|
        .due (readsBack_payload (readsBack_identity i)) <| .leftOut rfl <| .leftOut rfl <|
        .leftOut rfl .nil, rfl⟩
    | chat c =>
      exact ⟨_, .due (readsBack_kind .chat) <| .leftOut rfl <|
        .due (readsBack_payload (readsBack_chat c)) <| .leftOut rfl <| .leftOut rfl .nil, rfl⟩
    | announcement a =>
      exact ⟨_, .due (readsBack_kind .announcement) <| .leftOut rfl <| .leftOut rfl <|
        .due (readsBack_payload (readsBack_announcement a)) <| .leftOut rfl .nil, rfl⟩
    | chunk c =>
      exact ⟨_, .due (readsBack_kind .chunk) <| .leftOut rfl <| .leftOut rfl <| .leftOut rfl <|
        .due (readsBack_payload (readsBack_chunk c)) .nil, rfl⟩
  obtain ⟨t, awaits, rfl⟩ := awaits
  have read := read_writeObject (by decide) awaits (List.cons_ne_nil _ _) "WireEnvelope" rest
  simp only [readPayloads, write, read, Except.map]

theorem read_write (e : Envelope) : read (write e) = .ok e := by
  have payloads := readPayloads_write e []
  rw [List.append_nil] at payloads
  rw [read, payloads]
  change ((Payloads.ofEnvelope e).toEnvelope.bind fun envelope => _) = _
  rw [toEnvelope_ofEnvelope]
  rfl

theorem lineFeed_notMem_writeRecipient (toId : Option String) :
    ∀ m ∈ writeRecipient toId, lineFeed ∉ m.2 := by
  cases toId with
  | none => simp [writeRecipient]
  | some id => simp [writeRecipient, Text.lineFeed_notMem_write]

theorem lineFeed_notMem_payloadMembers (e : Envelope) :
    ∀ m ∈ payloadMembers e, lineFeed ∉ m.2 := by
  intro m hm
  cases e with
  | registration i =>
    simp only [payloadMembers, List.mem_cons, List.not_mem_nil, or_false] at hm
    rcases hm with rfl | rfl <;> exact Text.lineFeed_notMem_write _
  | chat c =>
    simp only [payloadMembers, List.mem_append, List.mem_singleton] at hm
    rcases hm with (rfl | hm) | rfl
    · exact Text.lineFeed_notMem_write _
    · exact lineFeed_notMem_writeRecipient _ m hm
    · exact Text.lineFeed_notMem_write _
  | announcement a =>
    simp only [payloadMembers, List.mem_append, List.mem_cons, List.not_mem_nil, or_false] at hm
    rcases hm with (rfl | hm) | rfl | rfl | rfl
    · exact Text.lineFeed_notMem_write _
    · exact lineFeed_notMem_writeRecipient _ m hm
    · exact Text.lineFeed_notMem_write _
    · exact lineFeed_notMem_writeNatural _
    · exact lineFeed_notMem_writeNatural _
  | chunk c =>
    simp only [payloadMembers, List.mem_append, List.mem_cons, List.not_mem_nil, or_false] at hm
    rcases hm with (rfl | hm) | rfl | rfl | rfl | rfl
    · exact Text.lineFeed_notMem_write _
    · exact lineFeed_notMem_writeRecipient _ m hm
    · exact Text.lineFeed_notMem_write _
    · exact lineFeed_notMem_writeNatural _
    · exact Text.lineFeed_notMem_write _
    · exact lineFeed_notMem_writeFlag _

theorem lineFeed_notMem_write (e : Envelope) : lineFeed ∉ write e := by
  apply lineFeed_notMem_writeObject
  intro m hm
  rcases List.mem_cons.mp hm with rfl | hm
  · exact Text.lineFeed_notMem_write _
  · rw [List.mem_singleton.mp hm]
    exact lineFeed_notMem_writeObject (lineFeed_notMem_payloadMembers e)

end Wire

namespace Frame

open Ascii

theorem trimEnd_write (e : Envelope) :
    Bytes.trimEnd (Wire.write e ++ [lineFeed]) = Wire.write e := by
  obtain ⟨s, shown⟩ : ∃ s, Wire.write e = s ++ [closeBrace] :=
    ⟨_, Json.writeObject_cons _ _ _⟩
  have brace : isBlank closeBrace = false := by decide
  have blank : isBlank lineFeed := by decide
  rw [shown]
  simp [Bytes.trimEnd, brace, blank]

theorem decode_encode (e : Envelope) : decode (encode e) = .ok e := by
  rw [decode, encode, trimEnd_write, Wire.read_write]

/-- A written frame is a single line, and it reads back as the envelope it was written for. -/
theorem encode_is_line_and_reads_back (e : Envelope) :
    (encode e).count lineFeed = 1 ∧ (encode e).getLast? = some lineFeed ∧
      decode (encode e) = .ok e := by
  have inside : (Wire.write e).count lineFeed = 0 :=
    List.count_eq_zero.mpr (Wire.lineFeed_notMem_write e)
  refine ⟨?_, ?_, decode_encode e⟩
  · rw [encode, List.count_append, inside]
    rfl
  · rw [encode, List.getLast?_concat]

end Frame

end Mailroom
