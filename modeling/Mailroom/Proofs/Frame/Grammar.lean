import Mailroom.Proofs.Frame.RoundTrip
import Mailroom.Proofs.Json.Records

/-!
# Which frames are envelopes

The grammar of frames, and that decoding accepts a frame for an envelope exactly if the frame spells
it. A frame may spell payloads that are no envelope, because there are too many of them or because
there is none of the kind that is claimed; such a frame is never decoded.
-/

namespace Mailroom

open Ascii

namespace Wire

open Json

def identityShape : Shape [String, String] := .cons (.text "id") <| .cons (.text "name") .nil

def SpellsIdentity (w : Bytes) (i : Identity) : Prop := identityShape.Spells w (i.id, i.name, ())

def chatShape : Shape [String, Option String, String] :=
  .cons (.text "from_id") <| .cons (.optional "to_id" Text.Spells) <| .cons (.text "message") .nil

def SpellsChat (w : Bytes) (c : Chat) : Prop := chatShape.Spells w (c.fromId, c.toId, c.message, ())

def announcementShape : Shape [String, Option String, String, UInt64, UInt64] :=
  .cons (.text "from_id") <| .cons (.optional "to_id" Text.Spells) <| .cons (.text "name") <|
    .cons (.natural "size") <| .cons (.natural "chunk_size") .nil

def SpellsAnnouncement (w : Bytes) (a : Announcement) : Prop :=
  announcementShape.Spells w (a.fromId, a.toId, a.name, a.size, a.chunkSize, ())

def chunkShape : Shape [String, Option String, String, UInt64, String, Bool] :=
  .cons (.text "from_id") <| .cons (.optional "to_id" Text.Spells) <| .cons (.text "file_name") <|
    .cons (.natural "seq") <| .cons (.text "data_b64") <| .cons (.flag "is_last") .nil

def SpellsChunk (w : Bytes) (c : Chunk) : Prop :=
  chunkShape.Spells w (c.fromId, c.toId, c.fileName, c.seq, c.data, c.isLast, ())

def payloadShape :
    Shape [Kind, Option Identity, Option Chat, Option Announcement, Option Chunk] :=
  .cons ⟨"type", SpellsVariant Kind.tag, none⟩ <|
    .cons (.optional Kind.registration.tag SpellsIdentity) <|
    .cons (.optional Kind.chat.tag SpellsChat) <|
    .cons (.optional Kind.announcement.tag SpellsAnnouncement) <|
    .cons (.optional Kind.chunk.tag SpellsChunk) .nil

def Payloads.Spells (w : Bytes) (p : Payloads) : Prop :=
  payloadShape.Spells w (p.kind, p.registration, p.chat, p.announcement, p.chunk, ())

end Wire

namespace Frame

open Json Wire

/-- A claimed kind and payloads, with white space before them and blanks at the end. -/
def SpellsPayloads (f : Bytes) (p : Payloads) : Prop :=
  ∃ ws w blanks, f = ws ++ (w ++ blanks) ∧ Spaces ws ∧ blanks.all isBlank ∧ Payloads.Spells w p

/-- The payload of the envelope and no other, with its kind. -/
def Spells (f : Bytes) (e : Envelope) : Prop := SpellsPayloads f (Payloads.ofEnvelope e)

end Frame

namespace Wire

open Json

theorem text_notNull {w : Bytes} {text : String} (form : Text.Spells w text) :
    w.head? ≠ some (ofChar 'n') := by
  obtain ⟨w, rfl⟩ := Text.starts_of_spells form
  exact (by decide : some quote ≠ some (ofChar 'n'))

theorem exact_recipient :
    Exact (readNullable readText) (FieldShape.optional "to_id" Text.Spells).Spells :=
  exact_nullable (exact_text "a string") text_notNull

theorem exact_identity : Exact readIdentity SpellsIdentity := by
  have reads : Reads identityFields identityShape :=
    .cons rfl rfl (exact_text _) <| .cons rfl rfl (exact_text _) .nil
  exact (exact_record reads "ClientIdentity").map (f := fun (id, name, ()) => Identity.mk id name)
    (g := fun (i : Identity) => (i.id, i.name, ())) (fun _ => rfl) fun _ => rfl

theorem exact_chat : Exact readChat SpellsChat := by
  have reads : Reads chatFields chatShape :=
    .cons rfl rfl (exact_text _) <| .cons rfl rfl exact_recipient <|
      .cons rfl rfl (exact_text _) .nil
  exact (exact_record reads "ChatMessage").map
    (f := fun (fromId, toId, message, ()) => Chat.mk fromId toId message)
    (g := fun (c : Chat) => (c.fromId, c.toId, c.message, ())) (fun _ => rfl) fun _ => rfl

theorem exact_announcement : Exact readAnnouncement SpellsAnnouncement := by
  have reads : Reads announcementFields announcementShape :=
    .cons rfl rfl (exact_text _) <| .cons rfl rfl exact_recipient <|
      .cons rfl rfl (exact_text _) <| .cons rfl rfl exact_natural <|
      .cons rfl rfl exact_natural .nil
  exact (exact_record reads "FileAnnouncement").map
    (f := fun (fromId, toId, name, size, chunkSize, ()) =>
      Announcement.mk fromId toId name size chunkSize)
    (g := fun (a : Announcement) => (a.fromId, a.toId, a.name, a.size, a.chunkSize, ()))
    (fun _ => rfl) fun _ => rfl

theorem exact_chunk : Exact readChunk SpellsChunk := by
  have reads : Reads chunkFields chunkShape :=
    .cons rfl rfl (exact_text _) <| .cons rfl rfl exact_recipient <|
      .cons rfl rfl (exact_text _) <| .cons rfl rfl exact_natural <|
      .cons rfl rfl (exact_text _) <| .cons rfl rfl exact_flag .nil
  exact (exact_record reads "FileChunk").map
    (f := fun (fromId, toId, fileName, seq, data, isLast, ()) =>
      Chunk.mk fromId toId fileName seq data isLast)
    (g := fun (c : Chunk) => (c.fromId, c.toId, c.fileName, c.seq, c.data, c.isLast, ()))
    (fun _ => rfl) fun _ => rfl

theorem variant_eq_ok {name : String} {k : Kind} :
    readVariant.variant (Kind.all.map fun k => (k.tag, k)) name = .ok k ↔ name = k.tag := by
  constructor
  · intro taken
    rw [readVariant.variant] at taken
    split at taken
    next key k' found =>
      cases taken
      have same := List.find?_some found
      obtain ⟨k', -, pair⟩ := List.mem_map.mp (List.mem_of_find?_eq_some found)
      cases pair
      exact (of_decide_eq_true same).symm
    · cases taken
  · rintro rfl
    cases k <;> rfl

theorem exact_kind : Exact readKind (SpellsVariant Kind.tag) := exact_variant variant_eq_ok

theorem exact_payloads : Exact readPayloads Payloads.Spells := by
  have reads : Reads payloadFields payloadShape :=
    .cons rfl rfl exact_kind <|
      .cons rfl rfl (exact_nullable exact_identity record_notNull) <|
      .cons rfl rfl (exact_nullable exact_chat record_notNull) <|
      .cons rfl rfl (exact_nullable exact_announcement record_notNull) <|
      .cons rfl rfl (exact_nullable exact_chunk record_notNull) .nil
  exact (exact_record reads "WireEnvelope").map
    (f := fun (kind, registration, chat, announcement, chunk, ()) =>
      Payloads.mk kind registration chat announcement chunk)
    (g := fun (p : Payloads) => (p.kind, p.registration, p.chat, p.announcement, p.chunk, ()))
    (fun _ => rfl) fun _ => rfl

theorem eq_none_of_isSome {α : Type} {o : Option α} (no : o.isSome.toNat = 0) : o = none := by
  cases o with
  | none => rfl
  | some a => cases no

theorem toEnvelope_eq_ok {p : Payloads} {e : Envelope} :
    p.toEnvelope = .ok e ↔ p = Payloads.ofEnvelope e := by
  constructor
  · intro taken
    rw [Payloads.toEnvelope] at taken
    split at taken
    · cases taken
    next few =>
      split at taken
      · cases taken
      next e' claimed =>
        cases taken
        obtain ⟨kind, registration, chat, announcement, chunk⟩ := p
        rw [Payloads.count] at few
        -- The payload of the claimed kind is there, so no other is.
        cases kind <;>
        · obtain ⟨payload, rfl, rfl⟩ := Option.map_eq_some_iff.mp claimed
          simp only [Option.isSome_some, Bool.toNat_true] at few
          simp only [Payloads.ofEnvelope, Payloads.mk.injEq, true_and, and_true]
          refine ⟨?_, ?_, ?_⟩ <;> exact eq_none_of_isSome (by omega)
  · rintro rfl
    exact toEnvelope_ofEnvelope e

end Wire

theorem isBlank_of_isSpace {b : UInt8} (space : Json.isSpace b) : Ascii.isBlank b := by
  simp only [Json.isSpace, Bool.or_eq_true, decide_eq_true_eq] at space
  rcases space with ((rfl | rfl) | rfl) | rfl <;> decide

theorem Bytes.trimEnd_append {s blanks : Bytes} {b : UInt8} (visible : Ascii.isBlank b = false)
    (blank : blanks.all Ascii.isBlank) : Bytes.trimEnd (s ++ [b] ++ blanks) = s ++ [b] := by
  have dropped : ∀ b ∈ blanks.reverse, Ascii.isBlank b := by
    intro b here
    exact List.all_eq_true.mp blank b (List.mem_reverse.mp here)
  rw [Bytes.trimEnd, List.reverse_append, List.dropWhile_append_of_pos dropped]
  simp [visible]

theorem Bytes.parts_of_trimEnd (f : Bytes) :
    ∃ blanks, f = f.trimEnd ++ blanks ∧ blanks.all Ascii.isBlank := by
  refine ⟨(f.reverse.takeWhile Ascii.isBlank).reverse, ?_, ?_⟩
  · rw [Bytes.trimEnd, ← List.reverse_append, List.takeWhile_append_dropWhile, List.reverse_reverse]
  · rw [List.all_reverse]
    exact List.all_takeWhile

namespace Frame

open Json Wire

variable {f rest blanks : Bytes} {e : Envelope} {p : Payloads}

theorem spellsPayloads_of_read (taken : readPayloads f = .ok (p, rest)) (spaces : Spaces rest) :
    SpellsPayloads f p := by
  obtain ⟨ws, w, parts, before, form⟩ := exact_payloads.sound taken
  refine ⟨ws, w, rest, parts, before, ?_, form⟩
  rw [List.all_eq_true]
  intro b here
  exact isBlank_of_isSpace (spaces b here)

theorem SpellsPayloads.append (form : SpellsPayloads f p) (blank : blanks.all isBlank) :
    SpellsPayloads (f ++ blanks) p := by
  obtain ⟨ws, w, blanks', rfl, before, blank', form⟩ := form
  refine ⟨ws, w, blanks' ++ blanks, ?_, before, ?_, form⟩
  · simp only [List.append_assoc]
  · rw [List.all_append, blank', blank]
    rfl

theorem spells_of_decode (decoded : decode f = .ok e) : Spells f e := by
  obtain ⟨⟨p, rest⟩, taken, afterPayloads⟩ := bind_eq_ok.mp decoded
  obtain ⟨e', envelope, afterEnvelope⟩ := bind_eq_ok.mp afterPayloads
  obtain ⟨⟨⟩, ended, kept⟩ := bind_eq_ok.mp afterEnvelope
  cases kept
  obtain rfl := toEnvelope_eq_ok.mp envelope
  have spaces := spaces_of_readEnd (mapError_eq_ok.mp ended)
  have form := spellsPayloads_of_read (mapError_eq_ok.mp taken) spaces
  obtain ⟨blanks, parts, blank⟩ := Bytes.parts_of_trimEnd f
  rw [parts]
  exact form.append blank

/-- A frame that spells payloads is read up to its blanks. Whether the payloads are an envelope is
all that is left to decide. -/
theorem decode_of_spellsPayloads (form : SpellsPayloads f p) : decode f = p.toEnvelope := by
  obtain ⟨ws, w, blanks, rfl, before, blank, form⟩ := form
  have trimmed : Bytes.trimEnd (ws ++ (w ++ blanks)) = ws ++ (w ++ []) := by
    obtain ⟨w, rfl | rfl⟩ := concat_of_record form
    · have trimmed := Bytes.trimEnd_append (s := ws ++ w) (by decide : isBlank closeBrace = false)
        blank
      simpa using trimmed
    · have trimmed := Bytes.trimEnd_append (s := ws ++ w) (by decide : isBlank closeBracket = false)
        blank
      simpa using trimmed
  have taken : readPayloads (ws ++ (w ++ [])) = .ok (p, []) :=
    exact_payloads.complete before form nofun
  rw [decode, trimmed, Wire.read, taken]
  change (p.toEnvelope.bind fun e => .ok e) = p.toEnvelope
  cases p.toEnvelope <;> rfl

theorem decode_eq_ok : decode f = .ok e ↔ Spells f e := by
  constructor
  · exact spells_of_decode
  · intro form
    rw [decode_of_spellsPayloads form, toEnvelope_ofEnvelope]

/-- No frame spells two envelopes. -/
theorem Spells.unique {e' : Envelope} (form : Spells f e) (form' : Spells f e') : e = e' := by
  have decoded := decode_eq_ok.mpr form
  rw [decode_eq_ok.mpr form'] at decoded
  exact (Except.ok.inj decoded).symm

/-- Decoding accepts exactly what the grammar spells, for the envelope that it spells. More than one
payload is never an envelope, nor is a payload of another kind than the one that is claimed. -/
theorem decodes_exactly_spellings (f : Bytes) :
    (∀ e, decode f = .ok e ↔ Spells f e) ∧
      ∀ p, SpellsPayloads f p →
        (1 < p.count → decode f = .error (.conflictingPayloads p.kind)) ∧
          (p.count ≤ 1 → p.claimed? = none → decode f = .error (.missingPayload p.kind)) := by
  refine ⟨fun e => decode_eq_ok, fun p form => ⟨fun many => ?_, fun few nothing => ?_⟩⟩
  · rw [decode_of_spellsPayloads form, Payloads.toEnvelope, if_pos many]
  · rw [decode_of_spellsPayloads form, Payloads.toEnvelope, if_neg (Nat.not_lt.mpr few), nothing]

/-- A registration beside a chat, and a registration in the place of a chat. -/
theorem decodes_exactly_spellings_misplaced :
    let i : Identity := ⟨"a", "Ann"⟩
    let c : Chat := ⟨"a", none, "hello"⟩
    let both := writeObject [("type", Text.write "chat"),
      ("registration", writeObject (payloadMembers (.registration i))),
      ("chat", writeObject (payloadMembers (.chat c)))]
    let other := writeObject [("type", Text.write "chat"),
      ("registration", writeObject (payloadMembers (.registration i)))]
    decode both = .error (.conflictingPayloads .chat) ∧
      decode other = .error (.missingPayload .chat) := by
  intro i c both other
  have awaitsBoth : Fields.Awaits payloadFields payloadFields.noneYet
      (.chat, some i, some c, none, none, ()) _ :=
    .due (readsBack_kind .chat) <| .due (readsBack_payload (readsBack_identity i)) <|
      .due (readsBack_payload (readsBack_chat c)) <| .leftOut rfl <| .leftOut rfl .nil
  have awaitsOther : Fields.Awaits payloadFields payloadFields.noneYet
      (.chat, some i, none, none, none, ()) _ :=
    .due (readsBack_kind .chat) <| .due (readsBack_payload (readsBack_identity i)) <|
      .leftOut rfl <| .leftOut rfl <| .leftOut rfl .nil
  have takenBoth : readPayloads both = .ok (⟨.chat, some i, some c, none, none⟩, []) := by
    have taken := Fields.read_writeObject (by decide) awaitsBoth (List.cons_ne_nil _ _)
      "WireEnvelope" []
    rw [List.append_nil] at taken
    exact congrArg (Except.map _) taken
  have takenOther : readPayloads other = .ok (⟨.chat, some i, none, none, none⟩, []) := by
    have taken := Fields.read_writeObject (by decide) awaitsOther (List.cons_ne_nil _ _)
      "WireEnvelope" []
    rw [List.append_nil] at taken
    exact congrArg (Except.map _) taken
  constructor
  · have form := spellsPayloads_of_read takenBoth spaces_nil
    exact ((decodes_exactly_spellings both).2 _ form).1 (by decide)
  · have form := spellsPayloads_of_read takenOther spaces_nil
    exact ((decodes_exactly_spellings other).2 _ form).2 (by decide) rfl

end Frame

end Mailroom
