import Mailroom.Proofs.Frame.Grammar
import Mailroom.Proofs.Json.Lengths

/-!
# How much longer a frame gets when it is encoded anew

No frame of a registration or of a chat is shorter than a certain one, in which everything is a
list. It lacks the names that its encoding has, and so the encoding can be longer than the frame
that it is made from, by a number of bytes that depends on nothing but the kind of the envelope and
on whether there is a recipient. A frame in which everything is an object does not get longer.
-/

namespace Mailroom

open Ascii

namespace Envelope

/-- The envelopes that are encoded anew when they are passed on. -/
def IsEncodedAnew (e : Envelope) : Prop := e.kind = .chat ∨ e.kind = .registration

theorem IsEncodedAnew.cases {e : Envelope} (anew : e.IsEncodedAnew) :
    (∃ i, e = .registration i) ∨ ∃ c, e = .chat c := by
  cases e with
  | registration i => exact .inl ⟨i, rfl⟩
  | chat c => exact .inr ⟨c, rfl⟩
  | announcement a => rcases anew with kind | kind <;> cases kind
  | chunk c => rcases anew with kind | kind <;> cases kind

theorem isEncodedAnew_or (e : Envelope) :
    e.IsEncodedAnew ∨ e.kind = .announcement ∨ e.kind = .chunk := by
  cases e with
  | registration i => exact .inl (.inr rfl)
  | chat c => exact .inl (.inl rfl)
  | announcement a => exact .inr (.inl rfl)
  | chunk c => exact .inr (.inr rfl)

/-- How many bytes the encoding has more than the shortest frame. -/
def stretch : Envelope → Nat
  | .registration _ => 34
  | .chat ⟨_, none, _⟩ => 24
  | .chat ⟨_, some _, _⟩ => 37
  | .announcement _ | .chunk _ => 0

theorem stretch_le (e : Envelope) : e.stretch ≤ 37 := by
  unfold stretch
  split <;> omega

end Envelope

namespace Wire

open Json

variable {w : Bytes} {i : Identity} {c : Chat} {e : Envelope} {toId : Option String}

def writeNull : Bytes := Bytes.ofAscii "null"

def listIdentity (i : Identity) : Bytes := writeList [Text.write i.id, Text.write i.name]

def listChat (c : Chat) : Bytes :=
  writeList [Text.write c.fromId, c.toId.elim writeNull Text.write, Text.write c.message]

/-- An envelope as a list, and its payload as a list in it. -/
def writeLists : Envelope → Bytes
  | .registration i => writeList [Text.write Kind.registration.tag, listIdentity i]
  | .chat c => writeList [Text.write Kind.chat.tag, writeNull, listChat c]
  | e => write e

theorem payloadMembers_ne_nil (e : Envelope) : payloadMembers e ≠ [] := by
  cases e <;> exact List.cons_ne_nil _ _

theorem length_payload_registration (i : Identity) :
    (writeObject (payloadMembers (.registration i))).length = (listIdentity i).length + 12 := by
  have names : (Text.write "id").length = 4 ∧ (Text.write "name").length = 6 := ⟨rfl, rfl⟩
  rw [length_writeObject (payloadMembers_ne_nil _), listIdentity, length_writeList]
  simp only [payloadMembers, weight, memberLength, names]
  omega

theorem length_payload_chat (c : Chat) :
    (writeObject (payloadMembers (.chat c))).length + 9 =
      (listChat c).length + (Envelope.chat c).stretch := by
  obtain ⟨fromId, toId, message⟩ := c
  have names : (Text.write "from_id").length = 9 ∧ (Text.write "to_id").length = 7 ∧
    (Text.write "message").length = 9 ∧ writeNull.length = 4 := ⟨rfl, rfl, rfl, rfl⟩
  rw [length_writeObject (payloadMembers_ne_nil _), listChat, length_writeList]
  cases toId with
  | none =>
    simp only [payloadMembers, writeRecipient, List.cons_append, List.nil_append, weight,
      memberLength, Option.elim, Envelope.stretch, names]
    omega
  | some id =>
    simp only [payloadMembers, writeRecipient, List.cons_append, List.nil_append, weight,
      memberLength, Option.elim, Envelope.stretch, names]
    omega

/-- The members of a written envelope, with some payload. -/
def membersWith (k : Kind) (payload : Bytes) : List (String × Bytes) :=
  [("type", Text.write k.tag), (k.tag, payload)]

theorem length_membersWith (k : Kind) (payload : Bytes) :
    (writeObject (membersWith k payload)).length =
      2 * (Text.write k.tag).length + payload.length + 11 := by
  have name : (Text.write "type").length = 6 := rfl
  have given : membersWith k payload ≠ [] := List.cons_ne_nil _ _
  rw [length_writeObject given]
  simp only [membersWith, weight, memberLength, name]
  omega

theorem length_write (e : Envelope) : (write e).length = (writeLists e).length + e.stretch := by
  have eq_membersWith :
      write e = writeObject (membersWith e.kind (writeObject (payloadMembers e))) := rfl
  cases e with
  | registration i =>
    have name : (Text.write Kind.registration.tag).length = 14 := rfl
    have payload := length_payload_registration i
    rw [eq_membersWith, length_membersWith, writeLists, length_writeList]
    simp only [Envelope.kind, weight, Envelope.stretch, name]
    omega
  | chat c =>
    have names : (Text.write Kind.chat.tag).length = 6 ∧ writeNull.length = 4 := ⟨rfl, rfl⟩
    have payload := length_payload_chat c
    rw [eq_membersWith, length_membersWith, writeLists, length_writeList]
    simp only [Envelope.kind, weight, names]
    omega
  | announcement a => exact (Nat.add_zero _).symm
  | chunk c => exact (Nat.add_zero _).symm

theorem length_recipient_le (form : SpellsNullable Text.Spells w toId) :
    (toId.elim writeNull Text.write).length ≤ w.length := by
  cases toId with
  | none => exact Nat.le_of_eq (congrArg List.length form.symm)
  | some id => exact Text.length_write_le form

theorem length_tag_le {k : Kind} (form : SpellsVariant Kind.tag w k) :
    (Text.write k.tag).length ≤ w.length := by
  rcases form with text | ⟨v, -, object⟩
  · exact Text.length_write_le text
  · have inside : weight memberLength [(k.tag, v)] < w.length :=
      weight_lt_of_enclosed (fun _ _ member => memberLength_le member) object
    simp only [weight, memberLength] at inside
    omega

theorem covers_text (name text : String) :
    (FieldShape.text name).Covers text [(name, Text.write text)] :=
  FieldShape.covers_member nofun fun _ form => Text.length_write_le form

theorem covers_recipient (toId : Option String) :
    (FieldShape.optional "to_id" Text.Spells).Covers toId (writeRecipient toId) := by
  cases toId with
  | none => exact FieldShape.covers_nothing _ _
  | some id => exact FieldShape.covers_member nofun fun _ form => Text.length_write_le form

theorem length_payload_le_of_identity
    (form : identityShape.SpellsObject w (i.id, i.name, ())) :
    (writeObject (payloadMembers (.registration i))).length ≤ w.length := by
  have covers : identityShape.Covers (i.id, i.name, ()) (payloadMembers (.registration i)) :=
    .cons (covers_text "id" i.id) <| .cons (covers_text "name" i.name) .nil
  exact covers.length_le (payloadMembers_ne_nil _) form

theorem length_payload_le_of_chat
    (form : chatShape.SpellsObject w (c.fromId, c.toId, c.message, ())) :
    (writeObject (payloadMembers (.chat c))).length ≤ w.length := by
  have covers : chatShape.Covers (c.fromId, c.toId, c.message, ()) _ :=
    .cons (covers_text "from_id" c.fromId) <| .cons (covers_recipient c.toId) <|
      .cons (covers_text "message" c.message) .nil
  exact covers.length_le (payloadMembers_ne_nil (.chat c)) form

theorem length_listIdentity_le (form : SpellsIdentity w i) :
    (listIdentity i).length ≤ w.length := by
  rcases Shape.object_or_list form with object | ⟨vs, list, given⟩
  · have short := length_payload_le_of_identity object
    have names := length_payload_registration i
    omega
  · obtain ⟨v, vs, rfl, id, given⟩ := Shape.exists_of_required rfl given
    obtain ⟨v', vs, rfl, name, given⟩ := Shape.exists_of_required rfl given
    have inside := weight_lt_of_list list
    have first : (Text.write i.id).length ≤ v.length := Text.length_write_le id
    have second : (Text.write i.name).length ≤ v'.length := Text.length_write_le name
    rw [listIdentity, length_writeList]
    simp only [weight] at inside ⊢
    omega

theorem length_listChat_le (form : SpellsChat w c) : (listChat c).length ≤ w.length := by
  rcases Shape.object_or_list form with object | ⟨vs, list, given⟩
  · have short := length_payload_le_of_chat object
    have names := length_payload_chat c
    have enough : 9 ≤ (Envelope.chat c).stretch := by
      obtain ⟨fromId, _ | id, message⟩ := c <;> simp only [Envelope.stretch] <;> omega
    omega
  · obtain ⟨v, vs, rfl, sender, given⟩ := Shape.exists_of_required rfl given
    -- the message is due, so the recipient is there, if only as null
    obtain ⟨v', vs, rfl, recipient, given⟩ :=
      Shape.exists_of_inOrder given (by rintro ⟨-, absent, -⟩; cases absent)
    obtain ⟨v'', vs, rfl, text, given⟩ := Shape.exists_of_required rfl given
    have inside := weight_lt_of_list list
    have first : (Text.write c.fromId).length ≤ v.length := Text.length_write_le sender
    have second : (c.toId.elim writeNull Text.write).length ≤ v'.length :=
      length_recipient_le recipient
    have third : (Text.write c.message).length ≤ v''.length := Text.length_write_le text
    rw [listChat, length_writeList]
    simp only [weight] at inside ⊢
    omega

section

variable (SpellsI : Bytes → Identity → Prop) (SpellsC : Bytes → Chat → Prop)
  (SpellsA : Bytes → Announcement → Prop) (SpellsK : Bytes → Chunk → Prop)

/-- The fields of a frame, with certain spellings of the payloads. -/
def shapeWith : Shape [Kind, Option Identity, Option Chat, Option Announcement, Option Chunk] :=
  .cons ⟨"type", SpellsVariant Kind.tag, none⟩ <|
    .cons (.optional Kind.registration.tag SpellsI) <| .cons (.optional Kind.chat.tag SpellsC) <|
    .cons (.optional Kind.announcement.tag SpellsA) <|
    .cons (.optional Kind.chunk.tag SpellsK) .nil

variable {SpellsI SpellsC SpellsA SpellsK} {payload : Bytes}

theorem covers_kind (k : Kind) :
    FieldShape.Covers ⟨"type", SpellsVariant Kind.tag, none⟩ k [("type", Text.write k.tag)] :=
  FieldShape.covers_member nofun fun _ form => length_tag_le form

theorem covers_payload {α : Type} {name : String} {Spells : Bytes → α → Prop} {a : α}
    (each : ∀ w, Spells w a → payload.length ≤ w.length) :
    (FieldShape.optional name Spells).Covers (some a) [(name, payload)] :=
  FieldShape.covers_member nofun each

theorem length_object_of_registration (each : ∀ w, SpellsI w i → payload.length ≤ w.length)
    (form : (shapeWith SpellsI SpellsC SpellsA SpellsK).SpellsObject w
      (.registration, some i, none, none, none, ())) :
    (writeObject (membersWith .registration payload)).length ≤ w.length := by
  have covers : (shapeWith SpellsI SpellsC SpellsA SpellsK).Covers
      (.registration, some i, none, none, none, ()) (membersWith .registration payload) :=
    .cons (covers_kind .registration) <| .cons (covers_payload each) <|
      .cons (FieldShape.covers_nothing _ _) <| .cons (FieldShape.covers_nothing _ _) <|
      .cons (FieldShape.covers_nothing _ _) .nil
  exact covers.length_le (List.cons_ne_nil _ _) form

theorem length_object_of_chat (each : ∀ w, SpellsC w c → payload.length ≤ w.length)
    (form : (shapeWith SpellsI SpellsC SpellsA SpellsK).SpellsObject w
      (.chat, none, some c, none, none, ())) :
    (writeObject (membersWith .chat payload)).length ≤ w.length := by
  have covers : (shapeWith SpellsI SpellsC SpellsA SpellsK).Covers
      (.chat, none, some c, none, none, ()) (membersWith .chat payload) :=
    .cons (covers_kind .chat) <| .cons (FieldShape.covers_nothing _ _) <|
      .cons (covers_payload each) <| .cons (FieldShape.covers_nothing _ _) <|
      .cons (FieldShape.covers_nothing _ _) .nil
  exact covers.length_le (List.cons_ne_nil _ _) form

end

/-- The fields of a frame in which the payloads are objects. -/
def objectsShape :
    Shape [Kind, Option Identity, Option Chat, Option Announcement, Option Chunk] :=
  shapeWith (fun w i => identityShape.SpellsObject w (i.id, i.name, ()))
    (fun w c => chatShape.SpellsObject w (c.fromId, c.toId, c.message, ()))
    (fun w a => announcementShape.SpellsObject w
      (a.fromId, a.toId, a.name, a.size, a.chunkSize, ()))
    (fun w c => chunkShape.SpellsObject w
      (c.fromId, c.toId, c.fileName, c.seq, c.data, c.isLast, ()))

/-- An envelope as an object, and its payload as an object in it. -/
def SpellsObjects (w : Bytes) (e : Envelope) : Prop :=
  let p := Payloads.ofEnvelope e
  objectsShape.SpellsObject w (p.kind, p.registration, p.chat, p.announcement, p.chunk, ())

section

variable {SpellsI SpellsI' : Bytes → Identity → Prop} {SpellsC SpellsC' : Bytes → Chat → Prop}
  {SpellsA SpellsA' : Bytes → Announcement → Prop} {SpellsK SpellsK' : Bytes → Chunk → Prop}
  {ms : List (String × Bytes)}

theorem given_mono {α : Type} {name : String} {Spells Spells' : Bytes → α → Prop} {o : Option α}
    (each : ∀ w a, Spells w a → Spells' w a)
    (given : (FieldShape.optional name Spells).Given ms o) :
    (FieldShape.optional name Spells').Given ms o := by
  match ms, o with
  | [], _ => exact given
  | [_], none => exact given
  | [m], some a => exact each m.2 a given
  | _ :: _ :: _, _ => exact given

theorem shapeWith_mono (identity : ∀ w i, SpellsI w i → SpellsI' w i)
    (chat : ∀ w c, SpellsC w c → SpellsC' w c)
    (announcement : ∀ w a, SpellsA w a → SpellsA' w a) (chunk : ∀ w c, SpellsK w c → SpellsK' w c)
    {t : Tuple [Kind, Option Identity, Option Chat, Option Announcement, Option Chunk]}
    (given : (shapeWith SpellsI SpellsC SpellsA SpellsK).InAnyOrder ms t) :
    (shapeWith SpellsI' SpellsC' SpellsA' SpellsK').InAnyOrder ms t := by
  obtain ⟨kind, first, second, third, fourth, others⟩ := given
  exact ⟨kind, given_mono identity first, given_mono chat second, given_mono announcement third,
    given_mono chunk fourth, others⟩

end

theorem SpellsObjects.spells (form : SpellsObjects w e) : Payloads.Spells w (.ofEnvelope e) := by
  obtain ⟨members, object, given⟩ := form
  exact .object object (shapeWith_mono (fun _ _ => Shape.SpellsObject.spells)
    (fun _ _ => Shape.SpellsObject.spells) (fun _ _ => Shape.SpellsObject.spells)
    (fun _ _ => Shape.SpellsObject.spells) given)

/-- The records that an envelope is written as are objects. -/
theorem spellsObjects_write (e : Envelope) : SpellsObjects (write e) e := by
  cases e with
  | registration i =>
    refine ⟨_, objectOf_writeObject _ _, .inl (Text.spells_write _), ?_, rfl, rfl, rfl, nofun⟩
    exact ⟨_, objectOf_writeObject _ _, Text.spells_write _, Text.spells_write _, nofun⟩
  | chat c =>
    refine ⟨_, objectOf_writeObject _ _, .inl (Text.spells_write _), rfl, ?_, rfl, rfl, nofun⟩
    obtain ⟨fromId, _ | id, message⟩ := c
    · exact ⟨_, objectOf_writeObject _ _, Text.spells_write _, rfl, Text.spells_write _, nofun⟩
    · exact ⟨_, objectOf_writeObject _ _, Text.spells_write _, Text.spells_write _,
        Text.spells_write _, nofun⟩
  | announcement a =>
    refine ⟨_, objectOf_writeObject _ _, .inl (Text.spells_write _), rfl, rfl, ?_, rfl, nofun⟩
    obtain ⟨fromId, _ | id, name, size, chunkSize⟩ := a
    · exact ⟨_, objectOf_writeObject _ _, Text.spells_write _, rfl, Text.spells_write _,
        spellsNatural_write _, spellsNatural_write _, nofun⟩
    · exact ⟨_, objectOf_writeObject _ _, Text.spells_write _, Text.spells_write _,
        Text.spells_write _, spellsNatural_write _, spellsNatural_write _, nofun⟩
  | chunk c =>
    refine ⟨_, objectOf_writeObject _ _, .inl (Text.spells_write _), rfl, rfl, rfl, ?_, nofun⟩
    obtain ⟨fromId, _ | id, fileName, seq, data, isLast⟩ := c
    · exact ⟨_, objectOf_writeObject _ _, Text.spells_write _, rfl, Text.spells_write _,
        spellsNatural_write _, Text.spells_write _, rfl, nofun⟩
    · exact ⟨_, objectOf_writeObject _ _, Text.spells_write _, Text.spells_write _,
        Text.spells_write _, spellsNatural_write _, Text.spells_write _, rfl, nofun⟩

theorem length_write_le_of_objects (anew : e.IsEncodedAnew) (form : SpellsObjects w e) :
    (write e).length ≤ w.length := by
  obtain ⟨i, rfl⟩ | ⟨c, rfl⟩ := anew.cases
  · have each : ∀ w, identityShape.SpellsObject w (i.id, i.name, ()) →
        (writeObject (payloadMembers (.registration i))).length ≤ w.length :=
      fun w form => length_payload_le_of_identity form
    exact length_object_of_registration each form
  · have each : ∀ w, chatShape.SpellsObject w (c.fromId, c.toId, c.message, ()) →
        (writeObject (payloadMembers (.chat c))).length ≤ w.length :=
      fun w form => length_payload_le_of_chat form
    exact length_object_of_chat each form

theorem length_writeLists_le_of_registration
    (form : Payloads.Spells w (.ofEnvelope (.registration i))) :
    (writeLists (.registration i)).length ≤ w.length := by
  rw [writeLists, length_writeList]
  rcases Shape.object_or_list form with object | ⟨vs, list, given⟩
  · have short := length_object_of_registration (fun w form => length_listIdentity_le form) object
    rw [length_membersWith] at short
    simp only [weight]
    omega
  · obtain ⟨v, vs, rfl, kind, given⟩ := Shape.exists_of_required rfl given
    obtain ⟨v', vs, rfl, payload, given⟩ :=
      Shape.exists_of_inOrder given (by rintro ⟨absent, -⟩; cases absent)
    have inside := weight_lt_of_list list
    have first : (Text.write Kind.registration.tag).length ≤ v.length := length_tag_le kind
    have second := length_listIdentity_le payload
    simp only [weight] at inside ⊢
    omega

theorem length_writeLists_le_of_chat (form : Payloads.Spells w (.ofEnvelope (.chat c))) :
    (writeLists (.chat c)).length ≤ w.length := by
  have null : writeNull.length = 4 := rfl
  rw [writeLists, length_writeList]
  rcases Shape.object_or_list form with object | ⟨vs, list, given⟩
  · have short := length_object_of_chat (fun w form => length_listChat_le form) object
    rw [length_membersWith] at short
    simp only [weight]
    omega
  · obtain ⟨v, vs, rfl, kind, given⟩ := Shape.exists_of_required rfl given
    -- the chat is due, so the registration before it is there as null
    obtain ⟨v', vs, rfl, nothing, given⟩ :=
      Shape.exists_of_inOrder given (by rintro ⟨-, absent, -⟩; cases absent)
    obtain ⟨v'', vs, rfl, payload, given⟩ :=
      Shape.exists_of_inOrder given (by rintro ⟨absent, -⟩; cases absent)
    have inside := weight_lt_of_list list
    have first : (Text.write Kind.chat.tag).length ≤ v.length := length_tag_le kind
    have second : v'.length = 4 := congrArg List.length nothing
    have third := length_listChat_le payload
    simp only [weight] at inside ⊢
    omega

/-- No spelling is shorter than the lists. -/
theorem length_writeLists_le (anew : e.IsEncodedAnew) (form : Payloads.Spells w (.ofEnvelope e)) :
    (writeLists e).length ≤ w.length := by
  obtain ⟨i, rfl⟩ | ⟨c, rfl⟩ := anew.cases
  · exact length_writeLists_le_of_registration form
  · exact length_writeLists_le_of_chat form

theorem spells_writeLists (anew : e.IsEncodedAnew) :
    Payloads.Spells (writeLists e) (.ofEnvelope e) := by
  obtain ⟨i, rfl⟩ | ⟨c, rfl⟩ := anew.cases
  · have payload : SpellsIdentity (listIdentity i) i :=
      .list (listOf_writeList _ _) ⟨Text.spells_write _, Text.spells_write _, rfl⟩
    exact .list (listOf_writeList _ _) ⟨.inl (Text.spells_write _), payload, rfl, rfl, rfl, rfl⟩
  · have recipient : SpellsNullable Text.Spells (c.toId.elim writeNull Text.write) c.toId := by
      cases c.toId with
      | none => exact rfl
      | some id => exact Text.spells_write id
    have payload : SpellsChat (listChat c) c :=
      .list (listOf_writeList _ _) ⟨Text.spells_write _, recipient, Text.spells_write _, rfl⟩
    exact .list (listOf_writeList _ _)
      ⟨.inl (Text.spells_write _), rfl, payload, rfl, rfl, rfl⟩

end Wire

namespace Frame

variable {f : Bytes} {e : Envelope}

/-- The spelling as objects, with white space before it and blanks at its end. -/
def SpellsObjects (f : Bytes) (e : Envelope) : Prop :=
  ∃ ws w blanks, f = ws ++ (w ++ blanks) ∧ Json.Spaces ws ∧ blanks.all isBlank ∧
    Wire.SpellsObjects w e

/-- They are among the spellings of the envelope. -/
theorem SpellsObjects.spells (form : SpellsObjects f e) : Spells f e := by
  obtain ⟨ws, w, blanks, parts, before, blank, objects⟩ := form
  exact ⟨ws, w, blanks, parts, before, blank, objects.spells⟩

theorem spellsObjects_encode (e : Envelope) : SpellsObjects (encode e) e :=
  ⟨[], Wire.write e, [lineFeed], rfl, Json.spaces_nil, by decide, Wire.spellsObjects_write e⟩

/-- The line feed is no part of a record. -/
theorem length_lt_of_ended {ws w blanks : Bytes} (parts : f = ws ++ (w ++ blanks))
    (ended : f.getLast? = some lineFeed)
    (closed : ∃ w', w = w' ++ [closeBrace] ∨ w = w' ++ [closeBracket]) : w.length < f.length := by
  subst parts
  rcases List.eq_nil_or_concat blanks with rfl | ⟨blanks, b, rfl⟩
  · obtain ⟨w, rfl | rfl⟩ := closed
    · rw [List.append_nil, ← List.append_assoc, List.getLast?_concat] at ended
      exact absurd ended (by decide)
    · rw [List.append_nil, ← List.append_assoc, List.getLast?_concat] at ended
      exact absurd ended (by decide)
  · simp only [List.length_append, List.length_concat]
    omega

theorem length_encode (e : Envelope) : (encode e).length = (Wire.write e).length + 1 := by
  rw [encode, List.length_append, List.length_singleton]

theorem length_encode_le_of_objects (anew : e.IsEncodedAnew) (ended : f.getLast? = some lineFeed)
    (form : SpellsObjects f e) : (encode e).length ≤ f.length := by
  obtain ⟨ws, w, blanks, parts, -, -, object⟩ := form
  have short := Wire.length_write_le_of_objects anew object
  obtain ⟨members, enclosed, -⟩ := object
  obtain ⟨w', closed⟩ := Json.concat_of_enclosed enclosed
  have inside := length_lt_of_ended parts ended ⟨w', .inl closed⟩
  rw [length_encode]
  omega

theorem length_encode_le (anew : e.IsEncodedAnew) (ended : f.getLast? = some lineFeed)
    (form : Spells f e) : (encode e).length ≤ f.length + e.stretch := by
  obtain ⟨ws, w, blanks, parts, -, -, record⟩ := form
  have short := Wire.length_writeLists_le anew record
  have inside := length_lt_of_ended parts ended (Json.concat_of_record record)
  rw [length_encode, Wire.length_write]
  omega

/-- The bound is reached for every one of these envelopes. -/
theorem exists_shortest (anew : e.IsEncodedAnew) :
    ∃ f, Spells f e ∧ f.getLast? = some lineFeed ∧ (encode e).length = f.length + e.stretch := by
  refine ⟨Wire.writeLists e ++ [lineFeed], ?_, List.getLast?_concat, ?_⟩
  · exact ⟨[], Wire.writeLists e, [lineFeed], rfl, Json.spaces_nil, by decide,
      Wire.spells_writeLists anew⟩
  · rw [length_encode, Wire.length_write, List.length_append, List.length_singleton]
    omega

end Frame

end Mailroom
