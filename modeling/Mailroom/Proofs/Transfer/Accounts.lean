import Mailroom.Proofs.Transfer.Openings
import Mathlib.Algebra.BigOperators.Group.List.Lemmas
import Mathlib.Algebra.GroupWithZero.Nat

/-!
# The log accounts for all transfers

Every transfer that was announced was completed, was abandoned or is still in progress, and so is
every byte that was appended. Both laws are accounts with two sides: what an event brings in and
what an event settles, with what the open transfers hold making up for the difference. An account
that is balanced by each operation on what there is under one key is balanced by every run, for one
key as well as for all of them.

Under one key the openings and the endings take turns, so no transfer ends twice.
-/

namespace Mailroom

/-- A sum over a map is what there is at a key and the sum over the others. -/
theorem Keyed.sum_eq {κ α : Type} [DecidableEq κ] (m : Keyed κ α) (key : κ) (f : κ × α → Nat) :
    (m.entries.map f).sum =
      ((m.get? key).elim 0 fun value => f (key, value)) + ((m.erase key).entries.map f).sum := by
  obtain ⟨entries, distinct⟩ := m
  change _ =
    ((entries.find? fun e => e.1 = key).map Prod.snd).elim 0 (fun value => f (key, value)) +
      ((entries.filter fun e => e.1 ≠ key).map f).sum
  induction entries with
  | nil => rfl
  | cons e entries ih =>
    obtain ⟨fresh, distinct⟩ := List.nodup_cons.mp distinct
    by_cases here : e.1 = key
    · subst here
      have others : entries.filter (fun e' => e'.1 ≠ e.1) = entries := by
        apply List.filter_eq_self.mpr
        intro e' there
        exact decide_eq_true fun same => fresh (same ▸ List.mem_map_of_mem there)
      rw [List.find?_cons_of_pos (by simp), List.filter_cons_of_neg (by simp), others]
      rfl
    · rw [List.find?_cons_of_neg (by simpa using here),
        List.filter_cons_of_pos (by simpa using here), List.map_cons, List.sum_cons, ih distinct,
        List.map_cons, List.sum_cons]
      exact Nat.add_left_comm _ _ _

namespace Transfer

namespace Event

def announcements : Event → Nat
  | .announced _ _ => 1
  | _ => 0

def completions : Event → Nat
  | .completed _ _ => 1
  | _ => 0

def abandonments : Event → Nat
  | .abandoned _ => 1
  | _ => 0

def appendedBytes : Event → Nat
  | .chunkAppended _ size => size
  | _ => 0

def completedBytes : Event → Nat
  | .completed bytes _ => bytes
  | _ => 0

def abandonedBytes : Event → Nat
  | .abandoned received => received
  | _ => 0

/-- Whether an event opens a transfer or ends one. -/
def opens? : Event → Option Bool
  | .announced _ _ => some true
  | .completed _ _ => some false
  | .abandoned _ => some false
  | _ => none

end Event

/-- What events bring in and what they settle, and what an open transfer holds of it. -/
structure Account where
  brings : Event → Nat
  settles : Event → Nat
  held : Receipt → Nat

namespace Account

/-- Transfers are opened by an announcement, and completed or abandoned. -/
def ofTransfers : Account :=
  ⟨Event.announcements, fun e => e.completions + e.abandonments, fun _ => 1⟩

/-- Bytes are appended to a transfer, and completed or abandoned with it. -/
def ofBytes : Account :=
  ⟨Event.appendedBytes, fun e => e.completedBytes + e.abandonedBytes, fun r => r.data.length⟩

/-- What is brought in is held, what is held is settled at the end, and nothing else counts. -/
structure IsFair (account : Account) : Prop where
  announced : ∀ size chunkSize,
    account.brings (.announced size chunkSize) = account.held ⟨size, [], 0⟩ ∧
      account.settles (.announced size chunkSize) = 0
  appended : ∀ (r : Receipt) seq bytes due,
    account.held ⟨r.announcedSize, r.data ++ bytes, due⟩ =
      account.held r + account.brings (.chunkAppended seq bytes.length) ∧
      account.settles (.chunkAppended seq bytes.length) = 0
  completed : ∀ r : Receipt, account.brings (.completed r.data.length r.announcedSize) = 0 ∧
    account.settles (.completed r.data.length r.announcedSize) = account.held r
  abandoned : ∀ r : Receipt, account.brings (.abandoned r.data.length) = 0 ∧
    account.settles (.abandoned r.data.length) = account.held r
  outOfOrder : ∀ due seq,
    account.brings (.outOfOrder due seq) = 0 ∧ account.settles (.outOfOrder due seq) = 0
  invalid : ∀ seq fault,
    account.brings (.invalidChunk seq fault) = 0 ∧ account.settles (.invalidChunk seq fault) = 0
  unknown : ∀ seq,
    account.brings (.unknownTransfer seq) = 0 ∧ account.settles (.unknownTransfer seq) = 0

theorem ofTransfers_isFair : ofTransfers.IsFair := by
  constructor <;> intros <;> exact ⟨rfl, rfl⟩

theorem ofBytes_isFair : ofBytes.IsFair := by
  constructor <;> intros <;>
    simp [ofBytes, Event.appendedBytes, Event.completedBytes, Event.abandonedBytes]

/-- What the open transfer under one key holds. -/
def ofSlot (account : Account) (slot : Slot) : Nat := slot.elim 0 account.held

/-- What the open transfers under some keys hold. -/
def ofTable (account : Account) (under : Key → Bool) (t : Table) : Nat :=
  (t.receipts.entries.map fun e => if under e.1 then account.held e.2 else 0).sum

section

variable {account : Account}

theorem sum_disorder (fair : account.IsFair) (due seq : UInt64) :
    ((Slot.disorder due seq).map account.brings).sum = 0 ∧
      ((Slot.disorder due seq).map account.settles).sum = 0 := by
  rw [Slot.disorder]
  split
  · exact ⟨rfl, rfl⟩
  · exact fair.outOfOrder due seq

/-- Bytes that are appended are brought in, also if there are none and no event says so. -/
theorem sum_appended (fair : account.IsFair) (r : Receipt) (seq : UInt64) (bytes : Bytes)
    (due : UInt64) :
    account.held ⟨r.announcedSize, r.data ++ bytes, due⟩ =
      account.held r + ((Slot.appended seq bytes).map account.brings).sum ∧
      ((Slot.appended seq bytes).map account.settles).sum = 0 := by
  have law := fair.appended r seq bytes
  rw [Slot.appended]
  split
  next empty =>
    subst empty
    have nothing := (law r.nextSeq).1
    have same := (law due).1
    rw [List.append_nil] at nothing same ⊢
    refine ⟨?_, rfl⟩
    rw [List.map_nil, List.sum_nil, same]
    exact nothing.symm
  next => exact law due

/-- An operation settles what it brings in and does not leave with its transfer. -/
theorem operate_balanced (fair : account.IsFair) (slot : Slot) (o : Operation) :
    ((slot.operate o).1.events.map account.brings).sum + account.ofSlot slot =
      ((slot.operate o).1.events.map account.settles).sum + account.ofSlot (slot.operate o).2 := by
  cases o with
  | announce a =>
    have opens := fair.announced a.size a.chunkSize
    cases slot with
    | none => simp [Slot.operate, Slot.announce, ofSlot, opens]
    | some stale =>
      simp [Slot.operate, Slot.announce, ofSlot, opens, fair.abandoned stale, Nat.add_comm]
  | accept c =>
    cases slot with
    | none => simp [Slot.operate, Slot.accept, ofSlot, fair.unknown c.seq]
    | some r =>
      have disorder := sum_disorder fair r.nextSeq c.seq
      cases decoded : decodeData c.data with
      | error fault =>
        have invalid := fair.invalid c.seq fault
        cases last : c.isLast <;>
          simp [Slot.operate, Slot.accept, ofSlot, decoded, last, disorder, invalid,
            fair.abandoned r]
      | ok bytes =>
        have appends := sum_appended fair r c.seq bytes
        cases last : c.isLast with
        | false =>
          simp [Slot.operate, Slot.accept, ofSlot, decoded, last, disorder,
            appends (seqAfter c.seq), Nat.add_comm]
        | true =>
          have ends := fair.completed ⟨r.announcedSize, r.data ++ bytes, r.nextSeq⟩
          have settled := ends.2.trans (appends r.nextSeq).1
          simp [Slot.operate, Slot.accept, ofSlot, decoded, last, disorder, appends r.nextSeq,
            ends.1, settled, Nat.add_comm, -List.length_append]

end

end Account

/-- All that is logged in successive operations. -/
def Table.log (t : Table) (os : List Operation) : List LogEntry :=
  (t.reports os).flatMap fun r => r.events.map (.mk .receiver r.key)

/-- What the entries of a log come to, each measured by its event. -/
def tally (measure : Event → Nat) (log : List LogEntry) : Nat :=
  (log.map fun e => measure e.event).sum

theorem tally_add (measure measure' : Event → Nat) (log : List LogEntry) :
    tally (fun e => measure e + measure' e) log = tally measure log + tally measure' log := by
  simp [tally, List.sum_map_add]

theorem tally_append (measure : Event → Nat) (log log' : List LogEntry) :
    tally measure (log ++ log') = tally measure log + tally measure log' := by
  simp [tally]

/-- What an operation logs counts under its key alone. -/
theorem tally_filter_entries (measure : Event → Nat) (under : Key → Bool) (key : Key)
    (events : List Event) :
    tally measure ((events.map (LogEntry.mk .receiver key)).filter fun e => under e.key) =
      if under key then (events.map measure).sum else 0 := by
  rw [List.filter_map]
  by_cases counted : under key
  · simp [tally, counted, Function.comp_def]
  · simp [tally, counted, Function.comp_def]

theorem Table.log_cons (t : Table) (o : Operation) (os : List Operation) :
    t.log (o :: os) =
      (t.operate o).1.events.map (.mk .receiver o.key) ++ (t.operate o).2.log os := by
  rw [log, reports, List.flatMap_cons, key_operate]
  rfl

theorem Table.erase_accept (t : Table) (c : Chunk) :
    (t.accept c).2.1.erase (.ofChunk c) = t.erase (.ofChunk c) := by
  cases found : t.get? (.ofChunk c) with
  | none => simp [accept, found]
  | some r =>
    cases decoded : decodeData c.data <;> cases last : c.isLast <;>
      simp [accept, append, erase, insert, Keyed.erase_erase_self, Keyed.erase_insert_self, found,
        decoded, last]

/-- An operation leaves the transfers under other keys alone. -/
theorem Table.erase_operate (t : Table) (o : Operation) :
    (t.operate o).2.erase o.key = t.erase o.key := by
  cases o with
  | announce a => exact congrArg Table.mk (Keyed.erase_insert_self _ _ _)
  | accept c => exact t.erase_accept c

namespace Account

variable {account : Account} {under : Key → Bool}

theorem ofTable_eq (account : Account) (under : Key → Bool) (t : Table) (key : Key) :
    account.ofTable under t =
      (if under key then account.ofSlot (t.get? key) else 0) +
        account.ofTable under (t.erase key) := by
  rw [ofTable, Keyed.sum_eq _ key]
  congr 1
  change Option.elim (t.get? key) _ _ = _
  cases t.get? key with
  | none => simp [ofSlot]
  | some r => rfl

/-- A run settles what it brings in and does not leave with a transfer that is still open. -/
theorem log_balanced (fair : account.IsFair) (under : Key → Bool) (t : Table)
    (os : List Operation) :
    tally account.brings ((t.log os).filter fun e => under e.key) + account.ofTable under t =
      tally account.settles ((t.log os).filter fun e => under e.key) +
        account.ofTable under (t.after os) := by
  induction os generalizing t with
  | nil => rfl
  | cons o os ih =>
    have later := ih (t.operate o).2
    have now := operate_balanced fair (t.get? o.key) o
    have before := ofTable_eq account under t o.key
    have between := ofTable_eq account under (t.operate o).2 o.key
    rw [← t.operate_report, ← t.get?_operate_self] at now
    rw [Table.erase_operate] at between
    rw [Table.log_cons, List.filter_append, tally_append, tally_append, tally_filter_entries,
      tally_filter_entries, Table.after]
    by_cases counted : under o.key
    · simp only [if_pos counted] at before between ⊢
      omega
    · simp only [if_neg counted] at before between ⊢
      omega

end Account

namespace Event

/-- The events by which a transfer is opened or ended, told apart. -/
def openings (events : List Event) : List Bool := events.filterMap opens?

theorem openings_disorder (due seq : UInt64) : openings (Slot.disorder due seq) = [] := by
  rw [Slot.disorder]
  split <;> rfl

theorem openings_appended (seq : UInt64) (bytes : Bytes) :
    openings (Slot.appended seq bytes) = [] := by
  rw [Slot.appended]
  split <;> rfl

theorem openings_append (events events' : List Event) :
    openings (events ++ events') = openings events ++ openings events' := List.filterMap_append

end Event

/-- What an operation opens or ends leads from what there is to what there is then. -/
theorem Slot.isChain_operate (slot : Slot) (o : Operation) {later : List Bool}
    (turns : ((slot.operate o).2.isSome :: later).IsChain (· ≠ ·)) :
    (slot.isSome :: (Event.openings (slot.operate o).1.events ++ later)).IsChain (· ≠ ·) := by
  cases o with
  | announce a =>
    cases slot with
    | none => exact .cons_cons nofun turns
    | some stale => exact .cons_cons nofun (.cons_cons nofun turns)
  | accept c =>
    cases slot with
    | none => exact turns
    | some r =>
      cases decoded : decodeData c.data <;> cases last : c.isLast <;>
        simp only [Slot.operate, Slot.accept, decoded, last, Bool.false_eq_true, if_true, if_false,
          Event.openings_append, Event.openings_disorder, Event.openings_appended,
          List.nil_append] at turns ⊢
      · exact turns
      · exact .cons_cons nofun turns
      · exact turns
      · exact .cons_cons nofun turns

theorem Slot.isChain_reports (slot : Slot) (os : List Operation) :
    (slot.isSome :: Event.openings ((Slot.reports slot os).flatMap Report.events)).IsChain
      (· ≠ ·) := by
  induction os generalizing slot with
  | nil => exact .singleton _
  | cons o os ih =>
    rw [Slot.reports, List.flatMap_cons, Event.openings_append]
    exact slot.isChain_operate o (ih _)

theorem Table.events_of_key (t : Table) (os : List Operation) (key : Key) :
    ((t.log os).filter fun e => e.key = key).map LogEntry.event =
      ((t.reports os).filter fun r => r.key = key).flatMap Report.events := by
  rw [log]
  induction t.reports os with
  | nil => rfl
  | cons r rs ih =>
    rw [List.flatMap_cons, List.filter_append, List.map_append, ih, List.filter_map]
    by_cases same : r.key = key
    · rw [List.filter_cons_of_pos (by simpa using same)]
      simp [same, Function.comp_def]
    · rw [List.filter_cons_of_neg (by simpa using same)]
      simp [same, Function.comp_def]

/-- A log in which every transfer and every byte is accounted for. -/
structure Balanced (log : List LogEntry) (inProgress held : Nat) : Prop where
  transfers : tally Event.announcements log =
    tally Event.completions log + tally Event.abandonments log + inProgress
  bytes : tally Event.appendedBytes log =
    tally Event.completedBytes log + tally Event.abandonedBytes log + held

namespace Account

variable {account : Account}

theorem ofTable_empty (account : Account) (under : Key → Bool) : account.ofTable under .empty = 0 :=
  rfl

theorem ofTable_all (account : Account) (t : Table) :
    account.ofTable (fun _ => true) t = (t.receipts.entries.map fun e => account.held e.2).sum := by
  simp [ofTable]

theorem ofTable_key (account : Account) (t : Table) (key : Key) :
    account.ofTable (fun k => k = key) t = account.ofSlot (t.get? key) := by
  have others : account.ofTable (fun k => k = key) (t.erase key) = 0 := by
    apply List.sum_eq_zero
    intro n here
    obtain ⟨e, there, rfl⟩ := List.mem_map.mp here
    have apart : e.1 ≠ key := by simpa using (List.mem_filter.mp there).2
    exact if_neg (by simpa using apart)
  rw [ofTable_eq account _ t key, others]
  simp

end Account

/-- The log accounts for the transfers under some keys. -/
theorem balanced_under (under : Key → Bool) (os : List Operation) :
    Balanced ((Table.empty.log os).filter fun e => under e.key)
      (Account.ofTransfers.ofTable under (Table.empty.after os))
      (Account.ofBytes.ofTable under (Table.empty.after os)) := by
  have transfers := Account.log_balanced Account.ofTransfers_isFair under .empty os
  have bytes := Account.log_balanced Account.ofBytes_isFair under .empty os
  rw [Account.ofTable_empty, Nat.add_zero] at transfers bytes
  constructor
  · rw [← tally_add]
    exact transfers
  · rw [← tally_add]
    exact bytes

/-- In the log of a table that was empty at first every transfer and every byte is accounted for,
under each key and in all. Under each key a transfer is opened and ended by turns. -/
theorem log_accounts_for_all (os : List Operation) :
    (∀ key, Balanced ((Table.empty.log os).filter fun e => e.key = key)
        (if (Table.empty.after os).contains key then 1 else 0)
        (((Table.empty.after os).get? key).elim 0 fun r => r.data.length) ∧
      (false :: Event.openings (((Table.empty.log os).filter fun e => e.key = key).map
        LogEntry.event)).IsChain (· ≠ ·)) ∧
    Balanced (Table.empty.log os) (Table.empty.after os).inProgress
      ((Table.empty.after os).receipts.entries.map fun e => e.2.data.length).sum := by
  constructor
  · intro key
    have balanced := balanced_under (fun k => k = key) os
    rw [Account.ofTable_key, Account.ofTable_key] at balanced
    constructor
    · refine ⟨?_, balanced.bytes⟩
      rw [balanced.transfers, Table.contains, Keyed.contains, ← Table.get?]
      cases (Table.empty.after os).get? key <;> rfl
    · rw [Table.events_of_key, Table.reports_of_key]
      exact Slot.isChain_reports none _
  · have balanced := balanced_under (fun _ => true) os
    rw [Account.ofTable_all, Account.ofTable_all, List.filter_true] at balanced
    refine ⟨?_, balanced.bytes⟩
    rw [balanced.transfers, Table.inProgress, Keyed.size]
    simp [Account.ofTransfers]

end Transfer

end Mailroom
