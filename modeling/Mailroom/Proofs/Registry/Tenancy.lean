import Mailroom.Proofs.Registry.Entries
import Mathlib.Data.List.Nodup

/-!
# Who has an id

Requests come to a registry one after the other, in any order, and each is answered at once. Who has
which id is told by what was asked and answered: a connection has the id that it was last given, as
long as the id was not taken back and the registry was not cleared. All answers agree with that, and
a request that is refused or only asks changes nothing.

The entries of a registry have no order that a request could rely on. If a connection has several
ids, it is open which one it gives up first.
-/

namespace Mailroom

namespace Registry

inductive Request where
  | register (identity : Identity) (conn : ConnId)
  | unregister (conn : ConnId)
  | lookup (id : String)
  | snapshot
  | size
  | drain
  deriving DecidableEq

inductive Answer where
  | registered (result : Except AlreadyRegistered Unit)
  | unregistered (identity? : Option Identity)
  | found (conn? : Option ConnId)
  | listed (entries : List Registered)
  | counted (n : Nat)
  deriving DecidableEq

theorem owned_eq_nil_iff {G : Registry} {conn : ConnId} :
    G.owned conn = [] ↔ ∀ e ∈ G.entries, e.conn ≠ conn := by
  simp [owned]

theorem isSome_find?_iff {G : Registry} {id : String} : (G.find? id).isSome ↔ id ∈ G.ids := by
  simp [find?, ids]

/-- What was asked and answered, oldest first. -/
abbrev Log := List (Request × Answer)

/-- The identity is given to the connection. -/
def Gives (i : Identity) (conn : ConnId) (call : Request × Answer) : Prop :=
  call = (.register i conn, .registered (.ok ()))

/-- The id is taken back, from whatever connection has it. -/
def Frees (id : String) (call : Request × Answer) : Prop :=
  call.1 = .drain ∨ ∃ conn i, call = (.unregister conn, .unregistered (some i)) ∧ i.id = id

/-- The connection was the last that the id was given to, under this identity, and the id was not
taken back since. -/
def Holds (l : Log) (i : Identity) (conn : ConnId) : Prop :=
  ∃ before call after, l = before ++ call :: after ∧ Gives i conn call ∧
    ∀ later ∈ after, ¬ Frees i.id later ∧ ∀ j other, Gives j other later → j.id ≠ i.id

end Registry

namespace Exchange

open Registry

/-- The answer to a request, with the exchange after it. -/
def answer (x : Exchange) : Request → Answer × Exchange
  | .register identity conn =>
    let (result, x) := x.register identity conn
    (.registered result, x)
  | .unregister conn =>
    let (identity?, x) := x.unregister conn
    (.unregistered identity?, x)
  | .lookup id => (.found (x.registry.lookup id), x)
  | .snapshot => (.listed x.registry.snapshot, x)
  | .size => (.counted x.registry.size, x)
  | .drain =>
    let (entries, x) := x.drain
    (.listed entries, x)

/-- A request can be answered like this. The entries may be met in any order. -/
def Serves (x : Exchange) (q : Request) (a : Answer) (x' : Exchange) : Prop :=
  ∃ entries : List Registered, entries.Perm x.registry.entries ∧
    answer { x with registry := ⟨entries⟩ } q = (a, x')

/-- Successive requests, with their answers. -/
inductive Served (x : Exchange) : Log → Exchange → Prop
  | start : Served x [] x
  | call {l : Log} {x' x'' : Exchange} {q : Request} {a : Answer} (served : Served x l x')
      (serves : Serves x' q a x'') : Served x (l ++ [(q, a)]) x''

/-- Nothing has changed, but for the order of the entries. -/
structure Same (x x' : Exchange) : Prop where
  entries : x'.registry.entries.Perm x.registry.entries
  connections : x'.connections = x.connections

/-- What a request does, by its answer. -/
inductive Effect (x x' : Exchange) : Request → Answer → Prop
  | gives {i : Identity} {conn : ConnId} (free : i.id ∉ x.registry.ids)
      (entries : x'.registry.entries.Perm (⟨i, conn⟩ :: x.registry.entries))
      (connections : x'.connections = x.connections) :
      Effect x x' (.register i conn) (.registered (.ok ()))
  | refuses {i : Identity} {conn : ConnId} (taken : i.id ∈ x.registry.ids) (same : Same x x') :
      Effect x x' (.register i conn) (.registered (.error ⟨i.id⟩))
  | takesBack {e : Registered} (entries : x.registry.entries.Perm (e :: x'.registry.entries))
      (connections : x'.connections = x.connections) :
      Effect x x' (.unregister e.conn) (.unregistered (some e.identity))
  | hasNone {conn : ConnId} (nothing : x.registry.owned conn = []) (same : Same x x') :
      Effect x x' (.unregister conn) (.unregistered none)
  | finds {e : Registered} (there : e ∈ x.registry.entries) (same : Same x x') :
      Effect x x' (.lookup e.identity.id) (.found (some e.conn))
  | findsNone {id : String} (absent : id ∉ x.registry.ids) (same : Same x x') :
      Effect x x' (.lookup id) (.found none)
  | lists {entries : List Registered} (all : entries.Perm x.registry.entries) (same : Same x x') :
      Effect x x' .snapshot (.listed entries)
  | counts (same : Same x x') : Effect x x' .size (.counted x.registry.entries.length)
  | clears {entries : List Registered} (all : entries.Perm x.registry.entries)
      (empty : x'.registry.entries = [])
      (closed : ∀ conn, x'.connection? conn = (x.connection? conn).map fun c =>
        if x.registry.owned conn = [] then c else c.requestClose) :
      Effect x x' .drain (.listed entries)

variable {x x' x'' : Exchange} {q : Request} {a : Answer} {l : Log} {conn : ConnId} {i : Identity}

theorem same_refl (x : Exchange) : Same x x := ⟨.refl _, rfl⟩

theorem effect_of_answer (answered : x.answer q = (a, x')) : Effect x x' q a := by
  cases q with
  | register i conn =>
    rw [answer, Exchange.register] at answered
    cases result : x.registry.register i conn with
    | ok G =>
      rw [result] at answered
      cases answered
      obtain ⟨free, rfl⟩ := register_eq_ok result
      refine .gives ?_ (List.perm_append_singleton _ _) rfl
      rw [← isSome_find?_iff, free]
      exact nofun
    | error e =>
      rw [result] at answered
      cases answered
      obtain ⟨taken, rfl⟩ := register_eq_error_iff.mp result
      exact .refuses (isSome_find?_iff.mp taken) x.same_refl
  | unregister conn =>
    cases found : x.registry.entries.find? fun e => e.conn = conn with
    | none =>
      rw [answer, Exchange.unregister, Registry.unregister, found] at answered
      cases answered
      have nothing : x.registry.owned conn = [] := by
        apply List.filter_eq_nil_iff.mpr
        exact List.find?_eq_none.mp found
      exact .hasNone nothing x.same_refl
    | some e =>
      rw [answer, Exchange.unregister, Registry.unregister, found] at answered
      cases answered
      obtain rfl : e.conn = conn := by simpa using List.find?_some found
      exact .takesBack (List.perm_cons_erase (List.mem_of_find?_eq_some found)) rfl
  | lookup id =>
    cases answered
    rw [Registry.lookup]
    cases found : x.registry.find? id with
    | none =>
      refine .findsNone ?_ x.same_refl
      rw [← isSome_find?_iff, found]
      exact nofun
    | some e =>
      obtain ⟨there, rfl⟩ := mem_of_find? found
      exact .finds there x.same_refl
  | snapshot =>
    cases answered
    exact .lists (.refl _) x.same_refl
  | size =>
    cases answered
    exact .counts x.same_refl
  | drain =>
    have empty : x.drain.2.registry.entries = [] := congrArg Registry.entries x.registry_drain
    cases answered
    exact .clears (.refl _) empty x.connection?_drain

/-- In what order the entries are met makes no difference to what is known of the effect. -/
theorem Effect.of_perm {entries : List Registered} (perm : entries.Perm x.registry.entries)
    (effect : Effect { x with registry := ⟨entries⟩ } x' q a) : Effect x x' q a := by
  have ids : ∀ id, id ∈ Registry.ids ⟨entries⟩ ↔ id ∈ x.registry.ids := fun id =>
    (perm.map fun e => e.identity.id).mem_iff
  have owned : ∀ conn, Registry.owned ⟨entries⟩ conn = [] ↔ x.registry.owned conn = [] := by
    intro conn
    simp only [owned_eq_nil_iff, perm.mem_iff]
  have same : Same { x with registry := ⟨entries⟩ } x' → Same x x' := fun same =>
    ⟨same.entries.trans perm, same.connections⟩
  cases effect with
  | gives free entries connections =>
    exact .gives (mt (ids _).mpr free) (entries.trans (perm.cons _)) connections
  | refuses taken unchanged => exact .refuses ((ids _).mp taken) (same unchanged)
  | takesBack entries connections => exact .takesBack (perm.symm.trans entries) connections
  | hasNone nothing unchanged => exact .hasNone ((owned _).mp nothing) (same unchanged)
  | finds there unchanged => exact .finds (perm.mem_iff.mp there) (same unchanged)
  | findsNone absent unchanged => exact .findsNone (mt (ids _).mpr absent) (same unchanged)
  | lists all unchanged => exact .lists (all.trans perm) (same unchanged)
  | counts unchanged =>
    rw [perm.length_eq]
    exact .counts (same unchanged)
  | clears all empty closed =>
    refine .clears (all.trans perm) empty fun conn => ?_
    simp only [closed, owned]
    rfl

theorem effect_of_serves (serves : Serves x q a x') : Effect x x' q a := by
  obtain ⟨entries, perm, answered⟩ := serves
  exact (effect_of_answer answered).of_perm perm

end Exchange

namespace Registry

variable {l : Log} {call : Request × Answer} {i : Identity} {conn : ConnId}

/-- A connection has an id after a call if it is given the id, or if it had the id before and the
call neither takes it back nor gives it to somebody. -/
theorem holds_concat : Holds (l ++ [call]) i conn ↔
    Gives i conn call ∨
      Holds l i conn ∧ ¬ Frees i.id call ∧ ∀ j other, Gives j other call → j.id ≠ i.id := by
  constructor
  · rintro ⟨before, giving, after, split, gives, since⟩
    rcases List.eq_nil_or_concat after with rfl | ⟨after, last, rfl⟩
    · obtain ⟨-, same⟩ := List.append_inj' split rfl
      cases same
      exact .inl gives
    · rw [List.concat_eq_append, ← List.cons_append, ← List.append_assoc] at split
      obtain ⟨rfl, same⟩ := List.append_inj' split rfl
      cases same
      right
      constructor
      · refine ⟨before, giving, after, rfl, gives, fun later there => since later ?_⟩
        simp [there]
      · apply since
        simp
  · rintro (gives | ⟨⟨before, giving, after, rfl, gives, since⟩, kept⟩)
    · exact ⟨l, call, [], rfl, gives, nofun⟩
    · refine ⟨before, giving, after ++ [call], by simp, gives, fun later there => ?_⟩
      rcases List.mem_append.mp there with earlier | now
      · exact since later earlier
      · obtain rfl := List.mem_singleton.mp now
        exact kept

theorem not_holds_nil : ¬ Holds [] i conn := by
  rintro ⟨before, call, after, split, -⟩
  simp at split

end Registry

namespace Exchange

open Registry

variable {x x' x'' : Exchange} {q : Request} {a : Answer} {l : Log} {conn other : ConnId}
  {i : Identity} {e : Registered}

theorem Same.mem_iff (same : Same x x') : e ∈ x'.registry.entries ↔ e ∈ x.registry.entries :=
  same.entries.mem_iff

/-- The entry that is taken back shares its id with none that stays. -/
theorem id_ne_of_takesBack (distinct : x.registry.ids.Nodup)
    (entries : x.registry.entries.Perm (e :: x'.registry.entries)) {stays : Registered}
    (there : stays ∈ x'.registry.entries) : e.identity.id ≠ stays.identity.id := by
  have distinct' : ((e :: x'.registry.entries).map fun e => e.identity.id).Nodup :=
    (entries.map _).nodup_iff.mp distinct
  intro same
  exact (List.nodup_cons.mp distinct').1 (List.mem_map.mpr ⟨stays, there, same.symm⟩)

theorem Effect.ids_nodup (effect : Effect x x' q a) (distinct : x.registry.ids.Nodup) :
    x'.registry.ids.Nodup := by
  have unchanged : Same x x' → x'.registry.ids.Nodup := fun same =>
    (same.entries.map _).nodup_iff.mpr distinct
  cases effect with
  | gives free entries connections =>
    exact (entries.map _).nodup_iff.mpr (List.nodup_cons.mpr ⟨free, distinct⟩)
  | takesBack entries connections =>
    exact (List.nodup_cons.mp ((entries.map _).nodup_iff.mp distinct)).2
  | clears all empty closed =>
    rw [ids, empty]
    exact .nil
  | refuses _ same | hasNone _ same | finds _ same | findsNone _ same | lists _ same
  | counts same => exact unchanged same

/-- Which entries there are after a call, said by the call and the entries before it. -/
theorem Effect.mem_iff (effect : Effect x x' q a) (distinct : x.registry.ids.Nodup) :
    ⟨i, conn⟩ ∈ x'.registry.entries ↔ Gives i conn (q, a) ∨
      ⟨i, conn⟩ ∈ x.registry.entries ∧ ¬ Frees i.id (q, a) ∧
        ∀ j other, Gives j other (q, a) → j.id ≠ i.id := by
  cases effect with
  | @gives j other free entries connections =>
    have apart : ⟨i, conn⟩ ∈ x.registry.entries → j.id ≠ i.id := by
      intro there same
      exact free (List.mem_map.mpr ⟨_, there, same.symm⟩)
    rw [entries.mem_iff, List.mem_cons]
    simp only [Gives, Frees, Registered.mk.injEq, Prod.mk.injEq, Request.register.injEq]
    constructor
    · rintro (⟨rfl, rfl⟩ | there)
      · exact .inl ⟨⟨rfl, rfl⟩, trivial⟩
      · refine .inr ⟨there, by simp, ?_⟩
        rintro _ _ ⟨⟨rfl, rfl⟩, -⟩
        exact apart there
    · rintro (⟨⟨rfl, rfl⟩, -⟩ | ⟨there, -, -⟩)
      · exact .inl ⟨rfl, rfl⟩
      · exact .inr there
  | @takesBack e entries connections =>
    have apart : ⟨i, conn⟩ ∈ x'.registry.entries → e.identity.id ≠ i.id :=
      id_ne_of_takesBack distinct entries
    rw [entries.mem_iff, List.mem_cons]
    simp only [Gives, Frees, Prod.mk.injEq]
    constructor
    · intro there
      refine .inr ⟨.inr there, ?_, by simp⟩
      rintro (drains | ⟨_, j, ⟨-, same⟩, named⟩)
      · cases drains
      · cases same
        exact apart there named
    · rintro (⟨unlike, -⟩ | ⟨rfl | there, kept, -⟩)
      · cases unlike
      · exact absurd (.inr ⟨conn, i, ⟨rfl, rfl⟩, rfl⟩) kept
      · exact there
  | clears all empty closed =>
    rw [empty]
    simp [Gives, Frees]
  | refuses _ same | hasNone _ same | finds _ same | findsNone _ same | lists _ same
  | counts same =>
    rw [same.mem_iff]
    simp [Gives, Frees]

/-- What the entries have to do with the calls. -/
structure Kept (l : Log) (x : Exchange) : Prop where
  distinct : x.registry.ids.Nodup
  holds : ∀ i conn, ⟨i, conn⟩ ∈ x.registry.entries ↔ Holds l i conn

theorem kept_of_served (empty : x.registry = .empty) (served : Served x l x') : Kept l x' := by
  induction served with
  | start =>
    constructor
    · rw [empty]
      exact .nil
    · intro i conn
      rw [empty]
      exact iff_of_false List.not_mem_nil not_holds_nil
  | call served serves ih =>
    have effect := effect_of_serves serves
    constructor
    · exact effect.ids_nodup ih.distinct
    · intro i conn
      rw [effect.mem_iff ih.distinct, ih.holds, holds_concat]

/-- The entries in a list of all that there are. -/
theorem Kept.mem_of_perm {entries : List Registered} (kept : Kept l x)
    (all : entries.Perm x.registry.entries) :
    entries.Nodup ∧ ∀ i conn, ⟨i, conn⟩ ∈ entries ↔ Holds l i conn := by
  constructor
  · exact all.nodup_iff.mpr (List.Nodup.of_map _ kept.distinct)
  · intro i conn
    rw [all.mem_iff, kept.holds]

theorem Kept.mem_ids_iff {id : String} (kept : Kept l x) :
    id ∈ x.registry.ids ↔ ∃ i conn, Holds l i conn ∧ i.id = id := by
  rw [ids, List.mem_map]
  constructor
  · rintro ⟨⟨i, conn⟩, there, rfl⟩
    exact ⟨i, conn, (kept.holds i conn).mp there, rfl⟩
  · rintro ⟨i, conn, holds, rfl⟩
    exact ⟨⟨i, conn⟩, (kept.holds i conn).mpr holds, rfl⟩

theorem Kept.owned_eq_nil_iff (kept : Kept l x) :
    x.registry.owned conn = [] ↔ ∀ i, ¬ Holds l i conn := by
  rw [Registry.owned_eq_nil_iff]
  constructor
  · intro none i holds
    exact none _ ((kept.holds i conn).mpr holds) rfl
  · rintro none ⟨i, conn⟩ there rfl
    exact none i ((kept.holds i _).mp there)

/-- A connection that has no entry gets none as long as it is given no id. -/
theorem unowned_of_served (served : Served x l x') (distinct : x.registry.ids.Nodup)
    (none : ∀ i, ⟨i, conn⟩ ∉ x.registry.entries)
    (notGiven : ∀ call ∈ l, ∀ i, ¬ Gives i conn call) :
    x'.registry.ids.Nodup ∧ ∀ i, ⟨i, conn⟩ ∉ x'.registry.entries := by
  induction served with
  | start => exact ⟨distinct, none⟩
  | call served serves ih =>
    obtain ⟨distinct', none'⟩ := ih fun call there => notGiven call (List.mem_append_left _ there)
    have effect := effect_of_serves serves
    refine ⟨effect.ids_nodup distinct', fun i there => ?_⟩
    rcases (effect.mem_iff distinct').mp there with gives | ⟨before, -⟩
    · exact notGiven _ (by simp) i gives
    · exact none' i before

/-- A connection that has one id at most has none when it has given one up. -/
theorem Kept.unowned_of_unregister (kept : Kept l x)
    (single : ∀ i j, Holds l i conn → Holds l j conn → i = j)
    (serves : Serves x (.unregister conn) a x') : ∀ i, ⟨i, conn⟩ ∉ x'.registry.entries := by
  intro i there
  cases effect_of_serves serves with
  | @takesBack e entries connections =>
    have before : ⟨i, e.conn⟩ ∈ x.registry.entries :=
      entries.mem_iff.mpr (List.mem_cons_of_mem e there)
    have first : e ∈ x.registry.entries := entries.mem_iff.mpr List.mem_cons_self
    have same : e.identity = i := by
      apply single
      · exact (kept.holds _ _).mp first
      · exact (kept.holds _ _).mp before
    exact id_ne_of_takesBack kept.distinct entries there (congrArg Identity.id same)
  | hasNone nothing same =>
    exact Registry.owned_eq_nil_iff.mp nothing _ (same.mem_iff.mp there) rfl

/-- What is answered after these calls, to whatever is asked next, and what it does. -/
structure Agrees (l : Log) (x : Exchange) : Prop where
  distinct : x.registry.ids.Nodup
  keyed : ∀ id e, x.registry.find? id = some e ↔ e ∈ x.registry.entries ∧ e.identity.id = id
  holds : ∀ i conn, ⟨i, conn⟩ ∈ x.registry.entries ↔ Holds l i conn
  answered : ∀ q, ∃ a x', Serves x q a x'
  register : ∀ i conn a x', Serves x (.register i conn) a x' →
    a = .registered (.error ⟨i.id⟩) ∧ (∃ j other, Holds l j other ∧ j.id = i.id) ∧ Same x x' ∨
    a = .registered (.ok ()) ∧ (∀ j other, Holds l j other → j.id ≠ i.id) ∧
      x'.registry.entries.Perm (⟨i, conn⟩ :: x.registry.entries) ∧ x'.connections = x.connections
  unregister : ∀ conn a x', Serves x (.unregister conn) a x' →
    (∃ i, a = .unregistered (some i) ∧ Holds l i conn ∧
      x.registry.entries.Perm (⟨i, conn⟩ :: x'.registry.entries) ∧
      x'.connections = x.connections) ∨
    a = .unregistered none ∧ (∀ i, ¬ Holds l i conn) ∧ Same x x'
  /-- Nobody else loses an entry. -/
  others : ∀ conn a x' e, Serves x (.unregister conn) a x' → e.conn ≠ conn →
    (e ∈ x'.registry.entries ↔ e ∈ x.registry.entries)
  /-- To give up an id twice is to give up nothing the second time, unless there was more than one
  id or one was given in between. -/
  again : ∀ conn a x₁ l' x₂ a' x₃, (∀ i j, Holds l i conn → Holds l j conn → i = j) →
    Serves x (.unregister conn) a x₁ → Served x₁ l' x₂ → (∀ call ∈ l', ∀ i, ¬ Gives i conn call) →
    Serves x₂ (.unregister conn) a' x₃ → a' = .unregistered none
  lookup : ∀ id a x', Serves x (.lookup id) a x' → Same x x' ∧
    ∃ conn?, a = .found conn? ∧ ∀ conn, conn? = some conn ↔ ∃ i, Holds l i conn ∧ i.id = id
  snapshot : ∀ a x', Serves x .snapshot a x' → Same x x' ∧
    ∃ entries : List Registered, a = .listed entries ∧ entries.Nodup ∧
      ∀ i conn, ⟨i, conn⟩ ∈ entries ↔ Holds l i conn
  size : ∀ a x', Serves x .size a x' → Same x x' ∧
    ∃ entries : List Registered, a = .counted entries.length ∧ entries.Nodup ∧
      ∀ i conn, ⟨i, conn⟩ ∈ entries ↔ Holds l i conn
  /-- Clearing requests that the connections which have an id close, and no others. -/
  drain : ∀ a x', Serves x .drain a x' → x'.registry.entries = [] ∧
    (∃ entries : List Registered, a = .listed entries ∧ entries.Nodup ∧
      ∀ i conn, ⟨i, conn⟩ ∈ entries ↔ Holds l i conn) ∧
    ∀ conn, ((∃ i, Holds l i conn) →
        x'.connection? conn = (x.connection? conn).map .requestClose) ∧
      ((∀ i, ¬ Holds l i conn) → x'.connection? conn = x.connection? conn)

/-- After any requests to a registry that was empty at first, who has which id is what the calls
tell, and the next request is answered accordingly. -/
theorem requests_answered_by_holders (empty : x.registry = .empty) (served : Served x l x') :
    Agrees l x' := by
  have kept := kept_of_served empty served
  constructor
  case distinct => exact kept.distinct
  case holds => exact kept.holds
  case keyed =>
    intro id e
    constructor
    · exact mem_of_find?
    · rintro ⟨there, rfl⟩
      exact find?_of_mem kept.distinct there
  case answered =>
    intro q
    exact ⟨_, _, _, .refl _, rfl⟩
  case register =>
    intro i conn a x'' serves
    cases effect_of_serves serves with
    | gives free entries connections =>
      refine .inr ⟨rfl, fun j other holds same => free ?_, entries, connections⟩
      exact kept.mem_ids_iff.mpr ⟨j, other, holds, same⟩
    | refuses taken same => exact .inl ⟨rfl, kept.mem_ids_iff.mp taken, same⟩
  case unregister =>
    intro conn a x'' serves
    cases effect_of_serves serves with
    | @takesBack e entries connections =>
      have there : e ∈ x'.registry.entries := entries.mem_iff.mpr List.mem_cons_self
      exact .inl ⟨e.identity, rfl, (kept.holds _ _).mp there, entries, connections⟩
    | hasNone nothing same => exact .inr ⟨rfl, kept.owned_eq_nil_iff.mp nothing, same⟩
  case others =>
    intro conn a x'' e serves other
    cases effect_of_serves serves with
    | @takesBack left entries connections =>
      rw [entries.mem_iff, List.mem_cons]
      constructor
      · exact .inr
      · intro here
        exact here.resolve_left fun same => other (congrArg Registered.conn same)
    | hasNone nothing same => exact same.mem_iff
  case again =>
    intro conn a x₁ l' x₂ a' x₃ single serves served' notGiven serves'
    have distinct' := (effect_of_serves serves).ids_nodup kept.distinct
    have unowned := kept.unowned_of_unregister single serves
    obtain ⟨-, none⟩ := unowned_of_served served' distinct' unowned notGiven
    cases effect_of_serves serves' with
    | @takesBack e entries connections =>
      exact absurd (entries.mem_iff.mpr List.mem_cons_self) (none e.identity)
    | hasNone nothing same => rfl
  case lookup =>
    intro id a x'' serves
    cases effect_of_serves serves with
    | @finds e there same =>
      refine ⟨same, _, rfl, fun conn => ?_⟩
      constructor
      · intro found
        cases found
        exact ⟨e.identity, (kept.holds _ _).mp there, rfl⟩
      · rintro ⟨i, holds, named⟩
        have entry : e = ⟨i, conn⟩ := by
          have found := find?_of_mem kept.distinct there
          have found' := find?_of_mem kept.distinct ((kept.holds i conn).mpr holds)
          rw [named, found] at found'
          exact Option.some.inj found'
        rw [entry]
    | findsNone absent same =>
      refine ⟨same, none, rfl, fun conn => iff_of_false nofun ?_⟩
      rintro ⟨i, holds, named⟩
      exact absent (kept.mem_ids_iff.mpr ⟨i, conn, holds, named⟩)
  case snapshot =>
    intro a x'' serves
    cases effect_of_serves serves with
    | lists all same => exact ⟨same, _, rfl, kept.mem_of_perm all⟩
  case size =>
    intro a x'' serves
    cases effect_of_serves serves with
    | counts same => exact ⟨same, _, rfl, kept.mem_of_perm (.refl _)⟩
  case drain =>
    intro a x'' serves
    cases effect_of_serves serves with
    | clears all empty' closed =>
      refine ⟨empty', ⟨_, rfl, kept.mem_of_perm all⟩, fun conn => ⟨?_, ?_⟩⟩
      · rintro ⟨i, holds⟩
        have owns : x'.registry.owned conn ≠ [] := by
          intro nothing
          exact kept.owned_eq_nil_iff.mp nothing i holds
        simp only [closed, if_neg owns]
      · intro none
        simp only [closed, if_pos (kept.owned_eq_nil_iff.mpr none), Option.map_id']

/-- Two connections ask for the same id, and the second one gets it when the first one leaves. -/
def succession : Log :=
  [(.register ⟨"a", "ann"⟩ 0, .registered (.ok ())),
    (.register ⟨"a", "bob"⟩ 1, .registered (.error ⟨"a"⟩)),
    (.unregister 0, .unregistered (some ⟨"a", "ann"⟩)),
    (.register ⟨"a", "bob"⟩ 1, .registered (.ok ()))]

/-- The first connection has nothing to give up any more, and the second one keeps the id. -/
theorem requests_answered_by_holders_succession :
    let x : Exchange := ⟨⟨[⟨⟨"a", "bob"⟩, 1⟩]⟩, []⟩
    empty.registry = .empty ∧ Served empty succession x ∧ Holds succession ⟨"a", "bob"⟩ 1 ∧
      ∀ a x', Serves x (.unregister 0) a x' → a = .unregistered none ∧ Same x x' := by
  intro x
  have served : Served empty succession x :=
    .call (.call (.call (.call .start ⟨_, .refl _, rfl⟩) ⟨_, .refl _, rfl⟩) ⟨_, .refl _, rfl⟩)
      ⟨_, .refl _, rfl⟩
  have agrees := requests_answered_by_holders rfl served
  refine ⟨rfl, served, (agrees.holds _ _).mp List.mem_cons_self, fun a x' serves => ?_⟩
  rcases agrees.unregister 0 a x' serves with ⟨i, -, holds, -⟩ | ⟨answer, -, same⟩
  · have there := (agrees.holds i 0).mpr holds
    cases List.mem_singleton.mp there
  · exact ⟨answer, same⟩

end Exchange

end Mailroom
