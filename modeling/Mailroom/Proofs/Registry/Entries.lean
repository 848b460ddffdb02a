import Mailroom.Routing

/-!
# The entries of a registry

What is in a registry after its operations: whose entries there are, and under which ids. Taking an
id adds one entry, giving one up removes one entry of the connection, and clearing removes all.
-/

namespace Mailroom

namespace Registry

/-- The entries of a connection. -/
def owned (G : Registry) (conn : ConnId) : List Registered := G.entries.filter fun e => e.conn = conn

def ids (G : Registry) : List String := G.entries.map fun e => e.identity.id

variable {G G' : Registry} {i : Identity} {conn other : ConnId} {e : Registered}

theorem mem_owned : e ∈ G.owned conn ↔ e ∈ G.entries ∧ e.conn = conn := by simp [owned]

theorem register_eq_ok (free : G.register i conn = .ok G') :
    G.find? i.id = none ∧ G' = ⟨G.entries ++ [⟨i, conn⟩]⟩ := by
  rw [register] at free
  split at free
  · cases free
  next absent =>
    cases free
    exact ⟨Option.not_isSome_iff_eq_none.mp absent, rfl⟩

theorem owned_of_register (free : G.register i conn = .ok G') :
    G'.owned other = if other = conn then G.owned conn ++ [⟨i, conn⟩] else G.owned other := by
  obtain ⟨-, rfl⟩ := register_eq_ok free
  by_cases same : other = conn
  · simp [owned, same]
  · simp [owned, same, Ne.symm same]

theorem owned_unregister (G : Registry) (conn other : ConnId) :
    (G.unregister conn).2.owned other =
      if other = conn then (G.owned conn).tail else G.owned other := by
  have first : (G.owned conn).head? = G.entries.find? fun e => e.conn = conn := List.head?_filter
  rw [unregister]
  split
  next absent =>
    rw [absent, List.head?_eq_none_iff] at first
    by_cases same : other = conn <;> simp [first, same]
  next e found =>
    rw [found] at first
    have mine : e.conn = conn := by simpa using List.find?_some found
    dsimp only [owned] at first ⊢
    rw [← List.erase_filter]
    by_cases same : other = conn
    · rw [if_pos same, same]
      obtain ⟨rest, own⟩ := List.head?_eq_some_iff.mp first
      rw [own, List.erase_cons_head, List.tail_cons]
    · rw [if_neg same]
      refine List.erase_of_not_mem fun there => same ?_
      exact (of_decide_eq_true (List.mem_filter.mp there).2).symm.trans mine

theorem mem_of_find? {id : String} (found : G.find? id = some e) :
    e ∈ G.entries ∧ e.identity.id = id := by
  refine ⟨List.mem_of_find?_eq_some found, ?_⟩
  simpa using List.find?_some found

theorem unregister_sublist (G : Registry) (conn : ConnId) :
    (G.unregister conn).2.entries.Sublist G.entries := by
  rw [unregister]
  split
  · exact .refl _
  · exact List.erase_sublist

/-- With distinct ids an entry is found under its id. -/
theorem find?_of_mem (distinct : G.ids.Nodup) (there : e ∈ G.entries) :
    G.find? e.identity.id = some e := by
  obtain ⟨entries⟩ := G
  induction entries with
  | nil => cases there
  | cons first entries ih =>
    obtain ⟨unlike, distinct⟩ := List.nodup_cons.mp distinct
    rw [find?, List.find?_cons]
    rcases List.mem_cons.mp there with rfl | there
    · simp
    · have differs : first.identity.id ≠ e.identity.id := by
        intro same
        exact unlike (List.mem_map.mpr ⟨e, there, same.symm⟩)
      simp only [differs, decide_false]
      exact ih distinct there

end Registry

namespace Exchange

theorem registry_drain (x : Exchange) : x.drain.2.registry = .empty := by
  have same : ∀ (entries : List Registered) (x : Exchange),
      (entries.foldl (fun x e => x.modify e.conn .requestClose) x).registry = x.registry := by
    intro entries
    induction entries with
    | nil => exact fun x => rfl
    | cons e entries ih => exact fun x => ih _
  exact same x.registry.snapshot _

theorem connection?_modify (x : Exchange) (target conn : ConnId) (f : Connection → Connection) :
    (x.modify target f).connection? conn =
      (x.connection? conn).map fun c => if target = conn then f c else c := by
  rw [connection?, modify, List.getElem?_modify]
  rfl

/-- Clearing requests that the connections with an entry close, and no others. -/
theorem connection?_drain (x : Exchange) (conn : ConnId) :
    x.drain.2.connection? conn = (x.connection? conn).map fun c =>
      if x.registry.owned conn = [] then c else c.requestClose := by
  have closes : ∀ (entries : List Registered) (x : Exchange),
      (entries.foldl (fun x e => x.modify e.conn .requestClose) x).connection? conn =
        (x.connection? conn).map fun c =>
          if entries.filter (fun e => e.conn = conn) = [] then c else c.requestClose := by
    intro entries
    induction entries with
    | nil => simp
    | cons e entries ih =>
      intro x
      rw [List.foldl_cons, ih, connection?_modify, Option.map_map]
      congr 1
      funext c
      by_cases here : e.conn = conn
      · simp [here, Connection.requestClose]
      · simp [here]
  exact closes x.registry.snapshot _

end Exchange

end Mailroom
