import Mailroom.Proofs.Registry.Tenancy
import Mailroom.Proofs.Routing.FanOut
import Mathlib.Data.List.Perm.Subperm

/-!
# Leaving the registry

A connection leaves when nothing leads to it any more: it has no entry, so that no id is looked up to
it and no frame goes to it. To unregister it takes one of its entries away. That is enough for a
connection that has one id, which is all that the relay ever gives to one; the registry itself lets
a connection have as many ids as it asks for, and then it takes a call for each of them.
-/

namespace Mailroom

namespace Registry

variable {entries entries' : List Registered} {e : Registered} {conn : ConnId}

end Registry

namespace Exchange

open Registry

variable {x x' y : Exchange} {q : Request} {a : Answer} {l : Log} {conn : ConnId}
  {i : Identity}

end Exchange

end Mailroom
