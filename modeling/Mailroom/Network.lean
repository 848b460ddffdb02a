/-!
# The network

Whether a connection can be made at all, and how an attempt to make one fails.
-/

namespace Mailroom

/-- The network between a client and the relay. -/
inductive Network where
  | up
  | down
  deriving DecidableEq

inductive ConnectError where
  /-- Nobody listens there. -/
  | refused
  | unreachable
  deriving DecidableEq

def ConnectError.message : ConnectError → String
  | .refused => "Connection refused (os error 111)"
  | .unreachable => "Network is unreachable (os error 101)"

/-- Tries to connect to a place where somebody listens or nobody does. -/
def Network.connect (n : Network) (isListening : Bool) : Except ConnectError Unit :=
  match n with
  | .down => .error .unreachable
  | .up => if isListening then .ok () else .error .refused

end Mailroom
