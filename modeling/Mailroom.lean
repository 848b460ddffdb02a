import Mailroom.Client
import Mailroom.Main
import Mailroom.Text.Base64
import Mailroom.Proofs.Frame.RoundTrip
import Mailroom.Proofs.Registry.Tenancy
import Mailroom.Proofs.Relay.History
import Mailroom.Proofs.Routing
import Mailroom.Proofs.Relay.Authenticity
import Mailroom.Proofs.Relay.Ledger
import Mailroom.Proofs.Relay.Delivery
import Mailroom.Proofs.Frame.Segments
import Mailroom.Proofs.Frame.Grammar
import Mailroom.Proofs.Text.Base64
import Mailroom.Proofs.Transfer.Integrity
import Mailroom.Proofs.Transfer.Journey
import Mailroom.Proofs.Transfer.Openings
import Mailroom.Proofs.Transfer.Accounts
import Mailroom.Proofs.Frame.Arrivals
import Mailroom.Proofs.Relay.Awaiting
import Mailroom.Proofs.Relay.Isolation
import Mailroom.Proofs.Relay.Transparency
import Mailroom.Proofs.Relay.Joins
import Mailroom.Proofs.Connection.Traffic
import Mailroom.Proofs.Relay.Shutdown
import Mailroom.Proofs.Transfer.Entwined
import Mailroom.Proofs.Transfer.Storing
import Mailroom.Proofs.Client.Account
import Mailroom.Proofs.Relay.Growth
import Mailroom.Proofs.Transfer.Overwriting
import Mailroom.Proofs.Routing.FanOut
import Mailroom.Proofs.Routing.Refusals
import Mailroom.Proofs.Transfer.Failures
import Mailroom.Proofs.Registry.Leaving
import Mailroom.Proofs.Connection.Closing
import Mailroom.Proofs.Text.Canonical
import Mailroom.Proofs.Frame.Writing
import Mailroom.Proofs.Relay.Capacity
import Mailroom.Proofs.Client.Ids
