import Mailroom.Relay.Trial

/-!
# A relay at the console

The acts of peers as lines of text, and what the peers see of the relay in turn. A line is a verb
with what it is about; the text that a peer sends goes to the end of the line, which ends the frame
too.
-/

namespace Mailroom.Console

/-- The act that a line asks for. -/
def act? (line : String) : Option Trial.Act :=
  match line.splitOn " " with
  | ["connect", peer] => some (.connect peer)
  | "send" :: peer :: words =>
    some (.send peer (Utf8.encode (" ".intercalate words) ++ [Ascii.lineFeed]))
  | ["finish", peer] => some (.finish peer)
  | ["drop", peer] => some (.drop peer)
  | ["disconnect", id] => some (.disconnect id)
  | ["shutdown"] => some .shutdown
  | _ => none

def showReply : Trial.Reply → String
  | .ok => "ok"
  | .refused => "refused"
  | .closed => "closed"
  | .found true => "found"
  | .found false => "not found"

/-- A frame without its line feed; one that is no text is shown in hexadecimal. -/
def showFrame (frame : Bytes) : String := (Utf8.decode? frame.trimEnd).getD frame.hex

/-- The answers to a line, and the trial after it. -/
def respond (t : Trial) (line : String) : List String × Trial :=
  match act? line with
  | none => (["not understood"], t)
  | some act =>
    let (reply, next) := t.act act
    let received := (next.receivedSince t).flatMap fun (peer, frames) =>
      frames.map fun frame => peer ++ " < " ++ showFrame frame
    let ended := (next.closedSince t).map fun peer => peer ++ " ended"
    (showReply reply :: received ++ ended, next)

/-- What a relay says of its settings. -/
def greeting (c : Config) : List String :=
  ["Outbound queue " ++ toString c.limits.outboundCapacity ++ " frames, send timeout " ++
      toString c.limits.sendTimeoutMs ++ " ms, max frame " ++ toString c.limits.maxFrameSize ++
      " bytes",
    "Relay for " ++ c.address.render]

end Mailroom.Console
