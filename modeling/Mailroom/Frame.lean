import Mailroom.Envelope.Wire

/-!
# Frames

A frame is one envelope on a line of its own. Written JSON has no line feed in it, so the line feed
at the end is the only one, and no length is needed.
-/

namespace Mailroom

namespace Frame

/-- The default bound on the length of a frame, its line feed included. -/
def defaultLimit : Nat := 16 * 1024 * 1024

def encode (e : Envelope) : Bytes := Wire.write e ++ [Ascii.lineFeed]

/-- Blanks at the end are not part of the envelope. -/
def decode (frame : Bytes) : Except Malformed Envelope := Wire.read frame.trimEnd

end Frame

/-- What can go wrong on a stream of frames. -/
inductive FrameError where
  | transport (reason : String)
  | tooLarge (limit : Nat)
  | truncated
  | malformed (reason : Malformed)
  deriving DecidableEq

def FrameError.message : FrameError → String
  | .transport reason => "transport error: " ++ reason
  | .tooLarge limit => "frame exceeds " ++ toString limit ++ " bytes"
  | .truncated => "stream ended mid-frame"
  | .malformed reason => "malformed frame: " ++ reason.message

end Mailroom
