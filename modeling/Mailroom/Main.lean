import Mailroom.Relay.Console

/-!
# The program

Reads the configuration from the environment and runs a relay whose peers act as the lines of the
standard input say.
-/

namespace Mailroom.Console

/-- Answers lines until there are none. -/
partial def loop (input output : IO.FS.Stream) (t : Trial) : IO Unit := do
  let line ← input.getLine
  unless line.isEmpty do
    let (answers, t) := respond t line.trimAsciiEnd.toString
    answers.forM output.putStrLn
    output.flush
    loop input output t

end Mailroom.Console

open Mailroom

def main : IO UInt32 := do
  let values ← Config.keys.mapM fun key => return (key, ← IO.getEnv key)
  match Config.load fun key => (values.lookup key).join with
  | .error e =>
    (← IO.getStderr).putStrLn ("Error: " ++ e.message)
    return 1
  | .ok config =>
    let output ← IO.getStdout
    (Console.greeting config).forM output.putStrLn
    Console.loop (← IO.getStdin) output (.fresh .up config.limits)
    return 0
