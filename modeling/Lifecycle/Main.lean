import Lifecycle.CommandLine.Invocation
/-!
# The program

Runs the scenario named on the command line and prints its log.
-/

open Lifecycle.CommandLine

def main (words : List String) : IO UInt32 := do
  let began ← IO.monoNanosNow
  match read words with
  | .error stop =>
    if stop = .help then IO.println usage else IO.eprintln usage
    return UInt32.ofNat stop.status
  | .ok invocation =>
    let run := invocation.run
    let lines := run.lines invocation (stamp ((← IO.monoNanosNow) - began))
    lines.forM fun line => IO.eprintln line
    return UInt32.ofNat run.status
