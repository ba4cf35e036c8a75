import Dhcp.CommandLine
import Dhcp.Server.Basic
import Std.Async.Signal
import Std.Async.Timer
import Std.Async.UDP
import Std.Time.DateTime

/-!
# Dhcp.Main

The program: it reads and writes the file of the configuration, and serves on a socket
until it is interrupted.  What it does is decided by `CommandLine` and `Server`.
-/

namespace Dhcp.Main

open Std.Async

/-! ## Files -/

/-- What a path leads to in the file system.  Whether a file can be made is seen when it is. -/
def locate (path : String) : IO Place := do
  match ← (IO.FS.readBinFile path).toBaseIO with
  | .ok bytes => return .file bytes.data.toList
  | .error (.noFileOrDirectory ..) => return .vacant
  | .error _ => return .unreachable .isDirectory

/-- Puts a file where a path leads. -/
def store (path : String) : Place → IO Unit
  | .file content => IO.FS.writeBinFile path ⟨content.toArray⟩
  | _ => return

/-! ## Serving -/

/-- The clock. -/
def clock : IO Instant := do
  return .clamp (← Std.Time.Timestamp.now).toNanosecondsSinceUnixEpoch.val

/-- An address with a port, as the network takes it. -/
def socketAddress (a : Address) (port : UInt16) : Std.Net.SocketAddress :=
  .v4 ⟨.ofParts a.a a.b a.c a.host, port⟩

/-- How a socket is written. -/
def socketText : Std.Net.SocketAddress → String
  | .v4 s =>
    match s.addr.octets.toList with
    | [a, b, c, host] => Config.socketText ⟨a, b, c, host⟩ s.port
    | _ => ""
  | .v6 s => s!"[{s.addr}]:{s.port}"

/-- Prints those lines of the log that matter enough. -/
def print (least : Level) (log : List LogLine) : IO Unit :=
  for line in log do
    if least.rank ≤ line.level.rank then
      IO.println s!"{line.level.text} {line.text}"

/-- What wakes a server. -/
inductive Wake where
  | datagram (data : ByteArray) (source : Option Std.Net.SocketAddress)
  | sweep
  | stop

/-- Serves until interrupted, when `elapsed` nanoseconds since `started` have been swept. -/
partial def serveFrom (socket : UDP.Socket) (interrupt : Signal.Waiter) (least : Level)
    (started elapsed : Nat) (server : Server) : Async Unit := do
  let period := server.config.sweepPeriod.nanos
  let untilSweep := (elapsed / period + 1) * period - elapsed
  let wake ← Selectable.one #[
    .case (socket.recvSelector Server.bufferLength.toUInt64) fun (data, source) =>
      return Wake.datagram data source,
    .case (← Selector.sleep (.ofNat (min untilSweep 3600000000000 / 1000000 + 1))) fun _ =>
      return Wake.sweep,
    .case interrupt.selector fun _ => return Wake.stop]
  let now ← clock
  let reached := (← IO.monoNanosNow) - started
  let swept := server.sweepTimes now (server.sweepsDue elapsed reached)
  print least swept.log
  match wake with
  | .stop => return
  | .sweep => serveFrom socket interrupt least started reached swept.server
  | .datagram data source =>
    let client := (source.map socketText).getD "-"
    let x := swept.server.receive now data.data.toList client server.config.replySocket
    try
      if let some reply := x.answer then
        socket.send ⟨reply.toArray⟩
          (some (socketAddress server.config.broadcast server.config.clientPort))
      print least x.log
    catch e =>
      print least [⟨.error, s!"Error handling packet from {client}: {e}"⟩]
    serveFrom socket interrupt least started reached x.server

/-- Serves a configuration until interrupted. -/
def serve (c : Config) (least : Level) : IO UInt32 := do
  match Server.create c with
  | .error e =>
    IO.eprintln s!"Error: {e.text}"
    return 1
  | .ok server =>
    let socket ← UDP.Socket.mk
    socket.bind (socketAddress c.listen c.serverPort)
    socket.setBroadcast true
    let interrupt ← Signal.Waiter.mk .sigint true
    print least (server.startLog c.listenSocket c.replySocket)
    (serveFrom socket interrupt least (← IO.monoNanosNow) 0 server).block
    print least Server.stopLog
    return 0

/-! ## The command line -/

/-- Carries out what a command line asks for. -/
def carryOut (request : CommandLine.Request) : IO UInt32 := do
  let place ← match request with
    | .execute path .. => locate path
    | _ => pure .vacant
  let (outcome, after) := request.carryOut fun _ => place
  if let some (path, after) := after then
    if after ≠ place then
      store path after
  match outcome with
  | .serve c => serve c request.leastLevel
  | outcome =>
    IO.print outcome.stdout
    IO.eprint outcome.stderr
    return outcome.exitCode.toUInt32

end Dhcp.Main

/-- Runs the program. -/
def main (args : List String) : IO UInt32 := do
  try
    Dhcp.Main.carryOut (Dhcp.CommandLine.parse args)
  catch e =>
    IO.eprintln s!"Error: {e}"
    return 1
