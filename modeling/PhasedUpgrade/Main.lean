import PhasedUpgrade.Upgrade.Console
import Std.Time.DateTime.Timestamp

/-!
# The program

Reads from the machine what a command needs, lets the command decide, and carries out what it
decided: a run is carried out step by step, each file being replaced as a whole. The executions of
a machine are known from the logs of their runs.
-/

namespace PhasedUpgrade

/-! ## Supplies from a seed

A process begins with the time and with some random bytes. Its times are a nanosecond apart from
each other, and its event names are digests of the seed and their places.
-/

/-- The number that bytes make, the highest first. -/
def numberOfBytes (bytes : List UInt8) : Nat :=
  bytes.foldl (fun value byte => 256 * value + byte.toNat) 0

/-- A name of the kind that says of itself that it was drawn at random. -/
def EventId.drawn (bytes : List UInt8) : EventId :=
  let free := BitVec.ofNat 128 (numberOfBytes bytes) &&& ~~~(.ofNat 128 (0xf000c * Nat.pow 2 60))
  ⟨free ||| .ofNat 128 (0x40008 * Nat.pow 2 60)⟩

/-- A name that begins with the milliseconds of a time and ends with 80 drawn bits. -/
def ExecutionId.drawn (milliseconds : Nat) (bytes : List UInt8) : ExecutionId :=
  ⟨.ofNat 128 (milliseconds * Nat.pow 2 80 + numberOfBytes bytes % Nat.pow 2 80)⟩

/-- The supply of a process, by the nanoseconds since the begin of the count and a seed. -/
def Supply.ofSeed (nanoseconds : Nat) (seed : List UInt8) : Supply where
  time place := Time.Instant.ofNanos 0 (nanoseconds + place)
  eventId place :=
    .drawn ((Digest.sha256 (seed ++ Digest.Sha256.bigEndian 8 place)).bytes.take 16)
  executionId := .drawn (nanoseconds / 1000000) seed

namespace Shell

/-! ## Commands on the machine -/

open Upgrade

/-- The bytes of a file; nothing if there is none. -/
def bytesOf? (path : String) : IO (Option ByteArray) := do
  try
    return some (← IO.FS.readBinFile path)
  catch
    | .noFileOrDirectory _ _ _ => return none
    | error => throw error

/-- The text of a file; empty if there is none. -/
def textOf (path : String) : IO String := do
  return ((← bytesOf? path).bind String.fromUTF8?).getD ""

def treeOf (paths : List String) : IO Files.Tree := do
  let mut tree := Files.Tree.empty
  for path in paths do
    if let some bytes ← bytesOf? path then
      if let .ok grown := tree.write bytes (Files.Path.ofText path) then
        tree := grown
  return tree

def environment : IO (List (String × String)) := do
  let entries := Text.pieces '\x00' (← textOf "/proc/self/environ")
  return entries.filterMap (Text.cut '=')

/-- Whether the process may do everything: the second number behind `Uid` is zero. -/
def isRoot : IO Bool := do
  let lines := Text.lines (← textOf "/proc/self/status")
  let fields := lines.map fun line => (Text.pieces '\t' line)
  return fields.any fun field => field.head? = some "Uid:" && field[2]? = some "0"

/-- Replace a file, or make it with the directories on the way to it. -/
def replaceFile (path : String) (bytes : ByteArray) : IO Unit := do
  let names := (Text.pieces '/' path).dropLast
  if names.any (!·.isEmpty) then
    IO.FS.createDirAll ("/".intercalate names)
  IO.FS.writeBinFile (path ++ ".new") bytes
  IO.FS.rename (path ++ ".new") path

def logMark : String := "\"execution_id\":\""

def loggedExecutions (log : String) : List String :=
  (log.splitOn logMark).drop 1 |>.map fun rest => .ofList (rest.toList.take 26)

/-- Write a text behind the others in a log; a log that cannot be written does not stop a run. -/
def log (path text : String) : IO Unit := do
  try
    replaceFile path ((← textOf path) ++ text).toUTF8
  catch error => IO.eprintln ("cannot open log file " ++ path ++ ": " ++ toString error)

def beginText (id : ExecutionId) : String :=
  line ("\x7b\"message\":\"run starting\"," ++ logMark ++ id.text ++ "\"\x7d")

def filePaths (settings : Settings) : IO (List String) := do
  let logs := [logPath settings.logPath .upgrade, logPath settings.logPath .preupgrade]
  let ids := (← logs.mapM textOf).flatMap loggedExecutions
  let store : DirectoryStore := ⟨.empty, settings.storePath⟩
  return settings.releasePath :: settings.answersPath :: ids.flatMap fun id =>
    [store.pathText [id, DirectoryStore.executionFile],
      store.pathText [id, DirectoryStore.journalFile]]

/--
Carry out one step of a run. Variables need not be set: actors look them up in the record of their
execution, and nothing else in the process asks for them.
-/
def carryOut (store : DirectoryStore) : RunStep → IO Unit
  | .save execution =>
      replaceFile (store.pathText [execution.id.text, DirectoryStore.executionFile])
        execution.toJson.indented.toUTF8
  | .saveJournal id journal =>
      replaceFile (store.pathText [id.text, DirectoryStore.journalFile])
        journal.toJson.indented.toUTF8
  | .setVariable _ _ | .visit _ => pure ()

def guarded (path : String) (act : IO Unit) : ExceptT CommandError IO Unit := ExceptT.mk do
  try
    act
    return .ok ()
  catch error => return .error (.run (.store (.io path (toString error))))

def execute (machine : Machine) (settings : Settings) (supply : Supply) (kind : ExecutionKind)
    (arguments : Arguments) : ExceptT CommandError IO RunResult := do
  let undertaking ← ExceptT.mk (pure (machine.undertaking settings kind arguments))
  let store := machine.store settings
  let entry ← ExceptT.mk (pure
    ((undertaking.setting.entry supply undertaking.request store).1.mapError .run))
  let account ← ExceptT.mk (pure
    ((undertaking.setting.account supply undertaking.options undertaking.answers
      entry).mapError .run))
  log (logPath settings.logPath kind) (beginText entry.execution.id)
  for step in account.steps do
    guarded settings.storePath (carryOut store step)
  let ended : EndedRun Unit := ⟨account.ended, account.steps, ()⟩
  let result ← ExceptT.mk (pure (account.ended.mapError .run))
  guarded settings.answersPath
    (replaceFile settings.answersPath (ended.answers undertaking.answers).text.toUTF8)
  return result

def recordAnswers (machine : Machine) (settings : Settings) (assignments : List String) :
    ExceptT CommandError IO Unit := do
  let tree ← ExceptT.mk (pure ((machine.recordAnswers settings assignments).mapError .answers))
  if let .ok bytes := tree.read (Files.Path.ofText settings.answersPath) then
    guarded settings.answersPath (replaceFile settings.answersPath bytes)

def supply : IO Supply := do
  let now := (← Std.Time.Timestamp.now).toNanosecondsSinceUnixEpoch.val.toNat
  return .ofSeed now (← IO.getRandomBytes 32).toList

/-- The settings of the machine: those of the file that a variable names, else the usual ones. -/
def settings : IO (Except Refusal Settings) := do
  let named ← IO.getEnv Settings.pathVariable
  let path := named.getD Settings.usualPath
  let machine : Machine := ⟨← treeOf [path], [], ""⟩
  return machine.settings path named.isSome

def obey (command : Command) : IO Exit := do
  let settings ← match ← settings with
    | .ok settings => pure settings
    | .error refusal => return .ofError (.refused refusal)
  let machine : Machine := ⟨← treeOf (← filePaths settings), ← environment, "x86_64"⟩
  match command with
  | .answer assignments =>
      match ← (recordAnswers machine settings assignments).run with
      | .ok () => return ⟨0, recordedText assignments.length settings.answersPath, ""⟩
      | .error error => return .ofError error
  | .run kind arguments =>
      log (logPath settings.logPath kind) ""
      if settings.requiresRoot && !(← isRoot) then
        return .ofError (.refused (.precondition "root privileges are required"))
      match ← (execute machine settings (← supply) kind arguments).run with
      | .ok result => return .ofResult result
      | .error error => return .ofError error

/-- Read the command line, obey it and say what came of it. -/
def run (words : List String) : IO UInt32 := do
  match Command.ofWords words with
  | .error error =>
      let stream ← if error.exitCode = 0 then IO.getStdout else IO.getStderr
      stream.putStr (usageText error)
      return error.exitCode.toUInt32
  | .ok command =>
      let exit ← obey command
      (← IO.getStdout).putStr exit.output
      (← IO.getStderr).putStr exit.errors
      return exit.code.toUInt32

end Shell

end PhasedUpgrade

def main (words : List String) : IO UInt32 :=
  PhasedUpgrade.Shell.run words
