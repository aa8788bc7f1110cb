import Proofreader.CommandLine.Run
import Proofreader.Service.Backend

/-! The program. It reads the files that a command asks for and prints what the command yields. It opens no
connection and starts no process, so that every checking service is out of reach. -/

namespace Proofreader.Program

def unavailable : String := "not available here"

def offlineNetwork : Network Unit Quantity where
  send _ w := (.failed .connection unavailable, w)
  sleep _ w := w
  hangUp w := w

def offline : Ground Unit Quantity where
  host :=
    { launch := fun _ w => (none, w)
      isAlive := fun _ w => (false, w)
      terminate := fun _ w => w
      awaitEnd := fun _ w => (true, w)
      kill := fun _ w => w
      now := fun _ => Time.zero
      network := offlineNetwork }
  box :=
    { create := fun _ w => (.error ⟨.missing, unavailable⟩, w)
      check := fun _ _ _ w => (.error ⟨.missing, unavailable⟩, w) }

def offlineProvider (scene : CommandLine.Scene) : Provider Unit (Backend Quantity) Selection where
  create selection language w :=
    (Backend.create scene.disk scene.surroundings.working none 1 selection language, w)
  check text profile b w := b.check offline text profile w
  close b w := (b.close offline w).2

/-- The file as it is now. -/
def refresh (disk : Disk) (path : String) : IO Disk := do
  let octets ← try pure (some ((← IO.FS.readBinFile path).toList.map UInt8.toNat)) catch _ => pure none
  match octets, disk.find? path with
  | none, _ => return disk.delete path
  | some octets, some file => return if file.octets = octets then disk else disk.write path octets
  | some octets, none => return disk.write path octets

/-- Reads the files that a command wants, and those that they ask for in turn. -/
partial def gather (scene : CommandLine.Scene) (a : CommandLine.Arguments) (read : List String) :
    IO CommandLine.Scene := do
  let fresh := (CommandLine.wanted scene a).filter fun path => !read.contains path
  if fresh.isEmpty then return scene
  let disk ← fresh.foldlM refresh scene.disk
  gather { scene with disk := disk } a (read ++ fresh)

def usage : String :=
  "usage: prosecheck [-h] [--version] \x7bcheck,watch,config\x7d path [key] [option ...]"

def readEnvironment : IO (List (String × Json)) := do
  let values ← Settings.environmentKeys.mapM fun (variableName, _) => do
    return (← IO.getEnv variableName).map fun value => (variableName, .str value)
  return values.filterMap id

def conclude (o : CommandLine.Outcome) : IO UInt32 := do
  for p in o.printed do
    match p with
    | .usage => IO.println usage
    | .line s => IO.println s
  match o.ending with
  | .status n => return n.toUInt32
  | .left l =>
    if l = .misuse then IO.eprintln usage
    return l.status.toUInt32
  | .complaint p =>
    IO.eprintln p.toJson.pretty
    return 2
  | .mishap m =>
    IO.eprintln m.message
    return 1

partial def watchOn (scene : CommandLine.Scene) (a : CommandLine.Arguments)
    (v : CommandLine.Watch (Backend Quantity)) (shown : Nat) : IO UInt32 := do
  for s in (v.printed.take (v.printed.length - shown)).reverse do
    IO.println s
  IO.sleep (a.interval * 1000.0).toUInt32
  let scene ← gather scene a []
  let now := (← IO.monoMsNow).toFloat / 1000.0
  let (next, ()) := v.look (offlineProvider scene) scene now ()
  let (next, ()) := next.poll (offlineProvider scene) scene now ()
  watchOn scene a next v.printed.length

def run (line : List String) : IO UInt32 := do
  let working := (← IO.currentDir).toString
  let home := (← IO.getEnv "HOME").getD "/"
  let scene : CommandLine.Scene := ⟨⟨working, home⟩, .empty, ← readEnvironment⟩
  let arguments := match CommandLine.read line with
    | .ok (.command _ a) => some a
    | _ => none
  let scene ← arguments.elim (pure scene) fun a => gather scene a []
  let now := (← IO.monoMsNow).toFloat / 1000.0
  match CommandLine.start (offlineProvider scene) scene line now (), arguments with
  | (.watching v, ()), some a => watchOn scene a v 0
  | (.watching v, ()), none => conclude ⟨.status 0, v.printed.reverse.map .line⟩
  | (.ended o, ()), _ => conclude o

end Proofreader.Program

def main (line : List String) : IO UInt32 := Proofreader.Program.run line
