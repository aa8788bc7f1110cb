import Proofreader.CommandLine.Run
import Proofreader.Rehearsal.World

/-! A session in rehearsal: the files it reads, the world behind its service, and a plan by which services
fail to be created. -/

namespace Proofreader.Rehearsal

structure Stage where
  disk : Disk
  /-- Where a Java runtime is, if there is one. -/
  java : Option String
  world : World
  /-- How the next services fail to be created, if they do. -/
  refusals : List (Option Fault)
  /-- The services that were asked for, with their languages. -/
  created : Array (Selection × String)

namespace Stage

def ofDisk (disk : Disk) (java : Option String) (world : World) : Stage := ⟨disk, java, world, [], #[]⟩

/-- All relative paths start here. -/
def surroundings : Surroundings := ⟨"/work", "/home/writer"⟩

def create (selection : Selection) (language : String) (st : Stage) : Except Fault (Backend Quantity) × Stage :=
  let refusal := st.refusals.head?.join
  let st := { st with created := st.created.push (selection, language), refusals := st.refusals.drop 1 }
  match refusal with
  | some e => (.error e, st)
  | none =>
    (Backend.create st.disk surroundings.working st.java st.world.probes selection language, st)

def provider : Provider Stage (Backend Quantity) Selection where
  create := create
  check text profile b st :=
    let (r, b, w) := b.check World.ground text profile st.world
    (r, b, { st with world := w })
  close b st := { st with world := (b.close World.ground st.world).2 }

/-- Forgets what was asked and done so far. -/
def freshPage (st : Stage) : Stage :=
  { st with
    created := #[]
    world := { st.world with sleeps := #[], checker := { st.world.checker with calls := [] } } }

/-- The forms of all calls, first one first. With several workers only the order within a tag is known, so
that they are listed by tag. -/
def calls (st : Stage) (workers : Nat) : List (List (String × String)) :=
  let forms := st.world.checker.calls.reverse
  let tag (form : List (String × String)) : String := (form.lookup "language").getD ""
  if 1 < workers then forms.mergeSort fun a b => !(tag b < tag a) else forms

def run (s : Session (Backend Quantity)) (st : Stage) : Except Fault Report × Session (Backend Quantity) × Stage :=
  s.run provider st.disk st

/-- Watches while the files change. Each change comes when nothing is due any more. -/
def watch (scene : CommandLine.Scene) (v : CommandLine.Watch (Backend Quantity)) :
    List (Disk → Disk) → Stage → CommandLine.Watch (Backend Quantity) × Stage
  | [], st => v.settle provider { scene with disk := st.disk } st
  | edit :: r, st =>
    let (v, st) := v.settle provider { scene with disk := st.disk } st
    let st := { st with disk := edit st.disk }
    let (v, st) := v.look provider { scene with disk := st.disk } 0.0 st
    watch scene v r st

end Stage

end Proofreader.Rehearsal
