import Proofreader.CommandLine.Run
import Proofreader.Proofs.Session.History

/-! Watching a document in two threads: the worker reads it, checks it and then publishes its report, and the loop looks
for modified files, while files are written and deleted at any time. A file that is watched loses no modification. An
included file is watched when the report is published, behind the run that has read it. -/

namespace Proofreader

namespace Disk

/-- No file is newer than the last write. -/
def Clocked (d : Disk) : Prop := ∀ path stamp, d.stamp? path = some stamp → stamp ≤ d.clock

variable {d : Disk} {path other : String}

/-- Writing puts one file in place and leaves the others. -/
theorem find?_write (d : Disk) (path other : String) (octets : List Nat) :
    (d.write path octets).find? other = if other = path then some ⟨octets, d.clock + 1⟩ else d.find? other := by
  unfold write find?
  dsimp only
  cases hheld : d.holds path with
  | true =>
    obtain ⟨file, hfile⟩ := Option.isSome_iff_exists.1 hheld
    have hfile : d.files.lookup path = some file := hfile
    rw [if_pos rfl, lookup_overwrite, hfile]
    rfl
  | false =>
    have hnone : d.files.lookup path = none := Option.isSome_eq_false_iff.1 hheld |> Option.isNone_iff_eq_none.1
    rw [if_neg Bool.false_ne_true, List.lookup_append, List.lookup_cons]
    by_cases ho : other = path
    · rw [ho, hnone]
      simp
    · have hbeq : (other == path) = false := by simpa using ho
      simp [ho, hbeq]

theorem stamp?_write_self (d : Disk) (path : String) (octets : List Nat) :
    (d.write path octets).stamp? path = some (d.clock + 1) := by
  rw [stamp?, find?_write, if_pos rfl]
  rfl

theorem stamp?_write_of_ne (d : Disk) (h : other ≠ path) (octets : List Nat) :
    (d.write path octets).stamp? other = d.stamp? other := by
  rw [stamp?, find?_write, if_neg h, stamp?]

theorem stamp?_delete_self (d : Disk) (path : String) : (d.delete path).stamp? path = none := by
  have hnone : (d.delete path).find? path = none := by
    refine List.lookup_eq_none_iff.2 fun x hx => ?_
    have hne := (List.mem_filter.1 hx).2
    simpa using fun he : path = x.1 => (of_decide_eq_true hne) he.symm
  rw [stamp?, hnone]
  rfl

theorem stamp?_delete_of_ne (d : Disk) (h : other ≠ path) : (d.delete path).stamp? other = d.stamp? other := by
  unfold stamp? find? delete
  rw [lookup_filter_ne _ h]

theorem Clocked.write (h : d.Clocked) (path : String) (octets : List Nat) : (d.write path octets).Clocked := by
  intro other stamp hstamp
  change stamp ≤ d.clock + 1
  by_cases he : other = path
  · rw [he, stamp?_write_self] at hstamp
    exact Nat.le_of_eq (Option.some.inj hstamp).symm
  · rw [stamp?_write_of_ne d he] at hstamp
    exact Nat.le_succ_of_le (h other stamp hstamp)

theorem Clocked.delete (h : d.Clocked) (path : String) : (d.delete path).Clocked := by
  intro other stamp hstamp
  by_cases he : other = path
  · rw [he, stamp?_delete_self] at hstamp
    cases hstamp
  · rw [stamp?_delete_of_ne d he] at hstamp
    exact h other stamp hstamp

end Disk

namespace Poller

variable {μ : Type} {p : Poller μ} {stamp : String → Option μ} {paths : List String} {path : String}

/-- A path that is watched keeps its last look. -/
theorem lookup_watch (p : Poller μ) (stamp : String → Option μ) (paths : List String) (path : String) :
    (p.watch stamp paths).seen.lookup path =
      (p.seen.lookup path).or (if path ∈ paths then some (stamp path) else none) := by
  induction paths generalizing p with
  | nil => simp [watch]
  | cons q r ih =>
    change ((if p.seen.any (·.1 = q) then p else ⟨p.seen ++ [(q, stamp q)]⟩ : Poller μ).watch stamp r).seen.lookup path = _
    rw [ih, any_key]
    cases hq : p.seen.lookup q with
    | some old =>
      rw [if_pos Option.isSome_some]
      by_cases hpath : path = q
      · simp [hpath, hq]
      · simp [hpath]
    | none =>
      rw [Option.isSome_none, if_neg Bool.false_ne_true, List.lookup_append, List.lookup_cons]
      by_cases hpath : path = q
      · simp [hpath, hq]
      · have hbeq : (path == q) = false := by simpa using hpath
        simp [hpath, hbeq]

theorem nodup_watch (h : (p.seen.map Prod.fst).Nodup) (stamp : String → Option μ) (paths : List String) :
    ((p.watch stamp paths).seen.map Prod.fst).Nodup := by
  induction paths generalizing p with
  | nil => exact h
  | cons q r ih =>
    change (((if p.seen.any (·.1 = q) then p else ⟨p.seen ++ [(q, stamp q)]⟩ : Poller μ).watch stamp r).seen.map
      Prod.fst).Nodup
    refine ih ?_
    split
    · exact h
    · next hq =>
      rw [List.map_append]
      refine List.nodup_append.2 ⟨h, by simp, fun a ha b hb => ?_⟩
      rw [List.mem_singleton.1 hb]
      rintro rfl
      obtain ⟨x, hx, he⟩ := List.mem_map.1 ha
      exact hq (List.any_eq_true.2 ⟨x, hx, decide_eq_true he⟩)

variable [DecidableEq μ]

theorem lookup_changed (p : Poller μ) (stamp : String → Option μ) (path : String) :
    (p.changed stamp).2.seen.lookup path = (p.seen.lookup path).map fun _ => stamp path := by
  unfold changed
  dsimp only
  induction p.seen with
  | nil => rfl
  | cons x r ih =>
    rw [List.map_cons, List.lookup_cons, List.lookup_cons, ih]
    cases hx : path == x.1 with
    | true => rw [eq_of_beq hx]; rfl
    | false => rfl

theorem mem_changed (h : (p.seen.map Prod.fst).Nodup) : path ∈ (p.changed stamp).1 ↔
    ∃ old, p.seen.lookup path = some old ∧ old ≠ stamp path := by
  unfold changed
  constructor
  · intro hpath
    obtain ⟨⟨q, old⟩, hq, rfl⟩ := List.mem_map.1 hpath
    obtain ⟨hq, hne⟩ := List.mem_filter.1 hq
    exact ⟨old, lookup_of_mem h hq, of_decide_eq_true hne⟩
  · rintro ⟨old, hold, hne⟩
    exact List.mem_map.2 ⟨(path, old), List.mem_filter.2 ⟨mem_of_lookup hold, decide_eq_true hne⟩, rfl⟩

/-- Every path is told once. -/
theorem nodup_changed (h : (p.seen.map Prod.fst).Nodup) : (p.changed stamp).1.Nodup :=
  (List.filter_sublist.map Prod.fst).nodup h

end Poller

variable {σ β : Type}

namespace CommandLine.Watch

variable {provider : Provider σ β Selection} {scene : Scene} {now : Float} {v : Watch β} {w : σ}

/-- What is done with the outcome of a run. -/
def publish (scene : Scene) (now : Float) (got : Except Fault Report) (v : Watch β) : Watch β :=
  let v := { v with scheduler := v.scheduler.complete now }
  match got with
  | .error _ => v
  | .ok r =>
    { v with
      poller := v.poller.watch (stamp scene) (r.sources.map (·.1))
      printed := (shown v.session r).toOption.toList ++ v.printed }

/-- The event of a modification. -/
def event (v : Watch β) : Event := if v.scheduler.debounce.isSome then .edited else .saved

/-- One look at the files. A modification is submitted as an event. -/
def glance (scene : Scene) (now : Float) (v : Watch β) : List String × Watch β :=
  let (names, poller) := v.poller.changed (stamp scene)
  (names, { v with
    poller := poller
    scheduler := if names.isEmpty then v.scheduler else (v.scheduler.handle v.event now).1 })

/-- A run publishes what it has made. -/
theorem run_eq : v.run provider scene now w =
    (publish scene now (v.session.run provider scene.disk w).1 { v with session := (v.session.run provider scene.disk w).2.1 },
      (v.session.run provider scene.disk w).2.2) := by
  unfold run publish
  rcases v.session.run provider scene.disk w with ⟨_ | r, session, w'⟩
  · rfl
  · rfl

/-- A look is followed by the run that its event begins. -/
theorem look_eq : v.look provider scene now w =
    if (glance scene now v).1 ≠ [] ∧ (v.scheduler.handle v.event now).2 = true then
      (glance scene now v).2.run provider scene now w
    else ((glance scene now v).2, w) := by
  unfold look glance follow event
  rcases v.poller.changed (stamp scene) with ⟨_ | ⟨name, names⟩, poller⟩
  · rfl
  · generalize hnext : v.scheduler.handle (if v.scheduler.debounce.isSome then .edited else .saved) now = next
    cases hbegun : next.2 with
    | true => simp [hnext, hbegun]
    | false => simp [hnext, hbegun]

end CommandLine.Watch

/-- The loop that watches a document and the worker that makes its runs. -/
structure Watching (σ β : Type) where
  scene : CommandLine.Scene
  watch : CommandLine.Watch β
  world : σ
  /-- The outcome of a run that is not published yet. -/
  made : Option (Except Fault Report)

namespace Watching

/-- A step of anybody who writes and deletes files, of the worker and of the loop. -/
inductive Act where
  | write (name : String) (octets : List Nat)
  | delete (name : String)
  | run
  | publish (now : Float)
  | look (now : Float)

def Act.isLook : Act → Bool
  | .look _ => true
  | _ => false

theorem Act.exists_look {a : Act} (h : a.isLook = true) : ∃ now, a = .look now := by
  cases a with
  | look now => exact ⟨now, rfl⟩
  | write | delete | run | publish => cases h

/-- The file is written or deleted, under any name that it has. -/
def Act.Touches (working path : String) : Act → Prop
  | .write name _ => name = Disk.nameOf working path
  | .delete name => name = Disk.nameOf working path
  | _ => False

/-- The worker makes one run at a time. -/
def run (provider : Provider σ β Selection) (v : Watching σ β) : Watching σ β :=
  match v.made with
  | some _ => v
  | none =>
    let (got, session, w) := v.watch.session.run provider v.scene.disk v.world
    { v with watch := { v.watch with session := session }, world := w, made := some got }

def publish (now : Float) (v : Watching σ β) : Watching σ β :=
  match v.made with
  | some got => { v with watch := v.watch.publish v.scene now got, made := none }
  | none => v

/-- The effect of a step, and the files that are found modified. -/
def act (provider : Provider σ β Selection) (v : Watching σ β) : Act → List String × Watching σ β
  | .write name octets => ([], { v with scene := { v.scene with disk := v.scene.disk.write name octets } })
  | .delete name => ([], { v with scene := { v.scene with disk := v.scene.disk.delete name } })
  | .run => ([], v.run provider)
  | .publish now => ([], v.publish now)
  | .look now =>
    let (names, watch) := v.watch.glance v.scene now
    (names, { v with watch := watch })

def after (provider : Provider σ β Selection) (acts : List Act) (v : Watching σ β) : Watching σ β :=
  acts.foldl (fun v a => (v.act provider a).2) v

/-- The main file is watched before the first run. -/
def start (scene : CommandLine.Scene) (now : Float) (s : Session β) (w : σ) : Watching σ β :=
  ⟨scene, ⟨s, ((Scheduler.create s.pipeline.settings.onChange).handle .opened now).1,
    Poller.empty.watch (CommandLine.Watch.stamp scene) [s.project.main], []⟩, w, none⟩

/-- What the loop has seen of the file last, if it watches it. -/
def seen? (v : Watching σ β) (path : String) : Option (Option Nat) := v.watch.poller.seen.lookup path

/-- What it would see of the file now. -/
def stamp (v : Watching σ β) (path : String) : Option Nat := CommandLine.Watch.stamp v.scene path

/-- The steps since the last look. -/
def sinceLook (acts : List Act) : List Act := acts.foldl (fun since a => if a.isLook then [] else since ++ [a]) []

theorem sinceLook_snoc (acts : List Act) (a : Act) :
    sinceLook (acts ++ [a]) = if a.isLook then [] else sinceLook acts ++ [a] := by
  rw [sinceLook, List.foldl_append, ← sinceLook]
  rfl

/-- The state that the watch command begins with goes on with a run. -/
theorem start_eq (provider : Provider σ β Selection) (scene : CommandLine.Scene) (now : Float) (s : Session β) (w : σ) :
    CommandLine.Watch.start provider scene now s w = (start scene now s w).watch.run provider scene now w := rfl

variable {provider : Provider σ β Selection} {v : Watching σ β} {a : Act} {path : String} {old : Option Nat}

/-- No stamp that was seen is newer than the last write. -/
structure Sound (v : Watching σ β) : Prop where
  clocked : v.scene.disk.Clocked
  keys : (v.watch.poller.seen.map Prod.fst).Nodup
  seen : ∀ path n, v.seen? path = some (some n) → n ≤ v.scene.disk.clock

theorem scene_run (v : Watching σ β) : (v.run provider).scene = v.scene := by
  unfold run
  split
  · rfl
  · rfl

theorem poller_run (v : Watching σ β) : (v.run provider).watch.poller = v.watch.poller := by
  unfold run
  split
  · rfl
  · rfl

theorem scene_publish (v : Watching σ β) (now : Float) : (v.publish now).scene = v.scene := by
  unfold publish
  split
  · rfl
  · rfl

/-- Publishing a report begins to watch its files, as they are then. -/
theorem poller_publish (v : Watching σ β) (now : Float) : ∃ paths,
    (v.publish now).watch.poller = v.watch.poller.watch (CommandLine.Watch.stamp v.scene) paths ∧
      ∀ r, v.made = some (.ok r) → paths = r.sources.map (·.1) := by
  unfold publish
  split
  · next got hgot =>
    cases got with
    | error e => exact ⟨[], rfl, fun r hr => by rw [hgot] at hr; cases hr⟩
    | ok r =>
      refine ⟨r.sources.map (·.1), rfl, fun r' hr => ?_⟩
      rw [hgot] at hr
      cases hr
      rfl
  · next hgot => exact ⟨[], rfl, fun r hr => by rw [hgot] at hr; cases hr⟩

/-- Only writing and deleting change what is on disk. -/
theorem scene_act (provider : Provider σ β Selection) (v : Watching σ β) (a : Act) :
    (v.act provider a).2.scene = v.scene ∨
    (∃ name octets, a = .write name octets ∧
      (v.act provider a).2.scene = { v.scene with disk := v.scene.disk.write name octets }) ∨
    ∃ name, a = .delete name ∧ (v.act provider a).2.scene = { v.scene with disk := v.scene.disk.delete name } := by
  cases a with
  | write name octets => exact Or.inr (Or.inl ⟨name, octets, rfl, rfl⟩)
  | delete name => exact Or.inr (Or.inr ⟨name, rfl, rfl⟩)
  | run => exact Or.inl v.scene_run
  | publish now => exact Or.inl (v.scene_publish now)
  | look now => exact Or.inl rfl

theorem surroundings_act (provider : Provider σ β Selection) (v : Watching σ β) (a : Act) :
    (v.act provider a).2.scene.surroundings = v.scene.surroundings := by
  rcases scene_act provider v a with h | ⟨name, octets, -, h⟩ | ⟨name, -, h⟩
  all_goals rw [h]

theorem clock_act (provider : Provider σ β Selection) (v : Watching σ β) (a : Act) :
    v.scene.disk.clock ≤ (v.act provider a).2.scene.disk.clock := by
  rcases scene_act provider v a with h | ⟨name, octets, -, h⟩ | ⟨name, -, h⟩
  · rw [h]
  · rw [h]
    exact Nat.le_succ _
  · rw [h]
    exact Nat.le_refl _

theorem clocked_act (provider : Provider σ β Selection) (hclocked : v.scene.disk.Clocked) (a : Act) :
    (v.act provider a).2.scene.disk.Clocked := by
  rcases scene_act provider v a with h | ⟨name, octets, -, h⟩ | ⟨name, -, h⟩
  · rw [h]
    exact hclocked
  · rw [h]
    exact hclocked.write name octets
  · rw [h]
    exact hclocked.delete name

/-- Only what touches a file changes what is seen of it. -/
theorem stamp_act (provider : Provider σ β Selection) (v : Watching σ β)
    (huntouched : ¬ a.Touches v.scene.surroundings.working path) :
    (v.act provider a).2.stamp path = v.stamp path := by
  unfold stamp
  rcases scene_act provider v a with h | ⟨name, octets, rfl, h⟩ | ⟨name, rfl, h⟩
  · rw [h]
  · rw [h]
    exact Disk.stamp?_write_of_ne _ (Ne.symm huntouched) octets
  · rw [h]
    exact Disk.stamp?_delete_of_ne _ (Ne.symm huntouched)

/-- A file that has been touched and is there is newer than all that was written before. -/
theorem lt_stamp_act (htouched : a.Touches v.scene.surroundings.working path) {n : Nat}
    (hn : (v.act provider a).2.stamp path = some n) : v.scene.disk.clock < n := by
  unfold stamp CommandLine.Watch.stamp at hn
  cases a with
  | write name octets =>
    obtain rfl : name = Disk.nameOf v.scene.surroundings.working path := htouched
    have hstamp := (Disk.stamp?_write_self v.scene.disk _ octets).symm.trans hn
    exact Nat.lt_of_lt_of_eq (Nat.lt_succ_self _) (Option.some.inj hstamp)
  | delete name =>
    obtain rfl : name = Disk.nameOf v.scene.surroundings.working path := htouched
    cases (Disk.stamp?_delete_self v.scene.disk _).symm.trans hn
  | run | publish | look => cases htouched

/-- The loop sees what it saw before, but for files that are watched from now on. -/
theorem seen?_act (provider : Provider σ β Selection) (v : Watching σ β) (ha : a.isLook = false) (path : String) :
    (v.act provider a).2.seen? path = v.seen? path ∨
      v.seen? path = none ∧ (v.act provider a).2.seen? path = some ((v.act provider a).2.stamp path) := by
  cases a with
  | write | delete => exact Or.inl rfl
  | look => cases ha
  | run => exact Or.inl (congrArg (fun p : Poller Nat => p.seen.lookup path) v.poller_run)
  | publish now =>
    obtain ⟨paths, hpoller, -⟩ := v.poller_publish now
    change (v.publish now).watch.poller.seen.lookup path = _ ∨ _ ∧
      (v.publish now).watch.poller.seen.lookup path = some (CommandLine.Watch.stamp (v.publish now).scene path)
    rw [hpoller, Poller.lookup_watch, scene_publish]
    unfold seen?
    cases v.watch.poller.seen.lookup path with
    | some old => exact Or.inl rfl
    | none =>
      rw [Option.none_or]
      split
      · exact Or.inr ⟨rfl, rfl⟩
      · exact Or.inl rfl

theorem seen?_look (v : Watching σ β) (now : Float) (path : String) :
    (v.act provider (.look now)).2.seen? path = (v.seen? path).map fun _ => v.stamp path :=
  Poller.lookup_changed _ _ path

theorem Sound.act (h : v.Sound) (a : Act) : (v.act provider a).2.Sound where
  clocked := clocked_act provider h.clocked a
  keys := by
    cases a with
    | write | delete => exact h.keys
    | run =>
      change ((v.run provider).watch.poller.seen.map Prod.fst).Nodup
      rw [poller_run]
      exact h.keys
    | publish now =>
      obtain ⟨paths, hpoller, -⟩ := v.poller_publish now
      change ((v.publish now).watch.poller.seen.map Prod.fst).Nodup
      rw [hpoller]
      exact Poller.nodup_watch h.keys _ _
    | look now =>
      change ((v.watch.poller.seen.map fun s => (s.1, CommandLine.Watch.stamp v.scene s.1)).map Prod.fst).Nodup
      rw [List.map_map]
      exact h.keys
  seen := by
    intro path n hn
    cases ha : a.isLook with
    | true =>
      obtain ⟨now, rfl⟩ := Act.exists_look ha
      rw [seen?_look] at hn
      obtain ⟨old, -, hstamp⟩ := Option.map_eq_some_iff.1 hn
      exact h.clocked _ n hstamp
    | false =>
      rcases seen?_act provider v ha path with hsame | ⟨-, hnow⟩
      · rw [hsame] at hn
        exact Nat.le_trans (h.seen path n hn) (clock_act provider v a)
      · rw [hnow] at hn
        exact clocked_act provider h.clocked a _ n (Option.some.inj hn)

section After

variable (provider)

theorem after_cons (a : Act) (acts : List Act) (v : Watching σ β) :
    after provider (a :: acts) v = after provider acts (v.act provider a).2 := rfl

theorem after_append (acts more : List Act) (v : Watching σ β) :
    after provider (acts ++ more) v = after provider more (after provider acts v) := List.foldl_append

theorem Sound.after (h : v.Sound) (acts : List Act) : (Watching.after provider acts v).Sound := by
  induction acts generalizing v with
  | nil => exact h
  | cons a r ih => exact ih (h.act a)

theorem surroundings_after (acts : List Act) (v : Watching σ β) :
    (after provider acts v).scene.surroundings = v.scene.surroundings := by
  induction acts generalizing v with
  | nil => rfl
  | cons a r ih => exact (ih _).trans (surroundings_act provider v a)

/-- A file that is watched stays watched, and what was seen of it stays until the next look. -/
theorem seen?_after (acts : List Act) (hseen : v.seen? path = some old) :
    (∃ old', (after provider acts v).seen? path = some old') ∧
      ((∀ a ∈ acts, a.isLook = false) → (after provider acts v).seen? path = some old) := by
  induction acts generalizing v old with
  | nil => exact ⟨⟨old, hseen⟩, fun _ => hseen⟩
  | cons a r ih =>
    cases ha : a.isLook with
    | true =>
      obtain ⟨now, rfl⟩ := Act.exists_look ha
      have hnow : (v.act provider (.look now)).2.seen? path = some (v.stamp path) := by
        rw [seen?_look, hseen]
        rfl
      refine ⟨(ih hnow).1, fun hnone => ?_⟩
      cases hnone _ List.mem_cons_self
    | false =>
      have hsame : (v.act provider a).2.seen? path = some old := by
        rcases seen?_act provider v ha path with hsame | ⟨hnone, -⟩
        · exact hsame.trans hseen
        · rw [hseen] at hnone
          cases hnone
      exact ⟨(ih hsame).1, fun hnone => (ih hsame).2 fun b hb => hnone b (List.mem_cons_of_mem _ hb)⟩

theorem stamp_after (acts : List Act) (v : Watching σ β)
    (h : ∀ a ∈ acts, ¬ a.Touches v.scene.surroundings.working path) : (after provider acts v).stamp path = v.stamp path := by
  induction acts generalizing v with
  | nil => rfl
  | cons a r ih =>
    obtain ⟨ha, hr⟩ := List.forall_mem_cons.1 h
    rw [← surroundings_act provider v a] at hr
    exact (ih _ hr).trans (stamp_act provider v ha)

theorem lt_stamp_after (acts : List Act) (v : Watching σ β) (h : ∃ a ∈ acts, a.Touches v.scene.surroundings.working path)
    {n : Nat} (hn : (after provider acts v).stamp path = some n) : v.scene.disk.clock < n := by
  induction acts generalizing v with
  | nil =>
    obtain ⟨a, ha, -⟩ := h
    cases ha
  | cons a r ih =>
    by_cases hr : ∃ b ∈ r, b.Touches v.scene.surroundings.working path
    · rw [← surroundings_act provider v a] at hr
      exact Nat.lt_of_le_of_lt (clock_act provider v a) (ih _ hr hn)
    · have hlast : a.Touches v.scene.surroundings.working path := by
        obtain ⟨b, hb, htouched⟩ := h
        rcases List.mem_cons.1 hb with rfl | hb
        · exact htouched
        · exact absurd ⟨b, hb, htouched⟩ hr
      have hr' : ∀ b ∈ r, ¬ b.Touches (v.act provider a).2.scene.surroundings.working path := fun b hb htouched => by
        rw [surroundings_act] at htouched
        exact hr ⟨b, hb, htouched⟩
      rw [after_cons, stamp_after provider r _ hr'] at hn
      exact lt_stamp_act hlast hn

theorem mem_look (h : v.Sound) (now : Float) (path : String) : path ∈ (v.act provider (.look now)).1 ↔
    ∃ old, v.seen? path = some old ∧ old ≠ v.stamp path := Poller.mem_changed h.keys

end After

section Start

variable {scene : CommandLine.Scene}

theorem seen?_start (scene : CommandLine.Scene) (now : Float) (s : Session β) (w : σ) (path : String) :
    (start scene now s w).seen? path = if path = s.project.main then some ((start scene now s w).stamp path) else none := by
  refine (Poller.lookup_watch _ _ _ path).trans ?_
  simp only [List.mem_singleton]
  exact Option.none_or

theorem sound_start (hdisk : scene.disk.Clocked) (now : Float) (s : Session β) (w : σ) : (start scene now s w).Sound where
  clocked := hdisk
  keys := by
    have hnone : ((Poller.empty : Poller Nat).seen.map Prod.fst).Nodup := .nil
    exact Poller.nodup_watch hnone _ _
  seen path n hn := by
    rw [seen?_start] at hn
    split at hn
    · exact hdisk _ n (Option.some.inj hn)
    · cases hn

variable (provider)

/-- What was seen of a file is what is there, if it has not been touched since the last look. -/
theorem seen?_eq_stamp (now : Float) (s : Session β) (w : σ) (acts : List Act)
    (hseen : (after provider acts (start scene now s w)).seen? path = some old)
    (h : ∀ a ∈ sinceLook acts, ¬ a.Touches scene.surroundings.working path) :
    old = (after provider acts (start scene now s w)).stamp path := by
  induction acts using List.reverseRecOn generalizing old with
  | nil =>
    change (start scene now s w).seen? path = some old at hseen
    rw [seen?_start] at hseen
    split at hseen
    · exact (Option.some.inj hseen).symm
    · cases hseen
  | append_singleton acts a ih =>
    rw [after_append] at hseen ⊢
    rw [sinceLook_snoc] at h
    generalize hv : after provider acts (start scene now s w) = v at *
    have hworking : v.scene.surroundings = scene.surroundings := by
      rw [← hv]
      exact surroundings_after provider acts _
    change (v.act provider a).2.seen? path = some old at hseen
    change old = (v.act provider a).2.stamp path
    cases ha : a.isLook with
    | true =>
      obtain ⟨now, rfl⟩ := Act.exists_look ha
      rw [seen?_look] at hseen
      obtain ⟨-, -, hstamp⟩ := Option.map_eq_some_iff.1 hseen
      exact hstamp.symm
    | false =>
      rw [ha, if_neg Bool.false_ne_true] at h
      rcases seen?_act provider v ha path with hsame | ⟨-, hnow⟩
      · have huntouched : ¬ a.Touches v.scene.surroundings.working path := by
          rw [hworking]
          exact h a (List.mem_append_right _ (List.mem_singleton_self a))
        rw [stamp_act provider v huntouched]
        exact ih (hsame.symm.trans hseen) fun b hb => h b (List.mem_append_left _ hb)
      · rw [hnow] at hseen
        exact (Option.some.inj hseen).symm

/-- A file that is watched loses no modification: whatever happens before the next look, this finds a file that was written
and is there, and one that was there and is gone, and submits an event. The main file is watched from the start, every
file of a report from when the report is published. A file is found once for all that happened to it since the last
look. -/
theorem look_finds (hdisk : scene.disk.Clocked) (now : Float) (s : Session β) (w : σ) (acts : List Act) {v : Watching σ β}
    (hv : after provider acts (start scene now s w) = v) :
    (∃ old, v.seen? s.project.main = some old) ∧
    (∀ before time later, acts = before ++ .publish time :: later →
      ∀ r, (after provider before (start scene now s w)).made = some (.ok r) →
        ∀ path ∈ r.sources.map (·.1), ∃ old, v.seen? path = some old) ∧
    (∀ path old, v.seen? path = some old → ∀ more, (∀ a ∈ more, a.isLook = false) → ∀ v', after provider more v = v' →
      ∀ time, ((∃ a ∈ more, a.Touches scene.surroundings.working path) → v'.stamp path ≠ none →
          path ∈ (v'.act provider (.look time)).1) ∧
        (old ≠ none → v'.stamp path = none → path ∈ (v'.act provider (.look time)).1)) ∧
    ∀ time, (v.act provider (.look time)).1.Nodup ∧
      (∀ path ∈ (v.act provider (.look time)).1, ∃ a ∈ sinceLook acts, a.Touches scene.surroundings.working path) ∧
      ((v.act provider (.look time)).1 ≠ [] → (v.act provider (.look time)).2.watch.scheduler =
        (v.watch.scheduler.handle v.watch.event time).1) := by
  have hsound : v.Sound := hv ▸ (sound_start hdisk now s w).after provider acts
  have hworking : v.scene.surroundings = scene.surroundings := by
    rw [← hv]
    exact surroundings_after provider acts _
  refine ⟨?_, fun before time later hacts r hmade path hpath => ?_, fun path old hseen more hmore v' hv' time => ?_,
    fun time => ⟨Poller.nodup_changed hsound.keys, fun path hpath => ?_, fun hfound => ?_⟩⟩
  · have hstart := (seen?_start scene now s w s.project.main).trans (if_pos rfl)
    rw [← hv]
    exact (seen?_after provider acts hstart).1
  · rw [hacts, after_append, after_cons] at hv
    generalize after provider before (start scene now s w) = u at *
    obtain ⟨paths, hpoller, hpaths⟩ := u.poller_publish time
    have hwatched : ∃ old, (u.act provider (.publish time)).2.seen? path = some old := by
      change ∃ old, (u.publish time).watch.poller.seen.lookup path = some old
      rw [hpoller, Poller.lookup_watch, hpaths r hmade, if_pos hpath]
      cases u.watch.poller.seen.lookup path with
      | some old => exact ⟨old, rfl⟩
      | none => exact ⟨_, rfl⟩
    obtain ⟨old, hold⟩ := hwatched
    rw [← hv]
    exact (seen?_after provider later hold).1
  · have hstill : v'.seen? path = some old := hv' ▸ (seen?_after provider more hseen).2 hmore
    have hsound' : v'.Sound := hv' ▸ hsound.after provider more
    refine ⟨fun htouched hthere => ?_, fun hold hgone => ?_⟩
    · refine (mem_look provider hsound' time path).2 ⟨old, hstill, ?_⟩
      obtain ⟨n, hn⟩ := Option.ne_none_iff_exists'.1 hthere
      rw [← hworking] at htouched
      have hnewer := lt_stamp_after provider more v htouched (by rwa [hv'])
      rintro rfl
      exact absurd (hsound.seen path n (hseen.trans (congrArg some hn))) (Nat.not_le_of_gt hnewer)
    · refine (mem_look provider hsound' time path).2 ⟨old, hstill, ?_⟩
      rw [hgone]
      exact hold
  · obtain ⟨old, hseen, hne⟩ := (mem_look provider hsound time path).1 hpath
    by_contra hnone
    have huntouched : ∀ a ∈ sinceLook acts, ¬ a.Touches scene.surroundings.working path := fun a ha htouched =>
      hnone ⟨a, ha, htouched⟩
    rw [← hv] at hseen hne
    exact hne (seen?_eq_stamp provider now s w acts hseen huntouched)
  · change (v.watch.glance v.scene time).1 ≠ [] at hfound
    have hsome : (v.watch.glance v.scene time).1.isEmpty = false := by simpa using hfound
    change (if (v.watch.glance v.scene time).1.isEmpty then _ else _) = _
    rw [hsome]
    rfl

end Start

/-- A service that finds no fault. -/
def silent : Provider Unit Unit Selection where
  create _ _ w := (.ok (), w)
  check _ _ _ w := (.ok [], (), w)
  close _ w := w

def sharedScene : CommandLine.Scene := ⟨⟨"/home/me", "/home/me"⟩, sharedDisk, []⟩

def begun : Watching Unit Unit := start sharedScene 0 wideSession ()

def rewriting (name : String) : Act := .write name ("Three.".toList.map Char.toNat)

theorem clocked_shared : sharedScene.disk.Clocked := by
  have hempty : Disk.empty.Clocked := fun path stamp h => by cases h
  exact (hempty.write _ _).write _ _

/-- The first run reads the included file. -/
theorem made_begun : ∃ r, (after silent [.run] begun).made = some (.ok r) ∧ "/home/me/part" ∈ r.sources.map (·.1) := by
  have hmade : ((after silent [.run] begun).made.map fun got => got.toOption.map fun r => r.sources.map (·.1)) =
      some (some ["/home/me/main", "/home/me/part"]) := by decide +kernel
  obtain ⟨got, hgot, hsources⟩ := Option.map_eq_some_iff.1 hmade
  cases got with
  | error e => cases hsources
  | ok r =>
    have hsources : r.sources.map (·.1) = ["/home/me/main", "/home/me/part"] := Option.some.inj hsources
    refine ⟨r, hgot, ?_⟩
    rw [hsources]
    exact List.mem_cons_of_mem _ List.mem_cons_self

def published : Watching Unit Unit := after silent [.run, .publish 0] begun

theorem look_finds_part : sharedScene.disk.Clocked ∧
    "/home/me/part" ∈ ((after silent [rewriting "/home/me/part"] published).act silent (.look 0)).1 := by
  refine ⟨clocked_shared, ?_⟩
  obtain ⟨r, hmade, hpart⟩ := made_begun
  have hthere : (after silent [rewriting "/home/me/part"] published).stamp "/home/me/part" ≠ none := by decide +kernel
  have hquiet : ∀ a ∈ [rewriting "/home/me/part"], a.isLook = false := List.forall_mem_singleton.2 rfl
  have htouches : Act.Touches "/home/me" "/home/me/part" (rewriting "/home/me/part") := by
    change "/home/me/part" = Disk.nameOf "/home/me" "/home/me/part"
    decide +kernel
  have hpublished : after silent [.run, .publish 0] (start sharedScene 0 wideSession ()) = published := by
    rw [published, begun]
  rw [begun] at hmade
  -- the sessions are not to be computed from here on
  generalize published = v at *
  generalize rewriting "/home/me/part" = a at *
  obtain ⟨-, hwatched, hfinds, -⟩ := look_finds silent clocked_shared 0 wideSession () [.run, .publish 0] hpublished
  obtain ⟨old, hseen⟩ := hwatched [.run] 0 [] rfl r hmade _ hpart
  exact (hfinds _ old hseen [a] hquiet _ rfl 0).1 ⟨a, List.mem_cons_self, htouches⟩ hthere

/-- A modification between the run that has read an included file and its publication is not found, while the same
modification of the main file is. -/
theorem look_misses : (∃ r, (after silent [.run] begun).made = some (.ok r) ∧ "/home/me/part" ∈ r.sources.map (·.1)) ∧
    (after silent [.run, rewriting "/home/me/part"] begun).stamp "/home/me/part" ≠
      (after silent [.run] begun).stamp "/home/me/part" ∧
    ((after silent [.run, rewriting "/home/me/part", .publish 0] begun).act silent (.look 0)).1 = [] ∧
    ((after silent [.run, rewriting "/home/me/main", .publish 0] begun).act silent (.look 0)).1 = ["/home/me/main"] :=
  ⟨made_begun, by decide +kernel, by decide +kernel, by decide +kernel⟩

end Watching

end Proofreader
