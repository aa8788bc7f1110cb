import Proofreader.Service.Client

/-! A local server process. It is launched when it is needed and again when it has exited; a process that
does not become ready in time is ended before the next one is launched. -/

namespace Proofreader

/-- What runs processes. A process is known by a number. -/
structure Host (σ τ : Type) where
  /-- The new process, unless the launch is refused. -/
  launch : List String → σ → Option Nat × σ
  isAlive : Nat → σ → Bool × σ
  terminate : Nat → σ → σ
  /-- Waits a while; whether the process ended in that time. -/
  awaitEnd : Nat → σ → Bool × σ
  kill : Nat → σ → σ
  now : σ → τ
  network : Network σ τ

structure Server (τ : Type) where
  java : String
  jar : String
  port : Json
  client : Client τ
  /-- How many launches may follow the first one. -/
  retries : Nat
  /-- How long a process may take to become ready. -/
  patience : τ
  /-- The most that a process is asked whether it is ready. -/
  probes : Nat
  backoff : Backoff τ

structure ServerState where
  process : Option Nat
  launches : Nat

namespace Server

variable {σ τ : Type} [Time τ]

def className : String := "org.languagetool.server.HTTPServer"

def command (v : Server τ) : List String :=
  [v.java, "-cp", v.jar, className, "--port", v.port.plain]

def idle : ServerState := ⟨none, 0⟩

def isRunning (host : Host σ τ) (st : ServerState) (s : σ) : Bool × σ :=
  match st.process with
  | some p => host.isAlive p s
  | none => (false, s)

def pollInterval : τ := Time.quarters 1

/-- Whether a process answers before the deadline; it is asked again and again while it lives. -/
def awaitReady (v : Server τ) (host : Host σ τ) (p : Nat) (deadline : τ) : (probes : Nat) → σ → Bool × σ
  | 0, s => (false, s)
  | probes + 1, s =>
    match host.isAlive p s with
    | (false, s) => (false, s)
    | (true, s) =>
      match v.client.isReady host.network s with
      | (true, s) => (true, s)
      | (false, s) =>
        if Time.atMost deadline (host.now s) then (false, s)
        else v.awaitReady host p deadline probes (host.network.sleep pollInterval s)

/-- Ends a process, by force if it does not end by itself. -/
def endProcess (host : Host σ τ) (p : Nat) (s : σ) : σ :=
  match host.isAlive p s with
  | (false, s) => s
  | (true, s) =>
    match host.awaitEnd p (host.terminate p s) with
    | (true, s) => s
    | (false, s) => host.kill p s

/-- One launch: a process that is ready, or none that is left. -/
def launchOnce (v : Server τ) (host : Host σ τ) (s : σ) : Option Nat × σ :=
  match host.launch v.command s with
  | (none, s) => (none, s)
  | (some p, s) =>
    match v.awaitReady host p (Time.add (host.now s) v.patience) v.probes s with
    | (true, s) => (some p, s)
    | (false, s) => (none, endProcess host p s)

def notStarted (v : Server τ) : Fault :=
  let attempts := v.retries + 1
  .problem (.launch ("LanguageTool server did not start after " ++ toString attempts ++ " attempts")
    (.int attempts) [("port", v.port)])

/-- Launches until one succeeds, from the given attempt on with so many to follow. -/
def start (v : Server τ) (host : Host σ τ) : (left attempt launches : Nat) → σ →
    Except Fault Unit × ServerState × σ
  | left, attempt, launches, s =>
    match v.launchOnce host s with
    | (some p, s) => (.ok (), ⟨some p, launches + 1⟩, s)
    | (none, s) =>
      match left with
      | 0 => (.error v.notStarted, ⟨none, launches + 1⟩, s)
      | left + 1 =>
        match v.backoff.pause attempt with
        | .error m => (.error (.mishap m), ⟨none, launches + 1⟩, s)
        | .ok none => v.start host left (attempt + 1) (launches + 1) s
        | .ok (some d) => v.start host left (attempt + 1) (launches + 1) (host.network.sleep d s)

/-- Nothing if the process lives, else new launches. -/
def ensureRunning (v : Server τ) (host : Host σ τ) (st : ServerState) (s : σ) :
    Except Fault Unit × ServerState × σ :=
  match isRunning host st s with
  | (true, s) => (.ok (), st, s)
  | (false, s) => v.start host v.retries 1 st.launches s

def stop (host : Host σ τ) (st : ServerState) (s : σ) : ServerState × σ :=
  match st.process with
  | some p => ({ st with process := none }, endProcess host p s)
  | none => (st, s)

end Server

end Proofreader
