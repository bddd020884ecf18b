import MessageBroker.HandOverOnce
import MessageBroker.ReceiveLoop
import MessageBroker.Shutdown
import MessageBroker.TransitionSystems

namespace MessageBroker.EventLoop

open ByteStrings WireMessages ThreadPools BrokerState ServerJobs ServerOutlines RunInvariants HandOverOnce
  TransitionSystems ReceiveLoop

/-- Where the handler of a socket event stands. `i` is the thread that runs its
present job; what is `arming` has found the server running and waits for the
next event. -/
inductive EventPhase
  | entered
  | updated
  | sending (i : ℕ)
  | looping
  | receiving
  | reading (identity : Frame)
  | routing (i : ℕ)
  | leaving
  | arming
deriving DecidableEq

/-- Where the handler of a timer stands, between its tests of `running_` and what it does after them. -/
inductive TimerPhase
  | entered
  | passing (i : ℕ)
  | arming
deriving DecidableEq

/-- What a worker thread of the server is busy with. -/
inductive Handler
  | event (phase : EventPhase)
  | cleanup (phase : TimerPhase)
  | ackTimeout (phase : TimerPhase)
  | send (i : ℕ)
deriving DecidableEq

/-- The thread whose end a handler waits for. -/
def Handler.thread? : Handler → Option ℕ
  | .event (.sending i) | .event (.routing i) | .cleanup (.passing i) | .ackTimeout (.passing i) | .send i =>
    some i
  | _ => none

/-- How far `Stop` has come. `running_` is true until it begins. -/
inductive Stage
  | up
  | stopping
  | drained
  | cancelled
  | stopped
deriving DecidableEq

/-- The server around the broker: the socket, its event and the timers that
handlers wait for, and the worker threads that run the handlers. -/
structure Server where
  pool : State
  stage : Stage := .up
  eventArmed : Bool := true
  cleanupTimer : Option ℕ := none
  ackTimeoutTimer : Option ℕ := none
  inbox : List Frame := []
  arrived : List Multipart := []
  workers : List (Option Handler)

namespace Server

variable (S : Server)

def running : Bool := S.stage = .up

def now : ℕ := S.pool.world.steadyClock

def setWorker (k : ℕ) (h : Option Handler) : Server := { S with workers := S.workers.set k h }

def setWorld (w : World) : Server := { S with pool := ⟨w, S.pool.threads⟩ }

/-- Worker `k` starts a job, in the next thread of the pool. -/
def startJob (cfg : Config) (k : ℕ) (j : Job) (handler : ℕ → Handler) : Option Server :=
  ((broker cfg).next S.pool (.start j)).map fun pool ↦
    { S with pool }.setWorker k (some (handler S.pool.threads.length))

end Server

def cleanupInterval : ℕ := 10

def armCleanupTimer (S : Server) : Server :=
  { S with cleanupTimer := some (S.now + cleanupInterval * ticksPerSecond) }

def armAckTimeoutTimer (cfg : Config) (S : Server) : Server :=
  { S with ackTimeoutTimer := some (S.now + cfg.ackTimeout.toNat * ticksPerSecond) }

/-- As `Run` calls it, before the workers begin and before any `Stop`. In a
handler the test and the arming are two steps. -/
def setupCleanupTimer (S : Server) : Server :=
  if S.running then armCleanupTimer S else S

def setupAckTimeoutTimer (cfg : Config) (S : Server) : Server :=
  if S.running ∧ 0 < cfg.ackTimeout then armAckTimeoutTimer cfg S else S

inductive Completion
  | event
  | eventError (aborted : Bool)
  | cleanup
  | ackTimeout
  | sendTask
deriving DecidableEq

/-- Worker `k` takes a handler that is ready. Each handler begins with a test of
`running_`, and `Stop` may come between the test and what follows it; the
operations of a send task are steps of the thread that it is from then on. -/
def dispatch (cfg : Config) (k : ℕ) (S : Server) : Completion → Option Server
  | .event =>
    if S.eventArmed then
      some ({ S with eventArmed := false }.setWorker k (if S.running then some (.event .entered) else none))
    else none
  | .eventError aborted =>
    if S.eventArmed then
      some ({ S with eventArmed := false }.setWorker k
        (if S.running && !aborted then some (.event .leaving) else none))
    else none
  | .cleanup =>
    if S.cleanupTimer.any (· ≤ S.now) then
      some ({ S with cleanupTimer := none }.setWorker k (if S.running then some (.cleanup .entered) else none))
    else none
  | .ackTimeout =>
    if S.ackTimeoutTimer.any (· ≤ S.now) then
      some ({ S with ackTimeoutTimer := none }.setWorker k
        (if S.running then some (.ackTimeout .entered) else none))
    else none
  | .sendTask =>
    if S.running then S.startJob cfg k .sendTask .send
    else (ServerJobs.start .sendTask S.pool.world).map S.setWorld

def setGauge (n : ℕ) (w : World) : World := w.setMetrics fun m ↦ { m with pendingSendQueueSize := n }

/-- Worker `k` goes on with its handler, whose present job has ended. A test of
`running_` is a step of its own. -/
def advance (cfg : Config) (k : ℕ) (S : Server) : Handler → Option Server
  | .event .entered =>
    let w := S.pool.world
    some ((S.setWorld (setGauge w.pendingSends.length w)).setWorker k (some (.event .updated)))
  | .event .updated => S.startJob cfg k .processPendingSends fun i ↦ .event (.sending i)
  | .event (.sending _) =>
    some (S.setWorker k (some (.event (if S.inbox = [] then .leaving else .looping))))
  | .event .looping => some (S.setWorker k (some (.event (if S.running then .receiving else .leaving))))
  | .event .receiving =>
    match S.inbox with
    | [] => some (S.setWorker k (some (.event .leaving)))
    | identity :: rest => some ({ S with inbox := rest }.setWorker k (some (.event (.reading identity))))
  | .event (.reading identity) =>
    match S.inbox with
    | [] => some (S.setWorker k (some (.event .leaving)))
    | data :: rest =>
      { S with inbox := rest }.startJob cfg k (Round.job ⟨identity, data⟩) fun i ↦ .event (.routing i)
  | .event (.routing _) => some (S.setWorker k (some (.event .looping)))
  | .event .leaving => some (S.setWorker k (if S.running then some (.event .arming) else none))
  | .event .arming => some ({ S with eventArmed := true }.setWorker k none)
  | .cleanup .entered => S.startJob cfg k .cleanupInactiveSessions fun i ↦ .cleanup (.passing i)
  | .cleanup (.passing _) => some (S.setWorker k (if S.running then some (.cleanup .arming) else none))
  | .cleanup .arming => some ((armCleanupTimer S).setWorker k none)
  | .ackTimeout .entered => S.startJob cfg k .checkExpiredAcks fun i ↦ .ackTimeout (.passing i)
  | .ackTimeout (.passing _) =>
    some (S.setWorker k (if S.running ∧ 0 < cfg.ackTimeout then some (.ackTimeout .arming) else none))
  | .ackTimeout .arming => some ((armAckTimeoutTimer cfg S).setWorker k none)
  | .send _ => some (S.setWorker k none)

/-- Worker `k` performs the next operation of the job it has started, or goes on after it. -/
def work (cfg : Config) (k : ℕ) (ch : Choice) (S : Server) : Option Server :=
  match S.workers[k]? with
  | some (some h) =>
    if h.thread?.all fun i ↦ (S.pool.threads[i]?).any hasEnded then advance cfg k S h
    else h.thread?.bind fun i ↦ ((broker cfg).next S.pool (.step i ch)).map fun pool ↦ { S with pool }
  | _ => none

/-- `Stop` in four parts: no handler begins any more, what has not been sent
fails, the timers are cancelled, and the worker threads take no more handlers. -/
def stop (S : Server) : Option Server :=
  match S.stage with
  | .up => some { S with stage := .stopping }
  | .stopping => some { S.setWorld (Shutdown.stop S.pool.world) with stage := .drained }
  | .drained => some { S with stage := .cancelled, cleanupTimer := none, ackTimeoutTimer := none }
  | .cancelled => some { S with stage := .stopped }
  | .stopped => none

inductive Action
  | arrive (m : Multipart)
  | dispatch (k : ℕ) (c : Completion)
  | work (k : ℕ) (ch : Choice)
  | stop
  | tick (t : Tick)

def next (cfg : Config) (S : Server) : Action → Option Server
  | .arrive m => some { S with inbox := S.inbox ++ m.frames S.arrived.length, arrived := S.arrived ++ [m] }
  | .dispatch k c => if S.stage ≠ .stopped ∧ S.workers[k]? = some none then dispatch cfg k S c else none
  | .work k ch => work cfg k ch S
  | .stop => stop S
  | .tick t => some (S.setWorld (tick t S.pool.world))

def server (cfg : Config) : System Server Action where
  next := next cfg

/-- The server that `Run` has set up. -/
def started (cfg : Config) (threads : ℕ) (metrics : Option Metrics) : Server :=
  setupAckTimeoutTimer cfg (setupCleanupTimer
    { pool := ⟨initial metrics, []⟩, workers := List.replicate threads none })

/-- The environment's part in a step is admitted. A wait for the socket is aborted
only when the server stops. -/
def Admitted (admits : Choice → Prop) (S : Server) : Action → Prop
  | .work _ ch => admits ch
  | .dispatch _ (.eventError true) => S.running = false
  | _ => True

instance {admits : Choice → Prop} [∀ ch, Decidable (admits ch)] (S : Server) :
    (a : Action) → Decidable (Admitted admits S a)
  | .work _ ch => inferInstanceAs (Decidable (admits ch))
  | .dispatch _ (.eventError true) => inferInstanceAs (Decidable (S.running = false))
  | .dispatch _ (.eventError false) | .dispatch _ .event | .dispatch _ .cleanup | .dispatch _ .ackTimeout
  | .dispatch _ .sendTask | .arrive _ | .stop | .tick _ => instDecidableTrue

/-- What a client sends with its name as its identity. -/
def multipart (m : Message) : Multipart := ⟨m.sender, [(serialize m).toOption.getD []], List.cons_ne_nil _ _⟩

end MessageBroker.EventLoop
