import HttpWire.Session.Turns

/-! The requests of a session: they are started, run in turns, and are waited for in order. -/
namespace HttpWire.Session

/-- Make a transport, and the client that sends the requests from now on. If there cannot be such a
client, the one before stays. -/
def makeClient (settings : Client.Settings) (network : Tcp.Network) (executor : Option Executor)
    (s : Session) : Reply × Session :=
  let s := { s with transports := s.transports + 1 }
  match settings.build network executor with
  | .error e => (.failed e, s)
  | .ok c => (.text c.describe, { s with sender := some ⟨c, s.transports⟩ })

/-- Start a request. Its job runs the next time that requests are run. -/
def start (sender : Sender) (r : Request) (place : Job → Roster Job → Roster Job) (s : Session) :
    Nat × Session :=
  let s' := { s with nextId := s.nextId + 1 }
  match sender.client.executor with
  | .running =>
    (s.nextId, { s' with
      roster := place ⟨s.nextId, .queued sender r⟩ s.roster
      promises := (s.nextId, .pending) :: s.promises })
  | .stopped => (s.nextId, { s' with promises := (s.nextId, .abandoned) :: s.promises })

/-- Send a request: it is started at once. -/
def execute (request : Except Error Request) (s : Session) : Reply × Session :=
  match s.sender, request with
  | none, _ => (.absent, s)
  | some _, .error e => (.failed e, s)
  | some sender, .ok r =>
    let (id, s) := s.start sender r .enter
    (.text "started", { s with queue := s.queue ++ [.started id] })

/-- Send a request that is started when it is first waited for. -/
def defer (request : Except Error Request) (s : Session) : Reply × Session :=
  match s.sender with
  | none => (.absent, s)
  | some sender => (.text "started", { s with queue := s.queue ++ [.deferred sender request] })

def run (s : Session) : Session := s.runUntil fun _ => false

/-- Hand out the result of the oldest outstanding request. The body of its response, if it has one,
is held from now on. -/
def deliver (result : Except Error Response) (s : Session) : Reply × Session :=
  match result with
  | .error e => (.failed e, s)
  | .ok r => (.response r, { s.releaseBody with body := r.body })

def result? (id : Nat) (s : Session) : Option (Except Error Response) :=
  (s.promises.lookup id).bind Promise.poll

def leave (id : Nat) (s : Session) : Session :=
  { s with promises := s.promises.filter (·.1 != id) }

/-- Wait for a started request, the oldest of those outstanding. -/
def await (id : Nat) (rest : List Outstanding) (s : Session) : Reply × Session :=
  let s := s.runUntil fun s => (s.result? id).isSome
  match s.result? id with
  | none => (.pending, { s with queue := .started id :: rest })
  | some result => { s.leave id with queue := rest }.deliver result

/-- Wait for the oldest outstanding request. One that starts only now goes before the jobs that were
made ready from outside. -/
def wait (s : Session) : Reply × Session :=
  match s.queue with
  | [] => (.absent, s)
  | .started id :: rest => s.await id rest
  | .deferred _ (.error e) :: rest => (.failed e, { s with queue := rest })
  | .deferred sender (.ok r) :: rest =>
    let (id, s) := s.start sender r .join
    s.await id rest

/-- Stop waiting for the oldest outstanding request, if there is one. If it was started it runs
on. -/
def forget (s : Session) : Reply × Session :=
  match s.queue with
  | [] => (.done, s)
  | .deferred _ _ :: rest => (.done, { s with queue := rest })
  | .started id :: rest =>
    let result := s.result? id
    let s := { s.leave id with queue := rest }
    (.done, (result.map fun r => s.discard r).getD s)

/-- Where the latest transport was asked for connections to, in order. -/
def connected (s : Session) : Reply :=
  if s.transports = 0 then .absent
  else .uris ((s.asked.filter fun (transport, _) => transport = s.transports).reverse.map Prod.snd)

end HttpWire.Session
