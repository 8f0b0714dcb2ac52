import HttpWire.Client
import HttpWire.Connection.Peer
import HttpWire.Promise
import HttpWire.Roster

/-! A session with one far side: the connection, streams and body held at the moment, a client, and
the requests that are outstanding. -/
namespace HttpWire
namespace Session

/-- A client, and the number of the transport that was made with it. -/
structure Sender where
  client : Client
  transport : Nat

inductive JobStage
  | queued (sender : Sender) (request : Request)
  | running (exchange : Exchange)

/-- A started request, by the number of its promise. -/
structure Job where
  id : Nat
  stage : JobStage

/-- A bound on the steps to come, those that the connection can bring on apart. -/
def Job.share (j : Job) : Nat :=
  match j.stage with
  | .queued sender r => (Exchange.new r sender.client.limits).share
  | .running x => x.share

/-- A request whose response is waited for. -/
inductive Outstanding
  /-- It starts when it is first waited for, unless it was not put together well. -/
  | deferred (sender : Sender) (request : Except Error Request)
  | started (id : Nat)

inductive Reply
  | done
  /-- What the step needs is not there. -/
  | absent
  | pending
  | failed (e : Error)
  | octets (b : Octets)
  | text (s : String)
  | count (n : Nat)
  | flag (b : Bool)
  | nothing
  | length (n : Option Nat)
  | surplus (b : Octets)
  | both (first second : Except Error Octets)
  | items (items : List (Option (Except Error Octets)))
  | uris (us : List Uri)
  | response (r : Response)

/-- Whether the step was left waiting for something to read. -/
def Reply.isStalled : Reply → Bool
  | pending => true
  | items l => l.any Option.isNone
  | _ => false

end Session

/-- What is held at the moment. Connections differ only in who holds them. -/
structure Session where
  peer : Peer
  /-- Whether a bare connection is held. -/
  connection : Bool
  source : Option PacketReader
  incoming : Option BodyReader
  body : Option Response.Body
  sender : Option Session.Sender
  /-- How many transports were made. -/
  transports : Nat
  /-- Which transport was asked for a connection, and where to, the latest first. -/
  asked : List (Nat × Uri)
  /-- The jobs that can run. -/
  roster : Roster Session.Job
  /-- The job that is told when there is something to read. A pipe tells only the last one that
  found it dry, and a job that is not told does not go on. -/
  waiter : Option Session.Job
  promises : List (Nat × Promise Response)
  /-- The outstanding requests, the oldest first. -/
  queue : List Session.Outstanding
  nextId : Nat

namespace Session

def new (peer : Peer) : Session :=
  ⟨peer, false, none, none, none, none, 0, [], .empty, none, [], [], 0⟩

def ofResult : Except Error Unit → Reply
  | .ok () => .done
  | .error e => .failed e

def ofOctets : Option (Except Error Octets) → Reply
  | none => .pending
  | some (.ok b) => .octets b
  | some (.error e) => .failed e

def ofText : Option (Except Error String) → Reply
  | none => .pending
  | some (.ok s) => .text s
  | some (.error e) => .failed e

/-- Once a read need not wait any more, the job that waits is ready. -/
def rouse (place : Job → Roster Job → Roster Job) (s : Session) : Session :=
  match s.waiter with
  | none => s
  | some j => if s.peer.isDry then s else { s with roster := place j s.roster, waiter := none }

/-- What follows from a step at the far side. If it was left waiting it has taken the place of the
job that waited before. -/
def after (r : Reply × Session) : Reply × Session :=
  (r.1, if r.1.isStalled then { r.2 with waiter := none } else r.2.rouse .enter)

def push (b : Octets) (s : Session) : Reply × Session :=
  after (.done, { s with peer := s.peer.push b })

def finish (s : Session) : Reply × Session := after (.done, { s with peer := s.peer.finish })

/-! Giving up what is held. -/

def releaseConnection (s : Session) : Session :=
  if s.connection then { s with peer := Connection.release s.peer, connection := false } else s

def releaseSource (s : Session) : Session :=
  match s.source with
  | none => s
  | some r => { s with peer := r.release s.peer, source := none }

def releaseIncoming (s : Session) : Session :=
  match s.incoming with
  | none => s
  | some b => { s with peer := b.release s.peer, incoming := none }

def releaseBody (s : Session) : Session :=
  match s.body with
  | none => s
  | some b => { s with peer := b.release s.peer, body := none }

/-- Give up everything that holds a connection. -/
def drop (s : Session) : Reply × Session :=
  (.done, s.releaseConnection.releaseSource.releaseIncoming.releaseBody)

/-! The bare connection. -/

def connect (s : Session) : Reply × Session :=
  (.done, { s.releaseConnection with connection := true })

def read (n : Nat) (s : Session) : Reply × Session :=
  if s.connection then
    let (result, peer) := Connection.awaitRead n s.peer
    after (ofOctets (result.map fun r => r.mapError .io), { s with peer })
  else (.absent, s)

def write (b : Octets) (s : Session) : Reply × Session :=
  if s.connection then
    let (result, peer) := Connection.awaitWrite b s.peer
    (match result with
    | none => .pending
    | some (.ok n) => .count n
    | some (.error e) => .failed (.io e), { s with peer })
  else (.absent, s)

def flush (s : Session) : Reply × Session :=
  if s.connection then
    let (result, peer) := Connection.flush s.peer
    (ofResult (result.mapError .io), { s with peer })
  else (.absent, s)

def shutdown (s : Session) : Reply × Session :=
  if s.connection then
    let (result, peer) := Connection.shutdown s.peer
    after (ofResult (result.mapError .io), { s with peer })
  else (.absent, s)

/-- Read packets from the connection from now on. -/
def toSource (packetSize : Nat) (s : Session) : Reply × Session :=
  if s.connection then
    (.done, { s.releaseSource with connection := false, source := some (.new packetSize) })
  else (.absent, s)

/-- Read a body from the packets from now on. -/
def toIncoming (length : Option Nat) (leftover : Octets) (s : Session) : Reply × Session :=
  match s.source with
  | none => (.absent, s)
  | some r =>
    (.done, { s.releaseIncoming with source := none, incoming := some (.new r length leftover) })

/-! The stream: the body that is being read, or else the packets of the connection. -/

def onStream {α : Type} (f : {τ : Type} → [PacketStream τ] → τ → α × τ) (s : Session) :
    Option (α × Session) :=
  match s.incoming with
  | some b =>
    let (a, (b, peer)) := f (b, s.peer)
    some (a, { s with incoming := some b, peer })
  | none => s.source.map fun r =>
    let (a, (r, peer)) := f (r, s.peer)
    (a, { s with source := some r, peer })

def next (s : Session) : Reply × Session :=
  match s.onStream PacketStream.next with
  | none => (.absent, s)
  | some (r, s) => after (ofOctets r, s)

/-- Two pulls at once. The second has to wait for the first. -/
def nextTwo (s : Session) : Reply × Session :=
  match s.onStream PacketStream.next with
  | none => (.absent, s)
  | some (none, s) => after (.pending, s)
  | some (some first, s) =>
    match s.onStream PacketStream.next with
    | none => (.absent, s)
    | some (none, s) => after (.pending, s)
    | some (some second, s) => after (.both first second, s)

def collect (s : Session) : Reply × Session :=
  match s.onStream PacketStream.collect with
  | none => (.absent, s)
  | some (r, s) => after (ofOctets r, s)

def close (s : Session) : Reply × Session :=
  match s.incoming, s.source with
  | some b, _ =>
    let (result, b, peer) := b.shutdown s.peer
    after (ofResult result, { s with incoming := some b, peer })
  | none, some r =>
    let (result, r, peer) := r.shutdown s.peer
    after (ofResult result, { s with source := some r, peer })
  | none, none => (.absent, s)

def isClosed (s : Session) : Reply :=
  match s.source with
  | none => .absent
  | some r => .flag !r.isOpen

def contentLength (s : Session) : Reply :=
  match s.incoming with
  | none => .absent
  | some b => .length b.length

/-- Get the bare connection back from the stream, if the stream can give it up. -/
def recover (s : Session) : Reply × Session :=
  match s.incoming, s.source with
  | some b, _ =>
    match b.recover? with
    | none => (.nothing, s.releaseIncoming)
    | some surplus =>
      (.surplus surplus, { s.releaseConnection with incoming := none, connection := true })
  | none, some r =>
    (.flag r.isOpen, { s.releaseConnection with source := none, connection := r.isOpen })
  | none, none => (.absent, s)

def describe (s : Session) : Reply :=
  match s.incoming, s.source, s.body with
  | some b, _, _ => .text b.describe
  | none, some _, _ => .text (Text.record "ChannelPacketSource" [])
  | none, none, some b => .text b.describe
  | none, none, none => .absent

/-! The body of a response. -/

def onBody (f : Response.Body → Peer → Reply × Peer) (s : Session) : Reply × Session :=
  match s.body with
  | none => (.absent, s)
  | some b =>
    let (reply, peer) := f b s.peer
    after (reply, { s with body := none, peer })

def bodyOctets : Session → Reply × Session :=
  onBody fun b peer => (ofOctets (b.octets peer).1, (b.octets peer).2)

def bodyText : Session → Reply × Session :=
  onBody fun b peer => (ofText (b.text peer).1, (b.text peer).2)

def bodyItems : Session → Reply × Session :=
  onBody fun b peer => (.items (b.items peer).1, (b.items peer).2)

def bodyClose : Session → Reply × Session :=
  onBody fun b peer => (ofResult (b.close peer).1, (b.close peer).2)

def bodyPackets (s : Session) : Reply × Session :=
  match s.body with
  | none => (.absent, s)
  | some b => (.done, { s.releaseIncoming with body := none, incoming := some b.reader })

end Session
end HttpWire
