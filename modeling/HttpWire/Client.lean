import HttpWire.Exchange
import HttpWire.Tcp.Network

/-! Clients: where their connections lead, and what their requests run on. -/
namespace HttpWire

/-- How a client gets its connections. -/
inductive Transport
  /-- Every connection leads to the far side at hand. -/
  | direct
  /-- Every attempt to connect fails. -/
  | refusing
  | tcp (network : Tcp.Network) (config : Tcp.Config)

def Transport.connect (t : Transport) (u : Uri) : Except ConnectError Unit :=
  match t with
  | direct => .ok ()
  | refusing => .error .refused
  | tcp network config =>
    match Tcp.connect network config u with
    | .error e => .error (.tcp e)
    | .ok _ => .ok ()

/-- What requests run on. On one that is stopped they are canceled. -/
inductive Executor
  | running | stopped
deriving DecidableEq, Repr

structure Client where
  transport : Transport
  limits : Limits
  executor : Executor

namespace Client

structure Settings where
  version : Version
  limits : Limits
  /-- The transport, if it is not TCP. -/
  transport : Option Transport
  tcp : Tcp.Config

namespace Settings

def default : Settings := ⟨.http11, .default, none, .default⟩

/-- Choose the size of each read, of at least one octet. -/
def withPacketSize (s : Settings) (n : Nat) : Settings :=
  { s with limits := { s.limits with packetSize := max 1 n } }

def withMaxLine (s : Settings) (n : Nat) : Settings :=
  { s with limits := { s.limits with maxLine := n } }

/-- Make a client. The version is looked at first, then whether there is an executor. -/
def build (s : Settings) (network : Tcp.Network) (executor : Option Executor) :
    Except Error Client :=
  match Limits.ofVersion s.version with
  | .error e => .error e
  | .ok _ =>
    match executor with
    | none => .error .noExecutor
    | some executor => .ok ⟨s.transport.getD (.tcp network s.tcp), s.limits, executor⟩

def describe (s : Settings) : String :=
  Text.record "Builder"
    [("executor", Text.optional none),
      ("version", s.version.text),
      ("config", Text.record "Http1Config"
        [("packet_size", toString s.limits.packetSize),
          ("max_line_length", toString s.limits.maxLine)]),
      ("transport", Text.optional (s.transport.map fun _ => "SharedTransport")),
      ("tcp", s.tcp.describe)]

end Settings

/-- Connect for a request, and be ready to exchange it. -/
def start (c : Client) (r : Request) : Except Error Exchange :=
  match c.transport.connect r.uri with
  | .error e => .error (.connect e)
  | .ok () => .ok (.new r c.limits)

theorem share_start {c : Client} {r : Request} {x : Exchange} (h : c.start r = .ok x) :
    (Exchange.new r c.limits).share = x.share := by
  unfold start at h
  split at h
  · simp at h
  · rw [Except.ok.inj h]

def describe (_ : Client) : String := Text.record "Client" [("version", Version.http11.text)]

end Client
end HttpWire
