import HttpWire.Error
import HttpWire.Tcp.Config

/-! Connecting over TCP: the host and the port of a target, and what the network makes of them. -/
namespace HttpWire.Tcp

structure Target where
  host : String
  port : Nat
deriving DecidableEq, Repr

namespace Target

def withoutBrackets (host : List Char) : List Char :=
  ((host.dropWhile (· == '[')).reverse.dropWhile (· == ']')).reverse

def schemePort? (scheme : Option String) : Option Nat :=
  if scheme = some "http" then some 80
  else if scheme = some "https" then some 443
  else none

/-- The host and the port of a target. A port that is not named follows from the scheme. -/
def ofUri (u : Uri) : Except TcpError Target :=
  match u.host with
  | none => .error .missingHost
  | some host =>
    match u.port.or (schemePort? u.scheme) with
    | none => .error .missingPort
    | some port => .ok ⟨String.ofList (withoutBrackets host.toList), port⟩

end Target

/-- What a network does with attempts to bind a local address and to connect. -/
structure Network where
  bind : Ipv4 → Except NetworkError Unit
  connect : Target → Except NetworkError Unit

namespace Network

/-- A network without any route. Every local address can be bound. -/
def isolated : Network := ⟨fun _ => .ok (), fun _ => .error .networkUnreachable⟩

/-- A host of its own: the addresses from 127.0.0.0 on, and perhaps somebody who listens at one
port of the first of them. -/
def loopback (listening : Option Nat) : Network where
  bind a := if a.octets ⟨0, by decide⟩ = 127 then .ok () else .error .addressNotAvailable
  connect t :=
    if t.host = "127.0.0.1" ∧ some t.port = listening then .ok () else .error .connectionRefused

end Network

/-- What can be told of a connection: whether it delays small packets, and its two ends. -/
structure Socket where
  noDelay : Bool
  peer : Target
  localAddress : Ipv4

/-- Connect to a target. The local address is bound first. -/
def connect (network : Network) (config : Config) (u : Uri) : Except TcpError Socket := do
  let target ← Target.ofUri u
  match config.localIpv4 with
  | none => pure ()
  | some a => (network.bind a).mapError .bind
  (network.connect target).mapError .connect
  return ⟨config.noDelay, target, config.localIpv4.getD (.of 127 0 0 1)⟩

end HttpWire.Tcp
