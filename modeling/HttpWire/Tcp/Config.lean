import HttpWire.Tcp.Address
import HttpWire.Text

/-! How TCP connections are made. -/
namespace HttpWire.Tcp

/-- Settings of a TCP connection. Times are in milliseconds. -/
structure Config where
  connectTimeout : Option Nat
  keepAlive : Option Nat
  localIpv4 : Option Ipv4
  localIpv6 : Option Ipv6
  noDelay : Bool
  reuseAddress : Bool
  sendBuffer : Option Nat
  receiveBuffer : Option Nat

namespace Config

/-- The settings where none are chosen: ten seconds to connect, probes after ninety. -/
def default : Config := ⟨some 10000, some 90000, none, none, true, true, none, none⟩

/-- Thousandths as three decimals, without the zeros at the end. -/
def decimals (thousandths : Nat) : List Char :=
  let digits := [thousandths / 100, thousandths / 10 % 10, thousandths % 10]
  ((digits.reverse.dropWhile (· == 0)).reverse).map fun d => Char.ofNat (48 + d)

/-- A time in the largest unit of which it has one, seconds or milliseconds. -/
def duration (milliseconds : Nat) : String :=
  if milliseconds = 0 then "0ns"
  else if milliseconds < 1000 then toString milliseconds ++ "ms"
  else
    let rest := decimals (milliseconds % 1000)
    toString (milliseconds / 1000) ++ (if rest = [] then "" else "." ++ String.ofList rest) ++ "s"

def describe (c : Config) : String :=
  Text.record "TcpTransportConfig"
    [("connect_timeout", Text.optional (c.connectTimeout.map duration)),
      ("keep_alive_timeout", Text.optional (c.keepAlive.map duration)),
      ("local_address_ipv4", Text.optional (c.localIpv4.map Ipv4.render)),
      ("local_address_ipv6", Text.optional (c.localIpv6.map Ipv6.render)),
      ("nodelay", Text.truth c.noDelay),
      ("reuse_address", Text.truth c.reuseAddress),
      ("send_buffer_size", Text.optional (c.sendBuffer.map toString)),
      ("recv_buffer_size", Text.optional (c.receiveBuffer.map toString))]

end Config
end HttpWire.Tcp
