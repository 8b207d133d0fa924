import OpenKernel.ShellText

/-!
# The simulated network stack

`NetworkStack` of `src/net.rs`, and the texts that its commands print.  `ping`
sends nothing: the first interface that answers to the target counts four
packets each way, with the counters checked or wrapped as the build has it.
-/

namespace OpenKernel
namespace Net

open Vfs Shell

section Addresses

/-- A byte in decimal. -/
def octetText (byte : UInt8) : Str :=
  natText byte.toNat

/-- `{:02x}` of a byte. -/
def hexText (byte : UInt8) : Str :=
  [Nat.digitChar (byte.toNat / 16), Nat.digitChar (byte.toNat % 16)]

structure MacAddress where
  bytes : Vector UInt8 6
deriving DecidableEq

def MacAddress.text (mac : MacAddress) : Str :=
  [':'].intercalate (mac.bytes.toList.map hexText)

structure Ipv4Addr where
  octets : Vector UInt8 4
deriving DecidableEq

def Ipv4Addr.text (ip : Ipv4Addr) : Str :=
  ['.'].intercalate (ip.octets.toList.map octetText)

end Addresses

structure NetworkInterface where
  name : Str
  mac : MacAddress
  ip : Ipv4Addr
  rx_packets : UInt64
  tx_packets : UInt64
  rx_bytes : UInt64
  tx_bytes : UInt64
deriving DecidableEq

namespace NetworkInterface

def loopback : NetworkInterface where
  name := "lo0".toList
  mac := ⟨#v[0x00, 0x00, 0x00, 0x00, 0x00, 0x00]⟩
  ip := ⟨#v[127, 0, 0, 1]⟩
  rx_packets := 4
  tx_packets := 4
  rx_bytes := 256
  tx_bytes := 256

def eth0 : NetworkInterface where
  name := "eth0".toList
  mac := ⟨#v[0x52, 0x54, 0x00, 0x12, 0x34, 0x56]⟩
  ip := ⟨#v[192, 168, 1, 100]⟩
  rx_packets := 12
  tx_packets := 8
  rx_bytes := 1420
  tx_bytes := 980

/-- The body of the `if` of `ping`. -/
def count (profile : Profile) (iface : NetworkInterface) :
    Except ArithPanic NetworkInterface := do
  let tx_packets ← profile.addU64 iface.tx_packets 4
  let rx_packets ← profile.addU64 iface.rx_packets 4
  let tx_bytes ← profile.addU64 iface.tx_bytes 256
  let rx_bytes ← profile.addU64 iface.rx_bytes 256
  pure { iface with
    tx_packets := tx_packets
    rx_packets := rx_packets
    tx_bytes := tx_bytes
    rx_bytes := rx_bytes }

def flagsText : Str :=
  ": flags=UP LOOPBACK RUNNING  mtu 1500".toList

def inetLine (ip : Str) : Str :=
  "        inet ".toList ++ ip ++ "  netmask 255.255.255.0".toList

def etherLine (mac : Str) : Str :=
  "        ether ".toList ++ mac

/-- The line of a direction, `RX` or `TX`. -/
def counterLine (direction packets bytes : Str) : Str :=
  "        ".toList ++ direction ++ " packets ".toList ++ packets ++ "  bytes ".toList ++ bytes

/-- The lines that `print_ifconfig` formats for an interface. -/
def infoLines (iface : NetworkInterface) : List Str :=
  [iface.name ++ flagsText,
    inetLine iface.ip.text,
    etherLine iface.mac.text,
    counterLine "RX".toList (natText iface.rx_packets.toNat) (natText iface.rx_bytes.toNat),
    counterLine "TX".toList (natText iface.tx_packets.toNat) (natText iface.tx_bytes.toNat)]

def infoText (iface : NetworkInterface) : Str :=
  ['\n'].intercalate iface.infoLines

end NetworkInterface

structure NetworkStack where
  interfaces : List NetworkInterface

/-- `target_ip == "127.0.0.1" || target_ip == "localhost"`. -/
def IsLocal (target_ip : Str) : Prop :=
  target_ip = "127.0.0.1".toList ∨ target_ip = "localhost".toList

instance (target_ip : Str) : Decidable (IsLocal target_ip) :=
  inferInstanceAs (Decidable (_ ∨ _))

/-- The loop of `NetworkStack::ping`. -/
def pingLoop (profile : Profile) (target_ip : Str) :
    List NetworkInterface → Except ArithPanic (Bool × List NetworkInterface)
  | [] => .ok (false, [])
  | iface :: rest =>
      if iface.ip.text = target_ip ∨ IsLocal target_ip then do
        let counted ← iface.count profile
        pure (true, counted :: rest)
      else do
        let (answered, rest) ← pingLoop profile target_ip rest
        pure (answered, iface :: rest)

namespace NetworkStack

def new : NetworkStack where
  interfaces := [NetworkInterface.loopback, NetworkInterface.eth0]

def ping (profile : Profile) (stack : NetworkStack) (target_ip : Str) :
    Except ArithPanic (Bool × NetworkStack) := do
  let (answered, interfaces) ← pingLoop profile target_ip stack.interfaces
  pure (answered, ⟨interfaces⟩)

end NetworkStack

/-- What `ping` prints. -/
def pingTexts (target : Str) (answered : Bool) : List Str :=
  ("PING ".toList ++ target ++ " (".toList ++ target ++ "): 56 data bytes".toList) ::
    if answered then
      [1, 2, 3, 4].map (fun seq => "64 bytes from ".toList ++ target ++ ": icmp_seq=".toList ++
        natText seq ++ " ttl=64 time=0.342 ms".toList) ++
      ["--- ".toList ++ target ++ " ping statistics ---\n4 packets transmitted, ".toList ++
        "4 packets received, 0.0% packet loss".toList]
    else
      ["Request timeout for icmp_seq 1 to ".toList ++ target]

def netstatText : Str :=
  ("Proto Recv-Q Send-Q Local Address          Foreign Address        State\n" ++
    "tcp        0      0 127.0.0.1:80           0.0.0.0:*              LISTEN\n" ++
    "tcp        0      0 192.168.1.100:22       192.168.1.1:54321      ESTABLISHED\n" ++
    "udp        0      0 0.0.0.0:68             0.0.0.0:*").toList

/-- The target of a `ping` line. -/
def pingTarget (args : Str) : Str :=
  if args.isEmpty then "127.0.0.1".toList else args

end Net
end OpenKernel
