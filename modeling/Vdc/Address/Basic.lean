import Vdc.Address.IPv6

/-!
# Addresses

The address of an endpoint is a host and a port with a colon between them. A host is an IPv4 or an
IPv6 address, and an IPv6 address may say in which zone it holds. One host has a name everywhere:
`localhost` is the machine itself.

An IPv6 address in brackets stands apart from its port; otherwise the last colon divides the two.
A port after brackets is digits and nothing else, elsewhere it may have a plus sign. A zone in
brackets is a number; elsewhere an address that holds no farther than a link may have a zone that is
named for the interface to it, and one interface has a name everywhere, the loopback.
-/

namespace Vdc

/-- What an endpoint runs on. -/
inductive Host where
  | v4 (ip : IPv4)
  /-- In a zone, or in no particular one if that is zero. -/
  | v6 (ip : IPv6) (zone : UInt32)
deriving DecidableEq, Repr

namespace Host

/-- Reads a natural number that is written with digits only. -/
def digits? (limit : Nat) (digits : List UInt8) : Option Nat :=
  if digits.all Digits.isDigit then (natOfText? limit digits).toOption else none

/-- Reads the number of a zone. -/
def zoneNumber? (text : List UInt8) : Option UInt32 :=
  (digits? (2 ^ 32 - 1) text).map UInt32.ofNat

/-- Reads the zone of an address, a number or the name of an interface. -/
def zone? (ip : IPv6) (text : List UInt8) : Option UInt32 :=
  if ip.isLinkLocal && text == Utf8.encode "lo" then some 1 else zoneNumber? text

/-- Reads an IPv6 address, perhaps with a zone. -/
def ofV6Text? (zone? : IPv6 → List UInt8 → Option UInt32) (text : List UInt8) : Option Host :=
  match Parts.splitFirst? 0x25 text with
  | none => (IPv6.ofText? text).map (.v6 · 0)
  | some (ip, zone) => do
    let ip ← IPv6.ofText? ip
    return .v6 ip (← zone? ip zone)

/-- The machine itself. -/
def itself : Host := .v4 ⟨127, 0, 0, 1⟩

/-- Whether a text is the name of the machine itself, in letters of either case. -/
def isItself (text : List UInt8) : Bool :=
  let lower (b : UInt8) : UInt8 := if 0x41 ≤ b ∧ b ≤ 0x5a then b + 0x20 else b
  text.map lower == Utf8.encode "localhost"

/-- Reads a host. -/
def ofText? (text : List UInt8) : Option Host :=
  if isItself text then some itself
  else
    match IPv4.ofFreeText? text with
    | some ip => some (.v4 ip)
    | none => ofV6Text? zone? text

/-- A host as text, an IPv6 address in brackets. -/
def toText : Host → List UInt8
  | .v4 ip => ip.toText
  | .v6 ip zone =>
    let suffix := if zone = 0 then [] else 0x25 :: Digits.ofNat zone.toNat
    0x5b :: ip.toText ++ suffix ++ [0x5d]

end Host

/-- Where an endpoint listens. -/
structure Address where
  host : Host
  port : UInt16
deriving DecidableEq, Repr

namespace Address

/-- A host and a port with the last colon between them. -/
def divide? (text : List UInt8) : Option (List UInt8 × UInt16) :=
  match Parts.splitLast? 0x3a text with
  | some (host, port) => (natOfText? 65535 port).toOption.map fun n => (host, UInt16.ofNat n)
  | none => none

/-- Reads an address whose host is in brackets. -/
def ofBrackets? : List UInt8 → Option Address
  | 0x5b :: text =>
    match Parts.splitFirst? 0x5d text with
    | some (host, 0x3a :: port) => do
      let host ← Host.ofV6Text? (fun _ => Host.zoneNumber?) host
      return ⟨host, UInt16.ofNat (← Host.digits? 65535 port)⟩
    | _ => none
  | _ => none

/-- Reads an address. -/
def parse? (text : String) : Option Address :=
  match ofBrackets? (Utf8.encode text) with
  | some address => some address
  | none => do
    let (host, port) ← divide? (Utf8.encode text)
    return ⟨← Host.ofText? host, port⟩

/-- An address as text. -/
def toText (a : Address) : String :=
  Hex.text (a.host.toText ++ 0x3a :: Digits.ofNat a.port.toNat)

end Address

end Vdc
