import InspectorProtocol.Address.Ipv4
import InspectorProtocol.Address.Ipv6
import InspectorProtocol.Address.DomainName
import InspectorProtocol.Address.PercentCode

/-!
# Hosts

A host is a name or an IPv6 address in brackets. Addresses of the web read a name as a domain name,
which may be an IPv4 address as well; elsewhere a name is opaque, and only the characters that
delimit the parts of an address are refused.
-/

namespace InspectorProtocol.Address

/-- Why the host or port of an address is refused. -/
inductive HostFault where
  | empty
  | port
  | ipv4
  | ipv6
  | character
  | domainName
  deriving DecidableEq, Repr

def HostFault.message : HostFault → String
  | .empty => "empty host"
  | .port => "invalid port number"
  | .ipv4 => "invalid IPv4 address"
  | .ipv6 => "invalid IPv6 address"
  | .character => "invalid domain character"
  | .domainName => "invalid international domain name"

inductive Host where
  | name (text : List Char)
  | ipv4 (number : Nat)
  | ipv6 (pieces : List Nat)
  deriving DecidableEq, Repr

namespace Host

/-- The address in brackets. -/
def bracketed (cs : List Char) : Except HostFault Host :=
  match (if cs.getLast? == some ']' then Ipv6.parse? (cs.drop 1).dropLast else none) with
  | some pieces => .ok (.ipv6 pieces)
  | none => .error .ipv6

/-- The characters that no opaque name has. -/
def isDelimiter (c : Char) : Bool :=
  ['\x00', '\t', '\n', '\r', ' ', '#', '/', ':', '<', '>', '?', '@', '[', '\\', ']', '^',
    '|'].contains c

/-- A host whose name means nothing to the reader of the address. -/
def readOpaque (cs : List Char) : Except HostFault Host :=
  if cs.head? == some '[' then bracketed cs
  else if cs.any isDelimiter then .error .character
  else .ok (.name (PercentCode.encode PercentCode.isControl cs))

/-- A host of the web. -/
def readDomain (cs : List Char) : Except HostFault Host :=
  if cs.isEmpty then .error .empty
  else if cs.head? == some '[' then bracketed cs
  else
    match DomainName.ofBytes? (PercentCode.decode (cs.flatMap Text.Utf8.encodeChar)) with
    | none => .error .domainName
    | some domain =>
      if domain.isEmpty then .error .empty
      else if Ipv4.endsInNumber domain then
        match Ipv4.parse? domain with
        | some number => .ok (.ipv4 number)
        | none => .error .ipv4
      else .ok (.name domain)

/-- The host as a URL shows it. -/
def text : Host → String
  | .name cs => String.ofList cs
  | .ipv4 n =>
    let bytes := [n / 0x1000000, n / 0x10000 % 0x100, n / 0x100 % 0x100, n % 0x100]
    ".".intercalate (bytes.map toString)
  | .ipv6 pieces => "[" ++ Ipv6.render pieces ++ "]"

end Host

end InspectorProtocol.Address
