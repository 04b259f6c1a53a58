import InspectorProtocol.Address.Host
import InspectorProtocol.Address.Segments

/-!
# URLs

What comes after the `//` of a URL: user information, host, port, path, query and fragment. The
reader keeps host, port and path. Where the scheme is one of the web, a backslash is as good as a
slash, further slashes before the host are skipped and the host may not be missing.
-/

namespace InspectorProtocol.Address

structure Url where
  /-- `none` if the host is missing -/
  host : Option Host
  port : Option Nat
  path : List Char

namespace Url

/-- Characters that end the part of a URL which names user, host and port. -/
def endsAuthority (web : Bool) (c : Char) : Bool :=
  c == '/' || c == '?' || c == '#' || (web && c == '\\')

/-- What stands before the last occurrence of `c`, if there is one, and what stands after it. -/
def cutLast (c : Char) (cs : List Char) : Option (List Char) × List Char :=
  let after := (cs.reverse.takeWhile (· != c)).reverse
  match cs.take (cs.length - after.length) with
  | [] => (none, after)
  | before => (some before.dropLast, after)

/-- The host, up to a colon outside brackets, and the rest. -/
def cutHost : Bool → List Char → List Char × List Char
  | _, [] => ([], [])
  | inside, c :: rest =>
    if c == ':' && !inside then ([], c :: rest)
    else
      let inside := if c == '[' then true else if c == ']' then false else inside
      let (host, after) := cutHost inside rest
      (c :: host, after)

/-- The number before the end of the authority or a backslash, and what comes after it. -/
def readPort (cs : List Char) : Except HostFault (Option Nat × List Char) :=
  let digits := cs.takeWhile Char.isDigit
  let rest := cs.dropWhile Char.isDigit
  let value := (Text.number? 10 digits).getD 0
  if 65535 < value || !(rest.isEmpty || rest.head? == some '\\') then .error .port
  else .ok (if digits.isEmpty then none else some value, rest)

/-- Whether user information names anybody. -/
def namesUser (user : List Char) : Bool := !(user.isEmpty || user == [':'])

def readHost (web : Bool) (cs : List Char) : Except HostFault (Option Host) :=
  if web then (Host.readDomain cs).map some
  else if cs.isEmpty then .ok none
  else (Host.readOpaque cs).map some

/-- The path, which ends before a query or fragment. -/
def readPath (cs : List Char) : List Char :=
  match cs.takeWhile fun c => c != '?' && c != '#' with
  | [] => []
  | '/' :: rest => Segments.normalize rest
  | path => Segments.normalize path

/-- Control characters and blanks at the end and line breaks and tabs anywhere do not count. -/
def clean (cs : List Char) : List Char :=
  (cs.reverse.dropWhile (·.toNat ≤ 0x20)).reverse.filter
    fun c => c != '\t' && c != '\n' && c != '\r'

/-- Read what comes after the `//`. -/
def read (web : Bool) (text : List Char) : Except HostFault Url := do
  let cs := clean text
  let cs := if web then cs.dropWhile fun c => c == '/' || c == '\\' else cs
  let authority := cs.takeWhile (!endsAuthority web ·)
  let after := cs.dropWhile (!endsAuthority web ·)
  let (user, place) := cutLast '@' authority
  if user == some [] && place.isEmpty && !after.isEmpty then throw .empty
  let (hostText, portText) := cutHost false place
  let host ← readHost web hostText
  if host.isNone && !portText.isEmpty then throw .empty
  let (port, rest) ← readPort (portText.drop 1)
  if host.isNone && (user.map namesUser).getD false then throw .empty
  return { host, port, path := readPath (rest ++ after) }

end Url

end InspectorProtocol.Address
