import SeriesQuery.Json.Tree

/-!
# Addresses of the backend

A request goes to a fixed place below the address of the backend.  It can be sent when
the address has a scheme of the web and a host that can be one: a name, four numbers, or
numbers in brackets, each with an optional port.
-/

namespace SeriesQuery.Backend

open SeriesQuery.Decimal (natOfDigits)
open SeriesQuery.Json (hexValue?)

/-- Where requests go, below the address of the backend. -/
def queryPath : String := "/api/v1/datapoints/query"

/-- The place where requests to a backend go. -/
def queryAddress (base : String) : List Char :=
  (base.toList.reverse.dropWhile (· == '/')).reverse ++ queryPath.toList

/-! ## Hosts -/

/-- Characters that a host name cannot hold. -/
def forbiddenInHost : List Char :=
  ['\x00', '\t', '\n', '\r', ' ', '#', '/', '<', '>', '?', '@', '[', '\\', ']',
    '^', '|', '%']

/-- The number that digits of a base denote; no digits denote zero. -/
def numberInBase? (base : Nat) (ds : List Char) : Option Nat :=
  ds.foldlM (fun n c => do
    let d ← hexValue? c
    if d < base then some (base * n + d) else none) 0

/-- A part of a host written in numbers: hexadecimal after `0x`, octal after a zero, or
decimal. -/
def hostNumber? : List Char → Option Nat
  | [] => none
  | ['0'] => some 0
  | '0' :: 'x' :: ds => numberInBase? 16 ds
  | '0' :: 'X' :: ds => numberInBase? 16 ds
  | '0' :: ds => numberInBase? 8 ds
  | ds => numberInBase? 10 ds

/-- The parts of a host between its points; a point at the end counts for nothing. -/
def hostParts (host : List Char) : List (List Char) :=
  let parts := host.splitOn '.'
  if 1 < parts.length && parts.getLast? == some [] then parts.dropLast else parts

/-- Whether numbers make an address of 32 bits: all but the last give eight bits each,
and the last gives the rest. -/
def fillAddress : List Nat → Bool
  | [] => false
  | ns => ns.length ≤ 4 && ns.dropLast.all (· < 256) &&
      ns.getLast?.any (· < Nat.pow 2 (8 * (5 - ns.length)))

/-- Whether a host that ends in a number is an address in numbers. -/
def isHostName (host : List Char) : Bool :=
  let parts := hostParts host
  let endsInNumber := parts.getLast?.any fun p =>
    (!p.isEmpty && p.all Char.isDigit) || (hostNumber? p).isSome
  !endsInNumber || (parts.mapM hostNumber?).any fillAddress

/-- Whether a text is a port or nothing. -/
def isPort (s : List Char) : Bool := s.all Char.isDigit && natOfDigits s < Nat.pow 2 16

/-- Whether a text is a host, in brackets or not, with an optional port. -/
def isHostAndPort (s : List Char) : Bool :=
  match s with
  | '[' :: r =>
    match r.dropWhile (· != ']') with
    | [']'] => (r.takeWhile (· != ']')).contains ':'
    | ']' :: ':' :: port => (r.takeWhile (· != ']')).contains ':' && isPort port
    | _ => false
  | _ =>
    let host := s.takeWhile (· != ':')
    !host.isEmpty && host.all (fun c => !forbiddenInHost.contains c) &&
      isHostName host && isPort ((s.dropWhile (· != ':')).drop 1)

/-! ## Addresses -/

/-- The characters of an address that count: blanks and controls around it do not, and
neither do tabs and line ends in it. -/
def addressChars (s : List Char) : List Char :=
  let isEdge (c : Char) : Bool := c.toNat ≤ 32
  ((s.dropWhile isEdge).reverse.dropWhile isEdge).reverse.filter fun c =>
    c != '\t' && c != '\n' && c != '\r'

/-- Whether requests can be sent to an address: it has a scheme for the web and a
host. -/
def isWebAddress (s : List Char) : Bool :=
  let s := addressChars s
  let scheme := String.ofList (s.takeWhile (· != ':')) |>.toLower
  match s.dropWhile (· != ':') with
  | ':' :: r =>
    (scheme == "http" || scheme == "https") &&
      let authority := (r.dropWhile fun c => c == '/' || c == '\\').takeWhile
        fun c => !(['/', '\\', '?', '#'].contains c)
      isHostAndPort ((authority.reverse.takeWhile (· != '@')).reverse)
  | _ => false

end SeriesQuery.Backend
