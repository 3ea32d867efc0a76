import ClassMetrics.Endpoint.DomainChars
import ClassMetrics.Endpoint.Percent
import ClassMetrics.Endpoint.Punycode

/-!
Hosts of URLs: domain names, and addresses of either version of the internet protocol, which are
brought into a normal form.
-/

namespace ClassMetrics.Endpoint

/-- Why a text is no URL. -/
inductive UrlFault where
  | relative
  | emptyHost
  | portNumber
  | ipv4
  | ipv6
  | domain
  | hostCharacter
  deriving DecidableEq, Repr

def UrlFault.message : UrlFault → String
  | .relative => "relative URL without a base"
  | .emptyHost => "empty host"
  | .portNumber => "invalid port number"
  | .ipv4 => "invalid IPv4 address"
  | .ipv6 => "invalid IPv6 address"
  | .domain => "invalid international domain name"
  | .hostCharacter => "invalid domain character"

inductive Host where
  | name (text : List Char)
  | ipv4 (address : Nat)
  | ipv6 (pieces : List Nat)
  deriving DecidableEq, Repr

section Ipv4

/-- A part of an address, whose base shows in how it starts. -/
def ipv4Number? (part : List Char) : Option Nat :=
  match part with
  | [] => none
  | '0' :: 'x' :: digits | '0' :: 'X' :: digits => inBase 16 digits
  | '0' :: digit :: digits => inBase 8 (digit :: digits)
  | _ => inBase 10 part
where
  inBase (base : Nat) (digits : List Char) : Option Nat :=
    if isNumeral base digits then some (numeral base digits) else none

/-- Whether the last part of a domain, apart from an empty one, is a number. -/
def endsInNumber (domain : List Char) : Bool :=
  match (domain.splitOn '.').reverse with
  | [] :: part :: _ | part :: _ =>
      (part ≠ [] && part.all Char.isDigit) || (ipv4Number? part).isSome
  | [] => false

/-- The address of at most four parts, of which the last one fills what the others leave. -/
def parseIpv4 (domain : List Char) : Except UrlFault Host :=
  let all := domain.splitOn '.'
  let parts := if all.getLast? = some [] then all.dropLast else all
  match parts.mapM ipv4Number? with
  | none => .error .ipv4
  | some numbers =>
      let front := numbers.dropLast
      let last := numbers.getLastD 0
      if 4 < parts.length ∨ numbers = [] ∨ front.any (255 < ·) ∨
          Nat.pow 256 (4 - front.length) ≤ last then
        .error .ipv4
      else
        .ok (.ipv4 (front.zipIdx.foldl
          (fun sum (number, index) => sum + number * Nat.pow 256 (3 - index)) last))

end Ipv4

section Ipv6

/-- A part of an address in dotted form that ends an address of the longer kind. -/
def dottedNumber? (part : List Char) : Option Nat :=
  if part = [] ∨ !part.all Char.isDigit ∨ (1 < part.length ∧ part.head? = some '0') ∨
      255 < numeral 10 part then none
  else some (numeral 10 part)

/-- The two pieces that an address in dotted form stands for. -/
def dottedPieces? (text : List Char) : Option (List Nat) := do
  match ← (text.splitOn '.').mapM dottedNumber? with
  | [a, b, c, d] => return [a * 256 + b, c * 256 + d]
  | _ => none

/-- Reads pieces behind those that are given, and where zeros are left out among them. -/
def ipv6Pieces? (pieces : List Nat) (gap? : Option Nat) (text : List Char) :
    Option (List Nat × Option Nat) :=
  match text with
  | [] => some (pieces, gap?)
  | first :: others =>
      if pieces.length = 8 then none
      else if first = ':' then
        if gap?.isSome then none
        else ipv6Pieces? (pieces ++ [0]) (some (pieces.length + 1)) others
      else
        let digits := ((first :: others).take 4).takeWhile fun char => (hexValue? char).isSome
        match _h : (first :: others).drop digits.length with
        | [] => some (pieces ++ [numeral 16 digits], gap?)
        | separator :: rest =>
            if separator = '.' then
              if digits = [] ∨ 6 < pieces.length then none
              else (dottedPieces? (first :: others)).map fun last => (pieces ++ last, gap?)
            else if separator = ':' ∧ rest ≠ [] then
              ipv6Pieces? (pieces ++ [numeral 16 digits]) gap? rest
            else none
termination_by text.length
decreasing_by
  · simp
  · have hdrop := congrArg List.length _h
    simp only [List.length_drop, List.length_cons] at hdrop ⊢
    omega

/-- An address in brackets, without them. -/
def parseIpv6 (text : List Char) : Except UrlFault Host :=
  let start? : Option (List Nat × Option Nat × List Char) := match text with
    | ':' :: ':' :: rest => some ([0], some 1, rest)
    | ':' :: _ => none
    | _ => if text.length < 2 then none else some ([], none, text)
  match start?.bind fun (pieces, gap?, rest) => ipv6Pieces? pieces gap? rest with
  | some (pieces, some gap) =>
      .ok (.ipv6 (pieces.take gap ++ List.replicate (8 - pieces.length) 0 ++ pieces.drop gap))
  | some (pieces, none) => if pieces.length = 8 then .ok (.ipv6 pieces) else .error .ipv6
  | none => .error .ipv6

/-- The number of zeros that a list starts with. -/
def leadingZeros (pieces : List Nat) : Nat :=
  (pieces.takeWhile (· = 0)).length

/-- The place of the first longest run of zeros, and its length. -/
def longestZeros (pieces : List Nat) : Nat × Nat :=
  (List.range pieces.length).foldl (fun best index =>
    let run := leadingZeros (pieces.drop index)
    if best.2 < run then (index, run) else best) (0, 0)

def piecesText (pieces : List Nat) : List Char :=
  [':'].intercalate (pieces.map (Nat.toDigits 16))

/-- The text of an address. The longest run of two or more zeros is left out. -/
def ipv6Text (pieces : List Nat) : List Char :=
  let (start, length) := longestZeros pieces
  if length < 2 then piecesText pieces
  else piecesText (pieces.take start) ++ [':', ':'] ++ piecesText (pieces.drop (start + length))

end Ipv6

section Domain

/-- The ASCII form of a label. One that is marked as encoded has to stand for other characters than
ASCII ones, in lower case. -/
def labelText? (label : List Char) : Option (List Char) :=
  if label.any (0x80 ≤ ·.toNat) then some (['x', 'n', '-', '-'] ++ Punycode.encode label)
  else match label with
    | 'x' :: 'n' :: '-' :: '-' :: encoded =>
        match Punycode.decode? encoded with
        | some decoded =>
            if decoded.any (0x80 ≤ ·.toNat) && decoded.all fun char => mapped char = [char] then
              some label
            else none
        | none => none
    | _ => some label

/-- The ASCII form of a domain name that is given by its bytes. -/
def domainText? (bytes : Bytes) : Option (List Char) := do
  let text := (← Utf8.decode? bytes).toList.flatMap mapped
  if text.all isDomainChar then
    let labels ← (text.splitOn '.').mapM labelText?
    return ['.'].intercalate labels
  else none

end Domain

namespace Host

/-- What stands between the first and the last of the brackets around an address. -/
def bracketed? : List Char → Option (Except UrlFault Host)
  | '[' :: rest =>
      if rest.getLast? = some ']' then some (parseIpv6 rest.dropLast) else some (.error .ipv6)
  | _ => none

/-- The host of a URL whose scheme is known. -/
def parse (text : List Char) : Except UrlFault Host :=
  match bracketed? text with
  | some result => result
  | none =>
      match domainText? (percentDecode text) with
      | none => .error .domain
      | some [] => .error .emptyHost
      | some domain => if endsInNumber domain then parseIpv4 domain else .ok (.name domain)

/-- Characters that no host may have. -/
def forbidden : List Char :=
  ['\x00', '\t', '\n', '\r', ' ', '#', '/', ':', '<', '>', '?', '@', '[', '\\', ']', '^', '|']

/-- The host of a URL of any other scheme. -/
def parseOpaque (text : List Char) : Except UrlFault Host :=
  match bracketed? text with
  | some result => result
  | none =>
      if text.any forbidden.contains then .error .hostCharacter
      else .ok (.name (percentEncode .controls text))

def text : Host → List Char
  | .name text => text
  | .ipv4 address =>
      ['.'].intercalate
        ([address / 0x1000000, address / 0x10000 % 256, address / 256 % 256, address % 256].map
          (Nat.toDigits 10))
  | .ipv6 pieces => '[' :: ipv6Text pieces ++ [']']

end Host

end ClassMetrics.Endpoint
