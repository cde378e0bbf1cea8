import LibreSSL.Spec.Bytes

/-!
# `inet_pton`

`x509_constraints_valid_host` refuses a name that `inet_pton` parses as a literal IPv4 or
IPv6 address. `inet_pton` is libc code that is not in the sources modelled here; it is
modelled from the specification's words ("parses as a literal IPv4 or IPv6 address"), as
the classic dotted-quad and colon-hex scanners over a NUL-terminated string. Only whether
it returns 1 matters to the caller, so the address bytes are not kept.
-/

namespace X509Constraints

/-- A decimal digit, with its value. -/
def digitVal (c : UInt8) : Option ℕ :=
  if '0'.toUInt8 ≤ c && c ≤ '9'.toUInt8 then some (c - '0'.toUInt8).toNat else none

/-- A hexadecimal digit of either case, with its value. -/
def xdigitVal (c : UInt8) : Option ℕ :=
  if 'a'.toUInt8 ≤ c && c ≤ 'f'.toUInt8 then some ((c - 'a'.toUInt8).toNat + 10)
  else if 'A'.toUInt8 ≤ c && c ≤ 'F'.toUInt8 then some ((c - 'A'.toUInt8).toNat + 10)
  else digitVal c

/-- The dotted-quad scanner: `sawDigit`, the octets begun, and the current octet's value. -/
def inetPton4Loop (sawDigit : Bool) (octets cur : ℕ) : Bytes → Bool
  | [] => 4 ≤ octets
  | ch :: rest =>
    match digitVal ch with
    | some d =>
      if cur * 10 + d > 255 then false
      else if !sawDigit && octets + 1 > 4 then false
      else inetPton4Loop true (if sawDigit then octets else octets + 1) (cur * 10 + d) rest
    | none =>
      if ch == '.'.toUInt8 && sawDigit then
        if octets == 4 then false else inetPton4Loop false octets 0 rest
      else false

/-- Modelled from the spec: `inet_pton(AF_INET, src, dst) == 1` (libc, not in the sources):
`src`, read as a C string, is a literal IPv4 address, four decimal octets of at most 255
separated by dots. -/
def inetPton4 (src : Bytes) : Bool := inetPton4Loop false 0 0 (cstr src)

/-- The colon-hex scanner's state: bytes of the address filled (`tp`), where `::` stood
(`colonp`), and the group being read. -/
structure Pton6State where
  tp : ℕ
  colonp : Option ℕ
  sawXdigit : Bool
  countXdigit : ℕ
  val : ℕ

/-- The colon-hex scanner over the rest of the string; `curtok` is where the current group
began, handed to the dotted-quad scanner at a `.`. `none` is a refusal. -/
def inetPton6Loop (curtok : Bytes) (s : Pton6State) : Bytes → Option Pton6State
  | [] => some s
  | ch :: rest =>
    match xdigitVal ch with
    | some d =>
      if 4 ≤ s.countXdigit then none
      else if s.val * 16 + d > 0xffff then none
      else inetPton6Loop curtok
        { s with val := s.val * 16 + d, sawXdigit := true, countXdigit := s.countXdigit + 1 } rest
    | none =>
      if ch == ':'.toUInt8 then
        if !s.sawXdigit then
          if s.colonp.isSome then none
          else inetPton6Loop rest { s with colonp := some s.tp } rest
        else if rest.isEmpty then none
        else if s.tp + 2 > 16 then none
        else
          inetPton6Loop rest
            { s with tp := s.tp + 2, sawXdigit := false, countXdigit := 0, val := 0 } rest
      else if ch == '.'.toUInt8 && s.tp + 4 ≤ 16 && inetPton4 curtok then
        some { s with tp := s.tp + 4, sawXdigit := false, countXdigit := 0 }
      else none

/-- After the scan: the last group is stored, and a `::` fills the address up to 16 bytes. -/
def inetPton6Finish (s : Pton6State) : Bool :=
  let tp := if s.sawXdigit then s.tp + 2 else s.tp
  if s.sawXdigit && s.tp + 2 > 16 then false
  else match s.colonp with
    | some _ => tp != 16
    | none => tp == 16

/-- Modelled from the spec: `inet_pton(AF_INET6, src, dst) == 1` (libc, not in the sources):
`src`, read as a C string, is a literal IPv6 address, eight colon-separated groups of at most
four hexadecimal digits, at most one `::` standing for missing groups, the last two groups
possibly written as a dotted quad. -/
def inetPton6 (src : Bytes) : Bool :=
  let start : Option Bytes :=
    match cstr src with
    | c :: rest =>
      if c == ':'.toUInt8 then (if rest.head? == some ':'.toUInt8 then some rest else none)
      else some (c :: rest)
    | [] => some []
  match start with
  | none => false
  | some s =>
    match inetPton6Loop s ⟨0, none, false, 0, 0⟩ s with
    | none => false
    | some st => inetPton6Finish st

example : inetPton4 (ascii "1.2.3.4") = true := by decide
example : inetPton6 (ascii "fe80::1") = true := by decide
example : inetPton6 (ascii "::ffff:1.2.3.4") = true := by decide

end X509Constraints
