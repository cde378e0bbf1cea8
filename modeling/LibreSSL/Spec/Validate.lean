import LibreSSL.Spec.InetPton

/-!
# Name validators

`x509_constraints_valid_domain_internal` and the four validators layered on it
(`valid_domain`, `valid_host`, `valid_sandns`, `valid_domain_constraint`), and the
local-part character class of the mailbox parser.

The internal validator is a single pass over the name that remembers the byte before
(`prev`), whether it is at the first byte, and the length of the current label
(`component`); `validDomainLoop` is that loop, run over the bytes still to read.
`x509_constraints_valid_host` takes a pointer and a length: `inet_pton` reads the pointer
as a C string, the grammar check reads `len` bytes.
-/

namespace X509Constraints

/-- `DOMAIN_PART_MAX_LEN` (RFC 2821 section 4.5.3.1) -/
def DOMAIN_PART_MAX_LEN : ℕ := 255

/-- `LOCAL_PART_MAX_LEN` (RFC 2821 section 4.5.3.1) -/
def LOCAL_PART_MAX_LEN : ℕ := 64

/-- The loop of `x509_constraints_valid_domain_internal` from byte `i` of a name of `len`
bytes: `prev` is the byte read before, `component` the length of the current label. -/
def validDomainLoop (len : ℕ) : (i : ℕ) → (prev : UInt8) → (component : ℕ) → Bytes → Bool
  | _, _, _, [] => true
  | i, prev, component, c :: rest =>
    let first := i == 0
    -- Everything has to be ASCII, with no NUL byte
    if !isascii c || c == 0 then false
    -- It must be alphanumeric, a '-', '.', '_' or '*'
    else if !isalnum c && c != '-'.toUInt8 && c != '.'.toUInt8 && c != '_'.toUInt8 &&
        c != '*'.toUInt8 then false
    -- '*' can only be the first thing.
    else if c == '*'.toUInt8 && !first then false
    -- '-' must not start a component or be at the end.
    else if c == '-'.toUInt8 && (component == 0 || i == len - 1) then false
    -- '.' must not be at the end. It may be first overall but must not otherwise start a
    -- component.
    else if c == '.'.toUInt8 && ((component == 0 && !first) || i == len - 1) then false
    else if c == '.'.toUInt8 then
      -- Components can not end with a dash.
      if prev == '-'.toUInt8 then false
      else validDomainLoop len (i + 1) c 0 rest
    -- Components must be 63 chars or less.
    else if component + 1 > 63 then false
    else validDomainLoop len (i + 1) c (component + 1) rest

/-- `x509_constraints_valid_domain_internal(name, len)` -/
def validDomainInternal (name : Bytes) : Bool :=
  if name.length > DOMAIN_PART_MAX_LEN then false
  else validDomainLoop name.length 0 0 0 name

/-- `x509_constraints_valid_domain(name, len)` -/
def validDomain (name : Bytes) : Bool :=
  if name.length == 0 then false
  -- wildcard not allowed in a domain name
  else if name.getD 0 0 == '*'.toUInt8 then false
  else if name.length < 3 && name.getD 0 0 == '.'.toUInt8 then false
  else validDomainInternal name

/-- `x509_constraints_valid_host(name, len)`: `name` is the memory from the pointer on, read
by `inet_pton` as a C string; `len` bytes of it are the host. -/
def validHost (name : Bytes) (len : ℕ) : Bool :=
  if len == 0 then false
  -- wildcard not allowed in a host name
  else if name.getD 0 0 == '*'.toUInt8 then false
  -- leading . not allowed in a host name
  else if name.getD 0 0 == '.'.toUInt8 then false
  else if inetPton4 name then false
  else if inetPton6 name then false
  else validDomainInternal (name.take len)

/-- `x509_constraints_valid_sandns(name, len)` -/
def validSandns (name : Bytes) : Bool :=
  if name.length == 0 then false
  -- leading . not allowed in a SAN DNS name
  else if name.getD 0 0 == '.'.toUInt8 then false
  else if name.length < 4 && name.getD 0 0 == '*'.toUInt8 then false
  -- A wildcard may only be followed by a '.'
  else if name.length ≥ 4 && name.getD 0 0 == '*'.toUInt8 && name.getD 1 0 != '.'.toUInt8 then
    false
  else validDomainInternal name

/-- `x509_constraints_valid_domain_constraint(constraint, len)` -/
def validDomainConstraint (constraint : Bytes) : Bool :=
  -- empty constraints match
  if constraint.length == 0 then true
  -- wildcard not allowed in a constraint
  else if constraint.getD 0 0 == '*'.toUInt8 then false
  else if constraint.length < 3 && constraint.getD 0 0 == '.'.toUInt8 then false
  else validDomainInternal constraint

/-- `local_part_ok(c)` -/
def localPartOk (c : UInt8) : Bool :=
  ('0'.toUInt8 ≤ c && c ≤ '9'.toUInt8) || ('a'.toUInt8 ≤ c && c ≤ 'z'.toUInt8) ||
    ('A'.toUInt8 ≤ c && c ≤ 'Z'.toUInt8) ||
    ['!', '#', '$', '%', '&', '*', '+', '-', '/', '=', '?', '^', '_', '{', '|', '}', '~',
      '.'].any (fun x => c == x.toUInt8) ||
    -- the apostrophe and the backquote
    c == 39 || c == 96

end X509Constraints
