import LibreSSL.Spec.Validate

/-!
# The mailbox parser and the URI host extractor

`x509_constraints_parse_mailbox` is a loop over the candidate's bytes with a 256-byte
`working` buffer, an index `wi` into it, the flags `accept` (the byte after a backslash is
taken as it is) and `quoted`, and the two parts found so far. Only bytes other than NUL are
ever written, from index 0 on, and the buffer is zeroed when the local part is taken, so the
buffer holds the `wi` bytes written followed by NUL bytes: the state keeps those bytes as
`working`, and `wi` is their count. One iteration is `mailboxStep`; the look-ahead
`candidate[i + 1]` is `ahead`, absent at the last byte (`i + 1 == len`, `i == len - 1`).

`x509_constraints_uri_host` is two scans: one for the first `//`, then one over the
authority for the host.
-/

namespace X509Constraints

/-- The variables of the mailbox loop between two bytes. -/
structure MailboxState where
  working : Bytes
  accept : Bool
  quoted : Bool
  candidateLocal : Option Bytes
  candidateDomain : Option Bytes
  deriving DecidableEq, Repr

/-- The state before the first byte. -/
def MailboxState.init : MailboxState := ⟨[], false, false, none, none⟩

/-- How one iteration of a loop ends: on to the next byte, `break`, or `goto bad`. -/
inductive Flow (σ : Type)
  | next (s : σ)
  | stop
  | bad
  deriving DecidableEq, Repr

/-- One iteration of the loop of `x509_constraints_parse_mailbox`, on byte `c`, `first`
when `i == 0`. -/
def mailboxStep (first : Bool) (c : UInt8) (ahead : Option UInt8) (s : MailboxState) :
    Flow MailboxState :=
  -- non ascii, cr, lf, or nul is never allowed
  if !isascii c || c == '\r'.toUInt8 || c == '\n'.toUInt8 || c == 0 then .bad
  -- can not start with a .
  else if first && c == '.'.toUInt8 then .bad
  else
  -- local part is quoted part
  let quoted := s.quoted || (first && c == '"'.toUInt8)
  if s.working.length > DOMAIN_PART_MAX_LEN then .bad
  else if s.accept then .next { s with quoted, working := s.working ++ [c], accept := false }
  -- We are looking for the domain part
  else if s.candidateLocal.isSome then
    if s.working.length > DOMAIN_PART_MAX_LEN then .bad
    else
      let working := s.working ++ [c]
      if ahead.isNone then
        if working.length == 0 then .bad
        else if s.candidateDomain.isSome then .bad
        else .next { s with quoted, working, candidateDomain := some (strdup working) }
      else .next { s with quoted, working }
  -- We are looking for the local part
  else if s.working.length > LOCAL_PART_MAX_LEN then .stop
  else if quoted then
    if c == '\\'.toUInt8 then .next { s with quoted, accept := true }
    -- end the quoted part. @ must be next
    else if c == '"'.toUInt8 && !first && ahead != some '@'.toUInt8 then .bad
    else
      let quoted := if c == '"'.toUInt8 && !first then false else quoted
      if c == 9 then .bad
      else .next { s with quoted, working := s.working ++ [c] }
  else if c == '@'.toUInt8 then
    if s.working.length == 0 then .bad
    else if s.candidateLocal.isSome then .bad
    else .next { s with quoted, candidateLocal := some (strdup s.working), working := [] }
  -- an escape outside quotes: the next character must be ok
  else if c == '\\'.toUInt8 && (ahead.isNone || !localPartOk (ahead.getD 0)) then .bad
  else
    let accept := if c == '\\'.toUInt8 then true else s.accept
    if !localPartOk c then .bad
    else .next { s with quoted, accept, working := s.working ++ [c] }

/-- The loop of `x509_constraints_parse_mailbox` over the bytes still to read; `none` is
`goto bad`. -/
def mailboxLoop (first : Bool) (s : MailboxState) : Bytes → Option MailboxState
  | [] => some s
  | c :: rest =>
    match mailboxStep first c rest.head? s with
    | .next s' => mailboxLoop false s' rest
    | .stop => some s
    | .bad => none

/-- `x509_constraints_parse_mailbox(candidate, len, name)`: the local and domain parts it
stores in `name` when it returns 1. -/
def parseMailbox (candidate : Bytes) : Option (Bytes × Bytes) :=
  -- It can't be bigger than the local part, domain part and the '@'
  if candidate.length > LOCAL_PART_MAX_LEN + DOMAIN_PART_MAX_LEN + 1 then none
  else
    match mailboxLoop true .init candidate with
    | some ⟨_, _, _, some l, some d⟩ => if validHost d (strlen d) then some (l, d) else none
    | _ => none

/-- The scan of `x509_constraints_uri_host` for the first `//` from byte `i`: the index
after it, `some none` when there is none, `none` at a non-ASCII byte. -/
def authorityLoop : Bytes → ℕ → Option (Option ℕ)
  | a :: b :: rest, i =>
    if !isascii a then none
    else if a == '/'.toUInt8 && b == '/'.toUInt8 then some (some (i + 2))
    else authorityLoop (b :: rest) (i + 1)
  | _, _ => some none

/-- The scan of the authority from byte `i`: `hostlen` and where the host starts after a
userinfo `@`; `none` at a non-ASCII byte. -/
def hostLoop : Bytes → ℕ → ℕ → Option ℕ → Option (ℕ × Option ℕ)
  | [], _, hostlen, host => some (hostlen, host)
  | c :: rest, i, hostlen, host =>
    if !isascii c then none
    -- it has a userinfo part; it can only have one
    else if c == '@'.toUInt8 then
      match host with
      | some _ => some (0, host)
      | none => hostLoop rest (i + 1) 0 (some (i + 1))
    -- did we find the end?
    else if c == ':'.toUInt8 || c == '/'.toUInt8 || c == '?'.toUInt8 || c == '#'.toUInt8 then
      some (hostlen, host)
    else hostLoop rest (i + 1) (hostlen + 1) host

/-- `x509_constraints_uri_host(uri, len, &hostpart)`: the host part it returns. -/
def uriHost (uri : Bytes) : Option Bytes :=
  if uri.length < 3 then none
  else
    match authorityLoop uri 0 with
    | some (some authority) =>
      match hostLoop (uri.drop authority) authority 0 none with
      | some (hostlen, host) =>
        if hostlen == 0 then none
        else
          let h := host.getD authority
          if !validHost (uri.drop h) hostlen then none
          else some (strndup (uri.drop h) hostlen)
      | none => none
    | _ => none

example : parseMailbox (ascii "user@example.com") = some (ascii "user", ascii "example.com") := by
  decide
example :
    uriHost (ascii "https://user@host.example.com:443/path") = some (ascii "host.example.com") := by
  decide

end X509Constraints
