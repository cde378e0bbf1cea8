import LibreSSL.Spec.Name

/-!
# Matching names against constraints

`x509_constraints_match` dispatches on the record type to the suffix compare of DNS names
(`sandns`), the domain comparator shared by URI hosts and email domains (`domain`), the
masked compare of IP addresses (`ipaddr`) and the byte compare of directory names
(`dirname`). `x509_constraints_check` runs it for every name against every excluded and
permitted constraint.
-/

namespace X509Constraints

/-- `x509_constraints_sandns(sandns, dlen, constraint, len)` -/
def sandns (sandns constraint : Bytes) : Bool :=
  let dlen := strlen sandns
  let len := strlen constraint
  -- an empty constraint matches everything
  if len == 0 then true
  -- match the end of the domain
  else if dlen < len then false
  else strncasecmpEq (sandns.drop (dlen - len)) constraint len

/-- `x509_constraints_domain(domain, dlen, constraint, len)` -/
def domain (domain constraint : Bytes) : Bool :=
  let dlen := strlen domain
  let len := strlen constraint
  -- an empty constraint matches everything
  if len == 0 then true
  -- match the end of the domain
  else if constraint.getD 0 0 == '.'.toUInt8 then
    if dlen < len then false
    else strncasecmpEq (domain.drop (dlen - len)) constraint len
  -- match the end of the constraint
  else if domain.getD 0 0 == '.'.toUInt8 then
    if len < dlen then false
    else strncasecmpEq (constraint.drop (len - dlen)) domain dlen
  -- otherwise we must exactly match the constraint
  else if dlen != len then false
  else strncasecmpEq domain constraint len

/-- `x509_constraints_uri(uri, ulen, constraint, len, &error)`: whether the URI's host matches
the constraint, or the error it sets. -/
def uri (uri constraint : Bytes) : Except VerifyError Bool :=
  match uriHost uri with
  | none => .error .unsupportedNameSyntax
  | some hostpart =>
    if !validDomainConstraint constraint then .error .unsupportedConstraintSyntax
    else .ok (domain hostpart constraint)

/-- `x509_constraints_ipaddr(address, alen, constraint, len)`; bytes past a record's copied
address read as 0, as in the zeroed record. -/
def ipaddr (address : Bytes) (alen : ℕ) (constraint : Bytes) (len : ℕ) : Bool :=
  if alen * 2 != len then false
  else (List.range alen).all fun i =>
    (address.getD i 0 &&& constraint.getD (alen + i) 0) ==
      (constraint.getD i 0 &&& constraint.getD (alen + i) 0)

/-- `x509_constraints_dirname(dirname, dlen, constraint, len)` -/
def dirname (dirname constraint : Bytes) : Bool :=
  if constraint.length != dirname.length then false
  else memcmpEq constraint dirname constraint.length

/-- `x509_constraints_match(name, constraint)` -/
def constraintsMatch (name constraint : Name) : Bool :=
  if name.type != constraint.type then false
  else match name.type with
  | .dns => sandns name.name constraint.name
  | .uri => domain name.name constraint.name
  | .ipAdd =>
    let nlen := if name.af == .inet then 4 else 16
    let clen := if name.af == .inet then 8 else 32
    if name.af != .inet && name.af != .inet6 then false
    else if constraint.af != .inet && constraint.af != .inet6 then false
    else if name.af != constraint.af then false
    else ipaddr name.address nlen constraint.address clen
  | .email =>
    match constraint.localPart with
    -- mailbox local and domain parts must exactly match
    | some l => strcmpEq (name.localPart.getD []) l && strcmpEq name.name constraint.name
    -- otherwise match the constraint to the domain part
    | none => domain name.name constraint.name
  | .dirName => dirname name.der constraint.der

/-- The permitted loop of `x509_constraints_check` for one name: how many permitted
constraints of the name's type it saw (`permitted_seen`) and whether one matched
(`permitted_matched`); it stops at the first match. -/
def permittedLoop (name : Name) : List Name → ℕ × Bool
  | [] => (0, false)
  | p :: ps =>
    let seen := if p.type == name.type then 1 else 0
    if constraintsMatch name p then (seen, true)
    else
      let r := permittedLoop name ps
      (seen + r.1, r.2)

/-- The two checks of `x509_constraints_check` on one name. -/
def checkName (permitted excluded : List Name) (name : Name) : Except VerifyError Unit :=
  if excluded.any (constraintsMatch name) then .error .excludedViolation
  else
    let r := permittedLoop name permitted
    if r.1 != 0 && !r.2 then .error .permittedViolation
    else .ok ()

/-- `x509_constraints_check(names, permitted, excluded, &error)` -/
def check : (names permitted excluded : List Name) → Except VerifyError Unit
  | [], _, _ => .ok ()
  | name :: names, permitted, excluded =>
    match checkName permitted excluded name with
    | .error e => .error e
    | .ok () => check names permitted excluded

end X509Constraints
