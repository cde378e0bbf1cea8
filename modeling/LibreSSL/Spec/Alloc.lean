import LibreSSL.Spec.Extract

/-!
# Allocation and encoding failures

The other modules let every allocation succeed. Here the outcomes of the fallible calls made
for one constraint base are inputs, and the records keep the code's null pointers:
`validateAlloc` is `x509_constraints_validate` and `extractConstraintsAlloc` is
`x509_constraints_extract_constraints`, under every pattern of outcomes.
-/

namespace X509Constraints

/-- The outcomes of the fallible calls made for one constraint base:
`x509_constraints_name_new` (`nameNew`); the re-encoding test of a directory name in
`x509_constraints_general_to_bytes`, `!dname->modified || i2d_X509_NAME(dname, NULL) >= 0`
(`encode`); the `malloc` or `strdup` of the branch `x509_constraints_validate` takes, or the
`strdup`s of `x509_constraints_parse_mailbox`, which fails when either fails (`alloc`); and
the `recallocarray` of `x509_constraints_names_add` (`add`). -/
structure Outcome where
  nameNew : Bool := true
  encode : Bool := true
  alloc : Bool := true
  add : Bool := true
  deriving DecidableEq, Repr

/-- A `struct x509_constraints_name` with its pointers: `type` 0 is `none`, and a null
`name`, `local` or `der` is `none`. `x509_constraints_name_new` gives `{}`. -/
structure RawName where
  type : Option NameType := none
  name : Option Bytes := none
  localPart : Option Bytes := none
  der : Option Bytes := none
  af : Af := .unspec
  address : Bytes := []
  deriving DecidableEq, Repr

/-- The record the code holds for a record of the other modules: the pointers its type uses
are set. -/
def Name.toRaw (v : Name) : RawName where
  type := some v.type
  name := if v.type = .dirName ∨ v.type = .ipAdd then none else some v.name
  localPart := v.localPart
  der := if v.type = .dirName then some v.der else none
  af := v.af
  address := v.address

/-- A record `x509_constraints_match` can use: a non-null `name` for a DNS, URI or email
record, a non-null `der` of positive `der_len` for a directory name. -/
def RawName.usable (r : RawName) : Bool :=
  match r.type with
  | some .dns | some .uri | some .email => r.name.isSome
  | some .dirName => r.der.any fun d => !d.isEmpty
  | _ => true

/-- `x509_constraints_general_to_bytes` given the outcome of the re-encoding test: a
directory name that fails it falls through to `return 0`. -/
def generalToBytesAlloc (encode : Bool) (name : GeneralName) : Option (NameType × Option Bytes) :=
  match name with
  | .dirName n => if encode then some (.dirName, n.canonEnc) else none
  | name => generalToBytes name

/-- `x509_constraints_validate(constraint, name, &error)` on the zeroed record from
`x509_constraints_name_new`, under the outcomes `o`. -/
def validateAlloc (o : Outcome) (constraint : GeneralName) : Except VerifyError RawName :=
  match generalToBytesAlloc o.encode constraint with
  | some (.dirName, bytes) =>
    match bytes with
    | none => .error .outOfMem
    | some b =>
      if !o.alloc then .error .outOfMem
      -- XXX The RFC's are delightfully vague
      else if b.length == 0 then .error .unsupportedConstraintSyntax
      else .ok { type := some .dirName, der := some b }
  | some (.dns, bytes) =>
    if !validDomainConstraint (bytes.getD []) then .error .unsupportedConstraintSyntax
    else if !o.alloc then .error .outOfMem
    else .ok { type := some .dns, name := some (strdup (bytes.getD [])) }
  | some (.email, bytes) =>
    let b := bytes.getD []
    if b.contains '@'.toUInt8 then
      match (if o.alloc then parseMailbox b else none) with
      | none => .error .unsupportedConstraintSyntax
      | some (l, d) => .ok { type := some .email, name := some d, localPart := some l }
    else if !validDomainConstraint b then .error .unsupportedConstraintSyntax
    else if !o.alloc then .error .outOfMem
    else .ok { type := some .email, name := some (strdup b) }
  -- Constraints are ip then mask
  | some (.ipAdd, bytes) =>
    let b := bytes.getD []
    if b.length == 8 then .ok { type := some .ipAdd, af := .inet, address := b }
    else if b.length == 32 then .ok { type := some .ipAdd, af := .inet6, address := b }
    else .error .unsupportedConstraintSyntax
  | some (.uri, bytes) =>
    if !validDomainConstraint (bytes.getD []) then .error .unsupportedConstraintSyntax
    else .ok { type := some .uri, name := if o.alloc then some (strdup (bytes.getD [])) else none }
  | none => .ok {}

/-- A subtree loop of `x509_constraints_extract_constraints` under the outcomes `o i` of the
calls made for the subtree at index `i`: the records it adds. -/
def subtreesLoopAlloc (o : ℕ → Outcome) (i : ℕ) :
    List GeneralSubtree → Except VerifyError (List RawName)
  | [] => .ok []
  | subtree :: rest =>
    if subtree.minimum.isSome || subtree.maximum.isSome then .error .subtreeMinmax
    else if !(o i).nameNew then .error .outOfMem
    else
      match validateAlloc (o i) subtree.base with
      | .error e => .error e
      | .ok v =>
        if v.type.isNone then subtreesLoopAlloc o (i + 1) rest
        else if !(o i).add then .error .outOfMem
        else (subtreesLoopAlloc o (i + 1) rest).map (v :: ·)

/-- `x509_constraints_extract_constraints(cert, permitted, excluded, &error)` under the
outcomes of the calls for the permitted and for the excluded subtrees. -/
def extractConstraintsAlloc (po eo : ℕ → Outcome) (cert : Cert) :
    Except VerifyError (List RawName × List RawName) :=
  match cert.nc with
  | none => .ok ([], [])
  | some nc =>
    match subtreesLoopAlloc po 0 nc.permittedSubtrees with
    | .error e => .error e
    | .ok permitted =>
      match subtreesLoopAlloc eo 0 nc.excludedSubtrees with
      | .error e => .error e
      | .ok excluded => .ok (permitted, excluded)

end X509Constraints
