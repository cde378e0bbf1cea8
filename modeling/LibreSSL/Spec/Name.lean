import LibreSSL.Spec.Parse

/-!
# Certificates and name records

The certificate-decoding layer hands the core, per certificate, the subjectAltName entries
(`GENERAL_NAME`s), the subject (`X509_NAME`: its entries and its canonical encoding) and the
NameConstraints extension if present. The core turns names and constraint bases into
`x509_constraints_name` records.

A record's `type` is one of the five general-name types the core handles; `name` is the
string for DNS, URI and email records, `localPart` the mailbox local part (`local`, absent
for a domain-only email constraint), `der` the canonical encoding of a directory name
(`der_len` is its length), `af` and `address` an IP address (and mask, for a constraint).
-/

namespace X509Constraints

/-- The general-name types the core handles: `GEN_EMAIL`, `GEN_DNS`, `GEN_DIRNAME`,
`GEN_URI`, `GEN_IPADD`. -/
inductive NameType
  | email
  | dns
  | dirName
  | uri
  | ipAdd
  deriving DecidableEq, Repr

/-- The address family of an IP record: unset, `AF_INET` or `AF_INET6`. -/
inductive Af
  | unspec
  | inet
  | inet6
  deriving DecidableEq, Repr

/-- `struct x509_constraints_name` -/
structure Name where
  type : NameType
  name : Bytes := []
  localPart : Option Bytes := none
  der : Bytes := []
  af : Af := .unspec
  address : Bytes := []
  deriving DecidableEq, Repr

/-- `X509_V_ERR_*`, the errors the core reports. -/
inductive VerifyError
  | unspecified
  | outOfMem
  | unsupportedNameSyntax
  | unsupportedConstraintSyntax
  | subtreeMinmax
  | excludedViolation
  | permittedViolation
  deriving DecidableEq, Repr

/-- Results are compared, so that statements about a run's outcome can be decided. -/
instance instDecidableEqExcept {ε α : Type} [DecidableEq ε] [DecidableEq α] :
    DecidableEq (Except ε α)
  | .error a, .error b => decidable_of_iff (a = b) (by simp)
  | .ok a, .ok b => decidable_of_iff (a = b) (by simp)
  | .error _, .ok _ => isFalse (by simp)
  | .ok _, .error _ => isFalse (by simp)

/-- An entry of an `X509_NAME`: its attribute's NID and its value's bytes (`length` of
them). -/
structure NameEntry where
  nid : ℕ
  data : Bytes
  deriving DecidableEq, Repr

/-- `NID_commonName` -/
def NID_commonName : ℕ := 13

/-- `NID_pkcs9_emailAddress` -/
def NID_pkcs9_emailAddress : ℕ := 48

/-- An `X509_NAME`: its entries, and its canonical encoding `canon_enc` (a null pointer is
`none`; `canon_enclen` is the length). -/
structure X509Name where
  entries : List NameEntry
  canonEnc : Option Bytes
  deriving DecidableEq, Repr

/-- A `GENERAL_NAME`. DNS names, rfc822Names and URIs are IA5 strings, given by their
content bytes (the data is NUL-terminated after them); `other` is every type the core
does not handle. -/
inductive GeneralName
  | email (s : Bytes)
  | dns (s : Bytes)
  | dirName (n : X509Name)
  | uri (s : Bytes)
  | ipAdd (s : Bytes)
  | other (type : ℕ)
  deriving DecidableEq, Repr

/-- A `GENERAL_SUBTREE`: its base, and whether the optional `minimum` and `maximum` are
present. -/
structure GeneralSubtree where
  base : GeneralName
  minimum : Option ℕ := none
  maximum : Option ℕ := none
  deriving DecidableEq, Repr

/-- `NAME_CONSTRAINTS` -/
structure NameConstraints where
  permittedSubtrees : List GeneralSubtree
  excludedSubtrees : List GeneralSubtree
  deriving DecidableEq, Repr

/-- The fields of an `X509` the core reads. -/
structure Cert where
  altname : List GeneralName
  subject : X509Name
  nc : Option NameConstraints
  deriving DecidableEq, Repr

/-- `x509_constraints_general_to_bytes(name, &bytes, &len)`: the type it returns (`none` for
0) and the bytes (`none` for a null pointer). IA5 strings are measured with `strlen`. -/
def generalToBytes : GeneralName → Option (NameType × Option Bytes)
  | .dns s => some (.dns, some (cstr s))
  | .email s => some (.email, some (cstr s))
  | .uri s => some (.uri, some (cstr s))
  | .dirName n => some (.dirName, n.canonEnc)
  | .ipAdd s => some (.ipAdd, some s)
  | .other _ => none

end X509Constraints
