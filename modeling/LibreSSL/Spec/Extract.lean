import LibreSSL.Spec.Match

/-!
# Extracting names and constraints

`x509_constraints_extract_names` records a certificate's subjectAltNames, its subject as a
directory name, and, for the leaf, the subject's email addresses and host-like common names
(unless a SAN of that kind was seen). The two subject loops walk the entries with
`X509_NAME_get_index_by_NID`, from the cursor `i` the SAN loop leaves behind.

`x509_constraints_validate` turns one constraint base into a record, and
`x509_constraints_extract_constraints` runs it over the permitted, then the excluded
subtrees.

In this model every allocation succeeds; `Alloc` models the allocation failures.
-/

namespace X509Constraints

/-- The scan of `X509_NAME_get_index_by_NID` over the entries from index `k` on. -/
def indexFrom (nid : ℕ) (lastpos : ℤ) : ℕ → List NameEntry → ℤ
  | _, [] => -1
  | k, e :: es => if lastpos < k ∧ e.nid = nid then k else indexFrom nid lastpos (k + 1) es

/-- Modelled from the spec: `X509_NAME_get_index_by_NID(name, nid, lastpos)` (not in the
sources): the least index greater than `lastpos` of an entry with attribute `nid`, or -1. -/
def getIndexByNid (n : X509Name) (nid : ℕ) (lastpos : ℤ) : ℤ := indexFrom nid lastpos 0 n.entries

theorem indexFrom_bounds {nid : ℕ} {lastpos : ℤ} :
    ∀ {k : ℕ} {es : List NameEntry}, 0 ≤ indexFrom nid lastpos k es →
      lastpos < indexFrom nid lastpos k es ∧ k ≤ indexFrom nid lastpos k es ∧
        indexFrom nid lastpos k es < k + es.length
  | _, [], h => by simp [indexFrom] at h
  | k, e :: es, h => by
    unfold indexFrom at h ⊢
    split
    · simp only [List.length_cons]; omega
    · rw [if_neg ‹_›] at h
      have := indexFrom_bounds h
      simp only [List.length_cons]; omega

theorem getIndexByNid_bounds {n : X509Name} {nid : ℕ} {lastpos : ℤ}
    (h : 0 ≤ getIndexByNid n nid lastpos) :
    lastpos < getIndexByNid n nid lastpos ∧ getIndexByNid n nid lastpos < n.entries.length := by
  have := indexFrom_bounds h
  exact ⟨this.1, by simpa using this.2.2⟩

/-- A loop `while ((i = X509_NAME_get_index_by_NID(subject, nid, i)) >= 0)` of
`x509_constraints_extract_names`, whose body maps an entry's bytes to a record to add, to
`continue` (`none`), or to an error. It returns the records and the final `i`. -/
def entriesLoop (subject : X509Name) (nid : ℕ) (body : Bytes → Except VerifyError (Option Name))
    (i : ℤ) : Except VerifyError (List Name × ℤ) :=
  let j := getIndexByNid subject nid i
  if h : 0 ≤ j then
    match body (subject.entries.getD j.toNat ⟨0, []⟩).data with
    | .error e => .error e
    | .ok none => entriesLoop subject nid body j
    | .ok (some v) => (entriesLoop subject nid body j).map fun r => (v :: r.1, r.2)
  else .ok ([], j)
termination_by ((subject.entries.length : ℤ) - i).toNat
decreasing_by all_goals have := getIndexByNid_bounds h; omega

/-- The body of the subject email loop: the attribute must parse as a mailbox. -/
def emailBody (aname : Bytes) : Except VerifyError (Option Name) :=
  match parseMailbox aname with
  | none => .error .unsupportedNameSyntax
  | some (l, d) => .ok (some { type := .email, name := d, localPart := some l })

/-- The body of the subject common-name loop: a name that is not a hostname is skipped. -/
def cnBody (aname : Bytes) : Except VerifyError (Option Name) :=
  -- ignore it if not a hostname
  if !validHost aname aname.length then .ok none
  else .ok (some { type := .dns, name := strndup aname aname.length })

/-- One subjectAltName entry in the SAN loop of `x509_constraints_extract_names`: the record
it adds, `none` for an ignored type, or the error. -/
def sanName (name : GeneralName) : Except VerifyError (Option Name) :=
  match generalToBytes name with
  | some (.dns, bytes) =>
    if !validSandns (bytes.getD []) then .error .unsupportedNameSyntax
    else .ok (some { type := .dns, name := strdup (bytes.getD []) })
  | some (.email, bytes) =>
    match parseMailbox (bytes.getD []) with
    | none => .error .unsupportedNameSyntax
    | some (l, d) => .ok (some { type := .email, name := d, localPart := some l })
  | some (.uri, bytes) =>
    match uriHost (bytes.getD []) with
    | none => .error .unsupportedNameSyntax
    | some h => .ok (some { type := .uri, name := h })
  | some (.dirName, bytes) =>
    match bytes with
    | none => .error .outOfMem
    | some b =>
      if b.length == 0 then .error .unsupportedNameSyntax
      else .ok (some { type := .dirName, der := b })
  | some (.ipAdd, bytes) =>
    let b := bytes.getD []
    let af : Af := if b.length == 4 then .inet else if b.length == 16 then .inet6 else .unspec
    if af != .inet && af != .inet6 then .error .unsupportedNameSyntax
    else .ok (some { type := .ipAdd, af, address := b })
  -- Ignore this name
  | none => .ok none

/-- The SAN loop of `x509_constraints_extract_names` from index `i`: the records, the flags
`include_cn` and `include_email`, and the cursor it leaves, one past the index at which
`sk_GENERAL_NAME_value` returned NULL. -/
def sanLoop (includeCn includeEmail : Bool) (i : ℕ) :
    List GeneralName → Except VerifyError (List Name × Bool × Bool × ℤ)
  | [] => .ok ([], includeCn, includeEmail, i + 1)
  | name :: rest =>
    match sanName name with
    | .error e => .error e
    | .ok none => sanLoop includeCn includeEmail (i + 1) rest
    | .ok (some v) =>
      -- don't use cn (email) from subject
      (sanLoop (includeCn && v.type != .dns) (includeEmail && v.type != .email) (i + 1) rest).map
        fun r => (v :: r.1, r.2)

/-- `x509_constraints_extract_names(names, cert, is_leaf, &error)`: the records it appends. -/
def extractNames (cert : Cert) (isLeaf : Bool) : Except VerifyError (List Name) :=
  match sanLoop isLeaf isLeaf 0 cert.altname with
  | .error e => .error e
  | .ok (sans, includeCn, includeEmail, i) =>
    let subject := cert.subject
    if subject.entries.length > 0 then
      let dn : Name := { type := .dirName, der := subject.canonEnc.getD [] }
      match (if includeEmail then entriesLoop subject NID_pkcs9_emailAddress emailBody i
          else .ok ([], i)) with
      | .error e => .error e
      | .ok (emails, i) =>
        match (if includeCn then entriesLoop subject NID_commonName cnBody i else .ok ([], i)) with
        | .error e => .error e
        | .ok (cns, _) => .ok (sans ++ dn :: emails ++ cns)
    else .ok sans

/-- `x509_constraints_validate(constraint, name, &error)`: the record, or `none` when the type
is not one the core handles (`name->type` left 0). -/
def validate (constraint : GeneralName) : Except VerifyError (Option Name) :=
  match generalToBytes constraint with
  | some (.dirName, bytes) =>
    match bytes with
    | none => .error .outOfMem
    | some b =>
      -- XXX The RFC's are delightfully vague
      if b.length == 0 then .error .unsupportedConstraintSyntax
      else .ok (some { type := .dirName, der := b })
  | some (.dns, bytes) =>
    if !validDomainConstraint (bytes.getD []) then .error .unsupportedConstraintSyntax
    else .ok (some { type := .dns, name := strdup (bytes.getD []) })
  | some (.email, bytes) =>
    let b := bytes.getD []
    if b.contains '@'.toUInt8 then
      match parseMailbox b with
      | none => .error .unsupportedConstraintSyntax
      | some (l, d) => .ok (some { type := .email, name := d, localPart := some l })
    else if !validDomainConstraint b then .error .unsupportedConstraintSyntax
    else .ok (some { type := .email, name := strdup b })
  -- Constraints are ip then mask
  | some (.ipAdd, bytes) =>
    let b := bytes.getD []
    if b.length == 8 then .ok (some { type := .ipAdd, af := .inet, address := b })
    else if b.length == 32 then .ok (some { type := .ipAdd, af := .inet6, address := b })
    else .error .unsupportedConstraintSyntax
  | some (.uri, bytes) =>
    if !validDomainConstraint (bytes.getD []) then .error .unsupportedConstraintSyntax
    else .ok (some { type := .uri, name := strdup (bytes.getD []) })
  | none => .ok none

/-- A subtree loop of `x509_constraints_extract_constraints` (the permitted and the excluded
loops are the same code): the records of the bases it keeps. -/
def subtreesLoop : List GeneralSubtree → Except VerifyError (List Name)
  | [] => .ok []
  | subtree :: rest =>
    if subtree.minimum.isSome || subtree.maximum.isSome then .error .subtreeMinmax
    else
      match validate subtree.base with
      | .error e => .error e
      | .ok none => subtreesLoop rest
      | .ok (some v) => (subtreesLoop rest).map (v :: ·)

/-- `x509_constraints_extract_constraints(cert, permitted, excluded, &error)`: the permitted
and excluded records. -/
def extractConstraints (cert : Cert) : Except VerifyError (List Name × List Name) :=
  match cert.nc with
  | none => .ok ([], [])
  | some nc =>
    match subtreesLoop nc.permittedSubtrees with
    | .error e => .error e
    | .ok permitted =>
      match subtreesLoop nc.excludedSubtrees with
      | .error e => .error e
      | .ok excluded => .ok (permitted, excluded)

end X509Constraints
