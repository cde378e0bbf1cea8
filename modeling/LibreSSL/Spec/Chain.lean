import LibreSSL.Spec.Extract

/-!
# The chain checker

`x509_constraints_chain` extracts the leaf's names, then walks the chain root-ward. At each
certificate `i ≥ 1` that carries NameConstraints it extracts the permitted and excluded
sets, adds their sizes to `constraints_count` and checks every name gathered so far against
them; then it appends the certificate's own names. On failure it reports the error and the
depth `i`.

The loop's variables between two iterations are the gathered names and
`constraints_count`; one iteration is `chainStep`, in two halves.
-/

namespace X509Constraints

/-- `X509_VERIFY_MAX_CHAIN_NAMES` and `X509_VERIFY_MAX_CHAIN_CONSTRAINTS`, defined in a header
that is not among the sources: parameters of the model. -/
structure Limits where
  maxChainNames : ℕ
  maxChainConstraints : ℕ

/-- A failed chain check: the error code and the depth it reports. -/
structure Failure where
  error : VerifyError
  depth : ℕ
  deriving DecidableEq, Repr

/-- The variables of the chain loop between two iterations. -/
structure ChainState where
  names : List Name
  constraintsCount : ℕ
  deriving DecidableEq, Repr

variable (lim : Limits)

/-- The NameConstraints half of the iteration at depth `i`: the new `constraints_count`, after
the gathered names passed the check. -/
def constrainStep (i : ℕ) (cert : Cert) (st : ChainState) : Except Failure ℕ :=
  match cert.nc with
  | none => .ok st.constraintsCount
  | some _ =>
    match extractConstraints cert with
    | .error e => .error ⟨e, i⟩
    | .ok (permitted, excluded) =>
      let count := st.constraintsCount + permitted.length + excluded.length
      if count > lim.maxChainConstraints then .error ⟨.outOfMem, i⟩
      else
        match check st.names permitted excluded with
        | .error e => .error ⟨e, i⟩
        | .ok () => .ok count

/-- The names half of the iteration at depth `i`: the certificate's own names are appended. -/
def collectStep (i : ℕ) (cert : Cert) (names : List Name) : Except Failure (List Name) :=
  match extractNames cert false with
  | .error e => .error ⟨e, i⟩
  | .ok vs =>
    if (names ++ vs).length > lim.maxChainNames then .error ⟨.outOfMem, i⟩
    else .ok (names ++ vs)

/-- One iteration of the loop of `x509_constraints_chain`, at depth `i`. -/
def chainStep (i : ℕ) (cert : Cert) (st : ChainState) : Except Failure ChainState :=
  match constrainStep lim i cert st with
  | .error f => .error f
  | .ok count =>
    match collectStep lim i cert st.names with
    | .error f => .error f
    | .ok names => .ok ⟨names, count⟩

/-- The loop of `x509_constraints_chain` from depth `i` over the certificates left. -/
def chainLoop (i : ℕ) (st : ChainState) : List Cert → Except Failure ChainState
  | [] => .ok st
  | cert :: rest =>
    match chainStep lim i cert st with
    | .error f => .error f
    | .ok st' => chainLoop (i + 1) st' rest

/-- `x509_constraints_chain(chain, &error, &depth)`: success, or the error and depth it
sets. -/
def chain : List Cert → Except Failure Unit
  | [] => .error ⟨.unspecified, 0⟩
  | [_] => .ok ()
  | leaf :: rest@(_ :: _) =>
    match extractNames leaf true with
    | .error e => .error ⟨e, 0⟩
    | .ok names =>
      match chainLoop lim 1 ⟨names, 0⟩ rest with
      | .error f => .error f
      | .ok _ => .ok ()

end X509Constraints
