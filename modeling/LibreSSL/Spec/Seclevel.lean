import Mathlib.Data.Int.Notation
import Mathlib.Data.Nat.Notation

/-!
# The default security callback of `ssl_seclevel.c`

A security callback is asked whether an operation (`op`) is allowed: a cipher, a protocol
version, compression, session tickets, a DH key, or a key or digest size given in security
`bits`. `ssl_security_default_cb` answers from the security level of the `SSL_CTX` or the
`SSL` it is given, clamped to `0..5`, and the minimum number of bits that level demands. The
certificate checks (`ssl_security_cert`, `ssl_security_cert_chain`) ask whichever callback is
installed about each certificate's key and signature digest.

C `int`s are integers, and a callback's `int` answer is a `Bool`. The values of the `SSL_SECOP_*`
operations, the cipher bits and the version numbers are those of `ssl.h`, `ssl_locl.h` and
`tls1.h`; `ssl_tls_version` (of `ssl_versions.c`) is a parameter, `sslTlsVersion`. The
callback's `ex_data` is not read.
-/

namespace SslSeclevel

/-- The object a security callback is given: an `SSL_CTX` with a NULL `SSL`
(`ssl_ctx_security`), or an `SSL` with a NULL `SSL_CTX` (`ssl_security`). Each is modelled by the
security level it is configured with. -/
inductive Caller
  | ctx (securityLevel : ℤ)
  | ssl (securityLevel : ℤ)
  deriving DecidableEq, Repr

/-- `SSL_CTX_get_security_level(ctx)` if `ctx != NULL`, else `SSL_get_security_level(ssl)`. -/
def Caller.securityLevel : Caller → ℤ
  | .ctx securityLevel => securityLevel
  | .ssl securityLevel => securityLevel

/-- The fields of an `SSL_CIPHER` that the callback reads (`unsigned long` bit sets). -/
structure SslCipher where
  algorithmMkey : ℕ
  algorithmAuth : ℕ
  algorithmEnc : ℕ
  algorithmSsl : ℕ
  deriving DecidableEq, Repr

/-! ## Constants of the headers -/

/-- `SSL_kDHE` -/
def SSL_kDHE : ℕ := 0x00000008
/-- `SSL_kECDHE` -/
def SSL_kECDHE : ℕ := 0x00000080
/-- `SSL_aNULL` -/
def SSL_aNULL : ℕ := 0x00000004
/-- `SSL_RC4` -/
def SSL_RC4 : ℕ := 0x00000004
/-- `SSL_TLSV1_3` -/
def SSL_TLSV1_3 : ℕ := 0x00000008

/-- `TLS1_VERSION` -/
def TLS1_VERSION : ℤ := 0x0301
/-- `TLS1_1_VERSION` -/
def TLS1_1_VERSION : ℤ := 0x0302
/-- `TLS1_2_VERSION` -/
def TLS1_2_VERSION : ℤ := 0x0303

/-- `SSL_SECOP_OTHER_CIPHER`, `(1 << 16)` -/
def SSL_SECOP_OTHER_CIPHER : ℤ := 0x10000
/-- `SSL_SECOP_OTHER_PKEY`, `(4 << 16)` -/
def SSL_SECOP_OTHER_PKEY : ℤ := 0x40000
/-- `SSL_SECOP_CIPHER_SUPPORTED` -/
def SSL_SECOP_CIPHER_SUPPORTED : ℤ := 1 + SSL_SECOP_OTHER_CIPHER
/-- `SSL_SECOP_CIPHER_SHARED` -/
def SSL_SECOP_CIPHER_SHARED : ℤ := 2 + SSL_SECOP_OTHER_CIPHER
/-- `SSL_SECOP_CIPHER_CHECK` -/
def SSL_SECOP_CIPHER_CHECK : ℤ := 3 + SSL_SECOP_OTHER_CIPHER
/-- `SSL_SECOP_TMP_DH` -/
def SSL_SECOP_TMP_DH : ℤ := 7 + SSL_SECOP_OTHER_PKEY
/-- `SSL_SECOP_VERSION` -/
def SSL_SECOP_VERSION : ℤ := 9
/-- `SSL_SECOP_TICKET` -/
def SSL_SECOP_TICKET : ℤ := 10
/-- `SSL_SECOP_COMPRESSION` -/
def SSL_SECOP_COMPRESSION : ℤ := 15

/-! ## Levels and minimum bits -/

/-- `ssl_security_normalize_level`: the configured level, clamped to `0..5`. -/
def securityNormalizeLevel (caller : Caller) : ℤ :=
  let securityLevel := caller.securityLevel
  let securityLevel := if securityLevel < 0 then 0 else securityLevel
  if securityLevel > 5 then 5 else securityLevel

/-- `ssl_security_level_to_minimum_bits`: `none` where the C function returns 0. -/
def securityLevelToMinimumBits (securityLevel : ℤ) : Option ℤ :=
  if securityLevel < 0 then none
  else if securityLevel = 0 then some 0
  else if securityLevel = 1 then some 80
  else if securityLevel = 2 then some 112
  else if securityLevel = 3 then some 128
  else if securityLevel = 4 then some 192
  else some 256 -- security_level >= 5, the only case left

/-- `ssl_security_level_and_minimum_bits`: the normalized level and its minimum bits
(`ssl_security_normalize_level` always succeeds). -/
def securityLevelAndMinimumBits (caller : Caller) : Option (ℤ × ℤ) := do
  let securityLevel := securityNormalizeLevel caller
  let minimumBits ← securityLevelToMinimumBits securityLevel
  return (securityLevel, minimumBits)

/-! ## The operations

An operation's flag and its `SSL_SECOP_OTHER_*` type occupy disjoint bits, so the `|` of the
headers is a sum here. -/

/-- `ssl_security_secop_cipher` -/
def securitySecopCipher (caller : Caller) (bits : ℤ) (cipher : SslCipher) : Bool :=
  match securityLevelAndMinimumBits caller with
  | none => false
  | some (securityLevel, minimumBits) =>
    if securityLevel ≤ 0 then true
    else if bits < minimumBits then false
    -- No unauthenticated ciphersuites.
    else if cipher.algorithmAuth &&& SSL_aNULL ≠ 0 then false
    else if securityLevel ≤ 1 then true
    else if cipher.algorithmEnc = SSL_RC4 then false
    else if securityLevel ≤ 2 then true
    -- Security level >= 3 requires a cipher with forward secrecy.
    else if cipher.algorithmMkey &&& (SSL_kDHE ||| SSL_kECDHE) = 0 ∧
        cipher.algorithmSsl ≠ SSL_TLSV1_3 then false
    else true

section Callback

variable (sslTlsVersion : ℤ → ℤ)

/-- `ssl_security_secop_version` -/
def securitySecopVersion (caller : Caller) (version : ℤ) : Bool :=
  match securityLevelAndMinimumBits caller with
  | none => false
  | some (securityLevel, _) =>
    let minVersion := TLS1_2_VERSION
    let minVersion := if securityLevel < 4 then TLS1_1_VERSION else minVersion
    let minVersion := if securityLevel < 3 then TLS1_VERSION else minVersion
    decide (sslTlsVersion version ≥ minVersion)

/-- `ssl_security_secop_compression` -/
def securitySecopCompression (_caller : Caller) : Bool := false

/-- `ssl_security_secop_tickets` -/
def securitySecopTickets (caller : Caller) : Bool :=
  match securityLevelAndMinimumBits caller with
  | none => false
  | some (securityLevel, _) => decide (securityLevel < 3)

/-- `ssl_security_secop_tmp_dh` -/
def securitySecopTmpDh (caller : Caller) (bits : ℤ) : Bool :=
  match securityLevelAndMinimumBits caller with
  | none => false
  | some (securityLevel, minimumBits) =>
    -- Disallow DHE keys weaker than 1024 bits even at security level 0.
    if securityLevel ≤ 0 ∧ bits < 80 then false
    else decide (bits ≥ minimumBits)

/-- `ssl_security_secop_default` -/
def securitySecopDefault (caller : Caller) (bits : ℤ) : Bool :=
  match securityLevelAndMinimumBits caller with
  | none => false
  | some (_, minimumBits) => decide (bits ≥ minimumBits)

/-- `ssl_security_default_cb(ssl, ctx, op, bits, version, cipher, ex_data)` -/
def securityDefaultCb (caller : Caller) (op bits version : ℤ) (cipher : SslCipher) : Bool :=
  if op = SSL_SECOP_CIPHER_SUPPORTED ∨ op = SSL_SECOP_CIPHER_SHARED ∨
      op = SSL_SECOP_CIPHER_CHECK then
    securitySecopCipher caller bits cipher
  else if op = SSL_SECOP_VERSION then securitySecopVersion sslTlsVersion caller version
  else if op = SSL_SECOP_COMPRESSION then securitySecopCompression caller
  else if op = SSL_SECOP_TICKET then securitySecopTickets caller
  else if op = SSL_SECOP_TMP_DH then securitySecopTmpDh caller bits
  else securitySecopDefault caller bits

/-- `ssl_security_dummy_cb` -/
def securityDummyCb (_caller : Caller) (_op _bits _version : ℤ) (_cipher : SslCipher) : Bool :=
  true

end Callback

/-! ## Certificates and DH keys

`ssl_security_cert` asks the callback installed in the `SSL`'s or `SSL_CTX`'s cert about a
certificate's key, then about its signature digest; `ssl_security_cert_chain` asks it about the
end-entity certificate, then about each certificate of the chain after it. These functions are
compiled with `LIBRESSL_HAS_SECURITY_LEVEL`; without it they return 1.

What they read of a certificate comes from calls outside the sources: the security bits of its
public key, the digest of its signature algorithm (`objFindSigidAlgs`, for
`OBJ_find_sigid_algs`) and the size of that digest (`evpMdSize`, for `EVP_get_digestbynid` and
`EVP_MD_size`). -/

/-- `SSL_SECOP_OTHER_CERT`, `(6 << 16)` -/
def SSL_SECOP_OTHER_CERT : ℤ := 0x60000
/-- `SSL_SECOP_EE_KEY` -/
def SSL_SECOP_EE_KEY : ℤ := 16 + SSL_SECOP_OTHER_CERT
/-- `SSL_SECOP_CA_KEY` -/
def SSL_SECOP_CA_KEY : ℤ := 17 + SSL_SECOP_OTHER_CERT
/-- `SSL_SECOP_CA_MD` -/
def SSL_SECOP_CA_MD : ℤ := 18 + SSL_SECOP_OTHER_CERT
/-- `NID_undef` -/
def NID_undef : ℤ := 0

/-- The reasons `ssl_security_cert` sets in `*out_error`. -/
inductive SslReason
  | SSL_R_EE_KEY_TOO_SMALL
  | SSL_R_CA_KEY_TOO_SMALL
  | SSL_R_CA_MD_TOO_WEAK
  deriving DecidableEq, Repr

/-- What the checks read of an `X509`: the security bits of its public key
(`EVP_PKEY_security_bits` of `X509_get0_pubkey`, `none` where that is NULL) and its signature
algorithm (`X509_get_signature_nid`). -/
structure X509 where
  pubkeySecurityBits : Option ℤ
  signatureNid : ℤ
  deriving DecidableEq, Repr

/-- The callback installed in a cert, `security_cb(ssl, ctx, op, bits, nid, other, ex_data)`,
as the functions below call it: their `other` is the certificate or the DH key, which neither
callback of the sources reads for their operations. -/
abbrev SecurityCb := Caller → ℤ → ℤ → ℤ → Bool

section Cert

variable (cb : SecurityCb)

/-- `ssl_ctx_security_dh(ctx, dh)` and `ssl_security_dh(ssl, dh)`, for a key of
`DH_security_bits(dh)` bits. -/
def securityDh (caller : Caller) (dhSecurityBits : ℤ) : Bool :=
  cb caller SSL_SECOP_TMP_DH dhSecurityBits 0

/-- `ssl_cert_pubkey_security_bits` -/
def certPubkeySecurityBits (x509 : X509) : ℤ :=
  match x509.pubkeySecurityBits with
  | none => -1
  | some securityBits => securityBits

/-- `ssl_security_cert_key` -/
def securityCertKey (caller : Caller) (x509 : X509) (op : ℤ) : Bool :=
  cb caller op (certPubkeySecurityBits x509) 0

variable (objFindSigidAlgs : ℤ → Option ℤ) (evpMdSize : ℤ → Option ℤ)

/-- `ssl_cert_signature_md_nid` -/
def certSignatureMdNid (x509 : X509) : ℤ :=
  if x509.signatureNid = NID_undef then NID_undef
  else
    match objFindSigidAlgs x509.signatureNid with
    | none => NID_undef
    | some mdNid => mdNid

/-- `ssl_cert_md_nid_security_bits` -/
def certMdNidSecurityBits (mdNid : ℤ) : ℤ :=
  if mdNid = NID_undef then -1
  else
    match evpMdSize mdNid with
    | none => -1
    -- Assume 4 bits of collision resistance for each hash octet.
    | some size => size * 4

/-- `ssl_security_cert_sig` -/
def securityCertSig (caller : Caller) (x509 : X509) (op : ℤ) : Bool :=
  let mdNid := certSignatureMdNid objFindSigidAlgs x509
  let securityBits := certMdNidSecurityBits evpMdSize mdNid
  cb caller op securityBits mdNid

/-- `ssl_security_cert(ctx, ssl, x509, is_ee, &out_error)`: success, or the reason it sets. -/
def securityCert (caller : Caller) (x509 : X509) (isEe : Bool) : Except SslReason Unit :=
  let (operation, keyError) :=
    if isEe then (SSL_SECOP_EE_KEY, SslReason.SSL_R_EE_KEY_TOO_SMALL)
    else (SSL_SECOP_CA_KEY, SslReason.SSL_R_CA_KEY_TOO_SMALL)
  if !securityCertKey cb caller x509 operation then .error keyError
  else if !securityCertSig cb objFindSigidAlgs evpMdSize caller x509 SSL_SECOP_CA_MD then
    .error .SSL_R_CA_MD_TOO_WEAK
  else .ok ()

/-- The loop of `ssl_security_cert_chain` over the certificates from `start_idx` on. -/
def securityCertLoop (ssl : ℤ) : List X509 → Except SslReason Unit
  | [] => .ok ()
  | x509 :: rest =>
    match securityCert cb objFindSigidAlgs evpMdSize (.ssl ssl) x509 false with
    | .error e => .error e
    | .ok () => securityCertLoop ssl rest

/-- `ssl_security_cert_chain(ssl, sk, x509, &out_error)` for an `SSL` at level `ssl`: success, or
the reason set. `none` where `x509` is NULL and `sk` empty: the code then hands the NULL that
`sk_X509_value(sk, 0)` returns to `ssl_security_cert`. -/
def securityCertChain (ssl : ℤ) (sk : List X509) (x509 : Option X509) :
    Option (Except SslReason Unit) := do
  let (x509, startIdx) ← match x509 with
    | some x509 => some (x509, 0)
    | none => sk.head?.map fun x509 => (x509, 1)
  return match securityCert cb objFindSigidAlgs evpMdSize (.ssl ssl) x509 true with
    | .error e => .error e
    | .ok () => securityCertLoop cb objFindSigidAlgs evpMdSize ssl (sk.drop startIdx)

end Cert

end SslSeclevel
