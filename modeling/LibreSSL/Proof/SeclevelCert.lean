import LibreSSL.Proof.Seclevel

/-!
# The certificate checks

`ssl_security_cert_chain` accepts a chain exactly when its end-entity certificate passes as an
end entity and every certificate after it passes as a CA, and it reports the reason of the
first one that does not (`securityCertChain_first_failure`). With the default callback a
certificate passes exactly when its key and its signature digest reach the minimum bits of the
level; a key or a digest of unknown strength counts -1 bits and fails at every level, level 0
included (`securityCert_default_eq_ok_iff`). Raising the level never admits a chain that a lower
level rejects (`securityCertChain_default_mono`). A DH key needs 80 bits of security at every
level, level 0 included (`securityDh_default_floor`).
-/

namespace SslSeclevel

variable (cb : SecurityCb) (objFindSigidAlgs evpMdSize : ℤ → Option ℤ)

/-! ## The chain loop -/

theorem securityCertLoop_eq_ok_iff (ssl : ℤ) (xs : List X509) :
    securityCertLoop cb objFindSigidAlgs evpMdSize ssl xs = .ok () ↔
      ∀ x ∈ xs, securityCert cb objFindSigidAlgs evpMdSize (.ssl ssl) x false = .ok () := by
  induction xs with
  | nil => simp [securityCertLoop]
  | cons x rest ih =>
    rw [securityCertLoop, List.forall_mem_cons]
    cases securityCert cb objFindSigidAlgs evpMdSize (.ssl ssl) x false <;> simp [ih]

/-- The loop reports the first certificate that fails. -/
theorem securityCertLoop_eq_error (ssl : ℤ) {r : SslReason} (pre : List X509) {x : X509}
    (post : List X509)
    (hpre : ∀ y ∈ pre, securityCert cb objFindSigidAlgs evpMdSize (.ssl ssl) y false = .ok ())
    (hx : securityCert cb objFindSigidAlgs evpMdSize (.ssl ssl) x false = .error r) :
    securityCertLoop cb objFindSigidAlgs evpMdSize ssl (pre ++ x :: post) = .error r := by
  induction pre with
  | nil => simp [securityCertLoop, hx]
  | cons y pre ih =>
    simp only [List.cons_append, securityCertLoop, hpre y (List.mem_cons_self _ _)]
    exact ih fun z hz => hpre z (List.mem_cons_of_mem _ hz)

/-- Which certificates the chain check reads: the end entity `ee`, then the certificates `cas`
it checks as CAs. -/
theorem securityCertChain_eq_of {ssl : ℤ} {sk : List X509} {x509 : Option X509} {ee : X509}
    {cas : List X509} (hsel : x509 = some ee ∧ cas = sk ∨ x509 = none ∧ sk = ee :: cas) :
    securityCertChain cb objFindSigidAlgs evpMdSize ssl sk x509 =
      some (match securityCert cb objFindSigidAlgs evpMdSize (.ssl ssl) ee true with
        | .error e => .error e
        | .ok () => securityCertLoop cb objFindSigidAlgs evpMdSize ssl cas) := by
  rcases hsel with ⟨rfl, rfl⟩ | ⟨rfl, rfl⟩ <;> rfl

theorem securityCertChain_eq_ok_iff_of {ssl : ℤ} {sk : List X509} {x509 : Option X509}
    {ee : X509} {cas : List X509}
    (hsel : x509 = some ee ∧ cas = sk ∨ x509 = none ∧ sk = ee :: cas) :
    securityCertChain cb objFindSigidAlgs evpMdSize ssl sk x509 = some (.ok ()) ↔
      securityCert cb objFindSigidAlgs evpMdSize (.ssl ssl) ee true = .ok () ∧
        ∀ x ∈ cas, securityCert cb objFindSigidAlgs evpMdSize (.ssl ssl) x false = .ok () := by
  rw [securityCertChain_eq_of cb objFindSigidAlgs evpMdSize hsel, Option.some.injEq,
    ← securityCertLoop_eq_ok_iff]
  cases securityCert cb objFindSigidAlgs evpMdSize (.ssl ssl) ee true <;> simp

/-- **The chain check stops at the first failure.** Given the end entity `ee` (the `x509`
argument, or the first certificate of `sk` when `x509` is NULL) and the certificates `cas`
checked after it, the chain passes exactly when `ee` passes as an end entity and every
certificate of `cas` as a CA; otherwise it reports the reason of `ee`, or of the first
certificate of `cas` that fails. -/
theorem securityCertChain_first_failure {ssl : ℤ} {sk : List X509} {x509 : Option X509}
    {ee : X509} {cas : List X509}
    (hsel : x509 = some ee ∧ cas = sk ∨ x509 = none ∧ sk = ee :: cas) :
    (securityCertChain cb objFindSigidAlgs evpMdSize ssl sk x509 = some (.ok ()) ↔
      securityCert cb objFindSigidAlgs evpMdSize (.ssl ssl) ee true = .ok () ∧
        ∀ x ∈ cas, securityCert cb objFindSigidAlgs evpMdSize (.ssl ssl) x false = .ok ()) ∧
      (∀ r, securityCert cb objFindSigidAlgs evpMdSize (.ssl ssl) ee true = .error r →
        securityCertChain cb objFindSigidAlgs evpMdSize ssl sk x509 = some (.error r)) ∧
      (∀ pre x post r, cas = pre ++ x :: post →
        securityCert cb objFindSigidAlgs evpMdSize (.ssl ssl) ee true = .ok () →
        (∀ y ∈ pre, securityCert cb objFindSigidAlgs evpMdSize (.ssl ssl) y false = .ok ()) →
        securityCert cb objFindSigidAlgs evpMdSize (.ssl ssl) x false = .error r →
        securityCertChain cb objFindSigidAlgs evpMdSize ssl sk x509 = some (.error r)) := by
  refine ⟨securityCertChain_eq_ok_iff_of cb objFindSigidAlgs evpMdSize hsel, fun r hr => ?_,
    fun pre x post r hcas hee hpre hx => ?_⟩
  · rw [securityCertChain_eq_of cb objFindSigidAlgs evpMdSize hsel, hr]
  · rw [securityCertChain_eq_of cb objFindSigidAlgs evpMdSize hsel, hee, hcas,
      securityCertLoop_eq_error cb objFindSigidAlgs evpMdSize ssl pre post hpre hx]

/-- A leaf signed with a digest of 256 bits, then a CA certificate whose key has 80 bits, checked
at level 2 by a callback asking for 112 bits: the CA's key is the first failure. -/
theorem securityCertChain_first_failure_ca :
    let cb : SecurityCb := fun _ _ bits _ => decide (112 ≤ bits)
    let ee : X509 := ⟨some 128, 1⟩
    let ca : X509 := ⟨some 80, 1⟩
    ((none : Option X509) = some ee ∧ [ca] = [ee, ca] ∨
        (none : Option X509) = none ∧ [ee, ca] = ee :: [ca]) ∧
      securityCertChain cb (fun _ => some 2) (fun _ => some 64) 2 [ee, ca] none =
        some (.error .SSL_R_CA_KEY_TOO_SMALL) := by
  intro cb ee ca
  have hsel : (none : Option X509) = some ee ∧ [ca] = [ee, ca] ∨
      (none : Option X509) = none ∧ [ee, ca] = ee :: [ca] := .inr ⟨rfl, rfl⟩
  exact ⟨hsel, (securityCertChain_first_failure cb _ _ hsel).2.2 [] ca [] _ rfl rfl (by simp) rfl⟩

/-! ## With the default callback

The key and digest operations fall to the default branch of `ssl_security_default_cb`, which
reads neither the version nor the `other` argument; the statements take any of them. -/

/-- The two tests of `ssl_security_cert` in a row. -/
theorem securityCert_tests_eq_ok {k s : Bool} {a b : SslReason} :
    ((if !k then .error a else if !s then .error b else .ok ()) : Except SslReason Unit) =
      .ok () ↔ k = true ∧ s = true := by
  cases k <;> cases s <;> simp

section Default

variable (sslTlsVersion : ℤ → ℤ) (cipher : SslCipher)

theorem securityDefaultCb_cert_op {c : Caller} {op bits nid : ℤ}
    (hop : op = SSL_SECOP_EE_KEY ∨ op = SSL_SECOP_CA_KEY ∨ op = SSL_SECOP_CA_MD) :
    securityDefaultCb sslTlsVersion c op bits nid cipher = securitySecopDefault c bits := by
  rcases hop with rfl | rfl | rfl <;> rfl

theorem securityCert_default_ok_iff_of {caller : Caller} {n m : ℤ}
    (e : securityLevelAndMinimumBits caller = some (n, m)) (x509 : X509) (isEe : Bool) :
    securityCert (fun c op bits nid => securityDefaultCb sslTlsVersion c op bits nid cipher)
        objFindSigidAlgs evpMdSize caller x509 isEe = .ok () ↔
      m ≤ certPubkeySecurityBits x509 ∧
        m ≤ certMdNidSecurityBits evpMdSize (certSignatureMdNid objFindSigidAlgs x509) := by
  have hkey : ∀ op, op = SSL_SECOP_EE_KEY ∨ op = SSL_SECOP_CA_KEY →
      (securityCertKey (fun c op bits nid => securityDefaultCb sslTlsVersion c op bits nid cipher)
        caller x509 op = true ↔ m ≤ certPubkeySecurityBits x509) := by
    intro op hop
    simp only [securityCertKey]
    rw [securityDefaultCb_cert_op sslTlsVersion cipher (hop.imp_right .inl),
      securitySecopDefault_eq_true e]
  have hsig : securityCertSig (fun c op bits nid => securityDefaultCb sslTlsVersion c op bits nid
        cipher) objFindSigidAlgs evpMdSize caller x509 SSL_SECOP_CA_MD = true ↔
      m ≤ certMdNidSecurityBits evpMdSize (certSignatureMdNid objFindSigidAlgs x509) := by
    simp only [securityCertSig]
    rw [securityDefaultCb_cert_op sslTlsVersion cipher (.inr (.inr rfl)),
      securitySecopDefault_eq_true e]
  cases isEe <;> simp only [securityCert, Bool.false_eq_true, ite_false, ite_true,
    securityCert_tests_eq_ok, hkey _ (.inl rfl), hkey _ (.inr rfl), hsig]

/-- **What the default callback demands of a certificate.** A certificate passes
`ssl_security_cert` exactly when the security bits of its key and of its signature digest reach
the minimum of the level. That minimum is never negative, so a key or digest of unknown strength
(-1 bits: no key, no digest for the signature algorithm, or a digest of unknown size) fails at
every level, level 0 included. -/
theorem securityCert_default_eq_ok_iff (caller : Caller) (x509 : X509) (isEe : Bool) :
    (securityCert (fun c op bits nid => securityDefaultCb sslTlsVersion c op bits nid cipher)
        objFindSigidAlgs evpMdSize caller x509 isEe = .ok () ↔
      ∃ n m, securityLevelAndMinimumBits caller = some (n, m) ∧
        m ≤ certPubkeySecurityBits x509 ∧
        m ≤ certMdNidSecurityBits evpMdSize (certSignatureMdNid objFindSigidAlgs x509)) ∧
      (certPubkeySecurityBits x509 < 0 ∨
          certMdNidSecurityBits evpMdSize (certSignatureMdNid objFindSigidAlgs x509) < 0 →
        securityCert (fun c op bits nid => securityDefaultCb sslTlsVersion c op bits nid cipher)
          objFindSigidAlgs evpMdSize caller x509 isEe ≠ .ok ()) := by
  obtain ⟨n, m, e, hm⟩ := securityLevelAndMinimumBits_exists caller
  have hok := securityCert_default_ok_iff_of objFindSigidAlgs evpMdSize sslTlsVersion cipher e
    x509 isEe
  refine ⟨hok.trans ⟨fun h => ⟨n, m, e, h⟩, fun ⟨n', m', e', h⟩ => ?_⟩,
    fun hneg h => by have := hok.1 h; omega⟩
  rw [e, Option.some.injEq, Prod.mk.injEq] at e'
  rwa [e'.2]

/-- **No DH key under 80 bits.** With the default callback, `ssl_security_dh` and
`ssl_ctx_security_dh` accept a DH key only of at least 80 bits of security (1024-bit DH), at
every level; at level 0 they accept exactly those. -/
theorem securityDh_default_floor (caller : Caller) (dhSecurityBits : ℤ) :
    (securityDh (fun c op bits nid => securityDefaultCb sslTlsVersion c op bits nid cipher) caller
        dhSecurityBits = true → 80 ≤ dhSecurityBits) ∧
      (securityNormalizeLevel caller = 0 →
        (securityDh (fun c op bits nid => securityDefaultCb sslTlsVersion c op bits nid cipher)
          caller dhSecurityBits = true ↔ 80 ≤ dhSecurityBits)) := by
  obtain ⟨n, m, e, -⟩ := securityLevelAndMinimumBits_exists caller
  obtain ⟨rfl, hm⟩ := securityLevelAndMinimumBits_eq_some e
  have := securityLevelToMinimumBits_eq_some hm
  have hdh : securityDh (fun c op bits nid => securityDefaultCb sslTlsVersion c op bits nid cipher)
      caller dhSecurityBits = securitySecopTmpDh caller dhSecurityBits := rfl
  rw [hdh, securitySecopTmpDh_eq_true e]
  omega

/-- An Ed25519 signature has no digest (`OBJ_find_sigid_algs` gives `NID_undef`): even at
level 0 its certificate fails the digest test. -/
example : securityCert (fun c op bits nid => securityDefaultCb id c op bits nid ⟨0, 0, 0, 0⟩)
    (fun _ => some NID_undef) (fun _ => none) (.ctx 0) ⟨some 128, 1087⟩ true =
      .error .SSL_R_CA_MD_TOO_WEAK := rfl

theorem securityCert_default_mono {c c' : Caller} (hc : c.securityLevel ≤ c'.securityLevel)
    {x509 : X509} {isEe : Bool}
    (h : securityCert (fun c op bits nid => securityDefaultCb sslTlsVersion c op bits nid cipher)
      objFindSigidAlgs evpMdSize c' x509 isEe = .ok ()) :
    securityCert (fun c op bits nid => securityDefaultCb sslTlsVersion c op bits nid cipher)
      objFindSigidAlgs evpMdSize c x509 isEe = .ok () := by
  obtain ⟨n, m, n', m', e, e', -, hm, -⟩ := securityLevelAndMinimumBits_mono hc
  rw [securityCert_default_ok_iff_of objFindSigidAlgs evpMdSize sslTlsVersion cipher e'] at h
  rw [securityCert_default_ok_iff_of objFindSigidAlgs evpMdSize sslTlsVersion cipher e]
  omega

/-- **Raising the level never admits a chain.** A chain that `ssl_security_cert_chain` accepts
with the default callback for an `SSL` at one level, it accepts at every lower level. -/
theorem securityCertChain_default_mono {l l' : ℤ} (h : l ≤ l') (sk : List X509)
    (x509 : Option X509)
    (hok : securityCertChain (fun c op bits nid => securityDefaultCb sslTlsVersion c op bits nid
      cipher) objFindSigidAlgs evpMdSize l' sk x509 = some (.ok ())) :
    securityCertChain (fun c op bits nid => securityDefaultCb sslTlsVersion c op bits nid cipher)
      objFindSigidAlgs evpMdSize l sk x509 = some (.ok ()) := by
  obtain ⟨ee, cas, hsel⟩ : ∃ ee cas, x509 = some ee ∧ cas = sk ∨ x509 = none ∧ sk = ee :: cas := by
    rcases x509 with _ | ee
    · cases sk with
      | nil => exact absurd hok nofun
      | cons ee cas => exact ⟨ee, cas, .inr ⟨rfl, rfl⟩⟩
    · exact ⟨ee, sk, .inl ⟨rfl, rfl⟩⟩
  rw [securityCertChain_eq_ok_iff_of _ _ _ hsel] at hok ⊢
  have hc : (Caller.ssl l).securityLevel ≤ (Caller.ssl l').securityLevel := h
  exact ⟨securityCert_default_mono objFindSigidAlgs evpMdSize sslTlsVersion cipher hc hok.1,
    fun x hx => securityCert_default_mono objFindSigidAlgs evpMdSize sslTlsVersion cipher hc
      (hok.2 x hx)⟩

/-- A chain of one certificate with a 128-bit key, signed with a 256-bit digest, passes at
level 2 and so at level 1. -/
theorem securityCertChain_default_mono_leaf :
    let cb : SecurityCb := fun c op bits nid => securityDefaultCb id c op bits nid ⟨0, 0, 0, 0⟩
    (1 : ℤ) ≤ 2 ∧
      securityCertChain cb (fun _ => some 2) (fun _ => some 32) 2 [⟨some 128, 1⟩] none =
        some (.ok ()) ∧
      securityCertChain cb (fun _ => some 2) (fun _ => some 32) 1 [⟨some 128, 1⟩] none =
        some (.ok ()) := by
  intro cb
  have hok : securityCertChain cb (fun _ => some 2) (fun _ => some 32) 2 [⟨some 128, 1⟩] none =
      some (.ok ()) := rfl
  exact ⟨by decide, hok, securityCertChain_default_mono _ _ id _ (by decide) _ _ hok⟩

end Default

end SslSeclevel
