import LibreSSL.Spec.Seclevel
import Mathlib.Tactic.SplitIfs

/-!
# Raising the security level never admits more

Every operation of `ssl_security_default_cb` is decided from the normalized level `n` and its
minimum bits `m`, and both grow with the configured level (`securityLevelAndMinimumBits_mono`).
Each operation's acceptance shrinks as `n` and `m` grow and widens as `bits` grow, one lemma per
operation (`securitySecopCipher_mono`, ...), so the callback's does too.

* `securityDefaultCb_monotone`: what the default callback accepts at a configured level and a
  number of bits, it accepts at any lower level and any more bits.
-/

namespace SslSeclevel

variable {c c' : Caller} {bits bits' : ℤ}

/-! ## Levels and minimum bits -/

theorem securityNormalizeLevel_nonneg (c : Caller) : 0 ≤ securityNormalizeLevel c := by
  unfold securityNormalizeLevel; dsimp only; split_ifs <;> omega

theorem securityNormalizeLevel_mono (hc : c.securityLevel ≤ c'.securityLevel) :
    securityNormalizeLevel c ≤ securityNormalizeLevel c' := by
  unfold securityNormalizeLevel; dsimp only; split_ifs <;> omega

theorem securityLevelToMinimumBits_of_nonneg {l : ℤ} (h : 0 ≤ l) :
    ∃ m, securityLevelToMinimumBits l = some m ∧ (1 ≤ l → 80 ≤ m) := by
  unfold securityLevelToMinimumBits
  split_ifs <;> first | exact ⟨_, rfl, by omega⟩ | omega

/-- The table of `ssl_security_level_to_minimum_bits`. -/
theorem securityLevelToMinimumBits_eq_some {l m : ℤ} (h : securityLevelToMinimumBits l = some m) :
    l = 0 ∧ m = 0 ∨ l = 1 ∧ m = 80 ∨ l = 2 ∧ m = 112 ∨ l = 3 ∧ m = 128 ∨ l = 4 ∧ m = 192 ∨
      5 ≤ l ∧ m = 256 := by
  unfold securityLevelToMinimumBits at h
  split_ifs at h with hneg h0 h1 h2 h3 h4 <;> cases h
  · exact .inl ⟨h0, rfl⟩
  · exact .inr (.inl ⟨h1, rfl⟩)
  · exact .inr (.inr (.inl ⟨h2, rfl⟩))
  · exact .inr (.inr (.inr (.inl ⟨h3, rfl⟩)))
  · exact .inr (.inr (.inr (.inr (.inl ⟨h4, rfl⟩))))
  · exact .inr (.inr (.inr (.inr (.inr ⟨by omega, rfl⟩))))

theorem securityLevelToMinimumBits_mono {l l' m m' : ℤ} (h : l ≤ l')
    (hm : securityLevelToMinimumBits l = some m) (hm' : securityLevelToMinimumBits l' = some m') :
    m ≤ m' := by
  have := securityLevelToMinimumBits_eq_some hm
  have := securityLevelToMinimumBits_eq_some hm'
  omega

theorem securityLevelAndMinimumBits_of_some {m : ℤ}
    (hm : securityLevelToMinimumBits (securityNormalizeLevel c) = some m) :
    securityLevelAndMinimumBits c = some (securityNormalizeLevel c, m) := by
  simp only [securityLevelAndMinimumBits, hm, Option.bind_eq_bind, Option.some_bind]
  rfl

theorem securityLevelAndMinimumBits_eq_some {n m : ℤ}
    (e : securityLevelAndMinimumBits c = some (n, m)) :
    n = securityNormalizeLevel c ∧ securityLevelToMinimumBits n = some m := by
  obtain ⟨m', hm', -⟩ := securityLevelToMinimumBits_of_nonneg (securityNormalizeLevel_nonneg c)
  rw [securityLevelAndMinimumBits_of_some hm', Option.some.injEq, Prod.mk.injEq] at e
  obtain ⟨rfl, rfl⟩ := e
  exact ⟨rfl, hm'⟩

/-- Every caller gets a level and minimum bits, and the minimum is never negative. -/
theorem securityLevelAndMinimumBits_exists (c : Caller) :
    ∃ n m, securityLevelAndMinimumBits c = some (n, m) ∧ 0 ≤ m := by
  obtain ⟨m, hm, -⟩ := securityLevelToMinimumBits_of_nonneg (securityNormalizeLevel_nonneg c)
  have := securityLevelToMinimumBits_eq_some hm
  exact ⟨_, m, securityLevelAndMinimumBits_of_some hm, by omega⟩

/-- **Levels and minimum bits grow together.** A caller configured with a lower level gets a
normalized level and minimum bits no larger; a level of 1 or more demands 80 bits. -/
theorem securityLevelAndMinimumBits_mono (hc : c.securityLevel ≤ c'.securityLevel) :
    ∃ n m n' m', securityLevelAndMinimumBits c = some (n, m) ∧
      securityLevelAndMinimumBits c' = some (n', m') ∧ n ≤ n' ∧ m ≤ m' ∧ (1 ≤ n' → 80 ≤ m') := by
  obtain ⟨m, hm, -⟩ := securityLevelToMinimumBits_of_nonneg (securityNormalizeLevel_nonneg c)
  obtain ⟨m', hm', h80⟩ := securityLevelToMinimumBits_of_nonneg (securityNormalizeLevel_nonneg c')
  have hn := securityNormalizeLevel_mono hc
  exact ⟨_, m, _, m', securityLevelAndMinimumBits_of_some hm,
    securityLevelAndMinimumBits_of_some hm', hn, securityLevelToMinimumBits_mono hn hm hm', h80⟩

/-! ## The operations

Each operation's acceptance as a condition on the normalized level `n` and its minimum bits
`m`, then its monotonicity. -/

/-- What `ssl_security_secop_cipher` demands: nothing at level 0; from level 1 the bits and an
authenticated cipher; from level 2 no RC4; from level 3 forward secrecy or TLSv1.3. -/
theorem securitySecopCipher_eq_true {cipher : SslCipher} {n m : ℤ}
    (e : securityLevelAndMinimumBits c = some (n, m)) :
    securitySecopCipher c bits cipher = true ↔
      n ≤ 0 ∨ (m ≤ bits ∧ cipher.algorithmAuth &&& SSL_aNULL = 0 ∧
        (n ≤ 1 ∨ (cipher.algorithmEnc ≠ SSL_RC4 ∧
          (n ≤ 2 ∨ (cipher.algorithmMkey &&& (SSL_kDHE ||| SSL_kECDHE) ≠ 0 ∨
            cipher.algorithmSsl = SSL_TLSV1_3))))) := by
  unfold securitySecopCipher
  rw [e]
  dsimp only
  simp only [Bool.if_true_left, Bool.if_false_left, Bool.or_eq_true, Bool.and_eq_true,
    Bool.not_eq_true', decide_eq_true_eq, decide_eq_false_iff_not, Int.not_lt,
    Decidable.not_not, Decidable.not_and_iff_or_not_not, ne_eq, and_true]

theorem securitySecopCipher_mono {cipher : SslCipher} (hc : c.securityLevel ≤ c'.securityLevel)
    (hb : bits ≤ bits') (h : securitySecopCipher c' bits cipher = true) :
    securitySecopCipher c bits' cipher = true := by
  obtain ⟨n, m, n', m', e, e', hn, hm, -⟩ := securityLevelAndMinimumBits_mono hc
  rw [securitySecopCipher_eq_true e'] at h
  rw [securitySecopCipher_eq_true e]
  rcases h with h | ⟨hbits, hauth, h | ⟨henc, h | hfs⟩⟩
  · exact .inl (by omega)
  · exact .inr ⟨by omega, hauth, .inl (by omega)⟩
  · exact .inr ⟨by omega, hauth, .inr ⟨henc, .inl (by omega)⟩⟩
  · exact .inr ⟨by omega, hauth, .inr ⟨henc, .inr hfs⟩⟩

/-- What `ssl_security_secop_version` demands: TLSv1.0 below level 3, TLSv1.1 at level 3,
TLSv1.2 from level 4. -/
theorem securitySecopVersion_eq_true (sslTlsVersion : ℤ → ℤ) {version n m : ℤ}
    (e : securityLevelAndMinimumBits c = some (n, m)) :
    securitySecopVersion sslTlsVersion c version = true ↔
      (n < 3 → 0x0301 ≤ sslTlsVersion version) ∧ (n = 3 → 0x0302 ≤ sslTlsVersion version) ∧
        (3 < n → 0x0303 ≤ sslTlsVersion version) := by
  unfold securitySecopVersion
  rw [e]
  simp only [decide_eq_true_eq, TLS1_VERSION, TLS1_1_VERSION, TLS1_2_VERSION]
  split_ifs <;> omega

theorem securitySecopVersion_mono (sslTlsVersion : ℤ → ℤ) {version : ℤ}
    (hc : c.securityLevel ≤ c'.securityLevel)
    (h : securitySecopVersion sslTlsVersion c' version = true) :
    securitySecopVersion sslTlsVersion c version = true := by
  obtain ⟨n, m, n', m', e, e', hn, -, -⟩ := securityLevelAndMinimumBits_mono hc
  rw [securitySecopVersion_eq_true sslTlsVersion e'] at h
  rw [securitySecopVersion_eq_true sslTlsVersion e]
  omega

/-- What `ssl_security_secop_tickets` demands: a level below 3. -/
theorem securitySecopTickets_eq_true {n m : ℤ} (e : securityLevelAndMinimumBits c = some (n, m)) :
    securitySecopTickets c = true ↔ n < 3 := by
  unfold securitySecopTickets
  rw [e]
  exact decide_eq_true_iff

theorem securitySecopTickets_mono (hc : c.securityLevel ≤ c'.securityLevel)
    (h : securitySecopTickets c' = true) : securitySecopTickets c = true := by
  obtain ⟨n, m, n', m', e, e', hn, -, -⟩ := securityLevelAndMinimumBits_mono hc
  rw [securitySecopTickets_eq_true e'] at h
  rw [securitySecopTickets_eq_true e]
  omega

/-- What `ssl_security_secop_tmp_dh` demands: the minimum bits, and 80 bits at level 0. -/
theorem securitySecopTmpDh_eq_true {n m : ℤ} (e : securityLevelAndMinimumBits c = some (n, m)) :
    securitySecopTmpDh c bits = true ↔ ¬(n ≤ 0 ∧ bits < 80) ∧ m ≤ bits := by
  unfold securitySecopTmpDh
  rw [e]
  dsimp only
  simp only [Bool.if_false_left, Bool.and_eq_true, Bool.not_eq_true', decide_eq_true_eq,
    decide_eq_false_iff_not, ge_iff_le]

theorem securitySecopTmpDh_mono (hc : c.securityLevel ≤ c'.securityLevel) (hb : bits ≤ bits')
    (h : securitySecopTmpDh c' bits = true) : securitySecopTmpDh c bits' = true := by
  obtain ⟨n, m, n', m', e, e', hn, hm, h80⟩ := securityLevelAndMinimumBits_mono hc
  rw [securitySecopTmpDh_eq_true e'] at h
  rw [securitySecopTmpDh_eq_true e]
  omega

/-- What `ssl_security_secop_default` demands: the minimum bits. -/
theorem securitySecopDefault_eq_true {n m : ℤ} (e : securityLevelAndMinimumBits c = some (n, m)) :
    securitySecopDefault c bits = true ↔ m ≤ bits := by
  unfold securitySecopDefault
  rw [e]
  exact decide_eq_true_iff

theorem securitySecopDefault_mono (hc : c.securityLevel ≤ c'.securityLevel) (hb : bits ≤ bits')
    (h : securitySecopDefault c' bits = true) : securitySecopDefault c bits' = true := by
  obtain ⟨n, m, n', m', e, e', -, hm, -⟩ := securityLevelAndMinimumBits_mono hc
  rw [securitySecopDefault_eq_true e'] at h
  rw [securitySecopDefault_eq_true e]
  omega

/-! ## The default callback -/

/-- **The default callback is monotone.** What `ssl_security_default_cb` accepts for an `SSL` or
`SSL_CTX` configured at one security level and for some number of bits, it accepts at every
lower level and every larger number of bits, for every operation, version and cipher. -/
theorem securityDefaultCb_monotone (sslTlsVersion : ℤ → ℤ) (hc : c.securityLevel ≤ c'.securityLevel)
    (hb : bits ≤ bits') (op version : ℤ) (cipher : SslCipher)
    (h : securityDefaultCb sslTlsVersion c' op bits version cipher = true) :
    securityDefaultCb sslTlsVersion c op bits' version cipher = true := by
  unfold securityDefaultCb at h ⊢
  split_ifs at h ⊢
  · exact securitySecopCipher_mono hc hb h
  · exact securitySecopVersion_mono sslTlsVersion hc h
  · exact h
  · exact securitySecopTickets_mono hc h
  · exact securitySecopTmpDh_mono hc hb h
  · exact securitySecopDefault_mono hc hb h

/-- An ECDHE cipher with RSA authentication and AES, accepted for 256 bits by an `SSL_CTX`
configured at level 7 (clamped to 5), is accepted for 384 bits by an `SSL` at level 2. -/
theorem securityDefaultCb_monotone_ecdhe :
    let cipher : SslCipher := ⟨SSL_kECDHE, 0x00000001, 0x00000040, 0x00000004⟩
    (Caller.ssl 2).securityLevel ≤ (Caller.ctx 7).securityLevel ∧ (256 : ℤ) ≤ 384 ∧
      securityDefaultCb id (.ctx 7) SSL_SECOP_CIPHER_CHECK 256 0 cipher = true ∧
      securityDefaultCb id (.ssl 2) SSL_SECOP_CIPHER_CHECK 384 0 cipher = true := by
  intro cipher
  have hc : (Caller.ssl 2).securityLevel ≤ (Caller.ctx 7).securityLevel := by decide
  have h : securityDefaultCb id (.ctx 7) SSL_SECOP_CIPHER_CHECK 256 0 cipher = true := by decide
  exact ⟨hc, by decide, h, securityDefaultCb_monotone id hc (by decide) _ _ _ h⟩

end SslSeclevel
