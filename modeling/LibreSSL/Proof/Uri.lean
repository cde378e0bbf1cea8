import LibreSSL.Proof.Match

/-!
# The host of a URI

`x509_constraints_uri_host` finds the authority after the first `//` of a URI and reads it up
to the first `:`, `/`, `?` or `#`, restarting after a userinfo `@`; it gives up at a non-ASCII
byte or a second `@`, and copies the host out only when `x509_constraints_valid_host` accepts
it. Each of its two scans is related here to the bytes it reads, stated with `takeWhile`, by
one induction over the input; the function as a whole is then characterised exactly.

`x509_constraints_valid_host` is asked about `len` bytes, but `inet_pton` reads its pointer as
a C string: the verdict depends on the `len` bytes and on the C string from the pointer, and
not on the `len` bytes alone. The host extractor passes it a pointer into the URI, so an IP
literal followed by a path passes.

* `validHost_congr`: the two things `x509_constraints_valid_host` reads;
  `validHost_reads_past_len`: an IPv4 literal is accepted as a URI host.
* `authorityLoop_eq_some_some`: the `//` scan stops right after the first `//`, when every
  byte before it is ASCII.
* `hostLoop_none_eq`: the authority scan counts the bytes up to the first end byte, or the
  bytes after its one `@`.
* `uriHost_eq_some_iff`: **the host `x509_constraints_uri_host` returns is what follows the
  first `//` and an optional userinfo, up to the first `:`, `/`, `?` or `#`, and a valid
  host.** `uriHost_from_userinfo`: the scan stops at a `:` in the userinfo, and returns the
  userinfo as the host.
* `uri_eq_ok_iff`: `x509_constraints_uri` answers when the URI has a host and the constraint
  is valid, and its answer is `DomainMatch` of the two.
-/

namespace X509Constraints

/-! ## What `x509_constraints_valid_host` reads -/

/-- **`x509_constraints_valid_host` reads the host and the C string from its pointer.** Two
buffers that agree on their first `len` bytes and as C strings get the same verdict. -/
theorem validHost_congr {p q : Bytes} {len : ℕ} (ht : p.take len = q.take len)
    (hc : cstr p = cstr q) : validHost p len = validHost q len := by
  have h4 : inetPton4 p = inetPton4 q := by rw [inetPton4, inetPton4, hc]
  have h6 : inetPton6 p = inetPton6 q := by rw [inetPton6, inetPton6, hc]
  rcases Nat.eq_zero_or_pos len with rfl | hlen
  · rfl
  have h0 : p.getD 0 0 = q.getD 0 0 := by
    rw [List.getD_eq_getElem?_getD, ← List.getElem?_take_of_lt hlen, ht,
      List.getElem?_take_of_lt hlen, List.getD_eq_getElem?_getD]
  simp only [validHost, h0, h4, h6, ht]

theorem validHost_congr_after_nul :
    (ascii "a.com" ++ [0, 1]).take 5 = (ascii "a.com" ++ [0, 2]).take 5 ∧
    cstr (ascii "a.com" ++ [0, 1]) = cstr (ascii "a.com" ++ [0, 2]) ∧
    validHost (ascii "a.com" ++ [0, 1]) 5 = validHost (ascii "a.com" ++ [0, 2]) 5 :=
  ⟨by decide, by decide, validHost_congr (by decide) (by decide)⟩

/-- **The literal check reads past the host.** `1.2.3.4:80/` and `1.2.3.4` agree on their
first 7 bytes, yet with length 7 the first is accepted (`inet_pton` sees `1.2.3.4:80/`) and
the second, an IPv4 literal, rejected; so the URI `http://1.2.3.4/` yields the host
`1.2.3.4`. -/
theorem validHost_reads_past_len :
    (ascii "1.2.3.4:80/").take 7 = ascii "1.2.3.4" ∧
    validHost (ascii "1.2.3.4:80/") 7 = true ∧
    inetPton4 (ascii "1.2.3.4") = true ∧ validHost (ascii "1.2.3.4") 7 = false ∧
    uriHost (ascii "http://1.2.3.4/") = some (ascii "1.2.3.4") ∧
    uriHost (ascii "http://1.2.3.4:80/") = some (ascii "1.2.3.4") := by
  decide

/-! ## The two scans -/

/-- A byte that ends the host in `x509_constraints_uri_host`: `:`, `/`, `?` or `#`. -/
def hostEnd (c : UInt8) : Bool :=
  c == ':'.toUInt8 || c == '/'.toUInt8 || c == '?'.toUInt8 || c == '#'.toUInt8

/-- The bytes of an authority the host scan reads: those before the first `hostEnd` byte. -/
def hostSpan (auth : Bytes) : Bytes := auth.takeWhile fun c => !hostEnd c

@[simp] theorem hostSpan_nil : hostSpan [] = [] := rfl

theorem hostSpan_cons (c : UInt8) (rest : Bytes) :
    hostSpan (c :: rest) = if hostEnd c then [] else c :: hostSpan rest := by
  simp only [hostSpan, List.takeWhile_cons, Bool.not_eq_true']
  cases hostEnd c <;> rfl

theorem isascii_of_hostEnd {c : UInt8} (h : hostEnd c = true) : isascii c = true := by
  simp only [hostEnd, Bool.or_eq_true, beq_iff_eq] at h
  rcases h with ((rfl | rfl) | rfl) | rfl <;> rfl

theorem hostLoop_cons (c : UInt8) (rest : Bytes) (i n : ℕ) (host : Option ℕ) :
    hostLoop (c :: rest) i n host =
      if !isascii c then none
      else if c == '@'.toUInt8 then
        match host with
        | some _ => some (0, host)
        | none => hostLoop rest (i + 1) 0 (some (i + 1))
      else if hostEnd c then some (n, host)
      else hostLoop rest (i + 1) (n + 1) host := rfl

/-- The end of a scan: the count and the host pointer it has. -/
theorem some_pair_eq_iff {n m : ℕ} {h h' : Option ℕ} :
    some (n, h) = some (m, h') ↔ h' = h ∧ m = n := by
  simp only [Option.some.injEq, Prod.mk.injEq]
  exact and_comm.trans (and_congr eq_comm eq_comm)

theorem hostEnd_eq_false_of_not_isascii {c : UInt8} (h : isascii c = false) :
    hostEnd c = false := by
  cases he : hostEnd c
  · rfl
  · simp [isascii_of_hostEnd he] at h

/-- The scan after a userinfo `@`: it counts the bytes of the span, and gives up at a second
`@` (count 0) or a non-ASCII byte. -/
theorem hostLoop_some_eq {bs : Bytes} {i n k m : ℕ} {h' : Option ℕ} (hm : m ≠ 0) :
    hostLoop bs i n (some k) = some (m, h') ↔
      h' = some k ∧ (∀ c ∈ hostSpan bs, isascii c) ∧ '@'.toUInt8 ∉ hostSpan bs ∧
        m = n + (hostSpan bs).length := by
  induction bs generalizing i n with
  | nil =>
    simp only [hostLoop, some_pair_eq_iff]
    simp
  | cons c rest ih =>
    rw [hostLoop_cons, hostSpan_cons]
    cases ha : isascii c
    · simp only [hostEnd_eq_false_of_not_isascii ha, Bool.not_false, if_true, if_false]
      simp [ha]
    cases hat : c == '@'.toUInt8
    · cases he : hostEnd c
      · simp only [Bool.not_true, Bool.false_eq_true, if_false, ih, List.mem_cons,
          forall_eq_or_imp, ha, true_and, List.length_cons]
        have : '@'.toUInt8 ≠ c := fun e => by simp [e] at hat
        simp only [this, false_or, Nat.add_right_comm n 1, Nat.add_assoc]
      · simp only [Bool.not_true, Bool.false_eq_true, if_false, if_true, some_pair_eq_iff]
        simp
    · simp only [Bool.not_true, Bool.false_eq_true, if_false, if_true]
      obtain rfl : c = '@'.toUInt8 := beq_iff_eq.1 hat
      have he : hostEnd '@'.toUInt8 = false := rfl
      simp only [he, Bool.false_eq_true, if_false, List.mem_cons, true_or, not_true_eq_false,
        false_and, and_false, iff_false, Option.some.injEq, Prod.mk.injEq, not_and]
      exact fun h0 => absurd h0.symm hm

/-- A span that starts with `@` splits at its first `@` with an empty user part. -/
theorem at_cons_split {S : Bytes} (P : Bytes → Bytes → Prop) :
    (∃ user host, '@'.toUInt8 :: S = user ++ '@'.toUInt8 :: host ∧ '@'.toUInt8 ∉ user ∧
      P user host) ↔ P [] S := by
  constructor
  · rintro ⟨_ | ⟨d, user⟩, host, e, hu, hp⟩
    · cases e; exact hp
    · obtain ⟨rfl, -⟩ := List.cons.inj e
      simp at hu
  · exact fun hp => ⟨[], S, rfl, List.not_mem_nil _, hp⟩

/-- A span that starts with a byte other than `@` splits at an `@` where its tail does. -/
theorem cons_split {c : UInt8} {S : Bytes} (hc : c ≠ '@'.toUInt8) (P : Bytes → Bytes → Prop) :
    (∃ user host, c :: S = user ++ '@'.toUInt8 :: host ∧ '@'.toUInt8 ∉ user ∧
      P user host) ↔
      ∃ user host, S = user ++ '@'.toUInt8 :: host ∧ '@'.toUInt8 ∉ user ∧
        P (c :: user) host := by
  constructor
  · rintro ⟨_ | ⟨d, user⟩, host, e, hu, hp⟩
    · exact absurd (List.cons.inj e).1 hc
    · obtain ⟨rfl, rfl⟩ := List.cons.inj e
      exact ⟨user, host, rfl, fun h => hu (List.mem_cons_of_mem _ h), hp⟩
  · rintro ⟨user, host, rfl, hu, hp⟩
    exact ⟨c :: user, host, rfl, by simp [hu, Ne.symm hc], hp⟩

/-- The scan of the authority before any `@`: it counts the bytes of the span, or, at the
first `@`, starts over after it. -/
theorem hostLoop_none_eq {bs : Bytes} {i n m : ℕ} {h' : Option ℕ} (hm : m ≠ 0) :
    hostLoop bs i n none = some (m, h') ↔ (∀ c ∈ hostSpan bs, isascii c) ∧
      ('@'.toUInt8 ∉ hostSpan bs ∧ h' = none ∧ m = n + (hostSpan bs).length ∨
        ∃ user host, hostSpan bs = user ++ '@'.toUInt8 :: host ∧ '@'.toUInt8 ∉ user ∧
          '@'.toUInt8 ∉ host ∧ h' = some (i + user.length + 1) ∧ m = host.length) := by
  induction bs generalizing i n with
  | nil =>
    simp only [hostLoop, some_pair_eq_iff]
    simp
  | cons c rest ih =>
    rw [hostLoop_cons, hostSpan_cons]
    cases ha : isascii c
    · simp only [hostEnd_eq_false_of_not_isascii ha, Bool.not_false, if_true, if_false]
      simp [ha]
    cases hat : c == '@'.toUInt8
    · have hc : c ≠ '@'.toUInt8 := fun e => by simp [e] at hat
      cases he : hostEnd c
      · simp only [Bool.not_true, Bool.false_eq_true, if_false, ih, List.mem_cons,
          forall_eq_or_imp, ha, true_and, List.length_cons, Ne.symm hc, false_or]
        have e := cons_split (S := hostSpan rest) hc fun user host => '@'.toUInt8 ∉ host ∧
          h' = some (i + user.length + 1) ∧ m = host.length
        simp only [List.length_cons] at e
        rw [e]
        simp only [Nat.add_right_comm n 1, Nat.add_right_comm i 1, Nat.add_assoc]
      · simp only [Bool.not_true, Bool.false_eq_true, if_false, if_true, some_pair_eq_iff]
        simp
    · simp only [Bool.not_true, Bool.false_eq_true, if_false, if_true]
      obtain rfl : c = '@'.toUInt8 := beq_iff_eq.1 hat
      have he : hostEnd '@'.toUInt8 = false := rfl
      simp only [he, Bool.false_eq_true, if_false, hostLoop_some_eq hm]
      rw [at_cons_split fun user host => '@'.toUInt8 ∉ host ∧
        h' = some (i + user.length + 1) ∧ m = host.length]
      simp only [List.mem_cons, true_or, not_true_eq_false, false_and, false_or, forall_eq_or_imp,
        ha, true_and, List.length_nil, Nat.add_zero, Nat.zero_add]
      tauto

theorem authorityLoop_cons_cons (a b : UInt8) (rest : Bytes) (i : ℕ) :
    authorityLoop (a :: b :: rest) i =
      if !isascii a then none
      else if a == '/'.toUInt8 && b == '/'.toUInt8 then some (some (i + 2))
      else authorityLoop (b :: rest) (i + 1) := rfl

/-- Where the tail of `pre ++ "//"` starts with `b`, a `//` at the front of `a :: (pre ++ "/")`
is `a` and `b`. -/
theorem slashes_prefix_iff {a b : UInt8} {pre rest auth : Bytes}
    (e : b :: rest = pre ++ '/'.toUInt8 :: '/'.toUInt8 :: auth) :
    ['/'.toUInt8, '/'.toUInt8] <+: a :: (pre ++ ['/'.toUInt8]) ↔
      a = '/'.toUInt8 ∧ b = '/'.toUInt8 := by
  cases pre with
  | nil => cases e; simp [eq_comm]
  | cons q pre => obtain ⟨rfl, -⟩ := List.cons.inj e; simp [eq_comm]

/-- The scan for the first `//`: it stops after it when every byte before it is ASCII. -/
theorem authorityLoop_eq_some_some {u : Bytes} {i j : ℕ} :
    authorityLoop u i = some (some j) ↔
      ∃ pre auth, u = pre ++ '/'.toUInt8 :: '/'.toUInt8 :: auth ∧ j = i + pre.length + 2 ∧
        (∀ c ∈ pre, isascii c) ∧ ¬ ['/'.toUInt8, '/'.toUInt8] <:+: pre ++ ['/'.toUInt8] := by
  induction u generalizing i with
  | nil => simp [authorityLoop]
  | cons a t ih =>
    cases t with
    | nil =>
      refine ⟨(fun h => by cases h), ?_⟩
      rintro ⟨pre, auth, e, -⟩
      have := congrArg List.length e
      simp at this
      omega
    | cons b rest =>
      rw [authorityLoop_cons_cons]
      cases ha : isascii a
      · refine ⟨(fun h => by simp at h), ?_⟩
        rintro ⟨_ | ⟨p, pre⟩, auth, e, -, hp, -⟩
        · obtain ⟨rfl, -⟩ := List.cons.inj e; exact absurd ha (by decide)
        · obtain ⟨rfl, -⟩ := List.cons.inj e; simp [hp a (List.mem_cons_self _ _)] at ha
      cases hs : (a == '/'.toUInt8 && b == '/'.toUInt8)
      · have hab : ¬ (a = '/'.toUInt8 ∧ b = '/'.toUInt8) := by simpa using hs
        simp only [Bool.not_true, Bool.false_eq_true, if_false, ih]
        constructor
        · rintro ⟨pre, auth, e, rfl, hp, hi⟩
          refine ⟨a :: pre, auth, by rw [e]; rfl, by simp only [List.length_cons]; omega,
            ?_, ?_⟩
          · simpa [ha] using hp
          · rw [List.cons_append, List.infix_cons_iff, slashes_prefix_iff e]; tauto
        · rintro ⟨_ | ⟨p, pre⟩, auth, e, rfl, hp, hi⟩
          · simp only [List.nil_append, List.cons.injEq] at e
            exact absurd ⟨e.1, e.2.1⟩ hab
          · simp only [List.cons_append, List.cons.injEq] at e
            obtain ⟨rfl, e⟩ := e
            refine ⟨pre, auth, e, by simp only [List.length_cons]; omega,
              fun c hc => hp c (List.mem_cons_of_mem _ hc), fun h => hi ?_⟩
            rw [List.cons_append]; exact h.trans (List.infix_cons (List.infix_refl _))
      · obtain ⟨rfl, rfl⟩ : a = '/'.toUInt8 ∧ b = '/'.toUInt8 := by simpa using hs
        simp only [Bool.not_true, Bool.false_eq_true, if_false, if_true, Option.some.injEq]
        constructor
        · rintro rfl
          exact ⟨[], rest, rfl, rfl, by simp, fun h => by simpa using h.length_le⟩
        · rintro ⟨_ | ⟨p, pre⟩, auth, e, rfl, hp, hi⟩
          · rfl
          · simp only [List.cons_append, List.cons.injEq] at e
            obtain ⟨rfl, e⟩ := e
            rw [List.cons_append, List.infix_cons_iff, slashes_prefix_iff e] at hi
            exact absurd (Or.inl ⟨rfl, rfl⟩) hi

theorem hostSpan_append_drop (auth : Bytes) :
    hostSpan auth ++ auth.drop (hostSpan auth).length = auth := by
  conv_rhs => rw [← List.take_append_drop (hostSpan auth).length auth]
  congr 1
  exact List.prefix_iff_eq_take.1 (List.takeWhile_prefix _)

theorem drop_slashes (pre auth : Bytes) :
    (pre ++ '/'.toUInt8 :: '/'.toUInt8 :: auth).drop (pre.length + 2) = auth := by
  simp [List.drop_append_eq_append_drop]

/-- The copy `strndup` makes of a host that `x509_constraints_valid_host` accepts. -/
theorem strndup_of_validHost {r t : Bytes} (h : validHost (r ++ t) r.length = true) :
    strndup (r ++ t) r.length = r := by
  have hv := validHost_take h
  rw [List.take_left] at hv
  rw [strndup, List.take_left, cstr_eq_self (zero_not_mem_of_validDomainInternal hv)]

theorem length_pos_of_validHost {n : Bytes} {len : ℕ} (h : validHost n len = true) : 0 < len := by
  unfold validHost at h
  split_ifs at h with h0
  · simp at h0; omega

/-- Where the host starts without a userinfo: the span, then the rest of the authority. -/
theorem drop_to_authority (pre auth : Bytes) :
    (pre ++ '/'.toUInt8 :: '/'.toUInt8 :: auth).drop (pre.length + 2) =
      hostSpan auth ++ auth.drop (hostSpan auth).length := by
  rw [drop_slashes, hostSpan_append_drop]

/-- Where the host starts after a userinfo `@`: the host, then the rest of the authority. -/
theorem drop_after_userinfo {pre auth user hst : Bytes}
    (hsp : hostSpan auth = user ++ '@'.toUInt8 :: hst) :
    (pre ++ '/'.toUInt8 :: '/'.toUInt8 :: auth).drop (pre.length + 2 + user.length + 1) =
      hst ++ auth.drop (hostSpan auth).length := by
  rw [Nat.add_assoc _ user.length, ← List.drop_drop, drop_slashes]
  conv_lhs => rw [← hostSpan_append_drop auth, hsp]
  rw [List.append_assoc, List.drop_append, ← hsp]
  rfl

theorem uriHost_eq_some_iff {u r : Bytes} :
    uriHost u = some r ↔
      ∃ pre auth, u = pre ++ '/'.toUInt8 :: '/'.toUInt8 :: auth ∧ (∀ c ∈ pre, isascii c) ∧
        ¬ ['/'.toUInt8, '/'.toUInt8] <:+: pre ++ ['/'.toUInt8] ∧
        (∀ c ∈ hostSpan auth, isascii c) ∧
        (hostSpan auth = r ∨
          ∃ user, hostSpan auth = user ++ '@'.toUInt8 :: r ∧ '@'.toUInt8 ∉ user) ∧
        '@'.toUInt8 ∉ r ∧
        validHost (r ++ auth.drop (hostSpan auth).length) r.length = true := by
  constructor
  · intro hu
    unfold uriHost at hu
    split_ifs at hu with hlen
    split at hu
    · rename_i a ha
      obtain ⟨pre, auth, rfl, rfl, hpa, hpi⟩ := authorityLoop_eq_some_some.1 ha
      simp only [Nat.zero_add, drop_slashes] at hu
      split at hu
      · rename_i m host hh
        split_ifs at hu with h0 hv
        cases hu
        simp only [Bool.not_eq_true', Bool.not_eq_false] at hv
        obtain ⟨hsa, ⟨hna, rfl, rfl⟩ | ⟨user, hst, hsp, hu, hh', rfl, rfl⟩⟩ :=
          (hostLoop_none_eq (by simpa using h0)).1 hh
        · simp only [Option.getD_none, drop_to_authority, Nat.zero_add] at hv ⊢
          rw [strndup_of_validHost hv]
          exact ⟨pre, auth, rfl, hpa, hpi, hsa, .inl rfl, hna, hv⟩
        · simp only [Option.getD_some, drop_after_userinfo hsp] at hv ⊢
          rw [strndup_of_validHost hv]
          exact ⟨pre, auth, rfl, hpa, hpi, hsa, .inr ⟨user, hsp, hu⟩, hh', hv⟩
      · cases hu
    · cases hu
  · rintro ⟨pre, auth, rfl, hpa, hpi, hsa, hsplit, hna, hv⟩
    have hr0 := length_pos_of_validHost hv
    have hlen : ¬ (pre ++ '/'.toUInt8 :: '/'.toUInt8 :: auth).length < 3 := by
      have h1 := congrArg List.length (hostSpan_append_drop auth)
      have h2 : r.length ≤ (hostSpan auth).length := by
        rcases hsplit with h | ⟨user, h, -⟩ <;>
          simp only [h, List.length_append, List.length_cons] <;> omega
      simp only [List.length_append, List.length_cons] at h1 ⊢
      omega
    unfold uriHost
    rw [if_neg hlen, (authorityLoop_eq_some_some (j := pre.length + 2)).2
      ⟨pre, auth, rfl, by omega, hpa, hpi⟩]
    dsimp only
    rw [drop_slashes]
    rcases hsplit with rfl | ⟨user, hsp, hu⟩
    · rw [(hostLoop_none_eq hr0.ne').2 ⟨hsa, .inl ⟨hna, rfl, (Nat.zero_add _).symm⟩⟩]
      simp only [Option.getD_none, drop_to_authority]
      simp [hr0.ne', hv, strndup_of_validHost hv]
    · rw [(hostLoop_none_eq hr0.ne').2 ⟨hsa, .inr ⟨user, r, hsp, hu, hna, rfl, rfl⟩⟩]
      simp only [Option.getD_some, drop_after_userinfo hsp]
      simp [hr0.ne', hv, strndup_of_validHost hv]

/-- **The host is taken from the userinfo.** The authority of
`https://www.example.com:x@evil.org/` is `www.example.com:x@evil.org`, whose host is
`evil.org`; the scan stops at the first `:` and returns `www.example.com`. The authority of
`http://a@b:1@c/` holds two `@`, and the host returned is `b`. -/
theorem uriHost_from_userinfo :
    uriHost (ascii "https://www.example.com:x@evil.org/") = some (ascii "www.example.com") ∧
    uriHost (ascii "http://a@b:1@c/") = some (ascii "b") := by
  decide

/-- **The URI comparator tests the URI's host against the constraint**: it answers exactly
when the URI has a host and the constraint is valid, and the answer is `DomainMatch`. -/
theorem uri_eq_ok_iff {u c : Bytes} {b : Bool} :
    uri u c = .ok b ↔
      ∃ host, uriHost u = some host ∧ validDomainConstraint c = true ∧
        (b = true ↔ DomainMatch host c) := by
  unfold uri
  cases hu : uriHost u with
  | none => simp
  | some host =>
    obtain ⟨_, _, -, hv⟩ := uriHost_eq_take hu
    cases hc : validDomainConstraint c
    · simp
    · simp only [Option.some.injEq, exists_eq_left', Bool.not_true, Bool.false_eq_true, if_false,
        true_and, Except.ok.injEq, ← domain_iff (zero_not_mem_of_validDomainInternal hv)
          (zero_not_mem_of_validDomainConstraint hc)]
      cases b <;> simp

end X509Constraints
