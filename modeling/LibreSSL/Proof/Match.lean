import LibreSSL.Proof.Domain
import LibreSSL.Spec.Match

/-!
# The comparators are suffix tests

`x509_constraints_sandns` compares the last `len` bytes of the name with the constraint,
case-insensitively. On the names and constraints the validators let through, which hold no
NUL byte, this is exactly "the constraint is empty or a case-insensitive suffix of the
name", whether or not the constraint starts with `.`: the suffix need not begin at a label
boundary. `x509_constraints_domain`, which compares URI hosts and email domains, runs the
same test in one direction or the other depending on which side starts with `.`, and
otherwise compares the two whole names.

* `sandns_iff_suffix`: the DNS comparator on NUL-free names.
* `sandns_match_iff_suffix`: `x509_constraints_match` on validated DNS records.
* `domain_iff`: the domain comparator on NUL-free names decides `DomainMatch`.
* `uriHost_sound`: the host taken from a URI is a validated run of its bytes.
-/

namespace X509Constraints

/-- The validators that admit a DNS name or constraint all end in the internal one. -/
theorem validSandns_internal {n : Bytes} (h : validSandns n = true) :
    validDomainInternal n = true := by
  unfold validSandns at h
  split_ifs at h
  exact h

theorem validHost_take {n : Bytes} {len : ℕ} (h : validHost n len = true) :
    validDomainInternal (n.take len) = true := by
  unfold validHost at h
  split_ifs at h
  exact h

theorem validHost_internal {n : Bytes} (h : validHost n n.length = true) :
    validDomainInternal n = true := by
  simpa using validHost_take h

theorem validDomainConstraint_internal {c : Bytes} (h : validDomainConstraint c = true) :
    c = [] ∨ validDomainInternal c = true := by
  unfold validDomainConstraint at h
  split_ifs at h with h0
  · exact .inl (List.length_eq_zero.1 (by simpa using h0))
  · exact .inr h

theorem zero_not_mem_of_validDomainConstraint {c : Bytes} (h : validDomainConstraint c = true) :
    0 ∉ c := by
  rcases validDomainConstraint_internal h with rfl | h
  · simp
  · exact zero_not_mem_of_validDomainInternal h

/-- The test both comparators run on the end of a name: the last `len` bytes of `n`, compared
with `c`, case ignored. -/
theorem suffix_test_iff {n c : Bytes} (hn : 0 ∉ n) (hc : 0 ∉ c) :
    (if n.length < c.length then false
      else strncasecmpEq (n.drop (n.length - c.length)) c c.length) = true ↔
      c.map tolower <:+ n.map tolower := by
  have hdrop : 0 ∉ n.drop (n.length - c.length) := fun h => hn (List.mem_of_mem_drop h)
  rw [List.suffix_iff_eq_drop, List.length_map, List.length_map, ← List.map_drop]
  split_ifs with hlt
  · simp only [Bool.false_eq_true, false_iff]
    intro h
    have := congrArg List.length h
    simp only [List.length_map, List.length_drop] at this
    omega
  · simp only [strncasecmpEq, cstr_eq_self hc, cstr_eq_self hdrop, List.take_length,
      List.take_of_length_le (by simp; omega : (n.drop (n.length - c.length)).length ≤ c.length)]
    simpa using eq_comm

/-- **The DNS comparator is a plain suffix test.** On NUL-free bytes, `sandns n c` holds
exactly when `c` is empty or, ASCII case ignored, a suffix of `n`. -/
theorem sandns_iff_suffix {n c : Bytes} (hn : 0 ∉ n) (hc : 0 ∉ c) :
    sandns n c = true ↔ c = [] ∨ c.map tolower <:+ n.map tolower := by
  simp only [sandns, strlen, cstr_eq_self hn, cstr_eq_self hc]
  by_cases h0 : c = []
  · simp [h0]
  simpa [h0] using suffix_test_iff hn hc

/-- **`x509_constraints_match` on DNS records is a suffix test.** For a SAN DNS name (or a
host-like CN) and a DNS constraint that passed their validators, the records match exactly
when the constraint is empty or, ASCII case ignored, a suffix of the name, with or without a
leading `.` and whether or not the suffix starts at a label boundary. -/
theorem sandns_match_iff_suffix (n c : Bytes)
    (hn : validSandns n = true ∨ validHost n n.length = true)
    (hc : validDomainConstraint c = true) :
    constraintsMatch { type := .dns, name := n } { type := .dns, name := c } = true ↔
      c = [] ∨ c.map tolower <:+ n.map tolower := by
  have hn0 : 0 ∉ n := zero_not_mem_of_validDomainInternal
    (hn.elim validSandns_internal validHost_internal)
  simpa [constraintsMatch] using sandns_iff_suffix hn0 (zero_not_mem_of_validDomainConstraint hc)

theorem sandns_match_iff_suffix_www :
    (validSandns (ascii "www.example.com") = true ∨
      validHost (ascii "www.example.com") (ascii "www.example.com").length = true) ∧
    validDomainConstraint (ascii "example.com") = true ∧
    (constraintsMatch { type := .dns, name := ascii "www.example.com" }
        { type := .dns, name := ascii "example.com" } = true ↔
      ascii "example.com" = [] ∨
        (ascii "example.com").map tolower <:+ (ascii "www.example.com").map tolower) :=
  ⟨.inl (by decide), by decide, sandns_match_iff_suffix _ _ (.inl (by decide)) (by decide)⟩

/-- A constraint without a leading `.` matches a name that only ends with it inside a label:
`example.com` matches `evilexample.com`, which neither equals it nor ends with
`.example.com`. -/
theorem sandns_match_across_label :
    validSandns (ascii "evilexample.com") = true ∧
    validDomainConstraint (ascii "example.com") = true ∧
    (ascii "example.com").head? ≠ some '.'.toUInt8 ∧
    constraintsMatch { type := .dns, name := ascii "evilexample.com" }
      { type := .dns, name := ascii "example.com" } = true ∧
    (ascii "evilexample.com").map tolower ≠ (ascii "example.com").map tolower ∧
    ¬ ('.'.toUInt8 :: (ascii "example.com").map tolower) <:+
      (ascii "evilexample.com").map tolower := by
  decide

/-! ## URI hosts and email domains -/

theorem getD_zero_eq_dot {s : Bytes} : s.getD 0 0 = '.'.toUInt8 ↔ s.head? = some '.'.toUInt8 := by
  cases s <;> simp +decide

/-- What `x509_constraints_domain` decides, ASCII case ignored: an empty constraint matches;
a constraint starting with `.` matches the names it ends; a name starting with `.` matches
the constraints it ends; otherwise the two must be equal. -/
def DomainMatch (n c : Bytes) : Prop :=
  c = [] ∨
    (c.head? = some '.'.toUInt8 ∧ c.map tolower <:+ n.map tolower) ∨
    (c.head? ≠ some '.'.toUInt8 ∧ n.head? = some '.'.toUInt8 ∧ n.map tolower <:+ c.map tolower) ∨
    (c.head? ≠ some '.'.toUInt8 ∧ n.head? ≠ some '.'.toUInt8 ∧ n.map tolower = c.map tolower)

/-- The domain comparator decides `DomainMatch` on NUL-free bytes. -/
theorem domain_iff {n c : Bytes} (hn : 0 ∉ n) (hc : 0 ∉ c) :
    domain n c = true ↔ DomainMatch n c := by
  simp only [DomainMatch, domain, strlen, cstr_eq_self hn, cstr_eq_self hc, beq_iff_eq,
    getD_zero_eq_dot]
  by_cases h0 : c = []
  · simp [h0]
  have hl : c.length ≠ 0 := by simpa using h0
  by_cases hcd : c.head? = some '.'.toUInt8
  · simpa [hl, hcd, h0] using suffix_test_iff hn hc
  by_cases hnd : n.head? = some '.'.toUInt8
  · simpa [hl, hcd, hnd, h0] using suffix_test_iff hc hn
  by_cases hlen : n.length = c.length
  · have hn' : n.take c.length = n := List.take_of_length_le hlen.le
    simp [hl, hcd, hnd, h0, hlen, strncasecmpEq, cstr_eq_self hn, cstr_eq_self hc, hn']
  · simp only [hcd, hnd, h0, hl, hlen, if_false, bne_iff_ne, ne_eq, not_false_eq_true, if_true,
      Bool.false_eq_true, false_or, false_and, true_and, false_iff]
    intro h
    exact hlen (by simpa using congrArg List.length h)

/-- The host `x509_constraints_uri_host` returns is the first `n` bytes from some index of the
URI, and a name the internal validator accepts. -/
theorem uriHost_eq_take {u h : Bytes} (hu : uriHost u = some h) :
    ∃ i n, h = (u.drop i).take n ∧ validDomainInternal h = true := by
  unfold uriHost at hu
  split_ifs at hu
  split at hu <;> try cases hu
  split at hu <;> try cases hu
  dsimp only at hu
  split_ifs at hu with h0 hv
  cases hu
  have hd := validHost_take (by simpa using hv)
  rw [strndup, cstr_eq_self (zero_not_mem_of_validDomainInternal hd)]
  exact ⟨_, _, rfl, hd⟩

/-- **The host `x509_constraints_uri_host` returns is a validated piece of the URI.** It is
a run of consecutive bytes of the URI, and a name `x509_constraints_valid_domain_internal`
accepts. -/
theorem uriHost_sound {u h : Bytes} (hu : uriHost u = some h) :
    validDomainInternal h = true ∧ h <:+: u := by
  obtain ⟨i, n, rfl, hd⟩ := uriHost_eq_take hu
  exact ⟨hd, (List.take_prefix _ _).isInfix.trans (List.drop_suffix _ _).isInfix⟩

theorem uriHost_sound_https :
    uriHost (ascii "https://www.example.com/x") = some (ascii "www.example.com") ∧
    validDomainInternal (ascii "www.example.com") = true ∧
    ascii "www.example.com" <:+: ascii "https://www.example.com/x" :=
  have hu : uriHost (ascii "https://www.example.com/x") = some (ascii "www.example.com") := by
    decide
  ⟨hu, uriHost_sound hu⟩

end X509Constraints
