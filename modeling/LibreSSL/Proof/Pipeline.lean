import LibreSSL.Proof.Mailbox
import LibreSSL.Proof.Extract

/-!
# What the extractors hand to the matcher

A chain check matches the records `x509_constraints_extract_names` produces against the
records `x509_constraints_extract_constraints` produces. Every record of a successful
extraction comes from one of the extractor's branches (`extractNames_mem`,
`extractConstraints_mem`), and every branch leaves a well-formed record (`NameOk`,
`ConstraintOk`): no NUL byte in a name or local part, a local part on every email name, and
an address of the family's length on every IP record. On such records the comparators are
the plain tests of `NameMatch` (`constraintsMatch_iff`).

* `extracted_match_iff`: on every pair of extracted records, `x509_constraints_match` decides
  `NameMatch`.
* `constraintsMatch_case_insensitive`: the ASCII case of a name's domain does not change what
  it matches, except for an email against a mailbox constraint.
* `extracted_match_domain_case`: on extracted records, the same, and against a mailbox
  constraint the domain is compared byte for byte; `mailbox_exclusion_case_sensitive` shows a
  mailbox exclusion missed for a domain in capitals.
* `dirName_match_iff_eq`: a directory-name constraint matches only the name with its own
  encoding; `dirName_exclusion_misses_subordinate` shows an exclusion missing the names below
  it.
-/

namespace X509Constraints

/-! ## Where the records come from -/

theorem bodyRun_mem {body : Bytes → Except VerifyError (Option Name)} {ds : List Bytes}
    {vs : List Name} (h : bodyRun body ds = .ok vs) : ∀ v ∈ vs, ∃ d, body d = .ok (some v) := by
  induction ds generalizing vs with
  | nil => cases h; simp
  | cons d ds ih =>
    unfold bodyRun at h
    split at h
    next => cases h
    next => exact ih h
    next v hv =>
      obtain ⟨vs', hr, rfl⟩ := except_map_eq_ok h
      exact List.forall_mem_cons.2 ⟨⟨d, hv⟩, ih hr⟩

theorem subjectLoop_mem {subject : X509Name} {nid : ℕ}
    {body : Bytes → Except VerifyError (Option Name)}
    {b : Bool} {i j : ℤ} {vs : List Name}
    (h : (if b then entriesLoop subject nid body i else .ok ([], i)) = .ok (vs, j)) :
    ∀ v ∈ vs, ∃ d, body d = .ok (some v) := by
  cases b
  · cases h; simp
  · simp only [if_true, entriesLoop_eq] at h
    obtain ⟨vs', hr, he⟩ := except_map_eq_ok h
    cases he
    exact bodyRun_mem hr

theorem sanLoop_mem {cn em : Bool} {i : ℕ} {l : List GeneralName}
    {r : List Name × Bool × Bool × ℤ} (h : sanLoop cn em i l = .ok r) :
    ∀ v ∈ r.1, ∃ g, sanName g = .ok (some v) := by
  induction l generalizing cn em i r with
  | nil => cases h; simp
  | cons g l ih =>
    unfold sanLoop at h
    split at h
    next => cases h
    next => exact ih h
    next v hv =>
      obtain ⟨r', hr, rfl⟩ := except_map_eq_ok h
      exact List.forall_mem_cons.2 ⟨⟨g, hv⟩, ih hr⟩

/-- Every record of a successful extraction is a SAN's, the subject's directory name, or one
of the subject loops' records. -/
theorem extractNames_mem {cert : Cert} {isLeaf : Bool} {names : List Name}
    (h : extractNames cert isLeaf = .ok names) :
    ∀ v ∈ names, (∃ g, sanName g = .ok (some v)) ∨ (∃ b, v = { type := .dirName, der := b }) ∨
      (∃ d, emailBody d = .ok (some v)) ∨ (∃ d, cnBody d = .ok (some v)) := by
  unfold extractNames at h
  cases hs : sanLoop isLeaf isLeaf 0 cert.altname with
  | error e => rw [hs] at h; cases h
  | ok r =>
    obtain ⟨sans, cn, em, i⟩ := r
    have hsan := sanLoop_mem hs
    rw [hs] at h
    simp only at h
    split at h
    next =>
      split at h
      next => cases h
      next emails i' he =>
        split at h
        next => cases h
        next cns i'' hc =>
          cases h
          intro v hv
          simp only [List.mem_append, List.mem_cons] at hv
          rcases hv with ((hv | rfl | hv) | hv)
          · exact .inl (hsan v hv)
          · exact .inr (.inl ⟨_, rfl⟩)
          · exact .inr (.inr (.inl (subjectLoop_mem he v hv)))
          · exact .inr (.inr (.inr (subjectLoop_mem hc v hv)))
    next => cases h; exact fun v hv => .inl (hsan v hv)

theorem subtreesLoop_mem {l : List GeneralSubtree} {cs : List Name}
    (h : subtreesLoop l = .ok cs) :
    ∀ c ∈ cs, ∃ g, validate g = .ok (some c) := by
  induction l generalizing cs with
  | nil => cases h; simp
  | cons t l ih =>
    unfold subtreesLoop at h
    split_ifs at h
    split at h
    next => cases h
    next => exact ih h
    next v hv =>
      obtain ⟨cs', hr, rfl⟩ := except_map_eq_ok h
      exact List.forall_mem_cons.2 ⟨⟨t.base, hv⟩, ih hr⟩

theorem extractConstraints_mem {cert : Cert} {permitted excluded : List Name}
    (h : extractConstraints cert = .ok (permitted, excluded)) :
    ∀ c ∈ permitted ++ excluded, ∃ g, validate g = .ok (some c) := by
  unfold extractConstraints at h
  split at h
  next => cases h; simp
  next nc =>
    split at h
    next => cases h
    next p hp =>
      split at h
      next => cases h
      next e he =>
        cases h
        intro c hc
        rcases List.mem_append.1 hc with hc | hc
        · exact subtreesLoop_mem hp c hc
        · exact subtreesLoop_mem he c hc

/-! ## The records are well formed -/

/-- What the matcher relies on in a name record: `strcmp` and the comparators stop at the first
NUL, an email name has a local part, and an IP name is an address of its family. -/
structure NameOk (x : Name) : Prop where
  name_nul : 0 ∉ x.name
  local_nul : ∀ l, x.localPart = some l → 0 ∉ l
  email_local : x.type = .email → x.localPart.isSome
  ip_len : x.type = .ipAdd →
    (x.af = .inet ∧ x.address.length = 4) ∨ (x.af = .inet6 ∧ x.address.length = 16)

/-- What the matcher relies on in a constraint record; an IP constraint is an address and a
mask. -/
structure ConstraintOk (c : Name) : Prop where
  name_nul : 0 ∉ c.name
  local_nul : ∀ l, c.localPart = some l → 0 ∉ l
  ip_len : c.type = .ipAdd →
    (c.af = .inet ∧ c.address.length = 8) ∨ (c.af = .inet6 ∧ c.address.length = 32)

theorem mailbox_nameOk {m l d : Bytes} (h : parseMailbox m = some (l, d)) :
    NameOk { type := .email, name := d, localPart := some l } :=
  ⟨(parseMailbox_nul h).2, fun _ e => by cases e; exact (parseMailbox_nul h).1, fun _ => rfl,
    fun e => by cases e⟩

theorem sanName_ok {g : GeneralName} {v : Name} (h : sanName g = .ok (some v)) : NameOk v := by
  cases g with
  | dns s =>
    simp only [sanName, generalToBytes, Option.getD_some] at h
    split_ifs at h
    cases h
    constructor <;> simp
  | email s =>
    simp only [sanName, generalToBytes, Option.getD_some] at h
    split at h
    · cases h
    · cases h; exact mailbox_nameOk ‹_›
  | uri s =>
    simp only [sanName, generalToBytes, Option.getD_some] at h
    split at h
    · cases h
    · cases h
      obtain ⟨-, -, -, hd⟩ := uriHost_eq_take ‹_›
      exact ⟨zero_not_mem_of_validDomainInternal hd, by simp, by simp, by simp⟩
  | dirName n =>
    simp only [sanName, generalToBytes] at h
    split at h <;> try split_ifs at h
    all_goals cases h
    constructor <;> simp
  | ipAdd s =>
    simp only [sanName, generalToBytes, Option.getD_some] at h
    split_ifs at h <;> cases h <;> constructor <;> simp_all
  | other => cases h

theorem cnBody_ok {d : Bytes} {v : Name} (h : cnBody d = .ok (some v)) : NameOk v := by
  unfold cnBody at h
  split_ifs at h <;> cases h
  constructor <;> simp

theorem emailBody_ok {d : Bytes} {v : Name} (h : emailBody d = .ok (some v)) : NameOk v := by
  unfold emailBody at h
  split at h
  · cases h
  · cases h; exact mailbox_nameOk ‹_›

theorem validate_ok {g : GeneralName} {c : Name} (h : validate g = .ok (some c)) :
    ConstraintOk c := by
  cases g with
  | dirName n =>
    simp only [validate, generalToBytes] at h
    split at h <;> try split_ifs at h
    all_goals cases h
    constructor <;> simp
  | email s =>
    simp only [validate, generalToBytes, Option.getD_some] at h
    split_ifs at h
    · split at h
      · cases h
      · cases h
        exact ⟨(parseMailbox_nul ‹_›).2, fun _ e => by cases e; exact (parseMailbox_nul ‹_›).1,
          by simp⟩
    · cases h; constructor <;> simp
  | ipAdd s =>
    simp only [validate, generalToBytes, Option.getD_some] at h
    split_ifs at h <;> cases h <;> constructor <;> simp_all
  | other => cases h
  | _ =>
    simp only [validate, generalToBytes, Option.getD_some] at h
    split_ifs at h
    cases h
    constructor <;> simp

theorem extractNames_ok {cert : Cert} {isLeaf : Bool} {names : List Name}
    (h : extractNames cert isLeaf = .ok names) : ∀ x ∈ names, NameOk x := by
  intro x hx
  rcases extractNames_mem h x hx with ⟨g, hg⟩ | ⟨b, rfl⟩ | ⟨d, hd⟩ | ⟨d, hd⟩
  · exact sanName_ok hg
  · constructor <;> simp
  · exact emailBody_ok hd
  · exact cnBody_ok hd

theorem extractConstraints_ok {cert : Cert} {permitted excluded : List Name}
    (h : extractConstraints cert = .ok (permitted, excluded)) :
    ∀ c ∈ permitted ++ excluded, ConstraintOk c := fun c hc =>
  (extractConstraints_mem h c hc).elim fun _ hg => validate_ok hg

/-! ## What the matcher decides -/

/-- What `x509_constraints_match` decides on records the extractors produce: records of one
type, and then per type a case-insensitive suffix test (DNS), the domain comparator (URI hosts,
and email domains against a domain constraint), equal local parts and equal domains (a mailbox
constraint), the masked compare (IP), equal encodings (directory names). -/
def NameMatch (x c : Name) : Prop :=
  x.type = c.type ∧
  match x.type with
  | .dns => c.name = [] ∨ c.name.map tolower <:+ x.name.map tolower
  | .uri => DomainMatch x.name c.name
  | .email =>
    match c.localPart with
    | some l => x.localPart = some l ∧ x.name = c.name
    | none => DomainMatch x.name c.name
  | .ipAdd =>
    x.af = c.af ∧ ∀ i < x.address.length,
      (x.address.getD i 0 &&& c.address.getD (x.address.length + i) 0) =
        (c.address.getD i 0 &&& c.address.getD (x.address.length + i) 0)
  | .dirName => x.der = c.der

theorem dirname_iff {a b : Bytes} : dirname a b = true ↔ a = b := by
  unfold dirname memcmpEq
  by_cases hl : b.length = a.length
  · rw [if_neg (by simp [hl]), List.take_length, List.take_of_length_le hl.ge, beq_iff_eq]
    exact eq_comm
  · simp only [bne_iff_ne, ne_eq, hl, not_false_eq_true, if_true, Bool.false_eq_true, false_iff]
    rintro rfl; exact hl rfl

theorem strcmpEq_iff {a b : Bytes} (ha : 0 ∉ a) (hb : 0 ∉ b) : strcmpEq a b = true ↔ a = b := by
  simp [strcmpEq, cstr_eq_self ha, cstr_eq_self hb]

/-- **On well-formed records, `x509_constraints_match` decides `NameMatch`.** -/
theorem constraintsMatch_iff {x c : Name} (hx : NameOk x) (hc : ConstraintOk c) :
    constraintsMatch x c = true ↔ NameMatch x c := by
  unfold constraintsMatch NameMatch
  by_cases ht : x.type = c.type
  swap
  · simp [ht]
  simp only [ht, bne_self_eq_false, Bool.false_eq_true, if_false, true_and]
  cases hct : c.type with
  | dns => exact sandns_iff_suffix hx.name_nul hc.name_nul
  | uri => exact domain_iff hx.name_nul hc.name_nul
  | email =>
    cases hl : c.localPart with
    | none => exact domain_iff hx.name_nul hc.name_nul
    | some lc =>
      obtain ⟨lx, hlx⟩ := Option.isSome_iff_exists.1 (hx.email_local (ht.trans hct))
      simp [hlx, strcmpEq_iff (hx.local_nul lx hlx) (hc.local_nul lc hl),
        strcmpEq_iff hx.name_nul hc.name_nul]
  | ipAdd =>
    rcases hx.ip_len (ht.trans hct) with ⟨hxa, hxl⟩ | ⟨hxa, hxl⟩ <;>
      rcases hc.ip_len hct with ⟨hca, hcl⟩ | ⟨hca, hcl⟩ <;>
      simp +decide [hxa, hca, hxl, ipaddr]
  | dirName => exact dirname_iff

/-- **On every name of a certificate and every constraint of an issuer, as the extractors
produce them, `x509_constraints_match` decides `NameMatch`.** -/
theorem extracted_match_iff {cert ca : Cert} {isLeaf : Bool}
    {names permitted excluded : List Name} {x c : Name}
    (hN : extractNames cert isLeaf = .ok names)
    (hC : extractConstraints ca = .ok (permitted, excluded))
    (hx : x ∈ names) (hc : c ∈ permitted ++ excluded) :
    constraintsMatch x c = true ↔ NameMatch x c :=
  constraintsMatch_iff (extractNames_ok hN x hx) (extractConstraints_ok hC c hc)

theorem extracted_match_iff_uri :
    extractNames ⟨[.uri (ascii "https://www.example.com/")], ⟨[], none⟩, none⟩ true =
      .ok [{ type := .uri, name := ascii "www.example.com" }] ∧
    extractConstraints ⟨[], ⟨[], none⟩, some ⟨[⟨.uri (ascii ".example.com"), none, none⟩], []⟩⟩ =
      .ok ([{ type := .uri, name := ascii ".example.com" }], []) ∧
    (constraintsMatch { type := .uri, name := ascii "www.example.com" }
        { type := .uri, name := ascii ".example.com" } = true ↔
      NameMatch { type := .uri, name := ascii "www.example.com" }
        { type := .uri, name := ascii ".example.com" }) :=
  have hN : extractNames ⟨[.uri (ascii "https://www.example.com/")], ⟨[], none⟩, none⟩ true =
      .ok [{ type := .uri, name := ascii "www.example.com" }] := by decide
  have hC : extractConstraints
      ⟨[], ⟨[], none⟩, some ⟨[⟨.uri (ascii ".example.com"), none, none⟩], []⟩⟩ =
      .ok ([{ type := .uri, name := ascii ".example.com" }], []) := by decide
  ⟨hN, hC, extracted_match_iff hN hC (List.mem_singleton_self _) (by simp)⟩

/-! ## The case of a domain -/

/-- `tolower` moves only the capitals, to bytes from `'a'` on. -/
theorem eq_of_tolower_eq {a b : UInt8} (hb : b < 'a'.toUInt8) (h : tolower a = b) : a = b := by
  unfold tolower at h
  split_ifs at h with hl
  · subst h
    have hc : ('A'.toUInt8).toBitVec.toNat = 65 ∧ ('Z'.toUInt8).toBitVec.toNat = 90 ∧
        ('a'.toUInt8).toBitVec.toNat = 97 ∧ (32 : UInt8).toBitVec.toNat = 32 := ⟨rfl, rfl, rfl, rfl⟩
    simp only [Bool.and_eq_true, decide_eq_true_eq, UInt8.le_def, UInt8.lt_def, BitVec.le_def,
      BitVec.lt_def, UInt8.add_def, BitVec.toNat_add] at hl hb
    omega
  · exact h

theorem head_dot_of_map_tolower {n m : Bytes} (h : n.map tolower = m.map tolower) :
    n.head? = some '.'.toUInt8 ↔ m.head? = some '.'.toUInt8 := by
  have key : ∀ {n m : Bytes}, n.map tolower = m.map tolower →
      m.head? = some '.'.toUInt8 → n.head? = some '.'.toUInt8 := by
    intro n m h hm
    cases n with
    | nil => cases m <;> simp_all
    | cons a n =>
      cases m with
      | nil => simp at h
      | cons b m =>
        simp only [List.map_cons, List.cons.injEq, List.head?_cons, Option.some.injEq] at h hm ⊢
        subst hm
        exact eq_of_tolower_eq (by decide) h.1
  exact ⟨key h.symm, key h⟩

theorem domainMatch_congr {n m c : Bytes} (h : n.map tolower = m.map tolower) :
    DomainMatch n c ↔ DomainMatch m c := by
  simp only [DomainMatch, h, ne_eq, head_dot_of_map_tolower h]

theorem zero_not_mem_of_map_tolower {n m : Bytes} (h : n.map tolower = m.map tolower)
    (hm : 0 ∉ m) : 0 ∉ n := fun h0 => by
  obtain ⟨a, ha, h0'⟩ := List.mem_map.1 (h ▸ List.mem_map_of_mem tolower h0)
  exact hm (eq_of_tolower_eq (b := 0) (by decide) (h0'.trans (by decide)) ▸ ha)

/-- A record whose name differs from a well-formed one's only in ASCII case is well formed. -/
theorem NameOk.with_name {x : Name} {n : Bytes} (hx : NameOk x)
    (hn : n.map tolower = x.name.map tolower) : NameOk { x with name := n } :=
  ⟨zero_not_mem_of_map_tolower hn hx.name_nul, hx.local_nul, hx.email_local, hx.ip_len⟩

/-- Off the mailbox path, `NameMatch` reads a name only through its case-folded bytes. -/
theorem nameMatch_case_off_mailbox {x c : Name} {n : Bytes}
    (hn : n.map tolower = x.name.map tolower) (hpath : x.type = .email → c.localPart = none) :
    NameMatch { x with name := n } c ↔ NameMatch x c := by
  unfold NameMatch
  cases ht : x.type with
  | dns => simp only [hn]
  | uri => simp only [domainMatch_congr hn]
  | email => simp only [hpath ht, domainMatch_congr hn]
  | ipAdd => rfl
  | dirName => rfl

/-- **Off the mailbox path, the case of a name's domain does not matter.** Two records that
differ only in the ASCII case of their names (a DNS name, a URI host, an email domain) match
the same constraints, unless the name is an email and the constraint a mailbox. -/
theorem constraintsMatch_case_insensitive {x c : Name} {n : Bytes} (hx : NameOk x)
    (hc : ConstraintOk c) (hn : n.map tolower = x.name.map tolower)
    (hpath : x.type = .email → c.localPart = none) :
    constraintsMatch { x with name := n } c = constraintsMatch x c := by
  rw [Bool.eq_iff_iff, constraintsMatch_iff (hx.with_name hn) hc, constraintsMatch_iff hx hc]
  exact nameMatch_case_off_mailbox hn hpath

theorem constraintsMatch_case_insensitive_dns :
    NameOk { type := .dns, name := ascii "www.example.com" } ∧
      ConstraintOk { type := .dns, name := ascii "example.com" } ∧
      (ascii "WWW.Example.COM").map tolower = (ascii "www.example.com").map tolower ∧
      (NameType.dns = .email → (none : Option Bytes) = none) ∧
      constraintsMatch { type := .dns, name := ascii "WWW.Example.COM" }
          { type := .dns, name := ascii "example.com" } =
        constraintsMatch { type := .dns, name := ascii "www.example.com" }
          { type := .dns, name := ascii "example.com" } :=
  have hx : NameOk { type := .dns, name := ascii "www.example.com" } :=
    ⟨by decide, nofun, nofun, nofun⟩
  have hc : ConstraintOk { type := .dns, name := ascii "example.com" } := ⟨by decide, nofun, nofun⟩
  have hn : (ascii "WWW.Example.COM").map tolower = (ascii "www.example.com").map tolower := by
    decide
  ⟨hx, hc, hn, nofun, constraintsMatch_case_insensitive hx hc hn nofun⟩

/-- **The case of a name's domain matters on the mailbox path only.** For every name a
certificate yields and every constraint an issuer yields, a record that differs from the name
only in the ASCII case of its domain matches the same constraints, except a mailbox
constraint: that one it matches exactly when its local part is the constraint's and its
domain equals the constraint's byte for byte. -/
theorem extracted_match_domain_case {cert ca : Cert} {isLeaf : Bool}
    {names permitted excluded : List Name} {x c : Name} {n : Bytes}
    (hN : extractNames cert isLeaf = .ok names)
    (hC : extractConstraints ca = .ok (permitted, excluded))
    (hx : x ∈ names) (hc : c ∈ permitted ++ excluded) (hn : n.map tolower = x.name.map tolower) :
    ((x.type = .email → c.localPart = none) →
      constraintsMatch { x with name := n } c = constraintsMatch x c) ∧
    (x.type = .email → c.type = .email → ∀ l, c.localPart = some l →
      (constraintsMatch { x with name := n } c = true ↔ x.localPart = some l ∧ n = c.name)) := by
  have hxo := extractNames_ok hN x hx
  have hco := extractConstraints_ok hC c hc
  refine ⟨fun hpath => ?_, fun hxe hce l hl => ?_⟩
  · rw [Bool.eq_iff_iff, constraintsMatch_iff (hxo.with_name hn) hco,
      constraintsMatch_iff hxo hco]
    exact nameMatch_case_off_mailbox hn hpath
  · rw [constraintsMatch_iff (hxo.with_name hn) hco]
    simp [NameMatch, hxe, hce, hl]

theorem extracted_match_domain_case_mailbox :
    let mbox : Name :=
      { type := .email, name := ascii "example.com", localPart := some (ascii "user") }
    extractNames ⟨[.email (ascii "user@example.com")], ⟨[], none⟩, none⟩ true = .ok [mbox] ∧
      extractConstraints
          ⟨[], ⟨[], none⟩, some ⟨[], [⟨.email (ascii "user@example.com"), none, none⟩]⟩⟩ =
        .ok ([], [mbox]) ∧
      (ascii "EXAMPLE.com").map tolower = mbox.name.map tolower ∧
      ((mbox.type = .email → mbox.localPart = none) →
        constraintsMatch { mbox with name := ascii "EXAMPLE.com" } mbox =
          constraintsMatch mbox mbox) ∧
      (mbox.type = .email → mbox.type = .email → ∀ l, mbox.localPart = some l →
        (constraintsMatch { mbox with name := ascii "EXAMPLE.com" } mbox = true ↔
          mbox.localPart = some l ∧ ascii "EXAMPLE.com" = mbox.name)) := by
  intro mbox
  have hN : extractNames ⟨[.email (ascii "user@example.com")], ⟨[], none⟩, none⟩ true =
      .ok [mbox] := by decide
  have hC : extractConstraints
      ⟨[], ⟨[], none⟩, some ⟨[], [⟨.email (ascii "user@example.com"), none, none⟩]⟩⟩ =
      .ok ([], [mbox]) := by decide
  have hn : (ascii "EXAMPLE.com").map tolower = mbox.name.map tolower := by decide
  exact ⟨hN, hC, hn,
    extracted_match_domain_case hN hC (List.mem_singleton_self _) (by simp) hn⟩

/-- The mailbox path compares the domain with `strcmp`: a CA that excludes the mailbox
`user@example.com` excludes a leaf naming `user@example.com`, but not one naming
`user@EXAMPLE.com`, which differs from it only in the case of the domain. -/
theorem mailbox_exclusion_case_sensitive :
    let lower : Name :=
      { type := .email, name := ascii "example.com", localPart := some (ascii "user") }
    let upper : Name := { lower with name := ascii "EXAMPLE.com" }
    extractNames ⟨[.email (ascii "user@example.com")], ⟨[], none⟩, none⟩ true = .ok [lower] ∧
      extractNames ⟨[.email (ascii "user@EXAMPLE.com")], ⟨[], none⟩, none⟩ true = .ok [upper] ∧
      extractConstraints
          ⟨[], ⟨[], none⟩, some ⟨[], [⟨.email (ascii "user@example.com"), none, none⟩]⟩⟩ =
        .ok ([], [lower]) ∧
      constraintsMatch lower lower = true ∧ constraintsMatch upper lower = false ∧
      check [upper] [] [lower] = .ok () := by
  dsimp only
  decide

/-! ## Directory names -/

/-- The canonical encoding of the RDN `O=evil`: `SET { SEQUENCE { id-at-organizationName,
UTF8String "evil" } }`. -/
def rdnOrgEvil : Bytes :=
  [0x31, 0x0d, 0x30, 0x0b, 0x06, 0x03, 0x55, 0x04, 0x0a, 0x0c, 0x04] ++ ascii "evil"

/-- The canonical encoding of the RDN `CN=x`: `SET { SEQUENCE { id-at-commonName,
UTF8String "x" } }`. -/
def rdnCommonNameX : Bytes :=
  [0x31, 0x0a, 0x30, 0x08, 0x06, 0x03, 0x55, 0x04, 0x03, 0x0c, 0x01] ++ ascii "x"

/-- **A directory-name constraint matches only the name with the same encoding.**
`x509_constraints_dirname` wants the two canonical encodings of equal length, then equal byte
for byte: a constraint matches none of the names below it. -/
theorem dirName_match_iff_eq {x c : Name} (hx : x.type = .dirName) (hc : c.type = .dirName) :
    constraintsMatch x c = true ↔ x.der = c.der := by
  simp only [constraintsMatch, hx, hc, bne_self_eq_false, Bool.false_eq_true, if_false]
  exact dirname_iff

theorem dirName_match_iff_eq_evil :
    constraintsMatch { type := .dirName, der := rdnOrgEvil ++ rdnCommonNameX }
        { type := .dirName, der := rdnOrgEvil } = true ↔
      rdnOrgEvil ++ rdnCommonNameX = rdnOrgEvil :=
  dirName_match_iff_eq rfl rfl

/-- A CA excludes the directory name `O=evil`; a leaf names `O=evil, CN=x`, one RDN below it.
The comparator wants equal encodings, so the name does not match the excluded constraint and
the check passes. -/
theorem dirName_exclusion_misses_subordinate :
    extractNames ⟨[.dirName ⟨[⟨17, ascii "evil"⟩, ⟨NID_commonName, ascii "x"⟩],
        some (rdnOrgEvil ++ rdnCommonNameX)⟩], ⟨[], none⟩, none⟩ true =
        .ok [{ type := .dirName, der := rdnOrgEvil ++ rdnCommonNameX }] ∧
      extractConstraints ⟨[], ⟨[], none⟩,
          some ⟨[], [⟨.dirName ⟨[⟨17, ascii "evil"⟩], some rdnOrgEvil⟩, none, none⟩]⟩⟩ =
        .ok ([], [{ type := .dirName, der := rdnOrgEvil }]) ∧
      constraintsMatch { type := .dirName, der := rdnOrgEvil ++ rdnCommonNameX }
          { type := .dirName, der := rdnOrgEvil } = false ∧
      check [{ type := .dirName, der := rdnOrgEvil ++ rdnCommonNameX }] []
          [{ type := .dirName, der := rdnOrgEvil }] = .ok () := by
  decide

end X509Constraints
