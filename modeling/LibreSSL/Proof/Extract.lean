import LibreSSL.Spec.Extract

/-!
# What name extraction records

The two subject loops of `x509_constraints_extract_names` are `while` loops over
`X509_NAME_get_index_by_NID`, sharing the cursor `i` the SAN loop leaves behind. Each visits
exactly the entries with its attribute past the cursor (`entriesLoop_eq`), and the SAN loop
leaves the cursor one past the number of SANs (`sanLoop_cursor`).

* `extractNames_eq`: extraction without loops. The subject's email addresses are read past
  index `n + 1`, `n` the number of SANs, and so are its common names when the email loop did
  not run: attributes at lower indices are never recorded
  (`extractNames_skips_first_email`).
* `extractNames_truncates_at_nul`: DNS, email and URI SANs are measured with `strlen`, so
  what follows a NUL byte in their content is never validated nor checked.
-/

namespace X509Constraints

/-- A result mapped to success came from a success. -/
theorem except_map_eq_ok {ε α β : Type} {f : α → β} {x : Except ε α} {b : β}
    (h : x.map f = .ok b) : ∃ a, x = .ok a ∧ f a = b := by
  cases x with
  | error e => cases h
  | ok a => exact ⟨a, rfl, by injection h⟩

/-- The subject loop ends when no entry with the attribute lies past the cursor. -/
theorem entriesLoop_of_neg {subject : X509Name} {nid : ℕ}
    {body : Bytes → Except VerifyError (Option Name)} {i : ℤ}
    (h : getIndexByNid subject nid i < 0) :
    entriesLoop subject nid body i = .ok ([], getIndexByNid subject nid i) := by
  rw [entriesLoop]
  exact dif_neg (by omega)

/-- The data of the entries with attribute `nid` at indices past `lastpos`, scanning from
index `k`: what the subject loops visit, in order. -/
def dataFrom (nid : ℕ) (lastpos : ℤ) : ℕ → List NameEntry → List Bytes
  | _, [] => []
  | k, e :: es =>
    if lastpos < k ∧ e.nid = nid then e.data :: dataFrom nid lastpos (k + 1) es
    else dataFrom nid lastpos (k + 1) es

/-- The body of a subject loop run over a list of entry data, in order. -/
def bodyRun (body : Bytes → Except VerifyError (Option Name)) : List Bytes →
    Except VerifyError (List Name)
  | [] => .ok []
  | d :: ds =>
    match body d with
    | .error e => .error e
    | .ok none => bodyRun body ds
    | .ok (some v) => (bodyRun body ds).map (v :: ·)

variable {nid : ℕ}

theorem indexFrom_of_neg {lastpos : ℤ} :
    ∀ {k : ℕ} {es : List NameEntry}, indexFrom nid lastpos k es < 0 →
      indexFrom nid lastpos k es = -1 ∧ dataFrom nid lastpos k es = []
  | _, [], _ => ⟨rfl, rfl⟩
  | k, e :: es, h => by
    unfold indexFrom at h ⊢
    unfold dataFrom
    split
    · rw [if_pos ‹_›] at h; omega
    · rw [if_neg ‹_›] at h; exact indexFrom_of_neg h

/-- Past index `k`, the cursor only matters through which indices it lies below. -/
theorem dataFrom_congr {i i' : ℤ} :
    ∀ (k : ℕ) (es : List NameEntry), i < k → i' < k → dataFrom nid i k es = dataFrom nid i' k es
  | _, [], _, _ => rfl
  | k, e :: es, hi, hi' => by
    have h1 : i < ((k + 1 : ℕ) : ℤ) := by omega
    have h2 : i' < ((k + 1 : ℕ) : ℤ) := by omega
    simp only [dataFrom, hi, hi', true_and, dataFrom_congr (k + 1) es h1 h2]

/-- The entry the index scan finds heads the data, and the rest is what a scan past it sees. -/
theorem dataFrom_of_index {i : ℤ} :
    ∀ {k : ℕ} {es : List NameEntry}, 0 ≤ indexFrom nid i k es →
      dataFrom nid i k es = (es.getD ((indexFrom nid i k es).toNat - k) ⟨0, []⟩).data ::
        dataFrom nid (indexFrom nid i k es) k es
  | _, [], h => by simp [indexFrom] at h
  | k, e :: es, h => by
    by_cases he : i < k ∧ e.nid = nid
    · have h1 : i < ((k + 1 : ℕ) : ℤ) := by omega
      have h2 : (k : ℤ) < ((k + 1 : ℕ) : ℤ) := by omega
      simp only [indexFrom, dataFrom, if_pos he, Int.toNat_ofNat, Nat.sub_self,
        List.getD_cons_zero, Int.lt_irrefl, false_and, if_false, dataFrom_congr _ _ h1 h2]
    · have h' : 0 ≤ indexFrom nid i (k + 1) es := by rwa [indexFrom, if_neg he] at h
      have hb := indexFrom_bounds h'
      have hj : ¬ (indexFrom nid i (k + 1) es < k ∧ e.nid = nid) := fun h => by omega
      simp only [indexFrom, dataFrom, if_neg he, if_neg hj]
      rw [dataFrom_of_index h']
      have hk : (indexFrom nid i (k + 1) es).toNat - k =
          (indexFrom nid i (k + 1) es).toNat - (k + 1) + 1 := by omega
      rw [hk, List.getD_cons_succ]

/-- The data the loop reads at the index the scan finds, and the data past it. -/
theorem dataFrom_getIndexByNid {subject : X509Name} {i : ℤ}
    (h : 0 ≤ getIndexByNid subject nid i) :
    dataFrom nid i 0 subject.entries =
      (subject.entries.getD (getIndexByNid subject nid i).toNat ⟨0, []⟩).data ::
        dataFrom nid (getIndexByNid subject nid i) 0 subject.entries := by
  simpa using dataFrom_of_index h

/-- **A subject loop visits exactly the entries with its attribute past the cursor.** The
loop of `x509_constraints_extract_names` over the entries with attribute `nid`, from the
cursor `i`, runs its body over the data of those entries at indices greater than `i`, in
order, and leaves the cursor at -1. -/
theorem entriesLoop_eq (subject : X509Name) (body : Bytes → Except VerifyError (Option Name))
    (i : ℤ) :
    entriesLoop subject nid body i =
      (bodyRun body (dataFrom nid i 0 subject.entries)).map (·, -1) := by
  induction i using entriesLoop.induct subject nid body with
  | case1 i j hj e he =>
    rw [entriesLoop, dif_pos hj, dataFrom_getIndexByNid hj, bodyRun, he]; rfl
  | case2 i j hj he ih =>
    rw [entriesLoop, dif_pos hj, dataFrom_getIndexByNid hj, bodyRun, he, ih]
  | case3 i j hj v he ih =>
    rw [entriesLoop, dif_pos hj, dataFrom_getIndexByNid hj, bodyRun, he, ih]
    cases bodyRun body (dataFrom nid j 0 subject.entries) <;> rfl
  | case4 i j hj =>
    obtain ⟨h1, h2⟩ := indexFrom_of_neg (Int.lt_of_not_ge hj)
    rw [entriesLoop, dif_neg hj]
    simp only [getIndexByNid] at h1 h2 ⊢
    rw [h1, h2]; rfl

/-- The SAN loop leaves the cursor one past the index at which it found no entry. -/
theorem sanLoop_cursor {cn em : Bool} {i : ℕ} {l : List GeneralName}
    {r : List Name × Bool × Bool × ℤ} (h : sanLoop cn em i l = .ok r) :
    r.2.2.2 = i + l.length + 1 := by
  induction l generalizing cn em i r with
  | nil => cases h; simp
  | cons g l ih =>
    unfold sanLoop at h
    split at h
    next => cases h
    next => rw [ih h, List.length_cons]; omega
    next =>
      obtain ⟨r', hr, rfl⟩ := except_map_eq_ok h
      rw [ih hr, List.length_cons]; omega

/-- Where every SAN yields a record, the SAN loop returns those records, in order. -/
theorem sanLoop_of_forall {f : GeneralName → Name} {l : List GeneralName}
    (hf : ∀ g ∈ l, sanName g = .ok (some (f g))) (cn em : Bool) (i : ℕ) :
    ∃ r, sanLoop cn em i l = .ok (l.map f, r) := by
  induction l generalizing cn em i with
  | nil => exact ⟨_, rfl⟩
  | cons g l ih =>
    obtain ⟨r, hr⟩ := ih (fun g' hg' => hf g' (List.mem_cons_of_mem _ hg'))
      (cn && (f g).type != .dns) (em && (f g).type != .email) (i + 1)
    refine ⟨r, ?_⟩
    simp only [sanLoop, hf g (List.mem_cons_self _ _), hr]
    rfl

/-- A certificate with an empty subject yields its SAN records. -/
theorem extractNames_of_no_subject {cert : Cert} {isLeaf : Bool} {sans : List Name}
    {r : Bool × Bool × ℤ} (he : cert.subject.entries = [])
    (h : sanLoop isLeaf isLeaf 0 cert.altname = .ok (sans, r)) :
    extractNames cert isLeaf = .ok sans := by
  simp [extractNames, h, he]

/-- **The subject loops, without loops.** `x509_constraints_extract_names` records the SANs,
then for a non-empty subject its directory name, then the email addresses among the subject's
attributes past index `n + 1`, `n` the number of SANs (when no rfc822Name SAN was seen), then
its host-like common names past that index, or past -1 when the email loop ran (when no DNS
SAN was seen). -/
theorem extractNames_eq (cert : Cert) (isLeaf : Bool) :
    extractNames cert isLeaf =
      match sanLoop isLeaf isLeaf 0 cert.altname with
      | .error e => .error e
      | .ok (sans, includeCn, includeEmail, _) =>
        let i : ℤ := cert.altname.length + 1
        let entries := cert.subject.entries
        if entries.length > 0 then
          match (if includeEmail then
              bodyRun emailBody (dataFrom NID_pkcs9_emailAddress i 0 entries) else .ok []) with
          | .error e => .error e
          | .ok emails =>
            match (if includeCn then
                bodyRun cnBody (dataFrom NID_commonName (if includeEmail then -1 else i) 0 entries)
              else .ok []) with
            | .error e => .error e
            | .ok cns =>
              .ok (sans ++ { type := .dirName, der := cert.subject.canonEnc.getD [] } ::
                emails ++ cns)
        else .ok sans := by
  rw [extractNames]
  cases h : sanLoop isLeaf isLeaf 0 cert.altname with
  | error e => rfl
  | ok r =>
    obtain ⟨sans, cn, em, i⟩ := r
    have hi : i = cert.altname.length + 1 := by simpa using sanLoop_cursor h
    subst hi
    simp only [entriesLoop_eq]
    split
    · cases em <;> cases cn <;> simp only [Bool.false_eq_true, if_false, if_true, Except.map]
      · cases bodyRun cnBody
          (dataFrom NID_commonName ((cert.altname.length : ℤ) + 1) 0 cert.subject.entries) <;> rfl
      · cases bodyRun emailBody (dataFrom NID_pkcs9_emailAddress ((cert.altname.length : ℤ) + 1) 0
          cert.subject.entries) <;> rfl
      · cases bodyRun emailBody (dataFrom NID_pkcs9_emailAddress ((cert.altname.length : ℤ) + 1) 0
          cert.subject.entries)
        · rfl
        · dsimp only
          cases bodyRun cnBody (dataFrom NID_commonName (-1) 0 cert.subject.entries) <;> rfl
    · rfl

/-- **The subject loops start past the SAN count.** A leaf without subjectAltNames whose
subject is `emailAddress=user@example.com`: the entry is at index 0, the SAN loop leaves the
cursor at 1, and the email loop looks past it; the only record is the subject as a
directory name, and the email address is never checked. -/
theorem extractNames_skips_first_email :
    getIndexByNid ⟨[⟨NID_pkcs9_emailAddress, ascii "user@example.com"⟩], some [48]⟩
      NID_pkcs9_emailAddress (-1) = 0 ∧
    parseMailbox (ascii "user@example.com") = some (ascii "user", ascii "example.com") ∧
    extractNames ⟨[], ⟨[⟨NID_pkcs9_emailAddress, ascii "user@example.com"⟩], some [48]⟩, none⟩
      true = .ok [{ type := .dirName, der := [48] }] := by
  refine ⟨by decide, by decide, ?_⟩
  let subject : X509Name := ⟨[⟨NID_pkcs9_emailAddress, ascii "user@example.com"⟩], some [48]⟩
  have hemail : entriesLoop subject NID_pkcs9_emailAddress emailBody 1 = .ok ([], -1) := by
    rw [entriesLoop_of_neg (by decide)]; rfl
  have hcn : entriesLoop subject NID_commonName cnBody (-1) = .ok ([], -1) := by
    rw [entriesLoop_of_neg (by decide)]; rfl
  simp [extractNames, sanLoop, subject, hemail, hcn]

/-- **SAN strings are cut at their first NUL.** A DNS subjectAltName whose content is `a.com`,
NUL, `.evil` is validated and recorded as `a.com`, and so is a DNS constraint with that
content; neither is rejected. -/
theorem extractNames_truncates_at_nul :
    0 ∈ ascii "a.com" ++ [0] ++ ascii ".evil" ∧
    extractNames ⟨[.dns (ascii "a.com" ++ [0] ++ ascii ".evil")], ⟨[], none⟩, none⟩ true =
      .ok [{ type := .dns, name := ascii "a.com" }] ∧
    validate (.dns (ascii "a.com" ++ [0] ++ ascii ".evil")) =
      .ok (some { type := .dns, name := ascii "a.com" }) := by
  decide

end X509Constraints
