import LibreSSL.Spec.Alloc

/-!
# Where allocation and encoding failures fail open

With every call succeeding, the allocation-aware functions are the ones of the other
modules (`validateAlloc_default`, `subtreesLoopAlloc_default`,
`extractConstraintsAlloc_default`). Under other outcomes, `x509_constraints_validate` fails
closed everywhere but in two places (`validateAlloc_fails_open_only`): a URI base whose
`strdup` fails is kept with a null `name`, and a directory name whose re-encoding fails is
treated as a type the core does not handle, so its subtree is dropped.

* `validateAlloc_fails_open_only`: every successful validation of a recognised base yields a
  usable record, but for those two cases.
* `extractConstraintsAlloc_fails_open`: both happen in `x509_constraints_extract_constraints`.
-/

namespace X509Constraints

/-- With every call succeeding, `validateAlloc` is `validate`. -/
theorem validateAlloc_default (c : GeneralName) :
    validateAlloc {} c = (validate c).map fun r => r.elim {} Name.toRaw := by
  cases c with
  | dirName n =>
    obtain ⟨_, _ | b⟩ := n
    · rfl
    · simp [validateAlloc, validate, generalToBytesAlloc, generalToBytes]
      split_ifs <;> rfl
  | email s =>
    simp [validateAlloc, validate, generalToBytesAlloc, generalToBytes]
    split_ifs
    · cases parseMailbox (cstr s) <;> rfl
    all_goals rfl
  | other => rfl
  | _ => simp [validateAlloc, validate, generalToBytesAlloc, generalToBytes]; split_ifs <;> rfl

theorem subtreesLoopAlloc_default (i : ℕ) (l : List GeneralSubtree) :
    subtreesLoopAlloc (fun _ => {}) i l = (subtreesLoop l).map (List.map Name.toRaw) := by
  induction l generalizing i with
  | nil => rfl
  | cons t l ih =>
    by_cases hm : (t.minimum.isSome || t.maximum.isSome) = true
    · simp [subtreesLoopAlloc, subtreesLoop, hm]; rfl
    · simp only [subtreesLoopAlloc, subtreesLoop, hm, validateAlloc_default, if_false,
        Bool.not_true, Bool.false_eq_true]
      cases validate t.base with
      | error e => rfl
      | ok v =>
        cases v with
        | none => exact ih (i + 1)
        | some v =>
          simp only [Except.map, ih, Name.toRaw, Option.elim_some, Option.isNone_some]
          cases subtreesLoop l <;> rfl

/-- **With every call succeeding, the allocation-aware extraction is the extraction.** -/
theorem extractConstraintsAlloc_default (cert : Cert) :
    extractConstraintsAlloc (fun _ => {}) (fun _ => {}) cert =
      (extractConstraints cert).map fun pe => (pe.1.map Name.toRaw, pe.2.map Name.toRaw) := by
  unfold extractConstraintsAlloc extractConstraints
  cases cert.nc with
  | none => rfl
  | some nc =>
    simp only [subtreesLoopAlloc_default]
    cases subtreesLoop nc.permittedSubtrees <;> cases subtreesLoop nc.excludedSubtrees <;> rfl

/-- **Validation fails open in exactly two places.** When `x509_constraints_validate`
succeeds on a base of a type the core handles, the record has a type and is usable, unless
the base is a directory name whose re-encoding failed, or a URI whose `strdup` failed. -/
theorem validateAlloc_fails_open_only {o : Outcome} {c : GeneralName} {r : RawName}
    (h : validateAlloc o c = .ok r) (hc : (generalToBytes c).isSome) :
    (r.type.isSome ∧ r.usable) ∨ (o.encode = false ∧ ∃ n, c = .dirName n) ∨
      (o.alloc = false ∧ ∃ s, c = .uri s) := by
  obtain ⟨nn, e, a, ad⟩ := o
  cases c with
  | uri s =>
    simp only [validateAlloc, generalToBytesAlloc, generalToBytes] at h
    split_ifs at h with hv ha <;> cases h
    · exact .inl ⟨rfl, rfl⟩
    · exact .inr (.inr ⟨by simpa using ha, s, rfl⟩)
  | dirName n =>
    cases e
    · exact .inr (.inl ⟨rfl, n, rfl⟩)
    left
    obtain ⟨_, _ | b⟩ := n <;> cases a <;> simp [validateAlloc, generalToBytesAlloc] at h
    split_ifs at h with hb
    cases h
    simpa [RawName.usable] using hb
  | email s =>
    left
    cases a <;> simp [validateAlloc, generalToBytesAlloc, generalToBytes] at h <;> split_ifs at h
    · split at h <;> cases h; exact ⟨rfl, rfl⟩
    · cases h; exact ⟨rfl, rfl⟩
  | other => cases hc
  | _ =>
    left
    cases a <;> simp [validateAlloc, generalToBytesAlloc, generalToBytes] at h <;>
      split_ifs at h <;> cases h <;> exact ⟨rfl, rfl⟩

theorem validateAlloc_fails_open_only_uri :
    validateAlloc { alloc := false } (.uri (ascii "example.com")) = .ok { type := some .uri } ∧
    (generalToBytes (.uri (ascii "example.com"))).isSome ∧
    ((({ type := some .uri } : RawName).type.isSome ∧ RawName.usable { type := some .uri }) ∨
      (({ alloc := false } : Outcome).encode = false ∧
        ∃ n, GeneralName.uri (ascii "example.com") = .dirName n) ∨
      (({ alloc := false } : Outcome).alloc = false ∧
        ∃ s, GeneralName.uri (ascii "example.com") = .uri s)) :=
  have h : validateAlloc { alloc := false } (.uri (ascii "example.com")) =
      .ok { type := some .uri } := by decide
  ⟨h, rfl, validateAlloc_fails_open_only h rfl⟩

/-- **`x509_constraints_extract_constraints` fails open.** A CA permitting the URI base
`example.com` whose `strdup` fails gets a permitted URI record with a null `name`; one
permitting a directory name whose re-encoding fails gets no permitted record at all, so the
CA no longer constrains directory names. Both calls return 1. -/
theorem extractConstraintsAlloc_fails_open :
    extractConstraintsAlloc (fun _ => { alloc := false }) (fun _ => {})
        ⟨[], ⟨[], none⟩, some ⟨[⟨.uri (ascii "example.com"), none, none⟩], []⟩⟩ =
      .ok ([{ type := some .uri }], []) ∧
    RawName.usable { type := some .uri } = false ∧
    extractConstraintsAlloc (fun _ => { encode := false }) (fun _ => {})
        ⟨[], ⟨[], none⟩, some ⟨[⟨.dirName ⟨[⟨NID_commonName, ascii "CA"⟩], some [48]⟩, none, none⟩],
          []⟩⟩ =
      .ok ([], []) := by
  decide

end X509Constraints
