import LibreSSL.Spec.Validate

/-!
# The domain validator accepts exactly a label grammar

`x509_constraints_valid_domain_internal` reads a name once, keeping only the byte before, a
first-byte flag and the length of the current label. `validDomainInternal_iff` shows that it
accepts exactly the names whose labels (the name split at every `.`) have at most 63 bytes and
neither begin nor end with `-`, where only the first label may be empty, over the bytes it
allows and with `*` only first.

The proof runs the loop against `Lang`, the same condition on the bytes still to read given
the current label read so far (`validDomainLoop_iff_lang`); `validDomainLoop_cons` and
`lang_cons` say what one byte does on either side.
-/

namespace X509Constraints

/-- The bytes the validator allows: ASCII letters and digits, `-`, `.`, `_` and `*`. -/
def domainChar (c : UInt8) : Prop :=
  isalnum c = true ∨ c = '-'.toUInt8 ∨ c = '.'.toUInt8 ∨ c = '_'.toUInt8 ∨ c = '*'.toUInt8

instance : DecidablePred domainChar := fun c =>
  inferInstanceAs (Decidable (isalnum c = true ∨ c = '-'.toUInt8 ∨ c = '.'.toUInt8 ∨
    c = '_'.toUInt8 ∨ c = '*'.toUInt8))

theorem isascii_of_isalnum {c : UInt8} (h : isalnum c = true) : isascii c = true ∧ c ≠ 0 := by
  have hz : c ≤ 'z'.toUInt8 := by
    simp only [isalnum, Bool.or_eq_true, Bool.and_eq_true, decide_eq_true_eq] at h
    rcases h with (⟨-, h⟩ | ⟨-, h⟩) | ⟨-, h⟩ <;> exact UInt8.le_trans h (by decide)
  refine ⟨?_, by rintro rfl; exact absurd h (by decide)⟩
  simp only [isascii, decide_eq_true_eq, UInt8.lt_def, UInt8.le_def, BitVec.lt_def,
    BitVec.le_def] at hz ⊢
  exact Nat.lt_of_le_of_lt hz (by decide)

/-- The first two checks of the loop, on one byte, are `domainChar`. -/
theorem domainChar_iff (c : UInt8) :
    domainChar c ↔ ¬(!isascii c || c == 0 || (!isalnum c && c != '-'.toUInt8 &&
      c != '.'.toUInt8 && c != '_'.toUInt8 && c != '*'.toUInt8)) = true := by
  simp only [domainChar, Bool.not_eq_true, Bool.or_eq_false_iff, Bool.not_eq_false',
    beq_eq_false_iff_ne, Bool.and_eq_false_iff, bne_eq_false_iff_eq, or_assoc]
  constructor
  · rintro (h | rfl | rfl | rfl | rfl)
    · exact ⟨isascii_of_isalnum h, .inl (by simp [h])⟩
    all_goals decide
  · exact fun h => by simpa using h.2

/-- What the loop does with one byte. -/
theorem validDomainLoop_cons {len i comp : ℕ} {prev x : UInt8} {rest : Bytes} :
    validDomainLoop len i prev comp (x :: rest) = true ↔
      domainChar x ∧ (x = '*'.toUInt8 → i = 0) ∧
      (x = '-'.toUInt8 → comp ≠ 0 ∧ i ≠ len - 1) ∧
      (x = '.'.toUInt8 → (comp ≠ 0 ∨ i = 0) ∧ i ≠ len - 1 ∧ prev ≠ '-'.toUInt8) ∧
      (x ≠ '.'.toUInt8 → comp + 1 ≤ 63) ∧
      validDomainLoop len (i + 1) x (if x = '.'.toUInt8 then 0 else comp + 1) rest = true := by
  rw [domainChar_iff]
  simp only [validDomainLoop]
  by_cases hd : x = '.'.toUInt8
  · subst hd; simp +decide [and_assoc]
  by_cases hs : x = '*'.toUInt8
  · subst hs; simp +decide
  by_cases hm : x = '-'.toUInt8
  · subst hm; simp +decide
  cases isalnum x <;> simp [hd, hs, hm, and_assoc]

/-- Every byte the loop accepts is an allowed one. -/
theorem validDomainLoop_domainChar {len : ℕ} :
    ∀ {i : ℕ} {prev : UInt8} {comp : ℕ} {s : Bytes},
      validDomainLoop len i prev comp s = true → ∀ c ∈ s, domainChar c
  | _, _, _, [], _ => by simp
  | _, _, _, _ :: _, h =>
    let ⟨hx, _, _, _, _, hr⟩ := validDomainLoop_cons.1 h
    List.forall_mem_cons.2 ⟨hx, validDomainLoop_domainChar hr⟩

theorem validDomainInternal_domainChar {s : Bytes} (h : validDomainInternal s = true) :
    ∀ c ∈ s, domainChar c := by
  unfold validDomainInternal at h
  split at h
  · cases h
  · exact validDomainLoop_domainChar h

/-- A name the validator accepts holds no NUL byte. -/
theorem zero_not_mem_of_validDomainInternal {s : Bytes} (h : validDomainInternal s = true) :
    0 ∉ s := fun h0 => absurd (validDomainInternal_domainChar h 0 h0) (by decide)

/-! ## The label grammar -/

/-- A label: at most 63 bytes, neither beginning nor ending with `-`. -/
def LabelOk (l : Bytes) : Prop :=
  l.length ≤ 63 ∧ l.head? ≠ some '-'.toUInt8 ∧ l.getLast? ≠ some '-'.toUInt8

/-- The bytes still to read are allowed, with `*` only as the name's first byte. -/
def CharsOk (first : Bool) (rest : Bytes) : Prop :=
  (∀ c ∈ rest, domainChar c) ∧ ∀ j, rest[j]? = some '*'.toUInt8 → first = true ∧ j = 0

/-- The labels of the bytes still to read, the first of them continuing the label `cur` read
so far: all are labels, and only the name's first label may be empty. -/
def LabelsOk (first : Bool) (cur : Bytes) : List Bytes → Prop
  | [] => True
  | l :: ls => LabelOk (cur ++ l) ∧ (cur ++ l = [] → first = true) ∧ ∀ m ∈ ls, m ≠ [] ∧ LabelOk m

/-- What the rest of a name must be, after `cur` of the current label (and nothing else when
`first`). -/
def Lang (first : Bool) (cur rest : Bytes) : Prop :=
  CharsOk first rest ∧ LabelsOk first cur (rest.splitOn '.'.toUInt8)

/-- What the loop keeps between bytes, read against the label `cur` read so far: `prev` is
its last byte, or not `-` when it is empty. -/
structure DomainInv (first : Bool) (prev : UInt8) (cur : Bytes) : Prop where
  no_dot : '.'.toUInt8 ∉ cur
  length_le : cur.length ≤ 63
  head_ne : cur.head? ≠ some '-'.toUInt8
  prev_eq : cur.getLast? = some prev ∨ (cur = [] ∧ prev ≠ '-'.toUInt8)
  first_nil : first = true → cur = []

theorem splitOn_dot_cons (rest : Bytes) :
    ('.'.toUInt8 :: rest).splitOn '.'.toUInt8 = [] :: rest.splitOn '.'.toUInt8 := by
  simp [List.splitOn]

theorem splitOn_cons_of_ne {x : UInt8} (hx : x ≠ '.'.toUInt8) (rest : Bytes) :
    (x :: rest).splitOn '.'.toUInt8 = (rest.splitOn '.'.toUInt8).modifyHead (x :: ·) := by
  simp [List.splitOn, hx]

theorem charsOk_cons {first : Bool} {x : UInt8} {rest : Bytes} :
    CharsOk first (x :: rest) ↔
      domainChar x ∧ (x = '*'.toUInt8 → first = true) ∧ CharsOk false rest := by
  simp only [CharsOk, List.mem_cons, forall_eq_or_imp]
  constructor
  · rintro ⟨⟨hx, hr⟩, hs⟩
    refine ⟨hx, fun h => (hs 0 (by simp [h])).1, hr, fun j hj => ?_⟩
    exact absurd (hs (j + 1) (by simpa using hj)).2 (by omega)
  · rintro ⟨hx, hxs, hr, hrs⟩
    refine ⟨⟨hx, hr⟩, fun j hj => ?_⟩
    cases j with
    | zero => exact ⟨hxs (by simpa using hj), rfl⟩
    | succ j => exact absurd (hrs j (by simpa using hj)).1 Bool.false_ne_true

theorem labelsOk_dot {first : Bool} {cur : Bytes} {L : List Bytes} (hL : L ≠ []) :
    LabelsOk first cur ([] :: L) ↔
      LabelOk cur ∧ (cur = [] → first = true) ∧ LabelsOk false [] L := by
  obtain ⟨h, t, rfl⟩ := List.exists_cons_of_ne_nil hL
  simp only [LabelsOk, List.append_nil, List.nil_append, List.mem_cons, forall_eq_or_imp]
  tauto

theorem labelsOk_modifyHead {first : Bool} {cur : Bytes} {x : UInt8} {L : List Bytes}
    (hL : L ≠ []) :
    LabelsOk first cur (L.modifyHead (x :: ·)) ↔ LabelsOk false (cur ++ [x]) L := by
  obtain ⟨h, t, rfl⟩ := List.exists_cons_of_ne_nil hL
  simp [LabelsOk]

theorem splitOn_ne_nil (rest : Bytes) : rest.splitOn '.'.toUInt8 ≠ [] :=
  List.splitOnP_ne_nil _ _

/-- What one byte does to `Lang`. -/
theorem lang_cons {first : Bool} {prev x : UInt8} {cur rest : Bytes}
    (hinv : DomainInv first prev cur) :
    Lang first cur (x :: rest) ↔
      domainChar x ∧ (x = '*'.toUInt8 → first = true) ∧
      (x = '-'.toUInt8 → cur ≠ [] ∧ rest ≠ []) ∧
      (x = '.'.toUInt8 → (cur ≠ [] ∨ first = true) ∧ rest ≠ [] ∧ prev ≠ '-'.toUInt8) ∧
      (x ≠ '.'.toUInt8 → cur.length + 1 ≤ 63) ∧
      Lang false (if x = '.'.toUInt8 then [] else cur ++ [x]) rest := by
  obtain ⟨h, t, hs⟩ := List.exists_cons_of_ne_nil (splitOn_ne_nil rest)
  by_cases hd : x = '.'.toUInt8
  · subst hd
    have hlab : LabelOk cur ↔ prev ≠ '-'.toUInt8 := by
      rcases hinv.prev_eq with hp | ⟨rfl, hp⟩
      · simp [LabelOk, hinv.length_le, hinv.head_ne, hp]
      · simp [LabelOk, hp]
    have hne : LabelsOk false [] (rest.splitOn '.'.toUInt8) → rest ≠ [] := by
      rintro h rfl; simp [LabelsOk] at h
    simp +decide only [Lang, charsOk_cons, splitOn_dot_cons, labelsOk_dot (splitOn_ne_nil _),
      if_pos rfl, hlab, true_and, false_implies, true_implies, if_true]
    constructor
    · rintro ⟨hc, hp, hf, hl⟩
      exact ⟨⟨(em (cur = [])).elim (fun h => .inr (hf h)) .inl, hne hl, hp⟩, hc, hl⟩
    · rintro ⟨⟨hcf, -, hp⟩, hc, hl⟩
      exact ⟨hc, hp, fun h => hcf.resolve_left (not_not.2 h), hl⟩
  · have key : LabelsOk false (cur ++ [x]) (rest.splitOn '.'.toUInt8) →
        cur.length + 1 ≤ 63 ∧ (x = '-'.toUInt8 → cur ≠ [] ∧ rest ≠ []) := by
      rw [hs]
      rintro ⟨⟨hlen, hhead, hlast⟩, -, -⟩
      refine ⟨by simp only [List.length_append, List.length_singleton] at hlen; omega, ?_⟩
      rintro rfl
      refine ⟨by rintro rfl; simp at hhead, ?_⟩
      rintro rfl
      simp only [List.splitOn_nil, List.cons.injEq, List.nil_eq] at hs
      obtain ⟨rfl, rfl⟩ := hs; simp at hlast
    simp only [Lang, charsOk_cons, splitOn_cons_of_ne hd, labelsOk_modifyHead (splitOn_ne_nil _),
      if_neg hd]
    constructor
    · rintro ⟨⟨hx, hs', hc⟩, hl⟩
      exact ⟨hx, hs', (key hl).2, fun e => absurd e hd, fun _ => (key hl).1, hc, hl⟩
    · rintro ⟨hx, hs', -, -, -, hc, hl⟩
      exact ⟨⟨hx, hs', hc⟩, hl⟩

/-- **The loop reads `Lang`.** From any byte of a name of `len` bytes, with `cur` of the
current label read, the loop accepts the rest exactly when the rest satisfies `Lang`. -/
theorem validDomainLoop_iff_lang {len : ℕ} :
    ∀ (rest : Bytes) (i : ℕ) (prev : UInt8) (cur : Bytes) (first : Bool),
      DomainInv first prev cur → (first = true ↔ i = 0) → i + rest.length = len →
      (rest = [] → cur.getLast? ≠ some '-'.toUInt8 ∧ (cur = [] → first = true)) →
      (validDomainLoop len i prev cur.length rest = true ↔ Lang first cur rest)
  | [], _, _, cur, first, hinv, _, _, hend => by
    obtain ⟨hlast, hfirst⟩ := hend rfl
    simpa [validDomainLoop, Lang, CharsOk, LabelsOk, LabelOk, hinv.length_le, hinv.head_ne, hlast]
      using hfirst
  | x :: rest, i, prev, cur, first, hinv, hfirst, hlen, _ => by
    have hlast : i ≠ len - 1 ↔ rest ≠ [] := by
      rw [ne_eq, ne_eq, ← List.length_eq_zero]
      rw [List.length_cons] at hlen
      omega
    have hcomp : cur.length ≠ 0 ↔ cur ≠ [] := by simp
    rw [validDomainLoop_cons, lang_cons hinv, ← hfirst, hlast, hcomp]
    refine and_congr_right fun _ => and_congr_right fun _ => and_congr_right fun hm =>
      and_congr_right fun hd => and_congr_right fun hl => ?_
    by_cases hx : x = '.'.toUInt8
    · subst hx
      simp only [if_pos rfl]
      exact validDomainLoop_iff_lang rest (i + 1) _ [] false
        ⟨by simp, by simp, by simp, Or.inr ⟨rfl, by decide⟩, by simp⟩ (by simp)
        (by rw [List.length_cons] at hlen; omega) (fun h => absurd h (hd rfl).2.1)
    · simp only [if_neg hx]
      rw [show cur.length + 1 = (cur ++ [x]).length by simp]
      refine validDomainLoop_iff_lang rest (i + 1) x (cur ++ [x]) false
        ⟨by simpa [Ne.symm hx] using hinv.no_dot, by simpa using hl hx, ?_, by simp, by simp⟩
        (by simp) (by rw [List.length_cons] at hlen; omega)
        (fun h => ⟨by simpa using fun e => (hm e).2 h, by simp⟩)
      cases cur with
      | nil => simpa using fun e => (hm e).1 rfl
      | cons c cs => simpa using hinv.head_ne

theorem validDomainInternal_eq_true_iff_lang (s : Bytes) :
    validDomainInternal s = true ↔ s.length ≤ 255 ∧ Lang true [] s := by
  have h := @validDomainLoop_iff_lang s.length s 0 0 [] true
    ⟨by simp, by simp, by simp, Or.inr ⟨rfl, by decide⟩, fun _ => rfl⟩ (by simp) (by simp)
    (fun _ => ⟨by simp, fun _ => rfl⟩)
  simp only [List.length_nil] at h
  rw [validDomainInternal, ← h, DOMAIN_PART_MAX_LEN]
  split <;> simp_all

/-- **`x509_constraints_valid_domain_internal` accepts exactly the label grammar.** A
non-empty name is accepted exactly when it has at most 255 bytes, all allowed, `*` only
first, and, split at every `.`, labels of at most 63 bytes that neither begin nor end with
`-`, all but the first non-empty (the first is empty only for a leading `.`). -/
theorem validDomainInternal_iff (s : Bytes) (hs : s ≠ []) :
    validDomainInternal s = true ↔
      s.length ≤ 255 ∧ (∀ c ∈ s, domainChar c) ∧ (∀ j, s[j]? = some '*'.toUInt8 → j = 0) ∧
      (∀ l ∈ s.splitOn '.'.toUInt8, LabelOk l) ∧
      (∀ l ∈ (s.splitOn '.'.toUInt8).tail, l ≠ []) ∧
      ((s.splitOn '.'.toUInt8).head? = some [] → s.head? = some '.'.toUInt8) := by
  obtain ⟨h, t, hsp⟩ := List.exists_cons_of_ne_nil (splitOn_ne_nil s)
  have hlead : (s.splitOn '.'.toUInt8).head? = some [] → s.head? = some '.'.toUInt8 := by
    obtain ⟨x, r, rfl⟩ := List.exists_cons_of_ne_nil hs
    by_cases hx : x = '.'.toUInt8
    · simp [hx]
    · obtain ⟨h', t', hr⟩ := List.exists_cons_of_ne_nil (splitOn_ne_nil r)
      simp [splitOn_cons_of_ne hx, hr]
  rw [hsp] at hlead
  rw [validDomainInternal_eq_true_iff_lang, Lang, hsp]
  simp only [CharsOk, LabelsOk, List.nil_append, List.mem_cons, List.tail_cons, forall_eq_or_imp,
    true_and, implies_true]
  constructor
  · rintro ⟨hlen, ⟨hc, hs⟩, hh, ht⟩
    exact ⟨hlen, hc, hs, ⟨hh, fun m hm => (ht m hm).2⟩, fun m hm => (ht m hm).1, hlead⟩
  · rintro ⟨hlen, hc, hs, ⟨hh, hl⟩, hne, -⟩
    exact ⟨hlen, ⟨hc, hs⟩, hh, fun m hm => ⟨hne m hm, hl m hm⟩⟩

/-- The labels of `www.example.com` are all well formed. -/
theorem validDomainInternal_labels_www :
    ascii "www.example.com" ≠ [] ∧ ∀ l ∈ (ascii "www.example.com").splitOn '.'.toUInt8, LabelOk l :=
  ⟨by decide, ((validDomainInternal_iff _ (by decide)).1 (by decide)).2.2.2.1⟩

end X509Constraints
