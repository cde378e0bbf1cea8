import Mathlib.Algebra.Order.Ring.Nat
import Mathlib.Algebra.BigOperators.Group.List
import LibreSSL.Spec.Chain
import LibreSSL.Proof.Extract

/-!
# The chain checker applies every CA's constraints to every name below it

* `check_eq_ok_iff`: `x509_constraints_check` passes exactly when every name is `Admitted`
  by the permitted and excluded sets; `check_eq_ok_iff_and_first_error` adds which error it
  reports, from the first name that is not.
* `chainStep_ok_iff`, `chainLoop_ok_iff`: one iteration of the chain loop, run from the state
  that holds the names of the certificates before it, succeeds exactly when that
  certificate's conditions (`StepOk`) hold, and leaves the state for the next one; so the
  loop succeeds exactly when every certificate's conditions hold.
* `chain_eq_ok_iff`: `x509_constraints_chain` succeeds exactly when every extraction
  succeeds, both counts stay within their limits, and every constrained CA admits every
  name of the certificates below it.
* `check_of_checkCall`, `checkCall_bounded`, `checkCall_leaf_names_over_limit`: every call of
  `x509_constraints_check` (`CheckCall`) passes when the chain check does; from depth 2 on its
  names and constraints are within the limits, but at depth 1 it gets all of the leaf's names,
  however many.
-/

namespace X509Constraints

/-! ## `x509_constraints_check` -/

/-- A name is admitted by a CA's sets: it matches no excluded constraint, and some permitted
constraint whenever one has its type. -/
def Admitted (permitted excluded : List Name) (x : Name) : Prop :=
  (∀ e ∈ excluded, constraintsMatch x e = false) ∧
    ((∃ p ∈ permitted, p.type = x.type) → ∃ p ∈ permitted, constraintsMatch x p = true)

theorem permittedLoop_snd (x : Name) (permitted : List Name) :
    (permittedLoop x permitted).2 = true ↔ ∃ p ∈ permitted, constraintsMatch x p = true := by
  induction permitted with
  | nil => simp [permittedLoop]
  | cons p ps ih =>
    by_cases hm : constraintsMatch x p = true <;> simp [permittedLoop, hm, ih]

/-- Without a match, the loop counts every permitted constraint of the name's type. -/
theorem permittedLoop_fst (x : Name) (permitted : List Name)
    (h : (permittedLoop x permitted).2 = false) :
    (permittedLoop x permitted).1 = 0 ↔ ∀ p ∈ permitted, p.type ≠ x.type := by
  induction permitted with
  | nil => simp [permittedLoop]
  | cons p ps ih =>
    by_cases hm : constraintsMatch x p = true
    · simp [permittedLoop, hm] at h
    · simp only [permittedLoop, hm, Bool.false_eq_true, if_false] at h ⊢
      by_cases ht : p.type = x.type <;> simp [ht, ih h]

theorem checkName_eq_ok_iff (permitted excluded : List Name) (x : Name) :
    checkName permitted excluded x = .ok () ↔ Admitted permitted excluded x := by
  have hperm : ((permittedLoop x permitted).2 = false → (permittedLoop x permitted).1 = 0) ↔
      ((∃ p ∈ permitted, p.type = x.type) → ∃ p ∈ permitted, constraintsMatch x p = true) := by
    rw [← permittedLoop_snd]
    cases hs : (permittedLoop x permitted).2
    · simpa using permittedLoop_fst x permitted hs
    · simp
  have hexc : excluded.any (constraintsMatch x) = false ↔
      ∀ e ∈ excluded, constraintsMatch x e = false := by simp
  rw [Admitted, ← hperm, ← hexc, checkName]
  clear hperm hexc
  obtain ⟨n, b⟩ := permittedLoop x permitted
  cases excluded.any (constraintsMatch x) <;> cases b <;> by_cases hn : n = 0 <;> simp [hn]

/-- `x509_constraints_check` passes exactly when every name is admitted. -/
theorem check_eq_ok_iff (names permitted excluded : List Name) :
    check names permitted excluded = .ok () ↔ ∀ x ∈ names, Admitted permitted excluded x := by
  induction names with
  | nil => simp [check]
  | cons x xs ih =>
    rw [List.forall_mem_cons, ← ih, ← checkName_eq_ok_iff, check]
    cases checkName permitted excluded x <;> simp

/-- A name that is not admitted fails its checks with the error of the first check it
fails. -/
theorem checkName_eq_error {permitted excluded : List Name} {x : Name}
    (h : ¬Admitted permitted excluded x) :
    checkName permitted excluded x =
      .error (if ∃ e ∈ excluded, constraintsMatch x e = true then .excludedViolation
        else .permittedViolation) := by
  have hne := mt (checkName_eq_ok_iff permitted excluded x).1 h
  unfold checkName at hne ⊢
  by_cases hx : excluded.any (constraintsMatch x) = true
  · rw [if_pos hx, if_pos (List.any_eq_true.1 hx)]
  · have hnex : ¬∃ e ∈ excluded, constraintsMatch x e = true := by simpa using hx
    rw [if_neg hx] at hne ⊢
    rw [if_neg hnex]
    dsimp only at hne ⊢
    split at hne
    · rw [if_pos ‹_›]
    · exact absurd rfl hne

/-- **`x509_constraints_check` decides admission, and reports the first failure.** It returns
1 exactly when every name is `Admitted`; otherwise its error is the excluded violation when
the first name that is not admitted matches an excluded constraint, and the permitted
violation when it does not. -/
theorem check_eq_ok_iff_and_first_error (names permitted excluded : List Name) :
    (check names permitted excluded = .ok () ↔ ∀ x ∈ names, Admitted permitted excluded x) ∧
    ∀ pre x post, names = pre ++ x :: post → (∀ y ∈ pre, Admitted permitted excluded y) →
      ¬Admitted permitted excluded x →
      check names permitted excluded =
        .error (if ∃ e ∈ excluded, constraintsMatch x e = true then .excludedViolation
          else .permittedViolation) := by
  refine ⟨check_eq_ok_iff names permitted excluded, fun pre x post hn hpre hx => ?_⟩
  subst hn
  induction pre with
  | nil => simp only [List.nil_append, check, checkName_eq_error hx]
  | cons y pre ih =>
    rw [List.cons_append, check,
      (checkName_eq_ok_iff permitted excluded y).2 (hpre y (List.mem_cons_self y pre))]
    exact ih fun z hz => hpre z (List.mem_cons_of_mem y hz)

/-! ## The chain loop -/

/-- Certificate `k` of the chain carries NameConstraints. -/
def ncAt (cs : List Cert) (k : ℕ) : Bool := (cs[k]?.bind Cert.nc).isSome

/-- The records `x509_constraints_extract_names` appends for certificate `j` (the leaf when
`j = 0`); none past the end or on failure. -/
def namesAt (cs : List Cert) (j : ℕ) : List Name :=
  match cs[j]? with
  | some c => match extractNames c (j == 0) with
    | .ok vs => vs
    | .error _ => []
  | none => []

/-- The permitted and excluded records `x509_constraints_extract_constraints` produces for
certificate `j`; none past the end or on failure. -/
def constraintsAt (cs : List Cert) (j : ℕ) : List Name × List Name :=
  match cs[j]? with
  | some c => match extractConstraints c with
    | .ok pe => pe
    | .error _ => ([], [])
  | none => ([], [])

/-- The names of the certificates before `i`: `N_0 ++ ... ++ N_{i-1}`. -/
def namesBefore (cs : List Cert) (i : ℕ) : List Name := (List.range i).flatMap (namesAt cs)

/-- The constraints counted before `i`: the sizes of the sets of the constrained
certificates `1 ≤ k < i`. -/
def countBefore (cs : List Cert) (i : ℕ) : ℕ :=
  (((List.range i).filter fun k => 1 ≤ k && ncAt cs k).map
    fun k => (constraintsAt cs k).1.length + (constraintsAt cs k).2.length).sum

theorem namesBefore_succ (cs : List Cert) (i : ℕ) :
    namesBefore cs (i + 1) = namesBefore cs i ++ namesAt cs i := by
  simp [namesBefore, List.range_succ]

theorem countBefore_succ (cs : List Cert) (i : ℕ) :
    countBefore cs (i + 1) = countBefore cs i +
      if 1 ≤ i ∧ ncAt cs i then (constraintsAt cs i).1.length + (constraintsAt cs i).2.length
      else 0 := by
  simp only [countBefore, List.range_succ, List.filter_append, List.map_append, List.sum_append]
  by_cases h : 1 ≤ i ∧ ncAt cs i = true
  · simp [List.filter, h]
  · have h' : (decide (1 ≤ i) && ncAt cs i) = false := by
      by_cases h1 : 1 ≤ i <;> simp_all
    simp [List.filter, h', h]

theorem countBefore_one (cs : List Cert) : countBefore cs 1 = 0 := rfl

theorem namesBefore_one (cs : List Cert) : namesBefore cs 1 = namesAt cs 0 := by
  simp [namesBefore, List.range_succ]

/-- What the iteration at depth `i` of the chain loop requires of certificate `c = cs[i]`,
given the names of the certificates before it. -/
structure StepOk (lim : Limits) (cs : List Cert) (i : ℕ) (c : Cert) : Prop where
  constraints : c.nc.isSome → ∃ pe, extractConstraints c = .ok pe
  count_le : c.nc.isSome → countBefore cs (i + 1) ≤ lim.maxChainConstraints
  admitted : c.nc.isSome →
    ∀ x ∈ namesBefore cs i, Admitted (constraintsAt cs i).1 (constraintsAt cs i).2 x
  names : ∃ vs, extractNames c false = .ok vs
  names_le : (namesBefore cs (i + 1)).length ≤ lim.maxChainNames

variable {lim : Limits} {cs : List Cert} {i : ℕ} {c : Cert}

theorem namesAt_eq {vs : List Name} (hc : cs[i]? = some c) (h : extractNames c (i == 0) = .ok vs) :
    namesAt cs i = vs := by
  simp [namesAt, hc, h]

theorem constraintsAt_eq {pe : List Name × List Name} (hc : cs[i]? = some c)
    (h : extractConstraints c = .ok pe) : constraintsAt cs i = pe := by
  simp [constraintsAt, hc, h]

/-- The NameConstraints half of the iteration at depth `i ≥ 1`. -/
theorem constrainStep_ok_iff (hi : 1 ≤ i) (hc : cs[i]? = some c) (names : List Name) (n : ℕ) :
    constrainStep lim i c ⟨names, countBefore cs i⟩ = .ok n ↔
      (c.nc.isSome → (∃ pe, extractConstraints c = .ok pe) ∧
        countBefore cs (i + 1) ≤ lim.maxChainConstraints ∧
        ∀ x ∈ names, Admitted (constraintsAt cs i).1 (constraintsAt cs i).2 x) ∧
      n = countBefore cs (i + 1) := by
  have hnc : ncAt cs i = c.nc.isSome := by simp [ncAt, hc]
  rw [countBefore_succ, hnc, constrainStep]
  cases hn : c.nc with
  | none => simp [eq_comm]
  | some nc =>
    cases he : extractConstraints c with
    | error e => simp
    | ok pe =>
      rw [constraintsAt_eq hc he]
      simp only [Option.isSome_some, hi, true_and, if_true, forall_const]
      by_cases hle : countBefore cs i + pe.1.length + pe.2.length ≤ lim.maxChainConstraints
      · rw [if_neg (by omega), ← check_eq_ok_iff]
        rw [Nat.add_assoc] at hle
        cases check names pe.1 pe.2 <;> simp [hle, eq_comm, Nat.add_assoc]
      · rw [if_pos (by omega)]
        simp only [reduceCtorEq, false_iff, not_and]
        omega

/-- The names half of the iteration at depth `i ≥ 1`. -/
theorem collectStep_ok_iff (hi : 1 ≤ i) (hc : cs[i]? = some c) (names names' : List Name) :
    collectStep lim i c names = .ok names' ↔
      (∃ vs, extractNames c false = .ok vs) ∧
        (names ++ namesAt cs i).length ≤ lim.maxChainNames ∧ names' = names ++ namesAt cs i := by
  have hi0 : (i == 0) = false := by simp; omega
  rw [collectStep]
  cases he : extractNames c false with
  | error e => simp
  | ok vs =>
    rw [namesAt_eq hc (by rw [hi0]; exact he)]
    dsimp only
    by_cases hle : (names ++ vs).length ≤ lim.maxChainNames
    · rw [if_neg (by omega)]
      simp only [Except.ok.injEq, exists_eq', hle, true_and, eq_comm]
    · rw [if_pos (by omega)]
      simp only [reduceCtorEq, hle, false_and, and_false]

/-- **One iteration.** From the state holding the names of the certificates before it, the
iteration at depth `i ≥ 1` succeeds exactly when `StepOk` holds, and then leaves the state
for `i + 1`. -/
theorem chainStep_ok_iff (hi : 1 ≤ i) (hc : cs[i]? = some c) (st' : ChainState) :
    chainStep lim i c ⟨namesBefore cs i, countBefore cs i⟩ = .ok st' ↔
      StepOk lim cs i c ∧ st' = ⟨namesBefore cs (i + 1), countBefore cs (i + 1)⟩ := by
  rw [chainStep, namesBefore_succ]
  cases h1 : constrainStep lim i c ⟨namesBefore cs i, countBefore cs i⟩ with
  | error f =>
    simp only [reduceCtorEq, false_iff, not_and]
    intro hs
    cases h1.symm.trans ((constrainStep_ok_iff hi hc _ (countBefore cs (i + 1))).2
      ⟨fun h => ⟨hs.constraints h, hs.count_le h, hs.admitted h⟩, rfl⟩)
  | ok n =>
    obtain ⟨hcs, rfl⟩ := (constrainStep_ok_iff hi hc _ n).1 h1
    cases h2 : collectStep lim i c (namesBefore cs i) with
    | error f =>
      simp only [reduceCtorEq, false_iff, not_and]
      intro hs
      cases h2.symm.trans ((collectStep_ok_iff hi hc (namesBefore cs i) _).2
        ⟨hs.names, by simpa [namesBefore_succ] using hs.names_le, rfl⟩)
    | ok names' =>
      obtain ⟨hn, hle, rfl⟩ := (collectStep_ok_iff hi hc _ _).1 h2
      simp only [Except.ok.injEq]
      exact ⟨fun h => ⟨⟨fun h' => (hcs h').1, fun h' => (hcs h').2.1, fun h' => (hcs h').2.2, hn,
        by rw [namesBefore_succ]; exact hle⟩, h.symm⟩, fun h => h.2.symm⟩

/-- **The loop.** Run from depth `i ≥ 1` with the names of the certificates before `i`, the
chain loop succeeds exactly when every certificate from `i` on meets its conditions. -/
theorem chainLoop_ok_iff : ∀ (k i : ℕ), i + k = cs.length → 1 ≤ i →
    ((∃ st, chainLoop lim i ⟨namesBefore cs i, countBefore cs i⟩ (cs.drop i) = .ok st) ↔
      ∀ j c, i ≤ j → cs[j]? = some c → StepOk lim cs j c)
  | 0, i, hk, _ => by
    rw [List.drop_eq_nil_of_le (by omega)]
    simp only [chainLoop, Except.ok.injEq, exists_eq', true_iff]
    intro j c hj hc
    rw [List.getElem?_eq_none (by omega)] at hc
    cases hc
  | k + 1, i, hk, hi => by
    have hlt : i < cs.length := by omega
    have hc : cs[i]? = some cs[i] := List.getElem?_eq_getElem hlt
    rw [List.drop_eq_getElem_cons hlt, chainLoop]
    cases h : chainStep lim i cs[i] ⟨namesBefore cs i, countBefore cs i⟩ with
    | error f =>
      simp only [reduceCtorEq, exists_false, false_iff, not_forall]
      refine ⟨i, cs[i], le_rfl, hc, fun hs => ?_⟩
      have := (chainStep_ok_iff hi hc _).2 ⟨hs, rfl⟩
      rw [h] at this; cases this
    | ok st' =>
      obtain ⟨hs, rfl⟩ := (chainStep_ok_iff hi hc st').1 h
      rw [chainLoop_ok_iff k (i + 1) (by omega) (by omega)]
      constructor
      · intro hrest j c hj hcj
        rcases Nat.eq_or_lt_of_le hj with rfl | hj
        · rw [hc] at hcj; cases hcj; exact hs
        · exact hrest j c hj hcj
      · exact fun hall j c hj hcj => hall j c (by omega) hcj

/-- The chain check in terms of the leaf's extraction and every later certificate's
conditions. -/
theorem chain_ok_iff_steps (hn : 2 ≤ cs.length) :
    chain lim cs = .ok () ↔
      (∀ c, cs[0]? = some c → ∃ vs, extractNames c true = .ok vs) ∧
        ∀ j c, 1 ≤ j → cs[j]? = some c → StepOk lim cs j c := by
  obtain ⟨leaf, c1, rest, rfl⟩ : ∃ leaf c1 rest, cs = leaf :: c1 :: rest := by
    match cs, hn with
    | leaf :: c1 :: rest, _ => exact ⟨leaf, c1, rest, rfl⟩
  have hloop := @chainLoop_ok_iff lim (leaf :: c1 :: rest) (rest.length + 1) 1
    (by simp; omega) le_rfl
  rw [namesBefore_one, countBefore_one] at hloop
  simp only [List.drop_succ_cons, List.drop_zero] at hloop
  simp only [chain, List.getElem?_cons_zero, Option.some.injEq, forall_eq']
  cases h : extractNames leaf true with
  | error e => simp
  | ok names =>
    have hN : namesAt (leaf :: c1 :: rest) 0 = names := namesAt_eq rfl h
    rw [hN] at hloop
    rw [← hloop]
    cases hl : chainLoop lim 1 ⟨names, 0⟩ (c1 :: rest) <;> simp [hl]

section Extractions

variable {N P E : ℕ → List Name}

/-- Records that agree with every extraction are the extracted ones. -/
theorem namesBefore_eq_of (hN : ∀ j c, cs[j]? = some c → extractNames c (j == 0) = .ok (N j))
    (hi : i ≤ cs.length) : namesBefore cs i = (List.range i).flatMap N := by
  refine List.flatMap_congr fun k hk => ?_
  have hk : k < cs.length := (List.mem_range.1 hk).trans_le hi
  exact namesAt_eq (List.getElem?_eq_getElem hk) (hN k _ (List.getElem?_eq_getElem hk))

theorem countBefore_eq_of
    (hPE : ∀ i c, 1 ≤ i → cs[i]? = some c → c.nc.isSome → extractConstraints c = .ok (P i, E i))
    (i : ℕ) : countBefore cs i = (((List.range i).filter fun k => 1 ≤ k && ncAt cs k).map
      fun k => (P k).length + (E k).length).sum := by
  unfold countBefore
  congr 1
  refine List.map_congr_left fun k hk => ?_
  simp only [List.mem_filter, Bool.and_eq_true, decide_eq_true_eq, ncAt] at hk
  obtain ⟨-, hk1, hnc⟩ := hk
  cases hc : cs[k]? with
  | none => simp [hc] at hnc
  | some c =>
    simp only [hc, Option.some_bind] at hnc
    rw [constraintsAt_eq hc (hPE k c hk1 hc hnc)]

end Extractions

/-- **`x509_constraints_chain` applies each CA's constraints to every name below it.** On a
chain of at least two certificates, with `N j` the records extracted from certificate `j`
(the leaf at 0) and `P i`, `E i` the permitted and excluded records of a constrained
certificate `i`: the check succeeds exactly when every extraction succeeds, the running
count of constraints stays within `X509_VERIFY_MAX_CHAIN_CONSTRAINTS`, the names gathered up
to each certificate `i ≥ 1` stay within `X509_VERIFY_MAX_CHAIN_NAMES`, and every constrained
`i ≥ 1` admits every name of the certificates `0, ..., i - 1`. -/
theorem chain_eq_ok_iff (lim : Limits) (cs : List Cert) (hn : 2 ≤ cs.length) :
    chain lim cs = .ok () ↔
      ∃ N P E : ℕ → List Name,
        (∀ j c, cs[j]? = some c → extractNames c (j == 0) = .ok (N j)) ∧
        (∀ i c, 1 ≤ i → cs[i]? = some c → c.nc.isSome → extractConstraints c = .ok (P i, E i)) ∧
        (∀ i c, 1 ≤ i → cs[i]? = some c → c.nc.isSome →
          (((List.range (i + 1)).filter fun k => 1 ≤ k && ncAt cs k).map
            fun k => (P k).length + (E k).length).sum ≤ lim.maxChainConstraints) ∧
        (∀ i, 1 ≤ i → i < cs.length →
          ((List.range (i + 1)).flatMap N).length ≤ lim.maxChainNames) ∧
        (∀ i c, 1 ≤ i → cs[i]? = some c → c.nc.isSome →
          ∀ x ∈ (List.range i).flatMap N, Admitted (P i) (E i) x) := by
  rw [chain_ok_iff_steps hn]
  constructor
  · rintro ⟨hleaf, hsteps⟩
    have hN : ∀ j c, cs[j]? = some c → extractNames c (j == 0) = .ok (namesAt cs j) := by
      intro j c hc
      rcases Nat.eq_zero_or_pos j with rfl | hj
      · obtain ⟨vs, h⟩ := hleaf c hc
        rw [namesAt_eq hc h]; exact h
      · obtain ⟨vs, h⟩ := (hsteps j c hj hc).names
        have h' : extractNames c (j == 0) = .ok vs := by
          rw [show (j == 0) = false by simp; omega]; exact h
        rw [namesAt_eq hc h']; exact h'
    have hPE : ∀ i c, 1 ≤ i → cs[i]? = some c → c.nc.isSome →
        extractConstraints c = .ok ((constraintsAt cs i).1, (constraintsAt cs i).2) := by
      intro i c hi hc hnc
      obtain ⟨pe, h⟩ := (hsteps i c hi hc).constraints hnc
      rw [constraintsAt_eq hc h]; exact h
    refine ⟨namesAt cs, fun i => (constraintsAt cs i).1, fun i => (constraintsAt cs i).2, hN, hPE,
      fun i c hi hc hnc => ?_, fun i hi hlt => ?_, fun i c hi hc hnc => ?_⟩
    · rw [← countBefore_eq_of hPE]; exact (hsteps i c hi hc).count_le hnc
    · rw [← namesBefore_eq_of hN (by omega)]
      exact (hsteps i _ hi (List.getElem?_eq_getElem hlt)).names_le
    · rw [← namesBefore_eq_of hN (by have := (List.getElem?_eq_some_iff.1 hc).1; omega)]
      exact (hsteps i c hi hc).admitted hnc
  · rintro ⟨N, P, E, hN, hPE, hcount, hnames, hadm⟩
    refine ⟨fun c hc => ⟨_, hN 0 c hc⟩, fun j c hj hc => ?_⟩
    have hlt : j < cs.length := (List.getElem?_eq_some_iff.1 hc).1
    have hat : ∀ hnc : c.nc.isSome, constraintsAt cs j = (P j, E j) :=
      fun hnc => constraintsAt_eq hc (hPE j c hj hc hnc)
    refine ⟨fun hnc => ⟨_, hPE j c hj hc hnc⟩, fun hnc => ?_, fun hnc => ?_, ⟨N j, ?_⟩, ?_⟩
    · rw [countBefore_eq_of hPE]; exact hcount j c hj hc hnc
    · rw [hat hnc, namesBefore_eq_of hN (by omega)]; exact hadm j c hj hc hnc
    · have := hN j c hc
      rwa [show (j == 0) = false by simp; omega] at this
    · rw [namesBefore_eq_of hN (by omega)]; exact hnames j hj hlt

/-- On the chain of a leaf for `www.example.com` under a CA permitting `.example.com` under a
root, the CA admits every name of the leaf. -/
theorem chain_example_admits_leaf :
    ∃ N P E : ℕ → List Name,
      extractNames ⟨[.dns (ascii "www.example.com")], ⟨[], none⟩, none⟩ true = .ok (N 0) ∧
      ∀ x ∈ N 0, Admitted (P 1) (E 1) x :=
  let ca : Cert := ⟨[], ⟨[], none⟩, some ⟨[⟨.dns (ascii ".example.com"), none, none⟩], []⟩⟩
  let ⟨N, P, E, hN, _, _, _, hadm⟩ := (chain_eq_ok_iff ⟨512, 512⟩
    [⟨[.dns (ascii "www.example.com")], ⟨[], none⟩, none⟩, ca, ⟨[], ⟨[], none⟩, none⟩]
    (by decide)).1 (by decide)
  ⟨N, P, E, hN 0 _ rfl, fun x hx => hadm 1 ca le_rfl rfl rfl x (by simpa using hx)⟩

/-! ## The calls of `x509_constraints_check` -/

/-- **A call of `x509_constraints_check` made by `x509_constraints_chain`.** On `cs`, the
chain check calls `x509_constraints_check(names, permitted, excluded)` at depth `i ≥ 1`, with
`constraints_count` at `count`: the leaf's extraction and the iterations at depths
`1, ..., i - 1` succeeded, leaving the state `st`, and certificate `i` carries
NameConstraints whose extraction succeeded within the limit. -/
def CheckCall (lim : Limits) (cs : List Cert) (i : ℕ) (names permitted excluded : List Name)
    (count : ℕ) : Prop :=
  ∃ leaf rest leafNames st c, cs = leaf :: rest ∧ 1 ≤ i ∧ rest[i - 1]? = some c ∧
    extractNames leaf true = .ok leafNames ∧
    chainLoop lim 1 ⟨leafNames, 0⟩ (rest.take (i - 1)) = .ok st ∧ c.nc.isSome ∧
    extractConstraints c = .ok (permitted, excluded) ∧
    count = st.constraintsCount + permitted.length + excluded.length ∧
    count ≤ lim.maxChainConstraints ∧ names = st.names

/-- The loop over two stretches of certificates is the loop over the first, then over the
second from the state it leaves. -/
theorem chainLoop_append (i : ℕ) (st : ChainState) (l₁ l₂ : List Cert) :
    chainLoop lim i st (l₁ ++ l₂) =
      match chainLoop lim i st l₁ with
      | .error f => .error f
      | .ok st' => chainLoop lim (i + l₁.length) st' l₂ := by
  induction l₁ generalizing i st with
  | nil => rfl
  | cons c l₁ ih =>
    rw [List.cons_append, chainLoop, chainLoop]
    cases chainStep lim i c st with
    | error f => rfl
    | ok st' => simp only [List.length_cons]; rw [ih, Nat.add_assoc, Nat.add_comm 1]

/-- A `CheckCall` is a call the chain check makes: when the chain check passes, that call
passed. -/
theorem check_of_checkCall {names permitted excluded : List Name} {count : ℕ}
    (h : CheckCall lim cs i names permitted excluded count) (hok : chain lim cs = .ok ()) :
    check names permitted excluded = .ok () := by
  obtain ⟨leaf, rest, leafNames, st, c, rfl, hi, hc, hleaf, hloop, hnc, hpe, rfl, hle, rfl⟩ := h
  have hlt : i - 1 < rest.length := (List.getElem?_eq_some_iff.1 hc).1
  obtain ⟨c1, rest', rfl⟩ := List.exists_cons_of_ne_nil (List.ne_nil_of_length_pos (l := rest)
    (by omega))
  simp only [chain, hleaf] at hok
  rw [← List.take_append_drop (i - 1) (c1 :: rest'), chainLoop_append, hloop,
    List.drop_eq_getElem_cons hlt, (List.getElem?_eq_some_iff.1 hc).2] at hok
  simp only [List.length_take_of_le hlt.le, show 1 + (i - 1) = i by omega, chainLoop] at hok
  cases hs : chainStep lim i c st with
  | error f => simp [hs] at hok
  | ok st' =>
    simp only [chainStep, constrainStep] at hs
    obtain ⟨nc, hnc'⟩ := Option.isSome_iff_exists.1 hnc
    simp only [hnc', hpe, if_neg (not_lt.2 hle)] at hs
    cases hch : check st.names permitted excluded with
    | error e => simp [hch] at hs
    | ok u => rfl

/-- **The leaf's names reach the first check unbounded.** Whatever the limits, a leaf whose
extraction gives more names than `X509_VERIFY_MAX_CHAIN_NAMES`, under a CA whose
NameConstraints extract within `X509_VERIFY_MAX_CHAIN_CONSTRAINTS`, gets
`x509_constraints_check` called at depth 1 with all of its names: the leaf's count is never
compared with the limit. -/
theorem checkCall_leaf_names_over_limit (lim : Limits) {leaf ca : Cert} (rest : List Cert)
    {leafNames permitted excluded : List Name} (hleaf : extractNames leaf true = .ok leafNames)
    (hover : lim.maxChainNames < leafNames.length) (hnc : ca.nc.isSome)
    (hca : extractConstraints ca = .ok (permitted, excluded))
    (hle : permitted.length + excluded.length ≤ lim.maxChainConstraints) :
    ∃ names count, CheckCall lim (leaf :: ca :: rest) 1 names permitted excluded count ∧
      lim.maxChainNames < names.length :=
  ⟨leafNames, _, ⟨leaf, ca :: rest, leafNames, ⟨leafNames, 0⟩, ca, rfl, le_rfl, by simp, hleaf,
    rfl, hnc, hca, rfl, by simpa using hle, rfl⟩, hover⟩

/-- At LibreSSL's limits, 512 names and 512 constraints, a leaf with 513 DNS names. -/
theorem checkCall_leaf_names_over_limit_libressl :
    let leaf : Cert := ⟨List.replicate 513 (.dns (ascii "a.com")), ⟨[], none⟩, none⟩
    let ca : Cert := ⟨[], ⟨[], none⟩, some ⟨[], []⟩⟩
    let leafNames := List.replicate 513 ({ type := .dns, name := ascii "a.com" } : Name)
    extractNames leaf true = .ok leafNames ∧ 512 < leafNames.length ∧ ca.nc.isSome ∧
      extractConstraints ca = .ok ([], []) ∧
      ([] : List Name).length + ([] : List Name).length ≤ 512 ∧
      ∃ names count, CheckCall ⟨512, 512⟩ [leaf, ca] 1 names [] [] count ∧ 512 < names.length := by
  intro leaf ca leafNames
  obtain ⟨r, hr⟩ := sanLoop_of_forall (f := fun _ => { type := .dns, name := ascii "a.com" })
    (l := List.replicate 513 (.dns (ascii "a.com")))
    (fun g hg => by rw [List.eq_of_mem_replicate hg]; decide) true true 0
  have hleaf : extractNames leaf true = .ok leafNames := by
    rw [extractNames_of_no_subject (show leaf.subject.entries = [] from rfl) hr,
      List.map_replicate]
  have hover : 512 < leafNames.length := by
    show 512 < (List.replicate 513 _).length
    rw [List.length_replicate]
    decide
  have hca : extractConstraints ca = .ok ([], []) := by decide
  exact ⟨hleaf, hover, rfl, hca, by decide,
    checkCall_leaf_names_over_limit ⟨512, 512⟩ [] hleaf hover rfl hca (by decide)⟩

theorem collectStep_names_le {names names' : List Name}
    (h : collectStep lim i c names = .ok names') : names'.length ≤ lim.maxChainNames := by
  unfold collectStep at h
  split at h
  next => cases h
  next =>
    split at h
    next => cases h
    next hle => cases h; omega

theorem chainStep_names_le {st st' : ChainState} (h : chainStep lim i c st = .ok st') :
    st'.names.length ≤ lim.maxChainNames := by
  unfold chainStep at h
  split at h
  next => cases h
  next =>
    split at h
    next => cases h
    next names' hcol => cases h; exact collectStep_names_le hcol

/-- The loop keeps the gathered names within `X509_VERIFY_MAX_CHAIN_NAMES` once it has
appended some certificate's names. -/
theorem chainLoop_names_le {st st' : ChainState} {l : List Cert}
    (h : chainLoop lim i st l = .ok st') (hl : l ≠ []) :
    st'.names.length ≤ lim.maxChainNames := by
  induction l generalizing i st with
  | nil => exact absurd rfl hl
  | cons c l ih =>
    rw [chainLoop] at h
    cases hs : chainStep lim i c st with
    | error f => simp [hs] at h
    | ok st₁ =>
      rw [hs] at h
      rcases l with _ | ⟨c', l⟩
      · cases h; exact chainStep_names_le hs
      · exact ih h (List.cons_ne_nil _ _)

/-- **Past depth 1 every check is bounded.** At every call of `x509_constraints_check` at
depth `i ≥ 2` the names number at most `X509_VERIFY_MAX_CHAIN_NAMES` and the CA's
constraints at most `X509_VERIFY_MAX_CHAIN_CONSTRAINTS`. -/
theorem checkCall_bounded {names permitted excluded : List Name} {count : ℕ}
    (h : CheckCall lim cs i names permitted excluded count) (hi : 2 ≤ i) :
    names.length ≤ lim.maxChainNames ∧
      permitted.length + excluded.length ≤ lim.maxChainConstraints := by
  obtain ⟨leaf, rest, leafNames, st, c, rfl, -, hc, -, hloop, -, -, rfl, hle, rfl⟩ := h
  refine ⟨chainLoop_names_le hloop ?_, by omega⟩
  have hlt := (List.getElem?_eq_some_iff.1 hc).1
  exact List.ne_nil_of_length_pos (by simp; omega)

/-- The call at depth 2 of a chain of a leaf for `a.com`, an unconstrained CA and a CA with
empty NameConstraints. -/
theorem checkCall_at_depth_two :
    CheckCall ⟨1, 512⟩
      [⟨[.dns (ascii "a.com")], ⟨[], none⟩, none⟩, ⟨[], ⟨[], none⟩, none⟩,
        ⟨[], ⟨[], none⟩, some ⟨[], []⟩⟩] 2 [{ type := .dns, name := ascii "a.com" }] [] [] 0 :=
  ⟨_, _, [{ type := .dns, name := ascii "a.com" }], ⟨[{ type := .dns, name := ascii "a.com" }], 0⟩,
    _, rfl, by decide, rfl, by decide, by decide, rfl, rfl, rfl, by decide, rfl⟩

theorem check_of_checkCall_depth_two :
    CheckCall ⟨1, 512⟩
      [⟨[.dns (ascii "a.com")], ⟨[], none⟩, none⟩, ⟨[], ⟨[], none⟩, none⟩,
        ⟨[], ⟨[], none⟩, some ⟨[], []⟩⟩] 2 [{ type := .dns, name := ascii "a.com" }] [] [] 0 ∧
    chain ⟨1, 512⟩ [⟨[.dns (ascii "a.com")], ⟨[], none⟩, none⟩, ⟨[], ⟨[], none⟩, none⟩,
        ⟨[], ⟨[], none⟩, some ⟨[], []⟩⟩] = .ok () ∧
    check [{ type := .dns, name := ascii "a.com" }] [] [] = .ok () :=
  ⟨checkCall_at_depth_two, by decide, check_of_checkCall checkCall_at_depth_two (by decide)⟩

theorem checkCall_bounded_depth_two :
    CheckCall ⟨1, 512⟩
      [⟨[.dns (ascii "a.com")], ⟨[], none⟩, none⟩, ⟨[], ⟨[], none⟩, none⟩,
        ⟨[], ⟨[], none⟩, some ⟨[], []⟩⟩] 2 [{ type := .dns, name := ascii "a.com" }] [] [] 0 ∧
    2 ≤ 2 ∧ [({ type := .dns, name := ascii "a.com" } : Name)].length ≤ 1 ∧ 0 + 0 ≤ 512 :=
  ⟨checkCall_at_depth_two, le_rfl, checkCall_bounded checkCall_at_depth_two le_rfl⟩

end X509Constraints
