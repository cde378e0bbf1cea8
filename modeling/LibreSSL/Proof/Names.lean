import LibreSSL.Spec.Names
import Mathlib.Tactic.Abel

/-!
# Copying and releasing record lists

The lists `x509_constraints_names_new` and `x509_constraints_names_add` build are the lists
`MemNames.ofList a xs`: the records `xs` in their first `names_count` slots, `names_len` that
count rounded up to a multiple of 32, the other slots null. On such lists, under every pattern
of allocation outcomes:

* `namesAdd_ofList`: `x509_constraints_names_add` either fails, only when the array was full,
  leaving the list and the live blocks as they were, or appends the record, keeping that
  shape, and takes over its blocks; it never writes past the array.
* `namesDup_copies`: `x509_constraints_names_dup` either returns `NULL`, only when one of its
  own allocation calls failed, with the live blocks as they were, or a list of the copies
  `x509_constraints_name_dup` makes of the records, and the live blocks grow by exactly the
  blocks of that list. No path frees a block twice.
* `namesFree_namesDup`: freeing what `x509_constraints_names_dup` returned gives back the
  heap's live blocks: no path leaks.

Allocation calls are numbered by the heap's `next`, so the calls a function made are those
from `next` before it to `next` after it (`Heap.CallFailed`); freeing makes none
(`nameFree_next`, `namesFree_next`).
-/

namespace X509Constraints

@[simp] theorem optBlock_none : optBlock none = 0 := rfl

@[simp] theorem optBlock_some (p : ℕ) : optBlock (some p) = {p} := rfl

section Release

variable {h : Heap} {s : Multiset ℕ}

/-- Freeing a live block takes exactly it out of the heap. -/
theorem free_run_of_live {x : Option ℕ} (hs : h.live = optBlock x + s) :
    (free x).run h = ((), { h with live := s }) := by
  cases x with
  | none => simp only [optBlock_none, zero_add] at hs; simp [← hs]
  | some p =>
    simp only [optBlock_some, Multiset.singleton_add] at hs
    simp [free_some_run, hs]

theorem nameClear_run {r : MemName} (hs : h.live = r.blocks + s) :
    (nameClear r).run h = ({}, { h with live := s }) := by
  simp only [MemName.blocks, add_assoc] at hs
  simp [nameClear, free_run_of_live hs, free_run_of_live (h := { h with live := _ }) rfl]

theorem nameFree_run {p : ℕ} {r : MemName} (hs : h.live = p ::ₘ r.blocks + s) :
    (nameFree (some (p, r))).run h = ((), { h with live := s }) := by
  have hs' : h.live = r.blocks + p ::ₘ s := by rw [hs, Multiset.cons_add, Multiset.add_cons]
  simp [nameFree, nameClear_run hs', free_some_run]

@[simp] theorem slotBlocks_append (xs ys : List (Option (ℕ × MemName))) :
    slotBlocks (xs ++ ys) = slotBlocks xs + slotBlocks ys := by
  induction xs with
  | nil => simp [slotBlocks]
  | cons x xs ih => rcases x with _ | ⟨p, r⟩ <;> simp [slotBlocks, ih, add_assoc]

@[simp] theorem slotBlocks_replicate_none (k : ℕ) : slotBlocks (List.replicate k none) = 0 := by
  induction k with
  | zero => rfl
  | succ k ih => simpa [List.replicate_succ, slotBlocks] using ih

/-- The loop of `x509_constraints_names_clear` frees the records of the slots it reads. -/
theorem namesClearLoop_run (xs : List (ℕ × MemName)) (rest : List (Option (ℕ × MemName)))
    {h : Heap} (hs : h.live = slotBlocks (xs.map some) + s) :
    (namesClearLoop (xs.map some ++ rest) xs.length).run h = ((), { h with live := s }) := by
  induction xs generalizing h with
  | nil => simp only [List.map_nil, slotBlocks, zero_add] at hs; simp [namesClearLoop, ← hs]
  | cons x xs ih =>
    simp only [List.map_cons, slotBlocks, add_assoc] at hs
    simp [namesClearLoop, nameFree_run hs, ih (h := { h with live := _ }) rfl]

/-- The list holding the records `xs`, its array `a`: `names_count` is the number of records,
`names_len` that number rounded up to a multiple of 32, and the slots past the records are
null. -/
def MemNames.ofList (a : Option ℕ) (xs : List (ℕ × MemName)) : MemNames where
  names := a
  slots := xs.map some ++ List.replicate ((xs.length + 31) / 32 * 32 - xs.length) none
  namesCount := xs.length

theorem MemNames.ofList_eq (a : Option ℕ) (xs : List (ℕ × MemName)) (k : ℕ)
    (hk : k = (xs.length + 31) / 32 * 32 - xs.length) :
    MemNames.ofList a xs = ⟨a, xs.map some ++ List.replicate k none, xs.length⟩ := by
  rw [hk]; rfl

theorem MemNames.ofList_slots (a : Option ℕ) (xs : List (ℕ × MemName)) :
    (MemNames.ofList a xs).slots =
      xs.map some ++ List.replicate ((xs.length + 31) / 32 * 32 - xs.length) none := rfl

theorem MemNames.ofList_namesCount (a : Option ℕ) (xs : List (ℕ × MemName)) :
    (MemNames.ofList a xs).namesCount = xs.length := rfl

/-- The zeroed list `x509_constraints_names_new` returns holds no record. -/
theorem MemNames.ofList_nil : MemNames.ofList none [] = {} := rfl

theorem MemNames.ofList_blocks (a : Option ℕ) (xs : List (ℕ × MemName)) :
    (MemNames.ofList a xs).blocks = optBlock a + slotBlocks (xs.map some) := by
  simp [MemNames.ofList, MemNames.blocks]

theorem namesFree_ofList_run {p : ℕ} {a : Option ℕ} {xs : List (ℕ × MemName)}
    (hs : h.live = p ::ₘ (MemNames.ofList a xs).blocks + s) :
    (namesFree (some (p, MemNames.ofList a xs))).run h = ((), { h with live := s }) := by
  have hs' : h.live = slotBlocks (xs.map some) + (optBlock a + p ::ₘ s) := by
    rw [hs, MemNames.ofList_blocks, Multiset.cons_add, Multiset.add_cons, Multiset.add_cons,
      add_assoc, add_left_comm]
  simp only [namesFree, namesClear, StateT.run_bind]
  simp only [MemNames.ofList, namesClearLoop_run xs _ hs']
  simp only [Id.bind_eq, StateT.run_pure, Id.pure_eq,
    free_run_of_live (h := { h with live := optBlock a + p ::ₘ s }) (s := p ::ₘ s) rfl]
  simp [free_some_run]

/-- Freeing makes no allocation call. -/
theorem free_next (x : Option ℕ) (h : Heap) : ((free x).run h).2.next = h.next := by
  cases x with
  | none => rfl
  | some p => rw [free_some_run]; split <;> rfl

theorem nameFree_next (x : Option (ℕ × MemName)) (h : Heap) :
    ((nameFree x).run h).2.next = h.next := by
  rcases x with _ | ⟨p, r⟩
  · rfl
  · simp [nameFree, nameClear, free_next]

theorem namesFree_next (x : Option (ℕ × MemNames)) (h : Heap) :
    ((namesFree x).run h).2.next = h.next := by
  have loop : ∀ (slots : List (Option (ℕ × MemName))) k (h : Heap),
      ((namesClearLoop slots k).run h).2.next = h.next := by
    intro slots
    induction slots with
    | nil => rintro (_ | k) h <;> rfl
    | cons x xs ih => rintro (_ | k) h <;> simp [namesClearLoop, nameFree_next, ih]
  rcases x with _ | ⟨p, r⟩
  · rfl
  · simp [namesFree, namesClear, loop, free_next]

end Release

/-- `h'` is `h` after handing out the blocks `s`: nothing else freed, no fault, and the
allocation calls made in between numbered from `h.next` on. -/
structure Heap.Grew (h h' : Heap) (s : Multiset ℕ) : Prop where
  live : h'.live = s + h.live
  fault : h'.fault = h.fault
  next : h.next ≤ h'.next

theorem Heap.Grew.trans {h h1 h2 : Heap} {s1 s2 : Multiset ℕ} (g1 : h.Grew h1 s1)
    (g2 : h1.Grew h2 s2) : h.Grew h2 (s2 + s1) :=
  ⟨by rw [g2.live, g1.live, add_assoc], g2.fault.trans g1.fault, g1.next.trans g2.next⟩

theorem Heap.Grew.congr {h h' : Heap} {s s' : Multiset ℕ} (g : h.Grew h' s) (e : s = s') :
    h.Grew h' s' := e ▸ g

/-- An `err` path of `x509_constraints_name_dup` or `x509_constraints_names_dup`: freeing a
record whose blocks were handed out gives them back. -/
theorem nameFree_grew {h h' : Heap} {p : ℕ} {r : MemName} {s : Multiset ℕ}
    (g : h.Grew h' (p ::ₘ r.blocks + s)) : h.Grew ((nameFree (some (p, r))).run h').2 s := by
  rw [nameFree_run (g.live.trans (add_assoc _ _ _))]
  exact ⟨rfl, g.fault, g.next⟩

/-- The `err` path of `x509_constraints_names_dup`: freeing the copy built so far. -/
theorem namesFree_grew {h h' : Heap} {p : ℕ} {a : Option ℕ} {ys : List (ℕ × MemName)}
    {s : Multiset ℕ} (g : h.Grew h' (p ::ₘ (MemNames.ofList a ys).blocks + s)) :
    h.Grew ((namesFree (some (p, MemNames.ofList a ys))).run h').2 s := by
  rw [namesFree_ofList_run (g.live.trans (add_assoc _ _ _))]
  exact ⟨rfl, g.fault, g.next⟩

/-- The record `x509_constraints_name_dup` copies out of `r`: `strdup` copies each string up to
its first NUL, and `der` is copied only when `der_len` is positive. -/
def RawName.dup (r : RawName) : RawName :=
  { r with name := r.name.map strdup, localPart := r.localPart.map strdup,
           der := r.der.filter fun d => 0 < d.length }

theorem strdup_field (x : Option (ℕ × Bytes)) :
    (if x.isSome then some (strdup ((x.map (·.2)).getD [])) else none) =
      (x.map (·.2)).map strdup := by
  cases x <;> rfl

theorem der_field (x : Option (ℕ × Bytes)) :
    (if 0 < (x.map (·.2.length)).getD 0 then some ((x.map (·.2)).getD []) else none) =
      (x.map (·.2)).filter fun d => 0 < d.length := by
  rcases x with _ | ⟨_, d⟩ <;> simp [Option.filter]

section Alloc

variable (ok : ℕ → Bool)

/-- One of the allocation calls made from `h` to `h'`, those numbered from `h.next` up to
`h'.next`, failed. -/
def Heap.CallFailed (h h' : Heap) : Prop := ∃ n, h.next ≤ n ∧ n < h'.next ∧ ok n = false

variable {ok} in
theorem Heap.CallFailed.widen {h h₁ h₂ h' : Heap} (f : h₁.CallFailed ok h₂)
    (h₁le : h.next ≤ h₁.next) (h₂le : h₂.next ≤ h'.next) : h.CallFailed ok h' :=
  let ⟨n, hn₁, hn₂, hk⟩ := f
  ⟨n, h₁le.trans hn₁, hn₂.trans_le h₂le, hk⟩

/-- An allocation call hands out its block, or fails as its outcome says. -/
theorem malloc_spec (h : Heap) :
    match (malloc ok).run h with
    | (none, h') => h.Grew h' 0 ∧ h.CallFailed ok h'
    | (some q, h') => h.Grew h' {q} := by
  rw [malloc_run]
  by_cases hk : ok h.next
  · simp only [hk, if_true]; exact ⟨by simp, rfl, Nat.le_succ _⟩
  · simp only [hk, Bool.false_eq_true, if_false]
    exact ⟨⟨by simp, rfl, Nat.le_succ _⟩, h.next, le_rfl, Nat.lt_succ_self _,
      by simpa using hk⟩

/-- One field copy of `x509_constraints_name_dup`: nothing is handed out when it fails, and
the copy's block when it succeeds. -/
theorem dupIf_spec (c : Bool) (s : Bytes) (h : Heap) :
    match (dupIf ok c s).run h with
    | (none, h') => h.Grew h' 0 ∧ h.CallFailed ok h'
    | (some f, h') =>
      h.Grew h' (optBlock (f.map (·.1))) ∧ f.map (·.2) = if c then some s else none := by
  unfold dupIf
  cases c
  · exact ⟨⟨by simp, rfl, le_rfl⟩, rfl⟩
  · have g := malloc_spec ok h
    simp only [if_true, StateT.run_bind, Id.bind_eq]
    revert g
    rcases (malloc ok).run h with ⟨_ | q, h'⟩ <;> intro g
    · exact g
    · exact ⟨by simpa using g, rfl⟩

/-- **`x509_constraints_name_dup` hands out exactly the copy's blocks.** When it fails, the
`err` path frees all it allocated; when it succeeds, the live blocks grow by the copy's own
block and those of its strings and `der`, and the copy holds `RawName.dup` of the record. -/
theorem nameDup_spec (name : MemName) (h : Heap) :
    match (nameDup ok name).run h with
    | (none, h') => h.Grew h' 0 ∧ h.CallFailed ok h'
    | (some (p, c), h') => h.Grew h' (p ::ₘ c.blocks) ∧ c.raw = name.raw.dup := by
  have g1 := malloc_spec ok h
  simp only [nameDup, calloc, StateT.run_bind, Id.bind_eq]
  revert g1
  rcases (malloc ok).run h with ⟨_ | p, h1⟩ <;> intro g1
  · exact g1
  simp only [StateT.run_bind, StateT.run_pure, Id.bind_eq, Id.pure_eq]
  have sd := dupIf_spec ok (0 < name.derLen) ((name.der.map (·.2)).getD []) h1
  revert sd
  rcases (dupIf ok _ _).run h1 with ⟨_ | der, h2⟩ <;> intro sd <;> dsimp only at g1 sd ⊢ <;>
    simp only [StateT.run_bind, StateT.run_pure, Id.bind_eq, Id.pure_eq]
  · refine ⟨nameFree_grew ((g1.trans sd.1).congr ?_),
      sd.2.widen g1.next (nameFree_next _ _).ge⟩
    simp [MemName.blocks, ← Multiset.singleton_add]
  have sn := dupIf_spec ok name.name.isSome (strdup ((name.name.map (·.2)).getD [])) h2
  revert sn
  rcases (dupIf ok _ _).run h2 with ⟨_ | n, h3⟩ <;> intro sn <;> dsimp only at sn ⊢ <;>
    simp only [StateT.run_bind, StateT.run_pure, Id.bind_eq, Id.pure_eq]
  · refine ⟨nameFree_grew (((g1.trans sd.1).trans sn.1).congr ?_),
      sn.2.widen (g1.trans sd.1).next (nameFree_next _ _).ge⟩
    simp [MemName.blocks, ← Multiset.singleton_add, add_comm]
  have sl :=
    dupIf_spec ok name.localPart.isSome (strdup ((name.localPart.map (·.2)).getD [])) h3
  revert sl
  rcases (dupIf ok _ _).run h3 with ⟨_ | l, h4⟩ <;> intro sl <;> dsimp only at sl ⊢ <;>
    simp only [StateT.run_bind, StateT.run_pure, Id.bind_eq, Id.pure_eq]
  · refine ⟨nameFree_grew ((((g1.trans sd.1).trans sn.1).trans sl.1).congr ?_),
      sl.2.widen ((g1.trans sd.1).trans sn.1).next (nameFree_next _ _).ge⟩
    simp [MemName.blocks, ← Multiset.singleton_add]; abel
  refine ⟨(((g1.trans sd.1).trans sn.1).trans sl.1).congr ?_, ?_⟩
  · simp [MemName.blocks, ← Multiset.singleton_add]; abel
  simp only [MemName.raw, RawName.dup, sd.2, sn.2, sl.2, strdup_field, decide_eq_true_eq,
    MemName.derLen, der_field]

/-- Writing the next record into the first null slot. -/
theorem set_length_map_some (xs : List (ℕ × MemName)) (x : ℕ × MemName) (k : ℕ) :
    (xs.map some ++ List.replicate (k + 1) none).set xs.length (some x) =
      (xs ++ [x]).map some ++ List.replicate k none := by
  simp [List.replicate_succ]

/-- The store of `x509_constraints_names_add` into a list with a null slot left. -/
theorem namesStore_run (a : Option ℕ) (xs : List (ℕ × MemName)) (x : ℕ × MemName) {k : ℕ}
    (hk : 0 < k) (h : Heap) :
    (namesStore ⟨a, xs.map some ++ List.replicate k none, xs.length⟩ x).run h =
      ((true, ⟨a, (xs ++ [x]).map some ++ List.replicate (k - 1) none, xs.length + 1⟩), h) := by
  obtain ⟨k, rfl⟩ : ∃ j, k = j + 1 := ⟨k - 1, by omega⟩
  simp only [namesStore, MemNames.namesLen, List.length_append, List.length_map,
    List.length_replicate, Nat.lt_add_of_pos_right hk, if_true, set_length_map_some]
  rfl

/-- `x509_constraints_names_add` on a full list: the array grows by 32 slots when
`recallocarray` succeeds, and nothing changes but the call count when it fails. -/
theorem namesAdd_full_run (a : Option ℕ) (xs : List (ℕ × MemName)) (x : ℕ × MemName)
    {h : Heap} {s : Multiset ℕ} (hfull : xs.length % 32 = 0)
    (hs : h.live = optBlock a + slotBlocks (xs.map some) + s) :
    (namesAdd ok (MemNames.ofList a xs) x).run h =
      if ok h.next then
        ((true, MemNames.ofList (some h.next) (xs ++ [x])),
          { h with next := h.next + 1, live := h.next ::ₘ (slotBlocks (xs.map some) + s) })
      else ((false, MemNames.ofList a xs), { h with next := h.next + 1 }) := by
  have e0 : MemNames.ofList a xs = ⟨a, xs.map some, xs.length⟩ := by
    simpa using MemNames.ofList_eq a xs 0 (by omega)
  have e1 : MemNames.ofList (some h.next) (xs ++ [x]) =
      ⟨some h.next, (xs ++ [x]).map some ++ List.replicate 31 none, xs.length + 1⟩ := by
    simpa using MemNames.ofList_eq (some h.next) (xs ++ [x]) 31 (by simp; omega)
  have hs' : h.next ::ₘ h.live = optBlock a + h.next ::ₘ (slotBlocks (xs.map some) + s) := by
    rw [hs]; simp only [Multiset.add_cons, add_assoc]
  rw [e0, e1]
  simp only [namesAdd, MemNames.namesLen, List.length_map, if_true, recallocarray,
    StateT.run_bind, Id.bind_eq, malloc_run]
  by_cases hok : ok h.next
  · simp only [hok, if_true, StateT.run_bind, Id.bind_eq, StateT.run_pure, Id.pure_eq,
      free_run_of_live (h := { h with next := h.next + 1, live := h.next ::ₘ h.live }) hs']
    exact namesStore_run _ _ _ (by omega : 0 < 32) _
  · simp only [hok, Bool.false_eq_true, if_false]
    rfl

/-- `x509_constraints_names_add` on a list with a null slot left: the store alone. -/
theorem namesAdd_free_run (a : Option ℕ) (xs : List (ℕ × MemName)) (x : ℕ × MemName)
    (h : Heap) (hfull : xs.length % 32 ≠ 0) :
    (namesAdd ok (MemNames.ofList a xs) x).run h = ((true, MemNames.ofList a (xs ++ [x])), h) := by
  have hk : 0 < (xs.length + 31) / 32 * 32 - xs.length := by omega
  have e1 : MemNames.ofList a (xs ++ [x]) = ⟨a, (xs ++ [x]).map some ++
      List.replicate ((xs.length + 31) / 32 * 32 - xs.length - 1) none, xs.length + 1⟩ := by
    simpa using MemNames.ofList_eq a (xs ++ [x]) _ (by simp; omega)
  rw [MemNames.ofList_eq a xs _ rfl, e1]
  simp only [namesAdd, MemNames.namesLen, List.length_append, List.length_map,
    List.length_replicate, (Nat.lt_add_of_pos_right hk).ne, if_false]
  exact namesStore_run _ _ _ hk _

/-- `x509_constraints_names_add` on a list holding the records `xs` whose blocks are live:
it fails only when the array was full and its one allocation call failed, changing nothing but
the call count, and otherwise appends the record, its array the old one or a fresh block. -/
theorem namesAdd_ofList_spec (a : Option ℕ) (xs : List (ℕ × MemName)) (x : ℕ × MemName)
    {h : Heap} {s : Multiset ℕ} (hs : h.live = (MemNames.ofList a xs).blocks + s) :
    match (namesAdd ok (MemNames.ofList a xs) x).run h with
    | ((false, c), h') => c = MemNames.ofList a xs ∧ h' = { h with next := h.next + 1 } ∧
        xs.length % 32 = 0 ∧ ok h.next = false
    | ((true, c), h') => ∃ a', c = MemNames.ofList a' (xs ++ [x]) ∧
        h'.live = (MemNames.ofList a' xs).blocks + s ∧ h'.fault = h.fault ∧
        h.next ≤ h'.next ∧ (a' = a ∨ a' = some h.next) := by
  rw [MemNames.ofList_blocks] at hs
  by_cases hfull : xs.length % 32 = 0
  · rw [namesAdd_full_run ok a xs x hfull hs]
    by_cases hk : ok h.next
    · rw [if_pos hk]
      refine ⟨some h.next, rfl, ?_, rfl, Nat.le_succ _, .inr rfl⟩
      simp [MemNames.ofList_blocks, Multiset.singleton_add, add_assoc]
    · rw [if_neg hk]
      exact ⟨rfl, rfl, hfull, by simpa using hk⟩
  · rw [namesAdd_free_run ok a xs x h hfull]
    exact ⟨a, rfl, by rw [hs, MemNames.ofList_blocks], rfl, le_rfl, .inl rfl⟩

/-- **`x509_constraints_names_add` appends to the list.** On a list holding the records `xs`
whose blocks are live (besides other blocks `s`), under every allocation outcome, it either
returns 0, which happens only when the array was full and `recallocarray` failed, with the
list and the live blocks as they were, or returns 1 with the list holding `xs ++ [x]` in the
same shape, its array the old one or, when that was full, a fresh block in its place. -/
theorem namesAdd_ofList (a : Option ℕ) (xs : List (ℕ × MemName)) (x : ℕ × MemName) {h : Heap}
    {s : Multiset ℕ} (hs : h.live = (MemNames.ofList a xs).blocks + s) :
    let r := (namesAdd ok (MemNames.ofList a xs) x).run h
    r.2.fault = h.fault ∧
      (r.1 = (false, MemNames.ofList a xs) ∧ r.2.live = h.live ∧ xs.length % 32 = 0 ∧
          ok h.next = false ∨
        ∃ a', r.1 = (true, MemNames.ofList a' (xs ++ [x])) ∧
          r.2.live = (MemNames.ofList a' xs).blocks + s ∧ (a' = a ∨ a' = some h.next)) := by
  have sp := namesAdd_ofList_spec ok a xs x hs
  revert sp
  rcases (namesAdd ok (MemNames.ofList a xs) x).run h with ⟨⟨_ | _, c⟩, h'⟩ <;> intro sp
  · obtain ⟨rfl, rfl, hfull, hk⟩ := sp
    exact ⟨rfl, .inl ⟨rfl, rfl, hfull, hk⟩⟩
  · obtain ⟨a', rfl, hl, hf, -, ha⟩ := sp
    exact ⟨hf, .inr ⟨a', rfl, hl, ha⟩⟩

theorem namesAdd_ofList_first :
    let h : Heap := { next := 1, live := {0} }
    let x : ℕ × MemName := (0, {})
    let r := (namesAdd (fun _ => true) (MemNames.ofList none []) x).run h
    h.live = (MemNames.ofList none []).blocks + {0} ∧ r.2.fault = h.fault ∧
      (r.1 = (false, MemNames.ofList none []) ∧ r.2.live = h.live ∧
          ([] : List (ℕ × MemName)).length % 32 = 0 ∧ (fun _ => true) h.next = false ∨
        ∃ a', r.1 = (true, MemNames.ofList a' ([] ++ [x])) ∧
          r.2.live = (MemNames.ofList a' []).blocks + {0} ∧ (a' = none ∨ a' = some h.next)) := by
  intro h x r
  have hs : h.live = (MemNames.ofList none []).blocks + {0} := by
    simp [h, MemNames.ofList_blocks, slotBlocks]
  exact ⟨hs, namesAdd_ofList (fun _ => true) none [] x hs⟩

/-- The loop of `x509_constraints_names_dup` over the records `xs` still to copy, the copy
built so far being `ofList a ys` in block `p`, allocated from `h0` on. -/
theorem namesDupLoop_spec (p : ℕ) (rest : List (Option (ℕ × MemName))) :
    ∀ (xs ys : List (ℕ × MemName)) (a : Option ℕ) {h0 h : Heap},
      h0.Grew h (p ::ₘ (MemNames.ofList a ys).blocks) →
      match (namesDupLoop ok p (MemNames.ofList a ys) (xs.map some ++ rest) xs.length).run h with
      | (none, h') => h0.Grew h' 0 ∧ h0.CallFailed ok h'
      | (some (p', c), h') => p' = p ∧ h0.Grew h' (p ::ₘ c.blocks) ∧
          ∃ a' zs, c = MemNames.ofList a' (ys ++ zs) ∧ zs.map (·.2.raw) = xs.map (·.2.raw.dup)
  | [], ys, a, h0, h, g => by
    simp only [List.map_nil, List.nil_append, List.length_nil, namesDupLoop, StateT.run_pure,
      Id.pure_eq]
    exact ⟨by trivial, g, a, [], by simp, rfl⟩
  | (q, r) :: xs, ys, a, h0, h, g => by
    simp only [List.map_cons, List.cons_append, List.length_cons, namesDupLoop, StateT.run_bind,
      Id.bind_eq]
    have sd := nameDup_spec ok r h
    revert sd
    rcases (nameDup ok r).run h with ⟨_ | ⟨pn, cn⟩, h1⟩ <;> intro sd <;>
      dsimp only at sd ⊢ <;> simp only [StateT.run_bind, StateT.run_pure, Id.bind_eq, Id.pure_eq]
    · exact ⟨namesFree_grew ((g.trans sd.1).congr (by simp)),
        sd.2.widen g.next (namesFree_next _ _).ge⟩
    have hs : h1.live = (MemNames.ofList a ys).blocks + (pn ::ₘ cn.blocks + p ::ₘ h0.live) := by
      rw [sd.1.live, g.live]; simp only [← Multiset.singleton_add]; abel
    have hn1 : h0.next ≤ h1.next := g.next.trans sd.1.next
    have sa := namesAdd_ofList_spec ok a ys (pn, cn) hs
    revert sa
    rcases (namesAdd ok (MemNames.ofList a ys) (pn, cn)).run h1 with ⟨⟨_ | _, new⟩, h2⟩ <;>
      intro sa <;> dsimp only at sa ⊢
    · -- `x509_constraints_names_add` failed: free the copy, then the record
      obtain ⟨rfl, rfl, -, hk⟩ := sa
      simp only [StateT.run_bind, StateT.run_pure, Id.bind_eq, Id.pure_eq]
      have g2 : h0.Grew { h1 with next := h1.next + 1 }
          (p ::ₘ (MemNames.ofList a ys).blocks + (pn ::ₘ cn.blocks + 0)) :=
        ⟨by simp only [hs, ← Multiset.singleton_add, add_zero]; abel,
          sd.1.fault.trans g.fault, hn1.trans (Nat.le_succ _)⟩
      refine ⟨nameFree_grew (namesFree_grew g2), h1.next, hn1, ?_, hk⟩
      rw [nameFree_next, namesFree_next]
      exact Nat.lt_succ_self _
    · obtain ⟨a', rfl, hl, hf, hn, -⟩ := sa
      have g2 : h0.Grew h2 (p ::ₘ (MemNames.ofList a' (ys ++ [(pn, cn)])).blocks) :=
        ⟨by rw [hl]; simp [MemNames.ofList_blocks, slotBlocks, ← Multiset.singleton_add]; abel,
          hf.trans (sd.1.fault.trans g.fault), hn1.trans hn⟩
      have ih := namesDupLoop_spec p rest xs (ys ++ [(pn, cn)]) a' g2
      revert ih
      rcases (namesDupLoop ok p _ _ _).run h2 with ⟨_ | ⟨p', c⟩, h3⟩ <;> intro ih
      · exact ih
      · obtain ⟨rfl, g3, a'', zs, rfl, hz⟩ := ih
        exact ⟨rfl, g3, a'', (pn, cn) :: zs, by simp, by simp [hz, sd.2]⟩

/-- `x509_constraints_names_dup` on a list holding the records `xs`. -/
theorem namesDup_spec (q : ℕ) (a : Option ℕ) (xs : List (ℕ × MemName)) (h : Heap) :
    match (namesDup ok (some (q, MemNames.ofList a xs))).run h with
    | (none, h') => h.Grew h' 0 ∧ h.CallFailed ok h'
    | (some (p, c), h') => h.Grew h' (p ::ₘ c.blocks) ∧
        ∃ a' zs, c = MemNames.ofList a' zs ∧ zs.map (·.2.raw) = xs.map (·.2.raw.dup) := by
  have g1 := malloc_spec ok h
  simp only [namesDup, calloc, StateT.run_bind, Id.bind_eq]
  revert g1
  rcases (malloc ok).run h with ⟨_ | p, h1⟩ <;> intro g1
  · exact g1
  dsimp only at g1 ⊢
  have hl := namesDupLoop_spec ok p (List.replicate ((xs.length + 31) / 32 * 32 - xs.length) none)
    xs [] none (g1.congr (by simp [MemNames.ofList_blocks, slotBlocks]))
  rw [MemNames.ofList_nil] at hl
  rw [MemNames.ofList_slots, MemNames.ofList_namesCount]
  revert hl
  rcases (namesDupLoop ok p {} _ _).run h1 with ⟨_ | ⟨p', c⟩, h2⟩ <;> intro hl
  · exact hl
  · obtain ⟨rfl, g2, a', zs, rfl, hz⟩ := hl
    exact ⟨g2, a', zs, rfl, hz⟩

/-- **`x509_constraints_names_dup` copies a list or hands nothing out.** On a list holding the
records `xs`, under every pattern of allocation outcomes and with no fault (no block freed
twice, no slot read past the array): it returns `NULL` only when one of the allocation calls
it made failed (the calls numbered from `h.next` up to the count after it), and then with the
live blocks as they were; otherwise it returns a list in the shape
`x509_constraints_names_add` builds, holding in order the copies `x509_constraints_name_dup`
makes of the records, and the live blocks are the old ones and exactly the copy's. -/
theorem namesDup_copies (q : ℕ) (a : Option ℕ) (xs : List (ℕ × MemName)) (h : Heap) :
    let r := (namesDup ok (some (q, MemNames.ofList a xs))).run h
    r.2.fault = h.fault ∧
      (r.1 = none →
        r.2.live = h.live ∧ ∃ n, h.next ≤ n ∧ n < r.2.next ∧ ok n = false) ∧
      ∀ p c, r.1 = some (p, c) → r.2.live = p ::ₘ c.blocks + h.live ∧
        ∃ a' zs, c = MemNames.ofList a' zs ∧ zs.map (·.2.raw) = xs.map (·.2.raw.dup) := by
  have hs := namesDup_spec ok q a xs h
  revert hs
  rcases (namesDup ok (some (q, MemNames.ofList a xs))).run h with ⟨_ | ⟨p, c⟩, h'⟩ <;>
    intro hs <;> dsimp only at hs ⊢
  · exact ⟨hs.1.fault, fun _ => ⟨by simpa using hs.1.live, hs.2⟩, fun _ _ e => by cases e⟩
  · refine ⟨hs.1.fault, (fun e => by cases e), fun _ _ e => ?_⟩
    cases e
    exact ⟨hs.1.live, hs.2⟩

/-- **Copying a list and freeing the copy leaks nothing.** On a list holding the records `xs`,
under every pattern of allocation outcomes,
`x509_constraints_names_free(x509_constraints_names_dup(names))` leaves the live blocks as they
were before the copy, with no fault: every block the copy was given is freed once, and no
block of the original is. -/
theorem namesFree_namesDup (q : ℕ) (a : Option ℕ) (xs : List (ℕ × MemName)) (h : Heap) :
    let r := (namesDup ok (some (q, MemNames.ofList a xs))).run h
    ((namesFree r.1).run r.2).2.live = h.live ∧ ((namesFree r.1).run r.2).2.fault = h.fault := by
  have hs := namesDup_spec ok q a xs h
  revert hs
  rcases (namesDup ok (some (q, MemNames.ofList a xs))).run h with ⟨_ | ⟨p, c⟩, h'⟩ <;>
    intro hs <;> dsimp only at hs ⊢
  · simpa [namesFree] using And.intro hs.1.live hs.1.fault
  · obtain ⟨g, a', zs, rfl, -⟩ := hs
    rw [namesFree_ofList_run g.live]
    exact ⟨rfl, g.fault⟩

end Alloc

end X509Constraints
