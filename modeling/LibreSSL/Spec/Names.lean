import LibreSSL.Spec.Alloc
import Mathlib.Data.Multiset.Basic

/-!
# Records and record lists in memory

A `struct x509_constraints_name` lives in a heap block and owns the strings `name` and
`local` and the buffer `der`; a `struct x509_constraints_names` owns an array of `names_len`
record pointers, the first `names_count` of them in use. This module models those blocks and
the functions of `x509_constraints.c` that create, copy, grow and release them.

The allocator is modelled by the blocks it has handed out and not taken back. A block is
named by the number of the allocation call that returned it, and the outcome of every call
(`calloc`, `malloc`, `strdup`, `recallocarray`) is an input `ok`: call `n` succeeds when
`ok n`. A `free` of a block that is not live, an access past the slots of an array and a
dereference of a null record pointer are faults, which the heap records.
-/

namespace X509Constraints

/-- The allocator: `next` allocation calls made so far, the blocks handed out and not freed
(`live`), and whether a fault happened. -/
structure Heap where
  next : ℕ := 0
  live : Multiset ℕ := 0
  fault : Bool := false
  deriving DecidableEq

/-- A computation on the heap. -/
abbrev Mem := StateM Heap

/-- `free(p)`: `free(NULL)` does nothing, and freeing a block that is not live is a fault. -/
def free : Option ℕ → Mem Unit
  | none => pure ()
  | some p => modify fun h =>
    if p ∈ h.live then { h with live := h.live.erase p } else { h with fault := true }

@[simp] theorem free_none_run (h : Heap) : (free none).run h = ((), h) := rfl

theorem free_some_run (p : ℕ) (h : Heap) :
    (free (some p)).run h =
      ((), if p ∈ h.live then { h with live := h.live.erase p } else { h with fault := true }) :=
  rfl

/-- The block a pointer holds: none when it is null. -/
def optBlock : Option ℕ → Multiset ℕ
  | none => 0
  | some p => {p}

/-- An access the C code makes past an array or through a null pointer. -/
def fault : Mem Unit := modify fun h => { h with fault := true }

@[simp] theorem fault_run (h : Heap) : fault.run h = ((), { h with fault := true }) := rfl

/-- A `struct x509_constraints_name` in a block: the fields of `RawName`, a non-null pointer
with the block it points to. `der_len` is the length of `der`, 0 when it is null. -/
structure MemName where
  type : Option NameType := none
  name : Option (ℕ × Bytes) := none
  localPart : Option (ℕ × Bytes) := none
  der : Option (ℕ × Bytes) := none
  af : Af := .unspec
  address : Bytes := []
  deriving DecidableEq

/-- The record, its pointers dropped. -/
def MemName.raw (r : MemName) : RawName :=
  ⟨r.type, r.name.map (·.2), r.localPart.map (·.2), r.der.map (·.2), r.af, r.address⟩

/-- `der_len` -/
def MemName.derLen (r : MemName) : ℕ := (r.der.map (·.2.length)).getD 0

/-- The blocks the record's pointers hold. -/
def MemName.blocks (r : MemName) : Multiset ℕ :=
  optBlock (r.name.map (·.1)) + optBlock (r.localPart.map (·.1)) + optBlock (r.der.map (·.1))

/-- A `struct x509_constraints_names` in a block: the array `names` (null until the first
`x509_constraints_names_add`), its `names_len` slots, and `names_count`. -/
structure MemNames where
  names : Option ℕ := none
  slots : List (Option (ℕ × MemName)) := []
  namesCount : ℕ := 0
  deriving DecidableEq

/-- `names_len` -/
def MemNames.namesLen (n : MemNames) : ℕ := n.slots.length

/-- The blocks of the records in a list of slots, each record's own block first. -/
def slotBlocks : List (Option (ℕ × MemName)) → Multiset ℕ
  | [] => 0
  | none :: rest => slotBlocks rest
  | some (p, r) :: rest => p ::ₘ r.blocks + slotBlocks rest

/-- The blocks a list owns: its array and its records. -/
def MemNames.blocks (n : MemNames) : Multiset ℕ := optBlock n.names + slotBlocks n.slots

/-- `x509_constraints_name_clear(name)` -/
def nameClear (name : MemName) : Mem MemName := do
  free (name.name.map (·.1))
  free (name.localPart.map (·.1))
  free (name.der.map (·.1))
  pure {}

/-- `x509_constraints_name_free(name)` -/
def nameFree : Option (ℕ × MemName) → Mem Unit
  | none => pure ()
  | some (p, name) => do
    let _ ← nameClear name
    free (some p)

/-- The loop of `x509_constraints_names_clear` over `names->names[i]`, `i < names_count`: the
slots from `i` on and the number of iterations left. -/
def namesClearLoop : List (Option (ℕ × MemName)) → ℕ → Mem Unit
  | _, 0 => pure ()
  | [], _ + 1 => fault
  | slot :: rest, k + 1 => do
    nameFree slot
    namesClearLoop rest k

/-- `x509_constraints_names_clear(names)` -/
def namesClear (names : MemNames) : Mem MemNames := do
  namesClearLoop names.slots names.namesCount
  free names.names
  pure {}

/-- `x509_constraints_names_free(names)` -/
def namesFree : Option (ℕ × MemNames) → Mem Unit
  | none => pure ()
  | some (p, names) => do
    let _ ← namesClear names
    free (some p)

/-- `names->names[i] = name; names->names_count++; return 1;` with `i` the old count. -/
def namesStore (names : MemNames) (name : ℕ × MemName) : Mem (Bool × MemNames) :=
  let i := names.namesCount
  if i < names.namesLen then
    pure (true, { names with slots := names.slots.set i (some name), namesCount := i + 1 })
  else do
    fault
    pure (true, { names with namesCount := i + 1 })

section Alloc

variable (ok : ℕ → Bool)

/-- An allocation call (`calloc`, `malloc`, `strdup`): a fresh block, or `NULL` when the call
fails. -/
def malloc : Mem (Option ℕ) := fun h =>
  if ok h.next then (some h.next, { h with next := h.next + 1, live := h.next ::ₘ h.live })
  else (none, { h with next := h.next + 1 })

theorem malloc_run (h : Heap) :
    (malloc ok).run h =
      if ok h.next then (some h.next, { h with next := h.next + 1, live := h.next ::ₘ h.live })
      else (none, { h with next := h.next + 1 }) :=
  rfl

/-- `x509_constraints_name_new()` and `x509_constraints_names_new()`: a zeroed structure in a
fresh block. -/
def calloc : Mem (Option ℕ) := malloc ok

/-- `recallocarray(ptr, oldnmemb, newnmemb, size)` growing an array: a fresh block that takes
over the old contents, the old block released; `NULL`, the old block kept, on failure. -/
def recallocarray (ptr : Option ℕ) : Mem (Option ℕ) := do
  match ← malloc ok with
  | none => pure none
  | some tmp => do
    free ptr
    pure (some tmp)

/-- The copy of one pointer field in `x509_constraints_name_dup`,
`if (cond && (new->f = copy) == NULL) goto err;`: the bytes `s` in a fresh block when `cond`
holds, `none` when that allocation fails, and a null pointer when `cond` does not hold. -/
def dupIf (cond : Bool) (s : Bytes) : Mem (Option (Option (ℕ × Bytes))) :=
  if cond then do
    match ← malloc ok with
    | none => pure none
    | some q => pure (some (some (q, s)))
  else pure (some none)

/-- `x509_constraints_name_dup(name)`: the copy with its block, or `NULL` after `err` has
released what was allocated. -/
def nameDup (name : MemName) : Mem (Option (ℕ × MemName)) := do
  match ← calloc ok with
  | none => pure none
  | some p =>
    let new : MemName := { type := name.type, af := name.af }
    -- if (name->der_len > 0 && (new->der = malloc(name->der_len)) == NULL)
    match ← dupIf ok (0 < name.derLen) ((name.der.map (·.2)).getD []) with
    | none => do
      nameFree (some (p, new))
      pure none
    | some der =>
      let new := { new with der }
      -- if (name->name != NULL && (new->name = strdup(name->name)) == NULL)
      match ← dupIf ok name.name.isSome (strdup ((name.name.map (·.2)).getD [])) with
      | none => do
        nameFree (some (p, new))
        pure none
      | some n =>
        let new := { new with name := n }
        -- if (name->local != NULL && (new->local = strdup(name->local)) == NULL)
        match ← dupIf ok name.localPart.isSome (strdup ((name.localPart.map (·.2)).getD [])) with
        | none => do
          nameFree (some (p, new))
          pure none
        | some l => pure (some (p, { new with localPart := l, address := name.address }))

/-- `x509_constraints_names_add(names, name)`: whether it returns 1, and the list after. -/
def namesAdd (names : MemNames) (name : ℕ × MemName) : Mem (Bool × MemNames) :=
  if names.namesCount = names.namesLen then do
    match ← recallocarray ok names.names with
    | none => pure (false, names)
    | some tmp =>
      namesStore { names with names := some tmp, slots := names.slots ++ List.replicate 32 none }
        name
  else namesStore names name

/-- The loop of `x509_constraints_names_dup` from `names->names[i]` on: the copy `new` so far
(in block `p`), the slots still to read and the number of iterations left. `none` once the
`err` path has released the copy. -/
def namesDupLoop (p : ℕ) :
    MemNames → List (Option (ℕ × MemName)) → ℕ → Mem (Option (ℕ × MemNames))
  | new, _, 0 => pure (some (p, new))
  | _, [], _ + 1 => do
    fault
    pure none
  | _, none :: _, _ + 1 => do
    fault
    pure none
  | new, some (_, r) :: rest, k + 1 => do
    match ← nameDup ok r with
    | none => do
      namesFree (some (p, new))
      pure none
    | some name =>
      match ← namesAdd ok new name with
      | (false, new) => do
        namesFree (some (p, new))
        nameFree (some name)
        pure none
      | (true, new) => namesDupLoop p new rest k

/-- `x509_constraints_names_dup(names)` -/
def namesDup : Option (ℕ × MemNames) → Mem (Option (ℕ × MemNames))
  | none => pure none
  | some (_, names) => do
    match ← calloc ok with
    | none => pure none
    | some p => namesDupLoop ok p {} names.slots names.namesCount

end Alloc

end X509Constraints
