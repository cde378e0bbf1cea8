import Mathlib.Data.List.Basic

/-!
# Bytes and C strings

The name-constraint code reads `uint8_t` spans with an explicit length, and C strings up to
their NUL terminator. A span is a `List UInt8`. A buffer that a C string function reads is
modelled by the bytes from the pointer on; memory past the modelled bytes reads as NUL, as it
does for every buffer the code hands to such a function (ASN.1 string data, `strdup` and
`strndup` results). Character classes are those of the C locale.
-/

namespace X509Constraints

/-- A span of `uint8_t`. -/
abbrev Bytes := List UInt8

/-- The bytes of an ASCII text. -/
def ascii (s : String) : Bytes := s.toList.map Char.toUInt8

/-- `isascii` -/
def isascii (c : UInt8) : Bool := c < 128

/-- `isalnum`, C locale. -/
def isalnum (c : UInt8) : Bool :=
  ('0'.toUInt8 ≤ c && c ≤ '9'.toUInt8) || ('a'.toUInt8 ≤ c && c ≤ 'z'.toUInt8) ||
    ('A'.toUInt8 ≤ c && c ≤ 'Z'.toUInt8)

/-- `tolower`, C locale. -/
def tolower (c : UInt8) : UInt8 :=
  if 'A'.toUInt8 ≤ c && c ≤ 'Z'.toUInt8 then c + 32 else c

/-- The C string a buffer holds: its bytes before the first NUL. -/
def cstr (b : Bytes) : Bytes := b.takeWhile (· != 0)

/-- `strlen` -/
def strlen (b : Bytes) : ℕ := (cstr b).length

/-- `strdup`, when the allocation succeeds. -/
def strdup (b : Bytes) : Bytes := cstr b

/-- `strndup(b, n)`, when the allocation succeeds: at most `n` bytes, up to the first NUL. -/
def strndup (b : Bytes) (n : ℕ) : Bytes := cstr (b.take n)

/-- `strncasecmp(a, b, n) == 0`: the two C strings agree on their first `n` bytes, ASCII case
ignored (a string shorter than `n` compares its NUL). -/
def strncasecmpEq (a b : Bytes) (n : ℕ) : Bool :=
  ((cstr a).take n).map tolower == ((cstr b).take n).map tolower

/-- `strcmp(a, b) == 0` -/
def strcmpEq (a b : Bytes) : Bool := cstr a == cstr b

/-- `memcmp(a, b, n) == 0` -/
def memcmpEq (a b : Bytes) (n : ℕ) : Bool := a.take n == b.take n

@[simp] theorem cstr_nil : cstr [] = [] := rfl

theorem cstr_eq_self {b : Bytes} (h : 0 ∉ b) : cstr b = b := by
  unfold cstr
  rw [List.takeWhile_eq_self_iff]
  intro x hx
  simpa using (fun h' : x = 0 => h (h' ▸ hx))

theorem cstr_prefix (b : Bytes) : cstr b <+: b := List.takeWhile_prefix _

theorem zero_not_mem_cstr (b : Bytes) : 0 ∉ cstr b := by
  intro h
  have := List.mem_takeWhile_imp h
  simp at this

@[simp] theorem cstr_cstr (b : Bytes) : cstr (cstr b) = cstr b :=
  cstr_eq_self (zero_not_mem_cstr b)

@[simp] theorem zero_not_mem_strdup (b : Bytes) : 0 ∉ strdup b := zero_not_mem_cstr b

@[simp] theorem zero_not_mem_strndup (b : Bytes) (n : ℕ) : 0 ∉ strndup b n := zero_not_mem_cstr _

end X509Constraints
