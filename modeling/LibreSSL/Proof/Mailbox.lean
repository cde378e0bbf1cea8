import LibreSSL.Proof.Match

/-!
# The language of the mailbox parser

`x509_constraints_parse_mailbox` is a single loop whose state moves through four phases: the
first byte, an unquoted local part, a quoted local part (with a backslash pending or not),
and the domain after the `@`. Each phase gets one lemma saying what a step does in it
(`mailboxStep_first`, `mailboxStep_unquoted`, `mailboxStep_quoted`, `mailboxStep_escaped`,
`mailboxStep_domain`), and one run lemma, by induction over the bytes still to read, saying
which rests of the candidate lead to success from it (`parts_domain`, `parts_unquoted`,
`parts_quoted`, `parts_mailboxLoop`).

* `parseMailbox_eq_some_iff`: the candidates the parser accepts, and the parts it returns, as
  a grammar (`LocalPart`, `Quoted`) with the length bounds of the code.
  `parseMailbox_rejects_unquoted_escape`: a backslash outside quotes is never accepted.
* `mailboxStep_in_bounds`: every iteration writes inside the 256-byte `working` buffer, and
  copies the local part out of it from at most 64 bytes.
* `parseMailbox_domain_fills_working`: a domain of 256 bytes fills the buffer, so the `strdup`
  of the domain starts on a buffer with no NUL in it.
-/

namespace X509Constraints

variable {w rest l d : Bytes} {c : UInt8} {ahead : Option UInt8}

/-! ## Byte classes -/

/-- The bytes the mailbox loop lets through anywhere: ASCII, and neither CR, LF nor NUL. -/
def byteOk (c : UInt8) : Bool := isascii c && c != '\r'.toUInt8 && c != '\n'.toUInt8 && c != 0

/-- A byte that stands for itself between the quotes: also neither `"`, `\\` nor HT. -/
def quotedOk (c : UInt8) : Bool :=
  byteOk c && c != '"'.toUInt8 && c != '\\'.toUInt8 && c != 9

theorem byteOk_eq (c : UInt8) :
    (!isascii c || c == '\r'.toUInt8 || c == '\n'.toUInt8 || c == 0) = !byteOk c := by
  simp [byteOk, bne, Bool.or_assoc]

theorem quotedOk_iff :
    quotedOk c = true ↔ byteOk c = true ∧ c ≠ '"'.toUInt8 ∧ c ≠ '\\'.toUInt8 ∧ c ≠ 9 := by
  simp [quotedOk, and_assoc]

theorem ne_zero_of_byteOk (h : byteOk c = true) : c ≠ 0 := by
  rintro rfl; cases h

theorem strdup_of_byteOk (h : ∀ c ∈ w, byteOk c = true) : strdup w = w :=
  cstr_eq_self fun h0 => ne_zero_of_byteOk (h 0 h0) rfl

theorem strlen_of_byteOk (h : ∀ c ∈ w, byteOk c = true) : strlen w = w.length :=
  congrArg List.length (strdup_of_byteOk h)

theorem byteOk_of_localPartOk (h : localPartOk c = true) : byteOk c = true := by
  have h13 : c ≠ '\r'.toUInt8 := by rintro rfl; exact absurd h (by decide)
  have h10 : c ≠ '\n'.toUInt8 := by rintro rfl; exact absurd h (by decide)
  have ha : isascii c = true ∧ c ≠ 0 := by
    simp only [localPartOk, Bool.or_eq_true, List.any_eq_true] at h
    rcases h with ((hr | ⟨x, hx, hc⟩) | h) | h
    · exact isascii_of_isalnum (by simpa [isalnum] using hr)
    · rw [eq_of_beq hc]; clear hc h13 h10; revert x; decide
    all_goals rw [eq_of_beq h]; decide
  simp [byteOk, ha.1, ha.2, h13, h10]

theorem byteOk_of_domainChar (h : domainChar c) : byteOk c = true := by
  have h' := (domainChar_iff c).1 h
  have h13 : c ≠ '\r'.toUInt8 := by rintro rfl; exact absurd h (by decide)
  have h10 : c ≠ '\n'.toUInt8 := by rintro rfl; exact absurd h (by decide)
  simp only [Bool.or_eq_true, Bool.not_eq_true', beq_iff_eq, not_or] at h'
  simp [byteOk, h'.1.1, h'.1.2, h13, h10]

/-! ## The grammar -/

/-- The inside of a quoted local part, as written and as stored: a byte other than `"`, `\\`
and HT stands for itself, and `\\` takes the byte after it as it is. -/
inductive Quoted : Bytes → Bytes → Prop
  | nil : Quoted [] []
  | plain {c : UInt8} {w d : Bytes} : quotedOk c = true → Quoted w d → Quoted (c :: w) (c :: d)
  | escape {c : UInt8} {w d : Bytes} :
      byteOk c = true → Quoted w d → Quoted ('\\'.toUInt8 :: c :: w) (c :: d)

/-- A local part as written (`L`) and as stored (`l`): an unquoted run of local-part bytes
not starting with `.`, or a quoted inside between `"` and `"`, stored with its quotes and
without its backslashes. -/
inductive LocalPart : Bytes → Bytes → Prop
  | unquoted {L : Bytes} :
      L ≠ [] → L.head? ≠ some '.'.toUInt8 → (∀ c ∈ L, localPartOk c = true) → LocalPart L L
  | quoted {body dec : Bytes} :
      Quoted body dec →
        LocalPart ('"'.toUInt8 :: body ++ ['"'.toUInt8]) ('"'.toUInt8 :: dec ++ ['"'.toUInt8])

theorem quoted_nil_iff : Quoted [] d ↔ d = [] :=
  ⟨fun h => by cases h; rfl, fun h => h ▸ .nil⟩

theorem quoted_backslash_iff :
    Quoted ('\\'.toUInt8 :: w) d ↔
      ∃ c w' d', w = c :: w' ∧ byteOk c = true ∧ Quoted w' d' ∧ d = c :: d' := by
  constructor
  · rintro (_ | ⟨hc, _⟩ | ⟨hc, hq⟩)
    · exact absurd hc (by decide)
    · exact ⟨_, _, _, rfl, hc, hq, rfl⟩
  · rintro ⟨c, w', d', rfl, hc, hq, rfl⟩; exact .escape hc hq

theorem quoted_cons_iff (hc : c ≠ '\\'.toUInt8) :
    Quoted (c :: w) d ↔ quotedOk c = true ∧ ∃ d', Quoted w d' ∧ d = c :: d' := by
  constructor
  · rintro (_ | ⟨hc', hq⟩ | _)
    · exact ⟨hc', _, hq, rfl⟩
    · exact absurd rfl hc
  · rintro ⟨hc', d', hq, rfl⟩; exact .plain hc' hq

theorem quoted_byteOk {body dec : Bytes} (h : Quoted body dec) : ∀ c ∈ dec, byteOk c = true := by
  induction h with
  | nil => simp
  | plain hc _ ih => exact List.forall_mem_cons.2 ⟨(quotedOk_iff.1 hc).1, ih⟩
  | escape hc _ ih => exact List.forall_mem_cons.2 ⟨hc, ih⟩

/-- A local part is stored with bytes the loop lets through. -/
theorem localPart_byteOk {L : Bytes} (h : LocalPart L l) : ∀ c ∈ l, byteOk c = true := by
  cases h with
  | unquoted _ _ hall => exact fun c hc => byteOk_of_localPartOk (hall c hc)
  | quoted hq =>
    intro c hc
    simp only [List.cons_append, List.mem_cons, List.mem_append, List.mem_singleton,
      List.not_mem_nil, or_false] at hc
    rcases hc with rfl | hc | rfl
    · decide
    · exact quoted_byteOk hq c hc
    · decide

/-! ## One byte in each phase -/

/-- The domain phase: the local part is taken, `working` holds the domain so far. -/
def domainState (w l : Bytes) : MailboxState := ⟨w, false, false, some l, none⟩

/-- Every phase refuses a byte outside `byteOk`, and any byte once 256 are written. -/
theorem mailboxStep_refuses {first : Bool} {s : MailboxState}
    (h : byteOk c = false ∨ s.working.length > 255) : mailboxStep first c ahead s = .bad := by
  rcases h with h | h <;> simp [mailboxStep, byteOk_eq, DOMAIN_PART_MAX_LEN, h]

theorem mailboxStep_first :
    mailboxStep true c ahead .init =
      if byteOk c = false ∨ c = '.'.toUInt8 then .bad
      else if c = '"'.toUInt8 then .next ⟨['"'.toUInt8], false, true, none, none⟩
      else if localPartOk c then .next ⟨[c], false, false, none, none⟩ else .bad := by
  by_cases hb : byteOk c = false
  · simp [mailboxStep_refuses (.inl hb), hb]
  by_cases hd : c = '.'.toUInt8
  · simp [mailboxStep, hd]
  simp only [mailboxStep, byteOk_eq, hb, hd, MailboxState.init]
  by_cases hq : c = '"'.toUInt8
  · subst hq; simp +decide
  by_cases ha : c = '@'.toUInt8
  · subst ha; simp +decide
  by_cases hs : c = '\\'.toUInt8
  · subst hs; simp +decide
  cases localPartOk c <;> simp [hd, hq, ha, hs, LOCAL_PART_MAX_LEN, DOMAIN_PART_MAX_LEN]

theorem mailboxStep_unquoted :
    mailboxStep false c ahead ⟨w, false, false, none, none⟩ =
      if byteOk c = false ∨ w.length > 255 then .bad
      else if w.length > 64 then .stop
      else if c = '@'.toUInt8 then (if w = [] then .bad else .next (domainState [] (strdup w)))
      else if localPartOk c then .next ⟨w ++ [c], false, false, none, none⟩ else .bad := by
  by_cases h : byteOk c = false ∨ w.length > 255
  · rw [if_pos h, mailboxStep_refuses h]
  simp only [not_or, Bool.not_eq_false, not_lt] at h
  simp only [mailboxStep, domainState, byteOk_eq, h, DOMAIN_PART_MAX_LEN, LOCAL_PART_MAX_LEN]
  by_cases hl : w.length > 64
  · simp [hl]
  by_cases ha : c = '@'.toUInt8
  · subst ha; simp +decide [hl]
  by_cases hs : c = '\\'.toUInt8
  · subst hs; simp +decide [hl]
  cases localPartOk c <;> simp [hl, ha, hs]

theorem mailboxStep_quoted :
    mailboxStep false c ahead ⟨w, false, true, none, none⟩ =
      if byteOk c = false ∨ w.length > 255 then .bad
      else if w.length > 64 then .stop
      else if c = '\\'.toUInt8 then .next ⟨w, true, true, none, none⟩
      else if c = '"'.toUInt8 then
        (if ahead = some '@'.toUInt8 then .next ⟨w ++ [c], false, false, none, none⟩ else .bad)
      else if c = 9 then .bad
      else .next ⟨w ++ [c], false, true, none, none⟩ := by
  by_cases h : byteOk c = false ∨ w.length > 255
  · rw [if_pos h, mailboxStep_refuses h]
  simp only [not_or, Bool.not_eq_false, not_lt] at h
  simp only [mailboxStep, byteOk_eq, h, DOMAIN_PART_MAX_LEN, LOCAL_PART_MAX_LEN]
  by_cases hl : w.length > 64
  · simp [hl]
  by_cases hs : c = '\\'.toUInt8
  · subst hs; simp +decide [hl]
  by_cases hq : c = '"'.toUInt8
  · subst hq; simp +decide [hl]
  simp [hl, hs, hq]

theorem mailboxStep_escaped :
    mailboxStep false c ahead ⟨w, true, true, none, none⟩ =
      if byteOk c = false ∨ w.length > 255 then .bad
      else .next ⟨w ++ [c], false, true, none, none⟩ := by
  by_cases h : byteOk c = false ∨ w.length > 255
  · rw [if_pos h, mailboxStep_refuses h]
  simp only [not_or, Bool.not_eq_false, not_lt] at h
  simp [mailboxStep, byteOk_eq, h, DOMAIN_PART_MAX_LEN]

theorem mailboxStep_domain :
    mailboxStep false c ahead (domainState w l) =
      if byteOk c = false ∨ w.length > 255 then .bad
      else if ahead.isNone then
        .next ⟨w ++ [c], false, false, some l, some (strdup (w ++ [c]))⟩
      else .next (domainState (w ++ [c]) l) := by
  by_cases h : byteOk c = false ∨ w.length > 255
  · rw [if_pos h, mailboxStep_refuses h]
  simp only [not_or, Bool.not_eq_false, not_lt] at h
  cases ahead <;> simp [mailboxStep, domainState, byteOk_eq, h, DOMAIN_PART_MAX_LEN]

/-! ## What each phase accepts -/

/-- The parts a finished loop hands to the final check, as `parseMailbox` matches them. -/
def parts : Option MailboxState → Option (Bytes × Bytes)
  | some ⟨_, _, _, some l, some d⟩ => some (l, d)
  | _ => none

/-- What the domain phase accepts: at least one byte, at most 256, none of them refused. -/
def DomainRun (d : Bytes) : Prop := d ≠ [] ∧ (∀ c ∈ d, byteOk c = true) ∧ d.length ≤ 256

/-- The unquoted phase after `w`: local-part bytes up to an `@`, then a domain. -/
def UnquotedRun (w rest l d : Bytes) : Prop :=
  ∃ L, rest = L ++ '@'.toUInt8 :: d ∧ (∀ c ∈ L, localPartOk c = true) ∧ l = w ++ L ∧
    l.length ≤ 64 ∧ DomainRun d

/-- The quoted phase after `w`, `esc` when a backslash is pending: a quoted inside, the
closing `"`, an `@`, then a domain. -/
def QuotedRun (esc : Bool) (w rest l d : Bytes) : Prop :=
  ∃ body dec, rest = body ++ '"'.toUInt8 :: '@'.toUInt8 :: d ∧
    Quoted (if esc then '\\'.toUInt8 :: body else body) dec ∧ l = w ++ dec ++ ['"'.toUInt8] ∧
    l.length ≤ 64 ∧ DomainRun d

theorem unquotedRun_nil : ¬UnquotedRun w [] l d := by
  rintro ⟨L, h, -⟩; simp at h

theorem unquotedRun_cons :
    UnquotedRun w (c :: rest) l d ↔
      (c = '@'.toUInt8 ∧ l = w ∧ w.length ≤ 64 ∧ rest = d ∧ DomainRun d) ∨
      (localPartOk c = true ∧ UnquotedRun (w ++ [c]) rest l d) := by
  constructor
  · rintro ⟨_ | ⟨x, L⟩, h, hL, rfl, hl, hd⟩
    · simp only [List.nil_append, List.cons.injEq] at h
      obtain ⟨rfl, rfl⟩ := h
      exact .inl ⟨rfl, by simp, by simpa using hl, rfl, hd⟩
    · simp only [List.cons_append, List.cons.injEq] at h
      obtain ⟨rfl, rfl⟩ := h
      simp only [List.forall_mem_cons] at hL
      exact .inr ⟨hL.1, L, rfl, hL.2, by simp, by simpa using hl, hd⟩
  · rintro (⟨rfl, rfl, hl, rfl, hd⟩ | ⟨hc, L, rfl, hL, rfl, hl, hd⟩)
    · exact ⟨[], rfl, by simp, by simp, hl, hd⟩
    · exact ⟨c :: L, rfl, List.forall_mem_cons.2 ⟨hc, hL⟩, by simp, hl, hd⟩

theorem quotedRun_nil {esc : Bool} : ¬QuotedRun esc w [] l d := by
  rintro ⟨body, dec, h, -⟩; simp at h

theorem quotedRun_length {esc : Bool} (h : QuotedRun esc w rest l d) : w.length < 64 := by
  obtain ⟨_, _, _, _, rfl, hl, _⟩ := h
  simp only [List.length_append, List.length_singleton] at hl; omega

theorem quotedRun_escaped_cons :
    QuotedRun true w (c :: rest) l d ↔ byteOk c = true ∧ QuotedRun false (w ++ [c]) rest l d := by
  simp only [QuotedRun, if_true, if_false, quoted_backslash_iff]
  constructor
  · rintro ⟨_, _, h, ⟨c', w', d', rfl, hc, hq, rfl⟩, rfl, hl, hd⟩
    simp only [List.cons_append, List.cons.injEq] at h
    obtain ⟨rfl, rfl⟩ := h
    exact ⟨hc, w', d', rfl, hq, by simp, by simpa using hl, hd⟩
  · rintro ⟨hc, body, dec, rfl, hq, rfl, hl, hd⟩
    exact ⟨c :: body, c :: dec, rfl, ⟨c, body, dec, rfl, hc, hq, rfl⟩, by simp,
      by simpa using hl, hd⟩

theorem quotedRun_cons :
    QuotedRun false w (c :: rest) l d ↔
      (c = '\\'.toUInt8 ∧ QuotedRun true w rest l d) ∨
      (c = '"'.toUInt8 ∧ rest = '@'.toUInt8 :: d ∧ l = w ++ ['"'.toUInt8] ∧ l.length ≤ 64 ∧
        DomainRun d) ∨
      (quotedOk c = true ∧ QuotedRun false (w ++ [c]) rest l d) := by
  constructor
  · rintro ⟨_ | ⟨x, body⟩, dec, h, hq, rfl, hl, hd⟩
    · simp only [List.nil_append, List.cons.injEq] at h
      obtain ⟨rfl, rfl⟩ := h
      obtain rfl := quoted_nil_iff.1 hq
      exact .inr (.inl ⟨rfl, rfl, by simp, by simpa using hl, hd⟩)
    · simp only [List.cons_append, List.cons.injEq] at h
      obtain ⟨rfl, rfl⟩ := h
      by_cases hs : c = '\\'.toUInt8
      · subst hs; exact .inl ⟨rfl, body, dec, rfl, hq, rfl, hl, hd⟩
      · obtain ⟨hc, d', hq', rfl⟩ := (quoted_cons_iff hs).1 hq
        exact .inr (.inr ⟨hc, body, d', rfl, hq', by simp, by simpa using hl, hd⟩)
  · rintro (⟨rfl, body, dec, rfl, hq, rfl, hl, hd⟩ | ⟨rfl, rfl, rfl, hl, hd⟩ |
      ⟨hc, body, dec, rfl, hq, rfl, hl, hd⟩)
    · exact ⟨'\\'.toUInt8 :: body, dec, rfl, hq, rfl, hl, hd⟩
    · exact ⟨[], [], rfl, .nil, by simp, hl, hd⟩
    · exact ⟨c :: body, c :: dec, rfl, .plain hc hq, by simp, by simpa using hl, hd⟩

/-- A rest either phase accepts starts with a byte the loop lets through, and the local part
written so far has room for it. -/
theorem unquotedRun_guard (h : UnquotedRun w (c :: rest) l d) :
    byteOk c = true ∧ w.length ≤ 64 := by
  rcases unquotedRun_cons.1 h with ⟨rfl, -, hl, -⟩ | ⟨hc, L, -, -, rfl, hl, -⟩
  · exact ⟨by decide, hl⟩
  · refine ⟨byteOk_of_localPartOk hc, ?_⟩
    simp only [List.length_append, List.length_singleton] at hl; omega

theorem quotedRun_guard {esc : Bool} (h : QuotedRun esc w (c :: rest) l d) :
    byteOk c = true ∧ w.length < 64 := by
  refine ⟨?_, quotedRun_length h⟩
  cases esc
  · rcases quotedRun_cons.1 h with ⟨rfl, -⟩ | ⟨rfl, -⟩ | ⟨hc, -⟩
    · decide
    · decide
    · exact (quotedOk_iff.1 hc).1
  · exact (quotedRun_escaped_cons.1 h).1

theorem localPart_quote_iff :
    ((∃ L, '"'.toUInt8 :: rest = L ++ '@'.toUInt8 :: d ∧ LocalPart L l) ∧ l.length ≤ 64 ∧
      DomainRun d) ↔ QuotedRun false ['"'.toUInt8] rest l d := by
  constructor
  · rintro ⟨⟨L, h, hL⟩, hl, hd⟩
    cases hL with
    | unquoted hne _ hall =>
      obtain ⟨x, L, rfl⟩ := List.exists_cons_of_ne_nil hne
      simp only [List.cons_append, List.cons.injEq] at h
      obtain ⟨rfl, -⟩ := h
      exact absurd (hall _ (List.mem_cons_self _ _)) (by decide)
    | quoted hq =>
      simp only [List.cons_append, List.append_assoc, List.singleton_append, List.cons.injEq,
        true_and] at h
      exact ⟨_, _, h, hq, by simp, hl, hd⟩
  · rintro ⟨body, dec, rfl, hq, rfl, hl, hd⟩
    exact ⟨⟨_, by simp, .quoted hq⟩, by simpa using hl, hd⟩

theorem localPart_unquoted_iff (hc : c ≠ '"'.toUInt8) :
    ((∃ L, c :: rest = L ++ '@'.toUInt8 :: d ∧ LocalPart L l) ∧ l.length ≤ 64 ∧ DomainRun d) ↔
      c ≠ '.'.toUInt8 ∧ localPartOk c = true ∧ UnquotedRun [c] rest l d := by
  constructor
  · rintro ⟨⟨L, h, hL⟩, hl, hd⟩
    cases hL with
    | unquoted hne hdot hall =>
      obtain ⟨x, L, rfl⟩ := List.exists_cons_of_ne_nil hne
      simp only [List.cons_append, List.cons.injEq] at h
      obtain ⟨rfl, rfl⟩ := h
      simp only [List.head?_cons, ne_eq, Option.some.injEq, List.forall_mem_cons] at hdot hall
      exact ⟨hdot, hall.1, L, rfl, hall.2, rfl, hl, hd⟩
    | quoted hq =>
      simp only [List.cons_append, List.cons.injEq] at h
      exact absurd h.1 hc
  · rintro ⟨hdot, hc', L, rfl, hall, rfl, hl, hd⟩
    exact ⟨⟨c :: L, rfl, .unquoted (by simp) (by simpa using hdot)
      (List.forall_mem_cons.2 ⟨hc', hall⟩)⟩, hl, hd⟩

/-! ## Runs -/

theorem parts_domain {l' D : Bytes} (hw : ∀ c ∈ w, byteOk c = true) :
    parts (mailboxLoop false (domainState w l) D) = some (l', d) ↔
      l' = l ∧ D ≠ [] ∧ (∀ c ∈ D, byteOk c = true) ∧ d = w ++ D ∧ d.length ≤ 256 := by
  induction D generalizing w with
  | nil => simp [mailboxLoop, parts, domainState]
  | cons c D ih =>
    rw [mailboxLoop, mailboxStep_domain]
    by_cases hb : byteOk c = false ∨ w.length > 255
    · rw [if_pos hb]
      refine iff_of_false (by simp [parts]) ?_
      rintro ⟨-, -, hD, rfl, hlen⟩
      rcases hb with hb | hb
      · simp [hb] at hD
      · simp only [List.length_append, List.length_cons] at hlen; omega
    rw [if_neg hb]
    simp only [not_or, Bool.not_eq_false, not_lt] at hb
    have hw' : ∀ x ∈ w ++ [c], byteOk x = true :=
      List.forall_mem_append.2 ⟨hw, by simpa using hb.1⟩
    split_ifs with hn
    · obtain rfl : D = [] := List.head?_eq_none_iff.1 (Option.isNone_iff_eq_none.1 hn)
      simp only [mailboxLoop, parts, strdup_of_byteOk hw', Option.some.injEq, Prod.mk.injEq]
      constructor
      · rintro ⟨rfl, rfl⟩
        exact ⟨rfl, List.cons_ne_nil _ _, by simpa using hb.1, rfl,
          by rw [List.length_append, List.length_singleton]; omega⟩
      · rintro ⟨rfl, -, -, rfl, -⟩; exact ⟨rfl, rfl⟩
    · rw [ih hw']
      constructor
      · rintro ⟨rfl, -, hall, rfl, hlen⟩
        exact ⟨rfl, by simp, List.forall_mem_cons.2 ⟨hb.1, hall⟩, by simp, hlen⟩
      · rintro ⟨rfl, -, hall, rfl, hlen⟩
        refine ⟨rfl, ?_, fun x hx => hall x (by simp [hx]), by simp, hlen⟩
        rintro rfl; simp at hn

theorem parts_domain_nil {l' D : Bytes} :
    parts (mailboxLoop false (domainState [] l) D) = some (l', d) ↔
      l' = l ∧ d = D ∧ DomainRun D := by
  rw [parts_domain (by simp), DomainRun]
  constructor
  · rintro ⟨rfl, h1, h2, rfl, h3⟩; exact ⟨rfl, by simp, h1, h2, by simpa using h3⟩
  · rintro ⟨rfl, rfl, h1, h2, h3⟩; exact ⟨rfl, h1, h2, by simp, h3⟩

theorem parts_unquoted (hw : ∀ c ∈ w, byteOk c = true) (hne : w ≠ []) :
    parts (mailboxLoop false ⟨w, false, false, none, none⟩ rest) = some (l, d) ↔
      UnquotedRun w rest l d := by
  induction rest generalizing w with
  | nil => simp [mailboxLoop, parts, unquotedRun_nil]
  | cons c rest ih =>
    rw [mailboxLoop, mailboxStep_unquoted]
    split_ifs with h1 h2 ha hc
    · refine iff_of_false (by simp [parts]) fun hr => ?_
      have := unquotedRun_guard hr
      simp only [this.1, Bool.true_eq_false, false_or] at h1; omega
    · exact iff_of_false (by simp [parts]) fun hr => by have := unquotedRun_guard hr; omega
    · subst ha
      rw [unquotedRun_cons, parts_domain_nil, strdup_of_byteOk hw]
      constructor
      · rintro ⟨rfl, rfl, hd⟩; exact .inl ⟨rfl, rfl, by omega, rfl, hd⟩
      · rintro (⟨-, rfl, -, rfl, hd⟩ | ⟨hc, -⟩)
        · exact ⟨rfl, rfl, hd⟩
        · exact absurd hc (by decide)
    · rw [unquotedRun_cons,
        ih (List.forall_mem_append.2 ⟨hw, by simpa using byteOk_of_localPartOk hc⟩) (by simp)]
      simp [ha, hc]
    · rw [unquotedRun_cons]
      refine iff_of_false (by simp [parts]) ?_
      rintro (⟨rfl, -⟩ | ⟨hc', -⟩)
      · exact ha rfl
      · exact hc hc'

theorem parts_quoted {esc : Bool} (hw : ∀ c ∈ w, byteOk c = true) :
    parts (mailboxLoop false ⟨w, esc, true, none, none⟩ rest) = some (l, d) ↔
      QuotedRun esc w rest l d := by
  induction rest generalizing w esc with
  | nil => simp [mailboxLoop, parts, quotedRun_nil]
  | cons c rest ih =>
    cases esc
    · rw [mailboxLoop, mailboxStep_quoted]
      split_ifs with h1 h2 hs hq ha h9
      · refine iff_of_false (by simp [parts]) fun hr => ?_
        have := quotedRun_guard hr
        simp only [this.1, Bool.true_eq_false, false_or] at h1; omega
      · exact iff_of_false (by simp [parts]) fun hr => by have := quotedRun_guard hr; omega
      · subst hs; rw [quotedRun_cons, ih hw]; simp +decide
      · subst hq
        obtain ⟨rest, rfl⟩ : ∃ r, rest = '@'.toUInt8 :: r := by
          cases rest <;> simp_all
        have hw' : ∀ x ∈ w ++ ['"'.toUInt8], byteOk x = true :=
          List.forall_mem_append.2 ⟨hw, by decide⟩
        rw [quotedRun_cons, parts_unquoted hw' (by simp), unquotedRun_cons]
        simp +decide only [List.length_append, List.length_singleton, true_and, List.append_assoc,
          List.singleton_append, false_and, or_false, List.cons.injEq, false_or]
        constructor
        · rintro ⟨rfl, hl, rfl, hd⟩; exact ⟨rfl, rfl, by simp; omega, hd⟩
        · rintro ⟨rfl, rfl, hl, hd⟩; exact ⟨rfl, by simpa using hl, rfl, hd⟩
      · subst hq
        rw [quotedRun_cons]
        refine iff_of_false (by simp [parts]) ?_
        rintro (⟨h, -⟩ | ⟨-, rfl, -⟩ | ⟨hc, -⟩)
        · exact absurd h (by decide)
        · simp at ha
        · exact absurd hc (by decide)
      · subst h9; simp +decide [parts, quotedRun_cons]
      · simp only [not_or, Bool.not_eq_false, not_lt] at h1
        rw [quotedRun_cons, ih (List.forall_mem_append.2 ⟨hw, by simpa using h1.1⟩)]
        simp [hs, hq, quotedOk_iff, h1.1, h9]
    · rw [mailboxLoop, mailboxStep_escaped, quotedRun_escaped_cons]
      split_ifs with h1
      · refine iff_of_false (by simp [parts]) fun hr => ?_
        have := quotedRun_length hr.2
        simp only [hr.1, Bool.true_eq_false, false_or, List.length_append,
          List.length_singleton] at h1 this
        omega
      · simp only [not_or, Bool.not_eq_false, not_lt] at h1
        rw [ih (List.forall_mem_append.2 ⟨hw, by simpa using h1.1⟩)]
        simp [h1.1]

theorem parts_mailboxLoop {m : Bytes} :
    parts (mailboxLoop true .init m) = some (l, d) ↔
      (∃ L, m = L ++ '@'.toUInt8 :: d ∧ LocalPart L l) ∧ l.length ≤ 64 ∧ DomainRun d := by
  cases m with
  | nil => simp [mailboxLoop, parts, MailboxState.init]
  | cons c rest =>
    rw [mailboxLoop, mailboxStep_first]
    by_cases hq : c = '"'.toUInt8
    · subst hq
      rw [if_neg (by decide), if_pos rfl, parts_quoted (by decide), localPart_quote_iff]
    · rw [localPart_unquoted_iff hq]
      split_ifs with h1 hc
      · refine iff_of_false (by simp [parts]) ?_
        rintro ⟨hd, hc, -⟩
        rcases h1 with h1 | h1
        · simp [byteOk_of_localPartOk hc] at h1
        · exact hd h1
      · simp only [not_or, Bool.not_eq_false] at h1
        rw [parts_unquoted (by simpa using h1.1) (by simp)]
        simp [h1.2, hc]
      · refine iff_of_false (by simp [parts]) ?_
        rintro ⟨-, hc', -⟩
        exact hc hc'

/-! ## The parser -/

theorem domainRun_of_validHost (h : validHost d d.length = true) : DomainRun d := by
  have hi := validHost_internal h
  refine ⟨?_, fun c hc => byteOk_of_domainChar (validDomainInternal_domainChar hi c hc), ?_⟩
  · rintro rfl; simp [validHost] at h
  · unfold validDomainInternal at hi
    split_ifs at hi with hl
    unfold DOMAIN_PART_MAX_LEN at hl; omega

theorem parseMailbox_eq_some_iff_parts {m : Bytes} :
    parseMailbox m = some (l, d) ↔
      m.length ≤ 320 ∧ parts (mailboxLoop true .init m) = some (l, d) ∧
        validHost d (strlen d) = true := by
  unfold parseMailbox
  split_ifs with hm
  · simp only [LOCAL_PART_MAX_LEN, DOMAIN_PART_MAX_LEN] at hm
    exact iff_of_false (by simp) fun h => absurd h.1 (by omega)
  · simp only [LOCAL_PART_MAX_LEN, DOMAIN_PART_MAX_LEN, not_lt] at hm
    simp only [hm, true_and]
    rcases mailboxLoop true .init m with _ | ⟨w, a, q, _ | l', _ | d'⟩ <;>
      simp only [parts, reduceCtorEq, false_and, Option.ite_none_right_eq_some,
        Option.some.injEq, Prod.mk.injEq]
    constructor
    · rintro ⟨hv, rfl, rfl⟩; exact ⟨⟨rfl, rfl⟩, hv⟩
    · rintro ⟨⟨rfl, rfl⟩, hv⟩; exact ⟨hv, rfl, rfl⟩

/-- The parts the parser returns hold no NUL byte. -/
theorem parseMailbox_nul {m : Bytes} (h : parseMailbox m = some (l, d)) : 0 ∉ l ∧ 0 ∉ d := by
  obtain ⟨-, hp, -⟩ := parseMailbox_eq_some_iff_parts.1 h
  obtain ⟨⟨L, -, hL⟩, -, hd⟩ := parts_mailboxLoop.1 hp
  exact ⟨fun h0 => ne_zero_of_byteOk (localPart_byteOk hL 0 h0) rfl,
    fun h0 => ne_zero_of_byteOk (hd.2.1 0 h0) rfl⟩

/-- **The language of `x509_constraints_parse_mailbox`.** The parser accepts a candidate of at
most 320 bytes exactly when it is a local part, an `@` and a domain that
`x509_constraints_valid_host` accepts, the local part being an unquoted run of local-part
bytes that does not start with `.`, or a quoted inside (`Quoted`) between double quotes, and
taking at most 64 bytes as stored. The parts it returns are the local part as stored (with
its quotes, without its backslashes) and the domain. -/
theorem parseMailbox_eq_some_iff (m l d : Bytes) :
    parseMailbox m = some (l, d) ↔
      m.length ≤ LOCAL_PART_MAX_LEN + DOMAIN_PART_MAX_LEN + 1 ∧
      (∃ L, m = L ++ '@'.toUInt8 :: d ∧ LocalPart L l) ∧ l.length ≤ LOCAL_PART_MAX_LEN ∧
      validHost d d.length = true := by
  rw [parseMailbox_eq_some_iff_parts, parts_mailboxLoop]
  constructor
  · rintro ⟨hm, ⟨hL, hl, hd⟩, hv⟩
    rw [strlen_of_byteOk hd.2.1] at hv
    exact ⟨hm, hL, hl, hv⟩
  · rintro ⟨hm, hL, hl, hv⟩
    have hd := domainRun_of_validHost hv
    exact ⟨hm, ⟨hL, hl, hd⟩, by rwa [strlen_of_byteOk hd.2.1]⟩

example : parseMailbox (ascii "\"a\\b\"@example.com") =
    some (ascii "\"ab\"", ascii "example.com") := by
  decide

/-- **An escape outside quotes is never accepted.** In `a\b@example.com` the byte after the
backslash is a local-part byte and the domain is a valid host, but the parser then checks
the backslash itself with `local_part_ok`, and fails. -/
theorem parseMailbox_rejects_unquoted_escape :
    localPartOk 'b'.toUInt8 = true ∧ localPartOk '\\'.toUInt8 = false ∧
    validHost (ascii "example.com") (ascii "example.com").length = true ∧
    parseMailbox (ascii "a\\b@example.com") = none := by
  decide

/-! ## The working buffer -/

/-- The `DOMAIN_PART_MAX_LEN + 1` bytes of `char working[]`: the bytes written, then the zeros
it was initialised or reset with. -/
def workingBuffer (s : MailboxState) : Bytes :=
  s.working ++ List.replicate (DOMAIN_PART_MAX_LEN + 1 - s.working.length) 0

/-- The domain phase takes every byte of a domain that fits the buffer, and copies it with
`strdup` at its last byte. -/
theorem mailboxLoop_domain {D : Bytes} (hD : ∀ c ∈ D, byteOk c = true) (hne : D ≠ [])
    (hlen : (w ++ D).length ≤ DOMAIN_PART_MAX_LEN + 1) :
    mailboxLoop false (domainState w l) D =
      some ⟨w ++ D, false, false, some l, some (strdup (w ++ D))⟩ := by
  induction D generalizing w with
  | nil => exact absurd rfl hne
  | cons c D ih =>
    have hw : ¬(byteOk c = false ∨ w.length > 255) := by
      simp only [List.length_append, List.length_cons, DOMAIN_PART_MAX_LEN] at hlen
      simp only [hD c (List.mem_cons_self c D), Bool.true_eq_false, false_or, not_lt]
      omega
    rw [mailboxLoop, mailboxStep_domain, if_neg hw]
    cases D with
    | nil => simp [mailboxLoop]
    | cons c' D =>
      simp only [List.head?_cons, Option.isNone_some, Bool.false_eq_true, if_false]
      rw [ih (fun x hx => hD x (List.mem_cons_of_mem c hx)) (List.cons_ne_nil c' D)
        (by simpa using hlen)]
      simp

/-- The candidate `a@` followed by 256 letters (258 bytes, under the 320-byte cap): the loop
writes the 256 letters of the domain to `working[0..255]` and then calls `strdup(working)` on
a buffer that holds no NUL. -/
theorem parseMailbox_domain_fills_working :
    (ascii "a@" ++ List.replicate 256 'a'.toUInt8).length ≤
        LOCAL_PART_MAX_LEN + DOMAIN_PART_MAX_LEN + 1 ∧
      ∃ s, mailboxLoop true .init (ascii "a@" ++ List.replicate 256 'a'.toUInt8) = some s ∧
        s.candidateDomain = some (strdup s.working) ∧ 0 ∉ workingBuffer s := by
  have hloop : ∀ D, mailboxLoop true .init (ascii "a@" ++ D) =
      mailboxLoop false (domainState [] (ascii "a")) D := fun _ => rfl
  have hD : ∀ c ∈ List.replicate 256 'a'.toUInt8, byteOk c = true := by
    intro c hc; rw [List.eq_of_mem_replicate hc]; decide
  have hne : List.replicate 256 'a'.toUInt8 ≠ [] := by
    simp only [ne_eq, List.replicate_eq_nil_iff]; decide
  refine ⟨by rw [List.length_append, List.length_replicate]; decide, _,
    (hloop _).trans
      (mailboxLoop_domain hD hne (by rw [List.nil_append, List.length_replicate]; rfl)),
    rfl, ?_⟩
  simp only [workingBuffer, List.nil_append, List.length_replicate, DOMAIN_PART_MAX_LEN,
    Nat.sub_self, List.replicate_zero, List.append_nil, List.mem_replicate]
  decide

end X509Constraints
