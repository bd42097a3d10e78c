import Chronos.Taskset.Buffers
import Chronos.Taskset.Entries

/-!
# Which lists are accepted

A list should be `all` or numbers between commas. The tokenizers take every run of digits
for a number, the empty one too, and stop without an error at a character they do not
know, so that they accept much more; `initialize_task_cpus` rejects a number that is too
large, and `initialize_task_locks` rejects nothing.
-/

namespace Chronos.Taskset

open Lib

/-! ## Well-formed lists -/

/-- A decimal numeral below `n`. -/
structure Numeral (n : Nat) (digits : List Char) : Prop where
  ne_nil : digits ≠ []
  isDigit : ∀ c ∈ digits, c.isDigit = true
  lt : Nat.ofDigitChars 10 digits 0 < n

/-- The token is well formed and names these of the ids below `n`. -/
inductive Lists (n : Nat) : List Char → List Nat → Prop
  | all : Lists n ['a', 'l', 'l'] (List.range n)
  | numerals (numerals : List (List Char)) (hne : numerals ≠ [])
      (h : ∀ digits ∈ numerals, Numeral n digits) :
      Lists n ([','].intercalate numerals) (numerals.map (Nat.ofDigitChars 10 · 0))

section Lists

variable {n : Nat} {token digits : List Char} {ids : List Nat} {numerals : List (List Char)}

/-- The tokenizers find the numerals of a well-formed list. -/
theorem listDigits_intercalate (hne : numerals ≠ [])
    (h : ∀ digits ∈ numerals, ∀ c ∈ digits, c.isDigit = true) :
    listDigits [] ([','].intercalate numerals) = numerals := by
  induction numerals with
  | nil => exact absurd rfl hne
  | cons digits numerals ih =>
    have hdigits := h digits List.mem_cons_self
    cases numerals with
    | nil =>
      have htext : [','].intercalate [digits] = digits ++ [] := by simp [List.intercalate]
      rw [htext, listDigits_append hdigits]
      rfl
    | cons digits' numerals =>
      have htext : [','].intercalate (digits :: digits' :: numerals) =
          digits ++ ',' :: [','].intercalate (digits' :: numerals) := by
        simp [List.intercalate, List.intersperse]
      have hrest : listDigits [] ([','].intercalate (digits' :: numerals)) = digits' :: numerals :=
        ih (List.cons_ne_nil _ _) fun d hd => h d (List.mem_cons_of_mem digits hd)
      rw [htext, listDigits_append hdigits, List.nil_append]
      simp only [listDigits, hrest]
      rfl

theorem saysAll_intercalate (hne : numerals ≠ []) (h : ∀ digits ∈ numerals, Numeral n digits) :
    saysAll ([','].intercalate numerals) = false := by
  obtain ⟨digits, numerals, rfl⟩ := List.exists_cons_of_ne_nil hne
  obtain ⟨hdigits, hisDigit, -⟩ := h digits List.mem_cons_self
  obtain ⟨d, digits, rfl⟩ := List.exists_cons_of_ne_nil hdigits
  have hd : d ≠ 'a' := by
    rintro rfl
    exact absurd (hisDigit 'a' List.mem_cons_self) (by decide)
  cases numerals <;> simp [saysAll, List.intercalate, List.intersperse, hd]

/-- What the tokenizers see of a well-formed list. -/
theorem Lists.eq_or (h : Lists n token ids) :
    (token = ['a', 'l', 'l'] ∧ ids = List.range n) ∨
      (saysAll token = false ∧ (∀ digits ∈ listDigits [] token, Numeral n digits) ∧
        ids = (listDigits [] token).map (Nat.ofDigitChars 10 · 0)) := by
  cases h with
  | all => exact .inl ⟨rfl, rfl⟩
  | numerals numerals hne h =>
    rw [listDigits_intercalate hne fun digits hdigits => (h digits hdigits).isDigit]
    exact .inr ⟨saysAll_intercalate hne h, h, rfl⟩

/-- An empty number is not well formed. -/
theorem not_lists_of_nil_mem (hall : token ≠ ['a', 'l', 'l']) (hnil : [] ∈ listDigits [] token) :
    ¬∃ ids, Lists n token ids := by
  rintro ⟨ids, hids⟩
  rcases hids.eq_or with ⟨hall', -⟩ | ⟨-, hnumerals, -⟩
  · exact hall hall'
  · exact (hnumerals [] hnil).ne_nil rfl

end Lists

/-! ## Processors -/

section Cpus

variable {σ : Type} {m : Machine} {T T' : Tester σ} {t t' : Task} {token : List Char}
  {mask : Nat}

/-- The processors that the numbers of a token select. -/
def idsRead (m : Machine) (token : List Char) : List Nat :=
  if saysAll token then List.range m.numProcessors
  else (listDigits [] token).map fun digits => toUInt (atoi digits)

/-- The mask of these processors. -/
def idMask (m : Machine) (ids : List Nat) : Nat := ids.foldl (fun mask i => mask ||| cpuBit m i) 0

/-- A number that is read is too large. -/
def SomeTooLarge (m : Machine) (token : List Char) : Prop :=
  ∃ digits ∈ numbersRead (tooLarge m) token, tooLarge m digits = true

theorem addCpu_of_tooLarge {digits : List Char} (mask : Nat)
    (hlen : digits.length + 1 < tmpSize) (hlarge : tooLarge m digits = true) :
    ∃ text, addCpu m mask digits = .error (.exit text) := by
  have hle : m.numProcessors ≤ toUInt (atoi digits) := of_decide_eq_true hlarge
  unfold addCpu
  rw [if_neg (Nat.not_le.mpr hlen), if_pos hle]
  exact ⟨_, rfl⟩

theorem addCpu_of_not_tooLarge {digits : List Char} (hlen : digits.length + 1 < tmpSize)
    (hlarge : ¬tooLarge m digits = true) :
    addCpu m mask digits = .ok (mask ||| cpuBit m (toUInt (atoi digits))) := by
  have hlt : ¬m.numProcessors ≤ toUInt (atoi digits) := fun hle => hlarge (decide_eq_true hle)
  unfold addCpu
  rw [if_neg (Nat.not_le.mpr hlen), if_neg hlt]

/-- Each number of a list adds its bit, up to one that is too large or too long. -/
theorem foldlM_addCpu_eq_ok {numbers : List (List Char)} {mask' : Nat} :
    numbers.foldlM (addCpu m) mask = .ok mask' ↔
      (∀ digits ∈ readUntil (tooLarge m) numbers,
        digits.length + 1 < tmpSize ∧ tooLarge m digits = false) ∧
      mask' = (numbers.map fun digits => toUInt (atoi digits)).foldl
        (fun mask i => mask ||| cpuBit m i) mask := by
  induction numbers generalizing mask with
  | nil =>
    rw [foldlM_nil_eq_ok, eq_comm]
    simp [readUntil]
  | cons digits numbers ih =>
    rw [foldlM_cons_eq_ok, readUntil]
    by_cases hlen : digits.length + 1 < tmpSize
    · by_cases hlarge : tooLarge m digits = true
      · obtain ⟨text, htext⟩ := addCpu_of_tooLarge mask hlen hlarge
        simp [htext, hlarge]
      · simp [addCpu_of_not_tooLarge hlen hlarge, hlarge, hlen, ih]
    · by_cases hlarge : tooLarge m digits = true
      · simp [addCpu, Nat.not_lt.mp hlen, hlarge, hlen]
      · simp [addCpu, Nat.not_lt.mp hlen, hlarge, hlen]

/-- `tmp` is overrun by a number that is read, and by nothing else. -/
theorem foldlM_addCpu_eq_undefined {numbers : List (List Char)} :
    numbers.foldlM (addCpu m) mask = .error .undefined ↔
      ¬∀ digits ∈ readUntil (tooLarge m) numbers, digits.length + 1 < tmpSize := by
  induction numbers generalizing mask with
  | nil => simp [readUntil, pure, Except.pure]
  | cons digits numbers ih =>
    rw [List.foldlM_cons, readUntil]
    by_cases hlen : digits.length + 1 < tmpSize
    · by_cases hlarge : tooLarge m digits = true
      · obtain ⟨text, htext⟩ := addCpu_of_tooLarge mask hlen hlarge
        simp [htext, hlarge, hlen, bind, Except.bind]
      · simp [addCpu_of_not_tooLarge hlen hlarge, hlarge, hlen, ih, bind, Except.bind]
    · by_cases hlarge : tooLarge m digits = true
      · simp [addCpu, Nat.not_lt.mp hlen, hlarge, hlen, bind, Except.bind]
      · simp [addCpu, Nat.not_lt.mp hlen, hlarge, hlen, bind, Except.bind]

/-- **The mask of a token** is that of the numbers read, if none is too large. -/
theorem cpuMask_eq_ok : cpuMask m token = .ok mask ↔
    NumbersFit (tooLarge m) token ∧ ¬SomeTooLarge m token ∧ mask = idMask m (idsRead m token) := by
  unfold cpuMask NumbersFit SomeTooLarge idsRead numbersRead
  by_cases hall : saysAll token
  · simp only [hall, if_true, Except.ok.injEq, eq_comm (b := mask)]
    simp [idMask]
  · simp only [hall, if_false, Bool.false_eq_true, foldlM_addCpu_eq_ok, forall_and]
    simp [idMask, and_assoc]

/-- The overruns of `tmp` are what the loops with their indices have too. -/
theorem cpuMask_eq_undefined :
    cpuMask m token = .error .undefined ↔ ¬NumbersFit (tooLarge m) token := by
  unfold cpuMask NumbersFit numbersRead
  by_cases hall : saysAll token
  · simp [hall]
  · simp [hall, foldlM_addCpu_eq_undefined]

/-- There is a domain with this mask already, or a free one. -/
def HasRoom (domainMasks : List Nat) (mask : Nat) : Prop := mask ∈ domainMasks ∨ 0 ∈ domainMasks

instance {domainMasks : List Nat} : Decidable (HasRoom domainMasks mask) :=
  inferInstanceAs (Decidable (_ ∨ _))

theorem exists_addDomainMask_iff {domainMasks : List Nat} :
    (∃ domainMasks', addDomainMask mask domainMasks = some domainMasks') ↔
      HasRoom domainMasks mask := by
  unfold HasRoom
  induction domainMasks with
  | nil => simp [addDomainMask]
  | cons d domainMasks ih =>
    rw [addDomainMask]
    by_cases hd : d = mask
    · simp [hd]
    · by_cases hd0 : d = 0
      · subst hd0
        simp [hd]
      · simp only [hd, hd0, if_false, Option.map_eq_some_iff, List.mem_cons, Ne.symm hd,
          Ne.symm hd0, false_or, ← ih]
        constructor
        · rintro ⟨-, rest, hrest, -⟩
          exact ⟨rest, hrest⟩
        · rintro ⟨rest, hrest⟩
          exact ⟨_, rest, hrest, rfl⟩

/-- **A token is accepted** for the mask of the numbers read. -/
theorem initializeTaskCpus_accepts_iff {m : Machine} :
    (∃ T' t', initializeTaskCpus m token T t = .ok (T', t')) ↔
      NumbersFit (tooLarge m) token ∧ ¬SomeTooLarge m token ∧ idMask m (idsRead m token) ≠ 0 ∧
        HasRoom T.domainMasks (idMask m (idsRead m token)) := by
  simp only [initializeTaskCpus_eq_ok, cpuMask_eq_ok, ← exists_addDomainMask_iff]
  constructor
  · rintro ⟨-, -, mask, masks, ⟨hfit, hlarge, rfl⟩, hne, hadd, -, -⟩
    exact ⟨hfit, hlarge, hne, masks, hadd⟩
  · rintro ⟨hfit, hlarge, hne, masks, hadd⟩
    exact ⟨_, _, _, masks, ⟨hfit, hlarge, rfl⟩, hne, hadd, rfl, rfl⟩

theorem initializeTaskCpus_eq_undefined :
    initializeTaskCpus m token T t = .error .undefined ↔ ¬NumbersFit (tooLarge m) token := by
  rw [← cpuMask_eq_undefined]
  unfold initializeTaskCpus
  cases cpuMask m token with
  | error stop => simp [bind, Except.bind]
  | ok mask =>
    simp only [bind, Except.bind, reduceCtorEq, iff_false]
    split
    · simp [throw, throwThe, MonadExceptOf.throw]
    · split <;> simp [throw, throwThe, MonadExceptOf.throw, pure, Except.pure]

/-- To end in an error is neither to succeed nor to be undefined. -/
theorem exists_error_iff {α : Type} {x : Except Stop α} :
    (∃ stop, stop ≠ .undefined ∧ x = .error stop) ↔
      x ≠ .error .undefined ∧ ¬∃ a, x = .ok a := by
  cases x with
  | ok a => simp
  | error stop => simp

/-! ## Well-formed lists of processors -/

theorem cpuBit_lt (cpu : Nat) : cpuBit m cpu < 2 ^ 64 := by
  unfold cpuBit Task.toUnsignedLong
  split
  · next h =>
    have hfloor : ⌊(2 : ℚ) ^ cpu⌋ < 2 ^ 64 := Int.floor_lt.mpr (by exact_mod_cast h.2)
    omega
  · exact Nat.mod_lt _ (by norm_num)

/-- A mask has 64 bits. -/
theorem idMask_lt (ids : List Nat) : idMask m ids < 2 ^ 64 := by
  induction ids using List.reverseRecOn with
  | nil => norm_num [idMask]
  | append_singleton ids i ih =>
    rw [idMask, List.foldl_append]
    exact Nat.or_lt_two_pow ih (cpuBit_lt i)

theorem idMask_eq {ids : List Nat} (h : ∀ i ∈ ids, i < 64) :
    idMask m ids = maskOf ids.toFinset := by
  rw [← foldl_or_eq_maskOf]
  apply List.foldl_ext
  intro mask i hi
  rw [cpuBit_eq (h i hi)]

theorem mem_of_mem_numbersRead {leaves : List Char → Bool} {digits : List Char}
    (h : digits ∈ numbersRead leaves token) :
    saysAll token = false ∧ digits ∈ listDigits [] token := by
  unfold numbersRead at h
  split at h
  · cases h
  · next hall =>
    refine ⟨by simpa using hall, ?_⟩
    generalize listDigits [] token = numbers at h
    induction numbers with
    | nil => cases h
    | cons number numbers ih =>
      rw [readUntil] at h
      split at h
      · exact List.mem_singleton.mp h ▸ List.mem_cons_self
      · rcases List.mem_cons.mp h with rfl | h
        · exact List.mem_cons_self
        · exact List.mem_cons_of_mem _ (ih h)

/-- The numbers read from a well-formed list are its ids, if these have a bit. -/
theorem Lists.idsRead_eq {ids : List Nat} (h : Lists m.numProcessors token ids)
    (hids : ∀ i ∈ ids, i < 64) : idsRead m token = ids ∧ ¬SomeTooLarge m token := by
  rcases h.eq_or with ⟨rfl, rfl⟩ | ⟨hall, hnumerals, rfl⟩
  · refine ⟨rfl, fun ⟨digits, hdigits, _⟩ => ?_⟩
    exact absurd (mem_of_mem_numbersRead hdigits).1 (by decide)
  · have hid : ∀ digits ∈ listDigits [] token,
        toUInt (atoi digits) = Nat.ofDigitChars 10 digits 0 := by
      intro digits hdigits
      have hlt := hids _ (List.mem_map_of_mem hdigits)
      rw [atoi_eq (by omega)]
      unfold toUInt
      omega
    refine ⟨?_, ?_⟩
    · rw [idsRead, hall, if_neg (by decide)]
      exact List.map_congr_left hid
    · rintro ⟨digits, hdigits, hlarge⟩
      have hmem := (mem_of_mem_numbersRead hdigits).2
      have hle : m.numProcessors ≤ toUInt (atoi digits) := of_decide_eq_true hlarge
      rw [hid digits hmem] at hle
      exact absurd (hnumerals digits hmem).lt (not_lt.mpr hle)

/-- The list of processors is accepted exactly if it is well formed, and its ids are the
bits of the mask. -/
structure CpusExact (m : Machine) (token : List Char) (T : Tester σ) (t : Task) : Prop where
  accepts : ∀ ids, Lists m.numProcessors token ids → ∃ T' t',
    initializeTaskCpus m token T t = .ok (T', t') ∧ ∀ i, t'.cpuMask.testBit i = true ↔ i ∈ ids
  rejects : (¬∃ ids, Lists m.numProcessors token ids) → ∃ stop, stop ≠ .undefined ∧
    initializeTaskCpus m token T t = .error stop

/-- No number overruns `tmp`. A well-formed list has ids, which fit in a mask, and there
is a domain for it; any other token has a number that is too large, or no domain. -/
structure CpusChecked (m : Machine) (token : List Char) (T : Tester σ) : Prop where
  fits : NumbersFit (tooLarge m) token
  listed : ∀ ids, Lists m.numProcessors token ids →
    ids ≠ [] ∧ (∀ i ∈ ids, i < 64) ∧ HasRoom T.domainMasks (maskOf ids.toFinset)
  other : (¬∃ ids, Lists m.numProcessors token ids) → SomeTooLarge m token ∨
    idMask m (idsRead m token) = 0 ∨ ¬HasRoom T.domainMasks (idMask m (idsRead m token))

theorem CpusExact.checked (h : CpusExact m token T t) : CpusChecked m token T where
  fits := by
    by_contra hfit
    have hundefined : initializeTaskCpus m token T t = .error .undefined :=
      initializeTaskCpus_eq_undefined.mpr hfit
    by_cases hlists : ∃ ids, Lists m.numProcessors token ids
    · obtain ⟨ids, hids⟩ := hlists
      obtain ⟨T', t', hok, -⟩ := h.accepts ids hids
      rw [hundefined] at hok
      cases hok
    · exact (exists_error_iff.mp (h.rejects hlists)).1 hundefined
  listed := by
    intro ids hids
    obtain ⟨T', t', hok, hbits⟩ := h.accepts ids hids
    obtain ⟨mask, masks, hmask, hne, hadd, -, rfl⟩ := initializeTaskCpus_eq_ok.mp hok
    obtain ⟨-, -, rfl⟩ := cpuMask_eq_ok.mp hmask
    have hbelow : ∀ i ∈ ids, i < 64 := by
      intro i hi
      by_contra hge
      have hbit := (hbits i).mpr hi
      have hpow : 2 ^ 64 ≤ 2 ^ i := Nat.pow_le_pow_right (by norm_num) (by omega)
      rw [Nat.testBit_lt_two_pow ((idMask_lt _).trans_le hpow)] at hbit
      cases hbit
    have hread := (hids.idsRead_eq hbelow).1
    rw [hread, idMask_eq hbelow] at hne hadd
    refine ⟨?_, hbelow, exists_addDomainMask_iff.mp ⟨masks, hadd⟩⟩
    rintro rfl
    exact hne rfl
  other := by
    intro hlists
    obtain ⟨hdefined, hreject⟩ := exists_error_iff.mp (h.rejects hlists)
    have hfit := not_not.mp (mt initializeTaskCpus_eq_undefined.mpr hdefined)
    by_contra hnone
    rw [not_or, not_or, not_not] at hnone
    obtain ⟨hlarge, hne, hroom⟩ := hnone
    obtain ⟨T', t', hok⟩ := initializeTaskCpus_accepts_iff.mpr ⟨hfit, hlarge, hne, hroom⟩
    exact hreject ⟨_, hok⟩

theorem CpusChecked.exact (h : CpusChecked m token T) : CpusExact m token T t where
  accepts := by
    intro ids hids
    obtain ⟨hne, hbelow, hroom⟩ := h.listed ids hids
    obtain ⟨hread, hlarge⟩ := hids.idsRead_eq hbelow
    obtain ⟨i, hi⟩ := List.exists_mem_of_ne_nil ids hne
    have hmask : cpuMask m token = .ok (maskOf ids.toFinset) :=
      cpuMask_eq_ok.mpr ⟨h.fits, hlarge, by rw [hread, idMask_eq hbelow]⟩
    obtain ⟨masks, hadd⟩ := exists_addDomainMask_iff.mpr hroom
    have hzero : maskOf ids.toFinset ≠ 0 := maskOf_ne_zero ⟨i, List.mem_toFinset.mpr hi⟩
    refine ⟨_, _, initializeTaskCpus_eq_ok.mpr ⟨_, masks, hmask, hzero, hadd, rfl, rfl⟩, ?_⟩
    intro j
    simp [testBit_maskOf]
  rejects := by
    intro hlists
    refine exists_error_iff.mpr ⟨?_, ?_⟩
    · exact fun hundefined => initializeTaskCpus_eq_undefined.mp hundefined h.fits
    · rintro ⟨⟨T', t'⟩, hok⟩
      obtain ⟨-, hlarge, hne, hroom⟩ := initializeTaskCpus_accepts_iff.mp ⟨T', t', hok⟩
      rcases h.other hlists with hlarge' | hzero | hfull
      · exact hlarge hlarge'
      · exact hne hzero
      · exact hfull hroom

end Cpus

/-! ## Locks -/

section Locks

variable {σ : Type} {A : Allocator σ} {T T' : Tester σ} {t t' : Task} {token : List Char}

@[simp] theorem readUntil_false (numbers : List (List Char)) :
    readUntil (fun _ => false) numbers = numbers := by
  induction numbers with
  | nil => rfl
  | cons digits numbers ih => simp [readUntil, ih]

theorem numbersFit_false : NumbersFit (fun _ => false) token ↔
    (saysAll token ∨ ∀ digits ∈ listDigits [] token, digits.length + 1 < tmpSize) := by
  unfold NumbersFit numbersRead
  by_cases hall : saysAll token <;> simp [hall]

/-- The answer of `salloc` for `my_locks`. -/
def myLocksAnswer (A : Allocator σ) (T : Tester σ) : Option (σ × Bool) :=
  A.salloc T.heap (toULong (sizeofPointer * T.numLocks))

/-- Only the memory can run out. -/
theorem initializeTaskLocks_rejects_iff :
    (∃ stop, stop ≠ .undefined ∧ initializeTaskLocks A token T t = .error stop) ↔
      ∃ heap, myLocksAnswer A T = some (heap, false) := by
  have hlocks (numbers : List (List Char)) (locks : List Int) (stop : Stop)
      (h : numbers.foldlM addLock locks = .error stop) : stop = .undefined := by
    induction numbers generalizing locks with
    | nil => cases h
    | cons digits numbers ih =>
      rw [List.foldlM_cons, addLock] at h
      split at h
      · cases h
        rfl
      · exact ih _ h
  unfold initializeTaskLocks allocate myLocksAnswer
  rcases A.salloc T.heap (toULong (sizeofPointer * T.numLocks)) with _ | ⟨heap, answer⟩
  · simp [bind, Except.bind]
  · cases answer with
    | false => simp [bind, Except.bind]
    | true =>
      simp only [bind, Except.bind, Option.some.injEq, Prod.mk.injEq, reduceCtorEq, and_false,
        exists_false, iff_false, not_exists, not_and]
      intro stop hstop h
      split at h
      · cases h
      · cases hfold : (listDigits [] token).foldlM addLock t.myLocks with
        | error stop' =>
          rw [hfold] at h
          cases h
          exact hstop (hlocks _ _ _ hfold)
        | ok locks =>
          rw [hfold] at h
          cases h

/-- The list of locks is accepted exactly if it is well formed, and the task gets these
locks in this order. -/
structure LocksExact (A : Allocator σ) (token : List Char) (T : Tester σ) (t : Task) : Prop where
  accepts : ∀ ids, Lists T.numLocks.toNat token ids → ∃ T' t',
    initializeTaskLocks A token T t = .ok (T', t') ∧ t'.myLocks = ids.map Int.ofNat
  rejects : (¬∃ ids, Lists T.numLocks.toNat token ids) → ∃ stop, stop ≠ .undefined ∧
    initializeTaskLocks A token T t = .error stop

/-- `my_locks` has room for the locks of a well-formed list. -/
def MyLocksFit (A : Allocator σ) (token : List Char) (T : Tester σ) (t : Task) : Prop :=
  ∀ ids, Lists T.numLocks.toNat token ids → ∀ T' t',
    initializeTaskLocks A token T t = .ok (T', t') → t'.numMyLocks ≤ T.numLocks

/-- A well-formed list gets its memory, and no number overruns `tmp`; any other token gets
no memory. -/
structure LocksChecked (A : Allocator σ) (token : List Char) (T : Tester σ) : Prop where
  listed : ∀ ids, Lists T.numLocks.toNat token ids →
    (∃ heap, myLocksAnswer A T = some (heap, true)) ∧ NumbersFit (fun _ => false) token
  other : (¬∃ ids, Lists T.numLocks.toNat token ids) →
    ∃ heap, myLocksAnswer A T = some (heap, false)

/-- A well-formed list has no more ids than there are locks. -/
def IdsFit (token : List Char) (T : Tester σ) : Prop :=
  ∀ ids, Lists T.numLocks.toNat token ids → ids.length ≤ T.numLocks

theorem Lists.lockIds_eq {numLocks : Int} {ids : List Nat} (hlocks : numLocks < 2 ^ 31)
    (h : Lists numLocks.toNat token ids) : lockIds numLocks token = ids.map Int.ofNat := by
  unfold lockIds
  rcases h.eq_or with ⟨rfl, rfl⟩ | ⟨hall, hnumerals, rfl⟩
  · rfl
  · rw [hall, if_neg (by decide), List.map_map]
    apply List.map_congr_left
    intro digits hdigits
    have hlt := (hnumerals digits hdigits).lt
    exact atoi_eq (by omega)

/-- **A well-formed list of locks** is stored if it gets its memory. -/
theorem initializeTaskLocks_accepts_iff {ids : List Nat} (ht : t.myLocks = [])
    (hlocks : T.numLocks < 2 ^ 31) (hids : Lists T.numLocks.toNat token ids) :
    (∃ T' t', initializeTaskLocks A token T t = .ok (T', t') ∧
      t'.myLocks = ids.map Int.ofNat) ↔
      (∃ heap, myLocksAnswer A T = some (heap, true)) ∧ NumbersFit (fun _ => false) token := by
  have hread := hids.lockIds_eq hlocks
  simp only [initializeTaskLocks_eq_ok ht, ← numbersFit_false, Allocator.serve_singleton]
  constructor
  · rintro ⟨_, _, ⟨hfit, ⟨heap, hheap, rfl⟩, rfl⟩, -⟩
    exact ⟨⟨heap, hheap⟩, hfit⟩
  · rintro ⟨⟨heap, hheap⟩, hfit⟩
    exact ⟨_, _, ⟨hfit, ⟨heap, hheap, rfl⟩, rfl⟩, hread⟩

theorem locksExact_iff (ht : t.myLocks = []) (hlocks : T.numLocks < 2 ^ 31) :
    LocksExact A token T t ↔ LocksChecked A token T := by
  constructor
  · intro h
    refine ⟨fun ids hids => ?_, fun hlists => ?_⟩
    · exact (initializeTaskLocks_accepts_iff ht hlocks hids).mp (h.accepts ids hids)
    · exact initializeTaskLocks_rejects_iff.mp (h.rejects hlists)
  · intro h
    refine ⟨fun ids hids => ?_, fun hlists => ?_⟩
    · exact (initializeTaskLocks_accepts_iff ht hlocks hids).mpr (h.listed ids hids)
    · exact initializeTaskLocks_rejects_iff.mpr (h.other hlists)

theorem LocksExact.myLocksFit_iff (h : LocksExact A token T t) :
    MyLocksFit A token T t ↔ IdsFit token T := by
  constructor
  · intro hfit ids hids
    obtain ⟨T', t', hok, hlocks⟩ := h.accepts ids hids
    have hroom := hfit ids hids T' t' hok
    rwa [Task.numMyLocks, hlocks, List.length_map] at hroom
  · intro hfit ids hids T' t' hok
    obtain ⟨_, _, hok', hlocks⟩ := h.accepts ids hids
    obtain ⟨rfl, rfl⟩ := Prod.mk.inj (Except.ok.inj (hok'.symm.trans hok))
    rw [Task.numMyLocks, hlocks, List.length_map]
    exact hfit ids hids

end Locks

/-! ## Both lists -/

section Both

variable {σ : Type} {A : Allocator σ} {m : Machine} {T : Tester σ} {t : Task}

/-- **The lists are accepted exactly if they are well formed** for the tokens that the
checks of the code are enough for. The locks also fit `my_locks` if there are no more than
`num_locks`. -/
theorem listsExact_iff (cpus locks : List Char) (ht : t.myLocks = [])
    (hlocks : T.numLocks < 2 ^ 31) :
    (CpusExact m cpus T t ↔ CpusChecked m cpus T) ∧
      (LocksExact A locks T t ↔ LocksChecked A locks T) ∧
      (LocksExact A locks T t ∧ MyLocksFit A locks T t ↔
        LocksChecked A locks T ∧ IdsFit locks T) := by
  have hexact : LocksExact A locks T t ↔ LocksChecked A locks T := locksExact_iff ht hlocks
  refine ⟨⟨CpusExact.checked, CpusChecked.exact⟩, hexact, ?_⟩
  rw [← hexact]
  exact and_congr_right LocksExact.myLocksFit_iff

end Both

/-- One lock, and no domain yet. -/
def noDomainTester : Tester Unit where
  options := sampleOptions
  heap := ()
  domainMasks := [0, 0, 0, 0]
  numLocks := 1
  taskList := []
  seenGroup := false
  warnings := []

theorem listsExact_iff_two :
    (CpusExact sampleMachine "2,0".toList noDomainTester freshTask ↔
        CpusChecked sampleMachine "2,0".toList noDomainTester) ∧
      (LocksExact sampleAllocator "0".toList noDomainTester freshTask ↔
        LocksChecked sampleAllocator "0".toList noDomainTester) ∧
      (LocksExact sampleAllocator "0".toList noDomainTester freshTask ∧
          MyLocksFit sampleAllocator "0".toList noDomainTester freshTask ↔
        LocksChecked sampleAllocator "0".toList noDomainTester ∧
          IdsFit "0".toList noDomainTester) :=
  listsExact_iff "2,0".toList "0".toList rfl (by decide)

theorem initializeTaskCpus_comma :
    initializeTaskCpus sampleMachine "1,".toList noDomainTester freshTask =
      .ok ({ noDomainTester with domainMasks := [3, 0, 0, 0] },
        { freshTask with cpuMask := 3 }) := by
  decide +kernel

theorem initializeTaskLocks_comma :
    initializeTaskLocks sampleAllocator "0,".toList noDomainTester freshTask =
      .ok (noDomainTester, { freshTask with myLocks := [0, 0] }) := by
  decide +kernel

/-- A comma at the end selects processor 0, and lock 0. -/
theorem not_listsExact_comma :
    ¬CpusExact sampleMachine "1,".toList noDomainTester freshTask ∧
      ¬LocksExact sampleAllocator "0,".toList noDomainTester freshTask := by
  constructor
  · intro h
    obtain ⟨stop, -, hstop⟩ := h.rejects (not_lists_of_nil_mem (by decide) (by decide))
    rw [initializeTaskCpus_comma] at hstop
    cases hstop
  · intro h
    obtain ⟨stop, -, hstop⟩ := h.rejects (not_lists_of_nil_mem (by decide) (by decide))
    rw [initializeTaskLocks_comma] at hstop
    cases hstop

end Chronos.Taskset
