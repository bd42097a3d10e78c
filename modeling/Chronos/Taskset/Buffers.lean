import Chronos.Taskset.Locks

/-!
# The buffers of the tokenizers

`initialize_task_cpus` and `initialize_task_locks` copy a list digit by digit from the
token, which ends with a NUL, into `tmp`, an array of 32 characters. Here are the loops
with their indices: they stop at the end of the token, but a run of digits is copied
whatever its length.
-/

namespace Chronos.Taskset

open Lib

/-- An access to the token or to `tmp`, by its index. -/
inductive Access
  | read (j : Nat)
  | write (i : Nat)
  deriving DecidableEq, Repr

/-- What the inner loop did: its accesses, the digits that it left in `tmp` before the
character it stopped at, and `j`. -/
structure Number where
  accesses : List Access
  digits : List Char
  next : Nat

section Loops

variable (leaves : List Char → Bool) (c : Nat → Char)

/-- The inner loop and the NUL after it, where `i` is the number of digits so far. -/
def readNumber : Nat → List Char → Nat → Option Number
  | 0, _, _ => none
  | rounds + 1, digits, j =>
    if (c j).isDigit then
      (readNumber rounds (digits ++ [c j]) (j + 1)).map fun n =>
        { n with accesses := .read j :: .write digits.length :: n.accesses }
    else some ⟨[.read j, .write digits.length, .write (digits.length + 1)], digits, j + 1⟩

/-- The outer loop, which a number may leave by `exit`. -/
def readNumbers : Nat → Nat → Option (List Access × List (List Char))
  | 0, _ => none
  | rounds + 1, j =>
    match readNumber c (rounds + 1) [] j with
    | none => none
    | some n =>
      if leaves n.digits then some (n.accesses, [n.digits])
      else if c (n.next - 1) ≠ ',' then
        some (n.accesses ++ [.read (n.next - 1)], [n.digits])
      else (readNumbers rounds n.next).map fun (accesses, numbers) =>
        (n.accesses ++ .read (n.next - 1) :: accesses, n.digits :: numbers)

/-- The test for `all`. -/
def readAll : List Access :=
  if c 0 ≠ 'a' then [.read 0]
  else if c 1 ≠ 'l' then [.read 0, .read 1]
  else [.read 0, .read 1, .read 2]

/-- The accesses to a token in memory, and the numbers read. -/
def tokenize (rounds : Nat) : Option (List Access × List (List Char)) :=
  if c 0 = 'a' ∧ c 1 = 'l' ∧ c 2 = 'l' then some (readAll c, [])
  else (readNumbers leaves c rounds 0).map fun (accesses, numbers) =>
    (readAll c ++ accesses, numbers)

end Loops

/-- The number is not one of a processor, which ends the program. -/
def tooLarge (m : Machine) (digits : List Char) : Bool := m.numProcessors ≤ toUInt (atoi digits)

/-- The loop of `initialize_task_cpus`. -/
def tokenizeCpus (m : Machine) : (Nat → Char) → Nat → Option (List Access × List (List Char)) :=
  tokenize (tooLarge m)

/-- The loop of `initialize_task_locks`. -/
def tokenizeLocks : (Nat → Char) → Nat → Option (List Access × List (List Char)) :=
  tokenize fun _ => false

/-- The characters from an index on, and the NUL after them. -/
def Holds (c : Nat → Char) : Nat → List Char → Prop
  | j, [] => c j = '\x00'
  | j, x :: s => c j = x ∧ Holds c (j + 1) s

/-- The numbers of a list up to the one that leaves the loop. -/
def readUntil (leaves : List Char → Bool) : List (List Char) → List (List Char)
  | [] => []
  | digits :: numbers =>
    if leaves digits then [digits] else digits :: readUntil leaves numbers

/-- The numbers that are read from a token. -/
def numbersRead (leaves : List Char → Bool) (token : List Char) : List (List Char) :=
  if saysAll token then [] else readUntil leaves (listDigits [] token)

section Spec

variable {leaves : List Char → Bool} {c : Nat → Char} {digits s token : List Char}
  {rounds j k : Nat}

/-! ## The inner loop -/

/-- What is known of a number read from an index on, in a token that ends at `k`. -/
structure Number.Of (c : Nat → Char) (k : Nat) (digits s : List Char) (n : Number) : Prop where
  reads : ∀ j, .read j ∈ n.accesses → j ≤ k
  grows : digits.length ≤ n.digits.length
  writes : (∀ i, .write i ∈ n.accesses → i < tmpSize) ↔ n.digits.length + 1 < tmpSize
  last : n.next - 1 ≤ k
  rest : (c (n.next - 1) ≠ ',' ∧ listDigits digits s = [n.digits]) ∨
    (c (n.next - 1) = ',' ∧ ∃ s', listDigits digits s = n.digits :: listDigits [] s' ∧
      Holds c n.next s' ∧ n.next + s'.length = k ∧ s'.length < s.length)

/-- The character that is not a digit ends the loop. -/
theorem Number.of_stop (hj : j ≤ k)
    (hrest : (c j ≠ ',' ∧ listDigits digits s = [digits]) ∨
      (c j = ',' ∧ ∃ s', listDigits digits s = digits :: listDigits [] s' ∧ Holds c (j + 1) s' ∧
        j + 1 + s'.length = k ∧ s'.length < s.length)) :
    Number.Of c k digits s
      ⟨[.read j, .write digits.length, .write (digits.length + 1)], digits, j + 1⟩ where
  reads := by simpa using hj
  grows := le_rfl
  writes := by
    simp only [List.mem_cons, List.not_mem_nil, or_false, reduceCtorEq, false_or,
      Access.write.injEq, forall_eq_or_imp, forall_eq]
    omega
  last := by simpa using hj
  rest := by simpa using hrest

/-- A digit is copied. -/
theorem Number.Of.cons {n : Number} {x : Char} (h : n.Of c k (digits ++ [x]) s)
    (hx : x.isDigit = true) (hj : j ≤ k) :
    Number.Of c k digits (x :: s)
      { n with accesses := .read j :: .write digits.length :: n.accesses } where
  reads := by simpa [hj] using h.reads
  grows := by
    have hgrows := h.grows
    rw [List.length_append, List.length_singleton] at hgrows
    exact (Nat.le_succ _).trans hgrows
  writes := by
    have hgrows := h.grows
    rw [List.length_append, List.length_singleton] at hgrows
    simp only [List.mem_cons, reduceCtorEq, false_or, Access.write.injEq, forall_eq_or_imp,
      h.writes]
    omega
  last := h.last
  rest := by
    have hlist : listDigits digits (x :: s) = listDigits (digits ++ [x]) s := by
      rw [listDigits, if_pos hx]
    rw [hlist]
    refine h.rest.imp_right fun ⟨hcomma, s', heq, hs', hk, hlt⟩ => ?_
    exact ⟨hcomma, s', heq, hs', hk, hlt.trans (Nat.lt_succ_self _)⟩

/-- **The inner loop** ends in the token, and `tmp` has room for a short number only. -/
theorem readNumber_spec (digits : List Char) (h : Holds c j s) (hk : j + s.length = k)
    (hrounds : s.length < rounds) :
    ∃ n, readNumber c rounds digits j = some n ∧ n.Of c k digits s := by
  induction s generalizing rounds digits j with
  | nil =>
    obtain ⟨rounds, rfl⟩ := Nat.exists_eq_add_one_of_ne_zero (Nat.ne_zero_of_lt hrounds)
    have hc : c j = '\x00' := h
    have hdigit : ¬(c j).isDigit = true := by rw [hc]; decide
    refine ⟨_, by rw [readNumber, if_neg hdigit], ?_⟩
    exact Number.of_stop (by omega) (.inl ⟨by rw [hc]; decide, rfl⟩)
  | cons x s ih =>
    obtain ⟨rounds, rfl⟩ := Nat.exists_eq_add_one_of_ne_zero (Nat.ne_zero_of_lt hrounds)
    obtain ⟨hc, hs⟩ := h
    rw [List.length_cons] at hk hrounds
    by_cases hx : x.isDigit = true
    · have hrest : ∃ n, readNumber c rounds (digits ++ [x]) (j + 1) = some n ∧
          n.Of c k (digits ++ [x]) s := ih (digits ++ [x]) hs (by omega) (by omega)
      obtain ⟨n, hn, hof⟩ := hrest
      refine ⟨_, by rw [readNumber, hc, if_pos hx, hn, Option.map_some], ?_⟩
      exact hof.cons hx (by omega)
    · refine ⟨_, by rw [readNumber, hc, if_neg hx], ?_⟩
      apply Number.of_stop (by omega)
      rw [hc]
      by_cases hcomma : x = ','
      · exact .inr ⟨hcomma, s, by rw [listDigits, if_neg hx, if_pos hcomma], hs, by omega, by simp⟩
      · exact .inl ⟨hcomma, by rw [listDigits, if_neg hx, if_neg hcomma]⟩

/-! ## The outer loop -/

/-- The accesses of a run whose numbers are known. -/
structure Accesses (k : Nat) (numbers : List (List Char)) (accesses : List Access) : Prop where
  reads : ∀ j, .read j ∈ accesses → j ≤ k
  writes : (∀ i, .write i ∈ accesses → i < tmpSize) ↔
    ∀ digits ∈ numbers, digits.length + 1 < tmpSize

theorem Accesses.read (hj : j ≤ k) : Accesses k [] [.read j] where
  reads := by simpa using hj
  writes := by simp

theorem Accesses.append {numbers numbers' : List (List Char)} {accesses accesses' : List Access}
    (h : Accesses k numbers accesses) (h' : Accesses k numbers' accesses') :
    Accesses k (numbers ++ numbers') (accesses ++ accesses') where
  reads j hj := (List.mem_append.mp hj).elim (h.reads j) (h'.reads j)
  writes := by simp only [List.mem_append, or_imp, forall_and, h.writes, h'.writes]

theorem Number.Of.accesses {n : Number} (h : n.Of c k digits s) :
    Accesses k [n.digits] n.accesses where
  reads := h.reads
  writes := by simpa using h.writes

/-- **The outer loop** ends, and reads the numbers of the list one after the other. -/
theorem readNumbers_spec (h : Holds c j s) (hk : j + s.length = k) (hrounds : s.length < rounds) :
    ∃ accesses, readNumbers leaves c rounds j =
        some (accesses, readUntil leaves (listDigits [] s)) ∧
      Accesses k (readUntil leaves (listDigits [] s)) accesses := by
  induction rounds generalizing s j with
  | zero => omega
  | succ rounds ih =>
    obtain ⟨n, hn, hof⟩ := readNumber_spec [] h hk hrounds
    have hread := Accesses.read hof.last
    simp only [readNumbers, hn]
    rcases hof.rest with ⟨hcomma, hlist⟩ | ⟨hcomma, s', hlist, hs', hk', hlt⟩
    · have huntil : readUntil leaves (listDigits [] s) = [n.digits] := by
        rw [hlist, readUntil]
        exact ite_self _
      rw [huntil]
      split
      · exact ⟨_, rfl, hof.accesses⟩
      · exact ⟨_, rfl, hof.accesses.append hread⟩
    · rw [hlist, readUntil]
      split
      · exact ⟨_, rfl, hof.accesses⟩
      · obtain ⟨accesses, hrest, haccesses⟩ := ih hs' hk' (by omega)
        rw [if_neg (not_not.mpr hcomma), hrest]
        exact ⟨_, rfl, hof.accesses.append (hread.append haccesses)⟩

/-! ## A token -/

theorem Holds.saysAll_iff (h : Holds c 0 token) :
    (c 0 = 'a' ∧ c 1 = 'l' ∧ c 2 = 'l') ↔ saysAll token = true := by
  unfold saysAll
  rw [decide_eq_true_iff]
  match token, h with
  | [], h => simp [show c 0 = '\x00' from h]
  | [x], ⟨hx, h⟩ => simp [hx, show c 1 = '\x00' from h]
  | [x, y], ⟨hx, hy, h⟩ => simp [hx, hy, show c 2 = '\x00' from h]
  | x :: y :: z :: _, ⟨hx, hy, hz, _⟩ => simp [hx, hy, hz]

/-- The test for `all` does not pass the NUL. -/
theorem Holds.readAll (h : Holds c 0 token) : Accesses token.length [] (readAll c) where
  reads := by
    unfold Taskset.readAll
    match token, h with
    | [], h => simp [show c 0 = '\x00' from h]
    | [x], ⟨hx, h⟩ =>
      split <;> simp [show c 1 = '\x00' from h]
    | x :: y :: s, _ =>
      split
      · simp
      · split <;> simp
  writes := by
    unfold Taskset.readAll
    split
    · simp
    · split <;> simp

/-- **The tokenizer** of a list in memory: it ends, it stays in the token, and what it
writes fits in `tmp` exactly when the numbers do. -/
theorem tokenize_spec (h : Holds c 0 token) (hrounds : token.length < rounds) :
    ∃ accesses, tokenize leaves c rounds = some (accesses, numbersRead leaves token) ∧
      Accesses token.length (numbersRead leaves token) accesses := by
  have hall := h.readAll
  unfold tokenize numbersRead
  simp only [h.saysAll_iff]
  split
  · exact ⟨_, rfl, hall⟩
  · obtain ⟨accesses, hnumbers, haccesses⟩ := readNumbers_spec h (Nat.zero_add _) hrounds
    rw [hnumbers]
    exact ⟨_, rfl, hall.append haccesses⟩

/-! ## The bounds -/

/-- The loops end after as many rounds as the token has characters, no read passes the
NUL and no write leaves `tmp`. -/
def InBounds (token : List Char) (run : Nat → Option (List Access × List (List Char))) : Prop :=
  ∀ rounds, token.length < rounds → ∃ accesses numbers, run rounds = some (accesses, numbers) ∧
    (∀ j, .read j ∈ accesses → j ≤ token.length) ∧ ∀ i, .write i ∈ accesses → i < tmpSize

/-- No number that is read overruns `tmp`. -/
def NumbersFit (leaves : List Char → Bool) (token : List Char) : Prop :=
  ∀ digits ∈ numbersRead leaves token, digits.length + 1 < tmpSize

instance : Decidable (NumbersFit leaves token) := inferInstanceAs (Decidable (∀ _ ∈ _, _))

theorem tokenize_inBounds_iff (h : Holds c 0 token) :
    InBounds token (tokenize leaves c) ↔ NumbersFit leaves token := by
  constructor
  · intro hbounds
    obtain ⟨accesses, numbers, hrun, -, hwrites⟩ := hbounds _ (Nat.lt_succ_self _)
    obtain ⟨accesses', hrun', haccesses⟩ := tokenize_spec h (Nat.lt_succ_self _)
    obtain ⟨rfl, -⟩ := Prod.mk.inj (Option.some.inj (hrun.symm.trans hrun'))
    exact haccesses.writes.mp hwrites
  · intro hfit rounds hrounds
    obtain ⟨accesses, hrun, haccesses⟩ := tokenize_spec h hrounds
    exact ⟨accesses, _, hrun, haccesses.reads, haccesses.writes.mpr hfit⟩

/-- **The tokenizers stay inside their buffers** exactly when every number they read has
at most 30 digits. -/
theorem tokenizers_inBounds_iff (m : Machine) (h : Holds c 0 token) :
    (InBounds token (tokenizeCpus m c) ↔ NumbersFit (tooLarge m) token) ∧
      (InBounds token (tokenizeLocks c) ↔ NumbersFit (fun _ => false) token) :=
  ⟨tokenize_inBounds_iff h, tokenize_inBounds_iff h⟩

theorem Holds.of_getD (h : ∀ i, c (j + i) = s.getD i '\x00') : Holds c j s := by
  induction s generalizing j with
  | nil => exact h 0
  | cons x s ih =>
    refine ⟨h 0, ih fun i => ?_⟩
    rw [Nat.add_assoc, Nat.add_comm 1 i]
    exact h (i + 1)

end Spec

/-- A token in memory, with nothing but NULs after it. -/
def inMemory (token : List Char) (j : Nat) : Char := token.getD j '\x00'

theorem holds_inMemory (token : List Char) : Holds (inMemory token) 0 token :=
  .of_getD fun i => by rw [Nat.zero_add, inMemory]

theorem tokenizers_inBounds_iff_two :
    (InBounds "2,0".toList (tokenizeCpus sampleMachine (inMemory "2,0".toList)) ↔
        NumbersFit (tooLarge sampleMachine) "2,0".toList) ∧
      (InBounds "2,0".toList (tokenizeLocks (inMemory "2,0".toList)) ↔
        NumbersFit (fun _ => false) "2,0".toList) :=
  tokenizers_inBounds_iff sampleMachine (holds_inMemory "2,0".toList)

/-- A number of 31 digits leaves no room for the NUL. -/
theorem not_inBounds_zeros :
    let token := List.replicate 31 '0'
    ¬InBounds token (tokenizeCpus sampleMachine (inMemory token)) ∧
      ¬InBounds token (tokenizeLocks (inMemory token)) := by
  intro token
  have hcpus : ¬NumbersFit (tooLarge sampleMachine) token := by decide
  have hlocks : ¬NumbersFit (fun _ => false) token := by decide
  exact ⟨fun h => hcpus ((tokenize_inBounds_iff (holds_inMemory token)).mp h),
    fun h => hlocks ((tokenize_inBounds_iff (holds_inMemory token)).mp h)⟩

end Chronos.Taskset
