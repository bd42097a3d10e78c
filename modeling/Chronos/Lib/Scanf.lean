import Mathlib.Data.Int.Basic
import Mathlib.Data.List.Basic
import Mathlib.Data.List.TakeWhile
import Mathlib.Data.Nat.Digits.Defs

/-!
# Formatted input

The conversions `%s`, `%d` and `%ld` of `fscanf` in the C locale on a list of
characters still to be read, and `strtol`, whose result saturates. A conversion
keeps the white space it skipped and the characters it took, so that what was
read can be put together again.
-/

namespace Chronos.Lib

/-- `isspace` -/
def isSpace (c : Char) : Bool := c = ' ' || (9 ≤ c.toNat && c.toNat ≤ 13)

/-- A white-space directive. -/
def skipSpace (s : List Char) : List Char := s.dropWhile isSpace

/-- The nearest number that a `long` can hold. -/
def saturate (x : Int) : Int := max (-2 ^ 63) (min (2 ^ 63 - 1) x)

theorem saturate_eq_self {x : Int} (hlow : -2 ^ 63 ≤ x) (hhigh : x < 2 ^ 63) : saturate x = x := by
  unfold saturate
  omega

/-- The value `strtol` gives to a sign and decimal digits. -/
def strtol (negative : Bool) (digits : List Char) : Int :=
  let n : Int := Nat.ofDigitChars 10 digits 0
  saturate (if negative then -n else n)

/-- `(int) x` -/
def toInt (x : Int) : Int := x.bmod (2 ^ 32)

theorem toInt_eq_self {x : Int} (hlow : -2 ^ 31 ≤ x) (hhigh : x < 2 ^ 31) : toInt x = x := by
  unfold toInt
  rw [Int.bmod_eq_of_le] <;> omega

/-- `(long) x` -/
def toLong (x : Int) : Int := x.bmod (2 ^ 64)

theorem toLong_eq_self {x : Int} (hlow : -2 ^ 63 ≤ x) (hhigh : x < 2 ^ 63) : toLong x = x := by
  unfold toLong
  rw [Int.bmod_eq_of_le] <;> omega

/-- `(unsigned int) x` -/
def toUInt (x : Int) : Nat := (x % 2 ^ 32).toNat

/-- `(unsigned long) x` -/
def toULong (x : Int) : Nat := (x % 2 ^ 64).toNat

/-- What a conversion skipped, took, made of it, and left. -/
structure Word (α : Type) where
  space : List Char
  text : List Char
  value : α
  rest : List Char
  deriving DecidableEq, Repr

/-- `%s` -/
def scanString (s : List Char) : Option (Word (List Char)) :=
  let body := skipSpace s
  let text := body.takeWhile (!isSpace ·)
  if text = [] then none
  else some ⟨s.takeWhile isSpace, text, text, body.dropWhile (!isSpace ·)⟩

/-- The sign in front of a number, and what follows it. -/
def splitSign : List Char → List Char × List Char
  | '+' :: s => (['+'], s)
  | '-' :: s => (['-'], s)
  | s => ([], s)

/-- `%ld`; `%d` reads the same and keeps the low 32 bits. -/
def scanLong (s : List Char) : Option (Word Int) :=
  let (sign, body) := splitSign (skipSpace s)
  let digits := body.takeWhile Char.isDigit
  if digits = [] then none
  else some ⟨s.takeWhile isSpace, sign ++ digits, strtol (sign = ['-']) digits,
    body.dropWhile Char.isDigit⟩

/-! ## What was read -/

theorem skipSpace_eq_self {s : List Char} (h : ∀ c ∈ s.head?, isSpace c = false) :
    skipSpace s = s := by
  cases s with
  | nil => rfl
  | cons c s => simp [skipSpace, h c (by simp)]

theorem skipSpace_append {sp s : List Char} (hsp : ∀ c ∈ sp, isSpace c = true) :
    skipSpace (sp ++ s) = skipSpace s :=
  List.dropWhile_append_of_pos hsp

/-- The white space in front of a word is skipped, and no more. -/
theorem skipSpace_append_text {sp text s : List Char} (hsp : ∀ c ∈ sp, isSpace c = true)
    (htext : ∀ c ∈ text, isSpace c = false) (hne : text ≠ []) :
    skipSpace (sp ++ (text ++ s)) = text ++ s := by
  obtain ⟨c, text, rfl⟩ := List.exists_cons_of_ne_nil hne
  rw [skipSpace_append hsp]
  apply skipSpace_eq_self
  intro d hd
  obtain rfl : c = d := by simpa using hd
  exact htext c List.mem_cons_self

theorem takeWhile_append_skipSpace (s : List Char) : s.takeWhile isSpace ++ skipSpace s = s :=
  List.takeWhile_append_dropWhile

/-- What is left after the white space does not begin with white space. -/
theorem isSpace_head_skipSpace {s : List Char} {c : Char} (h : c ∈ (skipSpace s).head?) :
    isSpace c = false := by
  unfold skipSpace at h
  have hne : s.dropWhile isSpace ≠ [] := by
    intro hnil
    simp [hnil] at h
  have hhead := List.head_dropWhile_not isSpace hne
  rw [List.head?_eq_some_head hne, Option.mem_some_iff] at h
  rw [← h]
  simpa using hhead

theorem length_skipSpace_le (s : List Char) : (skipSpace s).length ≤ s.length :=
  (List.dropWhile_suffix _).length_le

theorem not_isSpace_of_isDigit {c : Char} (h : c.isDigit = true) : isSpace c = false := by
  have hlow : 48 ≤ c.toNat := by
    simp only [Char.isDigit, Bool.and_eq_true, decide_eq_true_eq, ge_iff_le] at h
    exact h.1
  have hne : c ≠ ' ' := by
    rintro rfl
    exact absurd hlow (by decide)
  simp [isSpace, hne]
  omega

namespace Word

variable {α : Type} {w : Word α} {s : List Char}

/-- The word is the first thing in `s` after white space. -/
structure Heads (w : Word α) (s : List Char) : Prop where
  eq : s = w.space ++ (w.text ++ w.rest)
  space : ∀ c ∈ w.space, isSpace c = true
  text : ∀ c ∈ w.text, isSpace c = false
  ne : w.text ≠ []

theorem Heads.length_lt (h : w.Heads s) : w.rest.length < s.length := by
  have hpos : 0 < w.text.length := List.length_pos_iff.mpr h.ne
  have heq := congrArg List.length h.eq
  simp only [List.length_append] at heq
  omega

/-- A word in front of which there is no white space. -/
theorem Heads.of_not_isSpace (h : w.Heads s) (hs : ∀ c ∈ s.head?, isSpace c = false) :
    w.space = [] ∧ w.text.head? = s.head? := by
  have hspace : w.space = [] := by
    by_contra hne
    obtain ⟨c, sp, hsp⟩ := List.exists_cons_of_ne_nil hne
    have hc : isSpace c = true := h.space c (hsp ▸ List.mem_cons_self)
    rw [hs c (by rw [h.eq, hsp]; rfl)] at hc
    cases hc
  obtain ⟨c, text, htext⟩ := List.exists_cons_of_ne_nil h.ne
  refine ⟨hspace, ?_⟩
  rw [h.eq, hspace, htext]
  rfl

end Word

theorem scanString_heads {s : List Char} {w : Word (List Char)} (h : scanString s = some w) :
    w.Heads s ∧ w.value = w.text := by
  unfold scanString at h
  dsimp only at h
  split at h
  · cases h
  · next hne =>
    cases h
    refine ⟨⟨?_, fun c hc => List.mem_takeWhile_imp hc, fun c hc => ?_, hne⟩, rfl⟩
    · rw [List.takeWhile_append_dropWhile, takeWhile_append_skipSpace]
    · simpa using List.mem_takeWhile_imp hc

/-- A conversion stops at white space or at the end. -/
theorem scanString_append {sp text rest : List Char} (hsp : ∀ c ∈ sp, isSpace c = true)
    (htext : ∀ c ∈ text, isSpace c = false) (hne : text ≠ [])
    (hrest : ∀ c ∈ rest.head?, isSpace c = true) :
    scanString (sp ++ (text ++ rest)) = some ⟨sp, text, text, rest⟩ := by
  have hskip : skipSpace (sp ++ (text ++ rest)) = text ++ rest :=
    skipSpace_append_text hsp htext hne
  have htake : (sp ++ (text ++ rest)).takeWhile isSpace = sp := by
    apply (List.append_left_inj (skipSpace (sp ++ (text ++ rest)))).mp
    rw [takeWhile_append_skipSpace, hskip]
  have hnot : ∀ c ∈ text, (!isSpace c) = true := fun c hc => by simp [htext c hc]
  have htext' : (text ++ rest).takeWhile (!isSpace ·) = text := by
    rw [List.takeWhile_append_of_pos hnot]
    cases rest with
    | nil => simp
    | cons c rest => simp [hrest c (by simp)]
  have hrest' : (text ++ rest).dropWhile (!isSpace ·) = rest := by
    rw [List.dropWhile_append_of_pos hnot]
    cases rest with
    | nil => rfl
    | cons c rest => simp [hrest c (by simp)]
  unfold scanString
  simp only [hskip, htext', hrest', htake, if_neg hne]

theorem splitSign_append (s : List Char) : (splitSign s).1 ++ (splitSign s).2 = s := by
  unfold splitSign
  split <;> rfl

theorem splitSign_fst (s : List Char) :
    (splitSign s).1 = [] ∨ (splitSign s).1 = ['+'] ∨ (splitSign s).1 = ['-'] := by
  unfold splitSign
  split <;> simp

theorem scanLong_heads {s : List Char} {w : Word Int} (h : scanLong s = some w) :
    w.Heads s ∧ ∀ c ∈ w.text.head?, c = '+' ∨ c = '-' ∨ c.isDigit = true := by
  unfold scanLong at h
  dsimp only at h
  have hsign := splitSign_fst (skipSpace s)
  have happ := splitSign_append (skipSpace s)
  generalize splitSign (skipSpace s) = p at h hsign happ
  obtain ⟨sign, body⟩ := p
  dsimp only at h hsign happ
  have hdigit : ∀ c ∈ body.takeWhile Char.isDigit, c.isDigit = true :=
    fun c hc => List.mem_takeWhile_imp hc
  split at h
  · cases h
  · next hne =>
    cases h
    refine ⟨⟨?_, fun c hc => List.mem_takeWhile_imp hc, fun c hc => ?_, by simp [hne]⟩,
      fun c hc => ?_⟩
    · rw [List.append_assoc, List.takeWhile_append_dropWhile, happ, takeWhile_append_skipSpace]
    · rcases List.mem_append.mp hc with hc | hc
      · rcases hsign with rfl | rfl | rfl
        · cases hc
        · rw [List.mem_singleton.mp hc]
          rfl
        · rw [List.mem_singleton.mp hc]
          rfl
      · exact not_isSpace_of_isDigit (hdigit c hc)
    · rcases hsign with rfl | rfl | rfl
      · exact .inr (.inr (hdigit c (List.mem_of_mem_head? hc)))
      · exact .inl (by simpa [eq_comm] using hc)
      · exact .inr (.inl (by simpa [eq_comm] using hc))

/-! ## Decimal numerals -/

/-- The decimal numeral of an integer. -/
def numeral : Int → List Char
  | .ofNat n => Nat.toDigits 10 n
  | .negSucc n => '-' :: Nat.toDigits 10 (n + 1)

theorem numeral_ne_nil (n : Int) : numeral n ≠ [] := by
  cases n <;> simp [numeral, Nat.toDigits_ne_nil]

theorem isDigit_of_mem_toDigits {n : Nat} {c : Char} (h : c ∈ Nat.toDigits 10 n) :
    c.isDigit = true := Nat.isDigit_of_mem_toDigits (by norm_num) (by norm_num) h

theorem not_isSpace_of_mem_numeral {n : Int} {c : Char} (h : c ∈ numeral n) :
    isSpace c = false := by
  cases n with
  | ofNat n => exact not_isSpace_of_isDigit (isDigit_of_mem_toDigits h)
  | negSucc n =>
    rcases List.mem_cons.mp h with rfl | h
    · rfl
    · exact not_isSpace_of_isDigit (isDigit_of_mem_toDigits h)

theorem splitSign_of_isDigit {c : Char} {s : List Char} (h : c.isDigit = true) :
    splitSign (c :: s) = ([], c :: s) := by
  unfold splitSign
  split
  · next heq =>
    cases heq
    exact absurd h (by decide)
  · next heq =>
    cases heq
    exact absurd h (by decide)
  · rfl

/-- `%ld` reads a numeral back, saturated, when no digit follows it. -/
theorem scanLong_append {sp rest : List Char} (n : Int) (hsp : ∀ c ∈ sp, isSpace c = true)
    (hrest : ∀ c ∈ rest.head?, c.isDigit = false) :
    scanLong (sp ++ (numeral n ++ rest)) =
      some ⟨sp, numeral n, saturate n, rest⟩ := by
  have hdigits (k : Nat) : (Nat.toDigits 10 k ++ rest).takeWhile Char.isDigit = Nat.toDigits 10 k := by
    rw [List.takeWhile_append_of_pos fun c hc => isDigit_of_mem_toDigits hc]
    cases rest with
    | nil => simp
    | cons c rest => simp [hrest c (by simp)]
  have hleft (k : Nat) : (Nat.toDigits 10 k ++ rest).dropWhile Char.isDigit = rest := by
    rw [List.dropWhile_append_of_pos fun c hc => isDigit_of_mem_toDigits hc]
    cases rest with
    | nil => rfl
    | cons c rest => simp [hrest c (by simp)]
  have hskip : skipSpace (sp ++ (numeral n ++ rest)) = numeral n ++ rest :=
    skipSpace_append_text hsp (fun _ hc => not_isSpace_of_mem_numeral hc) (numeral_ne_nil n)
  have htake : (sp ++ (numeral n ++ rest)).takeWhile isSpace = sp := by
    apply (List.append_left_inj (skipSpace (sp ++ (numeral n ++ rest)))).mp
    rw [takeWhile_append_skipSpace, hskip]
  unfold scanLong
  rw [hskip, htake]
  cases n with
  | ofNat k =>
    obtain ⟨d, l, hl⟩ := List.exists_cons_of_ne_nil (Nat.toDigits_ne_nil (n := k) (b := 10))
    have hd : d.isDigit = true := isDigit_of_mem_toDigits (hl ▸ List.mem_cons_self)
    have hsplit : splitSign (Nat.toDigits 10 k ++ rest) = ([], Nat.toDigits 10 k ++ rest) := by
      rw [hl]
      exact splitSign_of_isDigit hd
    simp [numeral, hsplit, hdigits, hleft, Nat.toDigits_ne_nil, strtol]
  | negSucc k =>
    simp [numeral, splitSign, hdigits, hleft, Nat.toDigits_ne_nil, strtol, Int.negSucc_eq]

end Chronos.Lib
