import Chronos.Lib.Scanf

/-!
# What lines begin with

The first character of each line that is not white space, from the lines of a
text and by a single pass over it, which may take a text word by word.
-/

namespace Chronos.Lib

/-- What each line that is not blank begins with. -/
def lineHeads (s : List Char) : List Char :=
  (s.splitOn '\n').filterMap fun line => (skipSpace line).head?

/-- The same in one pass; the flag tells whether only white space was seen since
the line began. -/
def headsFrom : Bool → List Char → List Char
  | _, [] => []
  | start, c :: s =>
    if c = '\n' then headsFrom true s
    else if isSpace c then headsFrom start s
    else if start then c :: headsFrom false s
    else headsFrom false s

theorem headsFrom_eq (s : List Char) :
    headsFrom true s = lineHeads s ∧
      headsFrom false s = (s.splitOn '\n').tail.filterMap fun line => (skipSpace line).head? := by
  unfold lineHeads
  induction s with
  | nil => exact ⟨rfl, rfl⟩
  | cons c s ih =>
    obtain ⟨l, ls, hl⟩ := List.exists_cons_of_ne_nil (List.splitOn_ne_nil '\n' s)
    rw [hl] at ih
    rw [List.splitOn_cons_eq_if_modifyHead, hl]
    unfold headsFrom
    by_cases hc : c = '\n'
    · simp [hc, ih.1, skipSpace, List.filterMap_cons]
    · by_cases hs : isSpace c
      · simpa [hc, hs, skipSpace, List.filterMap_cons] using ih
      · simp [hc, hs, skipSpace, ih.2]

theorem headsFrom_true (s : List Char) : headsFrom true s = lineHeads s := (headsFrom_eq s).1

/-- White space may only begin a new line. -/
theorem headsFrom_space_append {sp s : List Char} {start : Bool}
    (hsp : ∀ c ∈ sp, isSpace c = true) :
    headsFrom start (sp ++ s) = headsFrom (start || decide ('\n' ∈ sp)) s := by
  induction sp generalizing start with
  | nil => simp
  | cons c sp ih =>
    have ih (start : Bool) :
        headsFrom start (sp ++ s) = headsFrom (start || decide ('\n' ∈ sp)) s :=
      ih fun d hd => hsp d (List.mem_cons_of_mem c hd)
    have hc : isSpace c = true := hsp c List.mem_cons_self
    by_cases hn : c = '\n'
    · simp [headsFrom, hn, ih]
    · simp [headsFrom, hn, hc, ih, Ne.symm hn]

/-- Inside a word no line begins. -/
theorem headsFrom_text_append {text s : List Char} (htext : ∀ c ∈ text, isSpace c = false) :
    headsFrom false (text ++ s) = headsFrom false s := by
  induction text with
  | nil => rfl
  | cons c text ih =>
    have hc : isSpace c = false := htext c List.mem_cons_self
    have hn : c ≠ '\n' := by
      rintro rfl
      cases hc
    simp [headsFrom, hn, hc, ih fun d hd => htext d (List.mem_cons_of_mem c hd)]

/-- The first character of a word, if the word is the first thing on its line. -/
def Word.lineHead {α : Type} (w : Word α) : List Char :=
  if '\n' ∈ w.space then w.text.take 1 else []

theorem headsFrom_word {α : Type} {w : Word α} {s : List Char} (h : w.Heads s) :
    headsFrom false s = w.lineHead ++ headsFrom false w.rest := by
  obtain ⟨c, text, htext⟩ := List.exists_cons_of_ne_nil h.ne
  have hc : isSpace c = false := h.text c (htext ▸ List.mem_cons_self)
  have hn : c ≠ '\n' := by
    rintro rfl
    cases hc
  have hrest : headsFrom false (text ++ w.rest) = headsFrom false w.rest :=
    headsFrom_text_append fun d hd => h.text d (htext ▸ List.mem_cons_of_mem c hd)
  calc headsFrom false s = headsFrom false (w.space ++ (w.text ++ w.rest)) := by rw [← h.eq]
    _ = headsFrom (decide ('\n' ∈ w.space)) (w.text ++ w.rest) := by
      rw [headsFrom_space_append h.space, Bool.false_or]
    _ = w.lineHead ++ headsFrom false w.rest := by
      unfold Word.lineHead
      rw [htext]
      by_cases hline : '\n' ∈ w.space
      · simp [headsFrom, hline, hn, hc, hrest]
      · simp [headsFrom, hline, hn, hc, hrest]

/-- Whether the white space in front of a text begins a line. -/
def beginsLine (s : List Char) : Bool := decide ('\n' ∈ s.takeWhile isSpace)

theorem headsFrom_skipSpace (s : List Char) :
    headsFrom false s = headsFrom (beginsLine s) (skipSpace s) := by
  calc headsFrom false s = headsFrom false (s.takeWhile isSpace ++ skipSpace s) := by
        rw [takeWhile_append_skipSpace]
    _ = headsFrom (beginsLine s) (skipSpace s) := by
      rw [headsFrom_space_append fun c hc => List.mem_takeWhile_imp hc]
      rfl

/-- A word read after its white space was skipped, with the white space put back. -/
theorem Word.Heads.unskip {α : Type} {w : Word α} {s : List Char} (h : w.Heads (skipSpace s)) :
    Word.Heads { w with space := s.takeWhile isSpace } s := by
  have hnil := (h.of_not_isSpace fun c hc => isSpace_head_skipSpace hc).1
  refine ⟨?_, fun c hc => List.mem_takeWhile_imp hc, h.text, h.ne⟩
  have heq := h.eq
  rw [hnil, List.nil_append] at heq
  dsimp only
  rw [← heq, takeWhile_append_skipSpace]

/-- The same for the first character of the word on its line. -/
theorem headsFrom_word_skipSpace {α : Type} {w : Word α} {s : List Char}
    (h : w.Heads (skipSpace s)) :
    headsFrom false s = (if beginsLine s then w.text.take 1 else []) ++ headsFrom false w.rest := by
  rw [headsFrom_word h.unskip]
  unfold Word.lineHead beginsLine
  simp

end Chronos.Lib
