import Chronos.Taskset.Abstract

/-!
# Writing a taskset down

The layout of a taskset file: a line for each entry with its fields after blanks
and tabs, and comments between the lines. The reader splits such a file into the
entries it was written for, whichever lines follow one another.
-/

namespace Chronos.Taskset

open Lib

/-! ## The layout -/

/-- An id list as a field. -/
def Ids.text : Ids → List Char
  | .all => ['a', 'l', 'l']
  | .listed first more => Nat.toDigits 10 first ++ more.flatMap fun i => ',' :: Nat.toDigits 10 i

inductive Entry
  | locks (n : Nat)
  | task (t : TaskSpec)
  | group (g : GroupSpec)

namespace Entry

def letter : Entry → Char
  | .locks _ => 'L'
  | .task _ => 'T'
  | .group _ => 'G'

def optionalFields : Option (Ids × Option Nat) → List (List Char)
  | none => []
  | some (l, none) => [l.text]
  | some (l, some hua) => [l.text, numeral hua]

def fields : Entry → List (List Char)
  | .locks n => [numeral n]
  | .task t => [t.cpus.text, numeral t.threadGroup, numeral t.wss, numeral t.period,
      numeral t.execTime, numeral t.utility] ++ optionalFields t.optional
  | .group g => [numeral g.threadGroup, numeral g.wss]

end Entry

def isBlank (c : Char) : Bool := c = ' ' || c = '\t'

/-- Fields on a line, each after at least one blank. -/
inductive Spaced : List (List Char) → List Char → Prop
  | nil {sp : List Char} : (∀ c ∈ sp, isBlank c = true) → Spaced [] sp
  | cons {sp field s : List Char} {fields : List (List Char)} :
    sp ≠ [] → (∀ c ∈ sp, isBlank c = true) → Spaced fields s →
      Spaced (field :: fields) (sp ++ (field ++ s))

/-- A line for each entry, with comments between them; the last line need not end. -/
inductive Lines : List Entry → List Char → Prop
  | nil : Lines [] []
  | comment {text f : List Char} {entries : List Entry} :
    '\n' ∉ text → Lines entries f → Lines entries ('#' :: (text ++ '\n' :: f))
  | lastComment {text : List Char} : '\n' ∉ text → Lines [] ('#' :: text)
  | entry {e : Entry} {s f : List Char} {entries : List Entry} :
    Spaced e.fields s → Lines entries f → Lines (e :: entries) (e.letter :: (s ++ '\n' :: f))
  | lastEntry {e : Entry} {s : List Char} : Spaced e.fields s → Lines [e] (e.letter :: s)

/-- The entries of a taskset, in the order in which they are written. -/
def TasksetSpec.entries {numProcessors : Nat} (ts : TasksetSpec numProcessors) : List Entry :=
  .locks ts.numLocks :: (ts.tasks.map .task ++ ts.groups.map .group)

/-- The files a taskset can be written to. -/
def TasksetSpec.Renders {numProcessors : Nat} (ts : TasksetSpec numProcessors) (f : List Char) :
    Prop := Lines ts.entries f

/-- One way to write a taskset down. -/
def TasksetSpec.render {numProcessors : Nat} (ts : TasksetSpec numProcessors) : List Char :=
  ts.entries.flatMap fun e => e.letter :: (e.fields.flatMap ('\t' :: ·) ++ ['\n'])

theorem spaced_tabs (fields : List (List Char)) : Spaced fields (fields.flatMap ('\t' :: ·)) := by
  induction fields with
  | nil => exact .nil (by simp)
  | cons field fields ih =>
    have h : Spaced (field :: fields) (['\t'] ++ (field ++ fields.flatMap ('\t' :: ·))) :=
      .cons (by simp) (by simp [isBlank]) ih
    simpa using h

/-- Every taskset can be written down. -/
theorem TasksetSpec.renders_render {numProcessors : Nat} (ts : TasksetSpec numProcessors) :
    ts.Renders ts.render := by
  unfold Renders render
  induction ts.entries with
  | nil => exact .nil
  | cons e entries ih =>
    have h := Lines.entry (spaced_tabs e.fields) ih
    simpa using h

/-! ## A field is read back -/

theorem isSpace_of_isBlank {c : Char} (h : isBlank c = true) : isSpace c = true := by
  unfold isBlank at h
  rcases (Bool.or_eq_true _ _).mp h with h | h
  · simp [isSpace, of_decide_eq_true h]
  · simp [isSpace, of_decide_eq_true h]

/-- What follows a field begins with white space, if there is anything. -/
def SpaceHead (s : List Char) : Prop := ∀ c ∈ s.head?, isSpace c = true

theorem Spaced.spaceHead {fields : List (List Char)} {s rest : List Char} (h : Spaced fields s)
    (hrest : SpaceHead rest) : SpaceHead (s ++ rest) := by
  cases h with
  | nil hsp =>
    cases s with
    | nil => exact hrest
    | cons c s =>
      intro d hd
      obtain rfl : c = d := by simpa using hd
      exact isSpace_of_isBlank (hsp c List.mem_cons_self)
  | @cons sp field s' fields hne hsp _ =>
    obtain ⟨c, sp', rfl⟩ := List.exists_cons_of_ne_nil hne
    intro d hd
    obtain rfl : c = d := by simpa using hd
    exact isSpace_of_isBlank (hsp c List.mem_cons_self)

theorem Spaced.uncons {field s : List Char} {fields : List (List Char)}
    (h : Spaced (field :: fields) s) :
    ∃ sp s', s = sp ++ (field ++ s') ∧ (∀ c ∈ sp, isSpace c = true) ∧ Spaced fields s' := by
  cases h with
  | cons _ hsp hs => exact ⟨_, _, rfl, fun c hc => isSpace_of_isBlank (hsp c hc), hs⟩

theorem Spaced.skipSpace_append {s rest : List Char} (h : Spaced [] s) :
    skipSpace (s ++ rest) = skipSpace rest := by
  cases h with
  | nil hsp => exact Lib.skipSpace_append fun c hc => isSpace_of_isBlank (hsp c hc)

theorem isDigit_of_mem_head_toDigits {n : Nat} {c : Char} {s : List Char}
    (h : c ∈ (Nat.toDigits 10 n ++ s).head?) : c.isDigit = true := by
  obtain ⟨d, l, hl⟩ := List.exists_cons_of_ne_nil (Nat.toDigits_ne_nil (n := n) (b := 10))
  rw [hl] at h
  obtain rfl : d = c := by simpa using h
  exact isDigit_of_mem_toDigits (hl ▸ List.mem_cons_self)

theorem not_isDigit_of_endsTask {c : Char} (h : endsTask c = true) : c.isDigit = false := by
  simp only [endsTask, Bool.or_eq_true, decide_eq_true_eq] at h
  rcases h with (rfl | rfl) | rfl <;> rfl

theorem not_isSpace_of_endsTask {c : Char} (h : endsTask c = true) : isSpace c = false := by
  simp only [endsTask, Bool.or_eq_true, decide_eq_true_eq] at h
  rcases h with (rfl | rfl) | rfl <;> rfl

namespace Ids

theorem text_ne_nil (l : Ids) : l.text ≠ [] := by
  cases l <;> simp [text, Nat.toDigits_ne_nil]

theorem not_isSpace_of_mem_text {l : Ids} {c : Char} (h : c ∈ l.text) : isSpace c = false := by
  cases l with
  | all =>
    simp only [text, List.mem_cons, List.not_mem_nil, or_false] at h
    rcases h with rfl | rfl | rfl <;> rfl
  | listed first more =>
    rcases List.mem_append.mp h with h | h
    · exact not_isSpace_of_isDigit (isDigit_of_mem_toDigits h)
    · obtain ⟨i, -, h⟩ := List.mem_flatMap.mp h
      rcases List.mem_cons.mp h with rfl | h
      · rfl
      · exact not_isSpace_of_isDigit (isDigit_of_mem_toDigits h)

/-- A list of locks is not taken for the next line. -/
theorem endsTask_of_mem_head_text {l : Ids} {s : List Char} {c : Char}
    (h : c ∈ (l.text ++ s).head?) : endsTask c = false := by
  cases l with
  | all =>
    obtain rfl : 'a' = c := by simpa [text] using h
    rfl
  | listed first more =>
    unfold text at h
    rw [List.append_assoc] at h
    have hd := isDigit_of_mem_head_toDigits h
    cases hends : endsTask c with
    | false => rfl
    | true =>
      rw [not_isDigit_of_endsTask hends] at hd
      cases hd

theorem scanString_text (l : Ids) {sp s : List Char} (hsp : ∀ c ∈ sp, isSpace c = true)
    (hs : SpaceHead s) :
    ∃ w, scanString (sp ++ (l.text ++ s)) = some w ∧ w.value = l.text ∧ w.rest = s :=
  ⟨_, scanString_append hsp (fun _ hc => not_isSpace_of_mem_text hc) l.text_ne_nil hs, rfl, rfl⟩

end Ids

theorem scanLong_numeral (n : Int) {sp s : List Char} (hsp : ∀ c ∈ sp, isSpace c = true)
    (hs : SpaceHead s) :
    ∃ w, scanLong (sp ++ (numeral n ++ s)) = some w ∧ w.value = saturate n ∧ w.rest = s := by
  have hscan := scanLong_append n hsp fun c hc => by
    cases hd : c.isDigit with
    | false => rfl
    | true =>
      have hspace := hs c hc
      rw [not_isSpace_of_isDigit hd] at hspace
      cases hspace
  exact ⟨_, hscan, rfl, rfl⟩

/-! ## An entry is read back -/

/-- The words of a task are those of its fields. -/
structure TaskSpec.Reads (t : TaskSpec) (w : TaskFields)
    (optional : Option (Word (List Char) × Option (Word Int))) : Prop where
  cpus : w.cpus.value = t.cpus.text
  threadGroup : w.threadGroup.value = saturate t.threadGroup
  taskWss : w.taskWss.value = saturate t.wss
  period : w.period.value = saturate t.period
  execTime : w.execTime.value = saturate t.execTime
  utility : w.utility.value = saturate t.utility
  optional : optional.map (fun p => (p.1.value, p.2.map Word.value)) =
    t.optional.map fun p => (p.1.text, p.2.map fun hua => saturate hua)

/-- The words of an entry are those of its fields. -/
def Entry.Reads : Entry → Item → Prop
  | .locks n, .locks w => w.value = saturate n
  | .task t, .task w optional => t.Reads w optional
  | .group g, .group w w' => w.value = saturate g.threadGroup ∧ w'.value = saturate g.wss
  | _, _ => False

section Reading

variable {s rest f : List Char}

theorem lexHua_of_spaced {hua : Option Nat}
    (h : Spaced (hua.map fun n => numeral n).toList s) (hrest : SpaceHead rest)
    (hskip : skipSpace rest = f) (hf : ∀ c ∈ f.head?, endsTask c = true) :
    ∃ w, lexHua (s ++ rest) = some (w, f) ∧ w.map Word.value = hua.map fun n => saturate n := by
  cases hua with
  | none =>
    refine ⟨none, lexHua_eq_some.mpr ?_, rfl⟩
    rw [h.skipSpace_append, hskip]
    exact ⟨fun c hc => not_isDigit_of_endsTask (hf c hc), rfl⟩
  | some n =>
    obtain ⟨sp, s', rfl, hsp, hs'⟩ := Spaced.uncons h
    obtain ⟨w, hw, hvalue, hwrest⟩ :=
      scanLong_numeral n (List.forall_mem_nil _) (hs'.spaceHead hrest)
    refine ⟨some w, lexHua_eq_some.mpr ?_, by simp [hvalue]⟩
    rw [List.append_assoc, List.append_assoc,
      skipSpace_append_text hsp (fun _ hc => not_isSpace_of_mem_numeral hc) (numeral_ne_nil n)]
    refine ⟨fun c hc => isDigit_of_mem_head_toDigits hc, hw, ?_⟩
    rw [hwrest, hs'.skipSpace_append, hskip]

theorem lexOptional_of_spaced {optional : Option (Ids × Option Nat)}
    (h : Spaced (Entry.optionalFields optional) s) (hrest : SpaceHead rest)
    (hskip : skipSpace rest = f) (hf : ∀ c ∈ f.head?, endsTask c = true) :
    ∃ w, lexOptional (s ++ rest) = some (w, f) ∧
      w.map (fun p => (p.1.value, p.2.map Word.value)) =
        optional.map fun p => (p.1.text, p.2.map fun hua => saturate hua) := by
  rcases optional with - | ⟨l, hua⟩
  · refine ⟨none, lexOptional_eq_some.mpr ?_, rfl⟩
    rw [Spaced.skipSpace_append h, hskip]
    exact ⟨hf, rfl⟩
  · have hfields : Entry.optionalFields (some (l, hua)) =
        l.text :: (hua.map fun n => numeral n).toList := by
      cases hua <;> rfl
    rw [hfields] at h
    obtain ⟨sp, s', rfl, hsp, hs'⟩ := Spaced.uncons h
    obtain ⟨w, hw, hvalue, hwrest⟩ :=
      Ids.scanString_text l (List.forall_mem_nil _) (hs'.spaceHead hrest)
    obtain ⟨whua, hlex, hmap⟩ := lexHua_of_spaced hs' hrest hskip hf
    refine ⟨some (w, whua), lexOptional_eq_some.mpr ?_, by simp [hvalue, hmap]⟩
    rw [List.append_assoc, List.append_assoc,
      skipSpace_append_text hsp (fun _ hc => Ids.not_isSpace_of_mem_text hc) l.text_ne_nil]
    exact ⟨fun c hc => Ids.endsTask_of_mem_head_text hc, hw, hwrest ▸ hlex⟩

theorem Spaced.scanLong {n : Int} {fields : List (List Char)} (h : Spaced (numeral n :: fields) s)
    (hrest : SpaceHead rest) : ∃ w s', Lib.scanLong (s ++ rest) = some w ∧ w.value = saturate n ∧
      w.rest = s' ++ rest ∧ Spaced fields s' := by
  obtain ⟨sp, s', rfl, hsp, hs'⟩ := h.uncons
  obtain ⟨w, hw, hvalue, hwrest⟩ := scanLong_numeral n hsp (hs'.spaceHead hrest)
  refine ⟨w, s', ?_, hvalue, hwrest, hs'⟩
  rw [List.append_assoc, List.append_assoc, hw]

theorem scanTaskFields_of_spaced {t : TaskSpec} (h : Spaced (Entry.task t).fields s)
    (hrest : SpaceHead rest) (hskip : skipSpace rest = f)
    (hf : ∀ c ∈ f.head?, endsTask c = true) :
    ∃ w optional, scanTaskFields (s ++ rest) = some w ∧
      lexOptional w.utility.rest = some (optional, f) ∧ t.Reads w optional := by
  obtain ⟨sp, s₁, rfl, hsp, h₁⟩ := Spaced.uncons h
  obtain ⟨cpus, hcpus, vcpus, rcpus⟩ :=
    Ids.scanString_text t.cpus hsp (h₁.spaceHead hrest)
  obtain ⟨threadGroup, s₂, hgroup, vgroup, rgroup, h₂⟩ := h₁.scanLong hrest
  obtain ⟨taskWss, s₃, hwss, vwss, rwss, h₃⟩ := h₂.scanLong hrest
  obtain ⟨period, s₄, hperiod, vperiod, rperiod, h₄⟩ := h₃.scanLong hrest
  obtain ⟨execTime, s₅, hexec, vexec, rexec, h₅⟩ := h₄.scanLong hrest
  obtain ⟨utility, s₆, hutility, vutility, rutility, h₆⟩ := h₅.scanLong hrest
  obtain ⟨optional, hopt, hmap⟩ := lexOptional_of_spaced h₆ hrest hskip hf
  refine ⟨⟨cpus, threadGroup, taskWss, period, execTime, utility⟩, optional,
    scanTaskFields_eq_some.mpr ?_, rutility ▸ hopt,
    ⟨vcpus, vgroup, vwss, vperiod, vexec, vutility, hmap⟩⟩
  rw [List.append_assoc, List.append_assoc]
  exact ⟨hcpus, rcpus ▸ hgroup, rgroup ▸ hwss, rwss ▸ hperiod, rperiod ▸ hexec, rexec ▸ hutility⟩

/-- **An entry is read back** from its line, whatever the next line is for. -/
theorem lexItem_of_spaced {e : Entry} (h : Spaced e.fields s) (hrest : SpaceHead rest)
    (hskip : skipSpace rest = f) (hf : ∀ c ∈ f.head?, endsTask c = true) :
    ∃ item, lexItem e.letter (s ++ rest) = some (item, f) ∧ e.Reads item := by
  cases e with
  | locks n =>
    obtain ⟨w, s', hw, hvalue, hwrest, hs'⟩ := Spaced.scanLong h hrest
    refine ⟨.locks w, lexItem_eq_some.mpr ⟨rfl, hw, ?_⟩, hvalue⟩
    rw [hwrest, hs'.skipSpace_append, hskip]
  | task t =>
    obtain ⟨w, optional, hw, hopt, hreads⟩ := scanTaskFields_of_spaced h hrest hskip hf
    exact ⟨.task w optional, lexItem_eq_some.mpr ⟨rfl, hw, hopt⟩, hreads⟩
  | group g =>
    obtain ⟨w, s₁, hw, hvalue, hwrest, h₁⟩ := Spaced.scanLong h hrest
    obtain ⟨w', s₂, hw', hvalue', hwrest', h₂⟩ := h₁.scanLong hrest
    refine ⟨.group w w', lexItem_eq_some.mpr ⟨rfl, hw, hwrest ▸ hw', ?_⟩, hvalue, hvalue'⟩
    rw [hwrest', h₂.skipSpace_append, hskip]

end Reading

/-! ## A file is read back -/

theorem Entry.endsTask_letter {e : Entry} (h : e.letter ≠ 'L') : endsTask e.letter = true := by
  cases e with
  | locks n => exact absurd rfl h
  | task t => rfl
  | group g => rfl

theorem Entry.Reads.ne_comment {e : Entry} {item : Item} (h : e.Reads item) : item ≠ .comment := by
  rintro rfl
  cases e <;> exact h

theorem Lines.endsTask_head {entries : List Entry} {f : List Char} (h : Lines entries f)
    (hL : ∀ e ∈ entries, e.letter ≠ 'L') : ∀ c ∈ f.head?, endsTask c = true := by
  intro c hc
  cases h with
  | nil => cases hc
  | comment _ _ =>
    obtain rfl : '#' = c := by simpa using hc
    rfl
  | lastComment _ =>
    obtain rfl : '#' = c := by simpa using hc
    rfl
  | @entry e _ _ _ _ _ =>
    obtain rfl : e.letter = c := by simpa using hc
    exact Entry.endsTask_letter (hL e List.mem_cons_self)
  | @lastEntry e _ _ =>
    obtain rfl : e.letter = c := by simpa using hc
    exact Entry.endsTask_letter (hL e List.mem_cons_self)

theorem dropWhile_comment {text : List Char} (h : '\n' ∉ text) (f : List Char) :
    (text ++ f).dropWhile (· ≠ '\n') = f.dropWhile (· ≠ '\n') :=
  List.dropWhile_append_of_pos fun c hc => by
    rw [decide_eq_true_iff]
    rintro rfl
    exact h hc

theorem skipLine_append {text f : List Char} (h : '\n' ∉ text) :
    skipLine (text ++ '\n' :: f) = f := by
  unfold skipLine
  rw [dropWhile_comment h]
  simp

theorem skipLine_last {text : List Char} (h : '\n' ∉ text) : skipLine text = [] := by
  unfold skipLine
  rw [← List.append_nil text, dropWhile_comment h]
  rfl

/-- **A file is split into the entries it was written for.** -/
theorem Lines.lexed {entries : List Entry} {f : List Char} (h : Lines entries f)
    (hL : ∀ e ∈ entries.tail, e.letter ≠ 'L') :
    ∃ items, Lexed f items ∧ List.Forall₂ Entry.Reads entries (items.filter (· ≠ .comment)) := by
  induction h with
  | nil => exact ⟨[], .nil, .nil⟩
  | @comment text f entries htext hlines ih =>
    obtain ⟨items, hlex, hreads⟩ := ih hL
    refine ⟨.comment :: items, .cons (lexItem_eq_some.mpr ⟨rfl, skipLine_append htext⟩) hlex, ?_⟩
    simpa using hreads
  | lastComment htext =>
    refine ⟨[.comment], .cons (lexItem_eq_some.mpr ⟨rfl, skipLine_last htext⟩) .nil, ?_⟩
    simp
  | @entry e s f entries hs hlines ih =>
    have hf := hlines.endsTask_head hL
    have hskip : skipSpace ('\n' :: f) = f := by
      rw [← List.singleton_append, skipSpace_append (by simp; rfl)]
      exact skipSpace_eq_self fun c hc => not_isSpace_of_endsTask (hf c hc)
    obtain ⟨items, hlex, hreads⟩ := ih fun e' he' => hL e' (List.mem_of_mem_tail he')
    obtain ⟨item, hitem, hread⟩ := lexItem_of_spaced hs (by simp [SpaceHead]; rfl) hskip hf
    refine ⟨item :: items, .cons hitem hlex, ?_⟩
    rw [List.filter_cons_of_pos (by simpa using hread.ne_comment)]
    exact .cons hread hreads
  | @lastEntry e s hs =>
    obtain ⟨item, hitem, hread⟩ : ∃ item, lexItem e.letter (s ++ []) = some (item, []) ∧
        e.Reads item := lexItem_of_spaced hs (by simp [SpaceHead]) rfl (by simp)
    rw [List.append_nil] at hitem
    refine ⟨[item], .cons hitem .nil, ?_⟩
    rw [List.filter_cons_of_pos (by simpa using hread.ne_comment)]
    exact .cons hread .nil

end Chronos.Taskset
