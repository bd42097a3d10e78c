import Chronos.Lib.Lines
import Chronos.Taskset.Locks

/-!
# The lines of an accepted file

The reader does not know lines: a field is looked for across the ends of lines,
and after a task the next line is taken for optional fields unless it begins with
`T`, `#` or `G`. So whether the lines of an accepted file are what they should be
depends on what stands at their beginnings when the file is read.
-/

namespace Chronos.Taskset

open Lib

/-! ## What the lines should be -/

/-- What the lines begin with, comments and blank lines apart. -/
def entryHeads (f : List Char) : List Char := (lineHeads f).filter (· ≠ '#')

/-- One `L` line before the `T` lines, a `T` line, no `T` line after a `G` line, and
no other line. -/
structure WellStructured (f : List Char) : Prop where
  letters : ∀ c ∈ entryHeads f, c = 'L' ∨ c = 'T' ∨ c = 'G'
  oneL : (entryHeads f).count 'L' = 1
  locksFirst : (entryHeads f).Pairwise fun c d => ¬(c = 'T' ∧ d = 'L')
  task : 'T' ∈ entryHeads f
  groupsLast : (entryHeads f).Pairwise fun c d => ¬(c = 'G' ∧ d = 'T')

/-! ## What they are when the file is read -/

/-- What the reader takes the beginning of a line for. -/
inductive Kind
  | entry
  | cpus
  | number
  | locks
  deriving DecidableEq, Repr

structure LineStart where
  kind : Kind
  char : Char
  deriving DecidableEq, Repr

def startIf (kind : Kind) (atStart : Bool) (text : List Char) : List LineStart :=
  if atStart then (text.take 1).map (⟨kind, ·⟩) else []

def wordStart {α : Type} (kind : Kind) (w : Word α) : List LineStart :=
  startIf kind (decide ('\n' ∈ w.space)) w.text

def TaskFields.starts (w : TaskFields) : List LineStart :=
  wordStart .cpus w.cpus ++ wordStart .number w.threadGroup ++ wordStart .number w.taskWss ++
    wordStart .number w.period ++ wordStart .number w.execTime ++ wordStart .number w.utility

/-- The lines that begin in the optional fields of a task, read from `f`. -/
def optionalStarts (f : List Char) : Option (Word (List Char) × Option (Word Int)) → List LineStart
  | none => []
  | some (l, none) => startIf .locks (beginsLine f) l.text
  | some (l, some hua) =>
    startIf .locks (beginsLine f) l.text ++ startIf .number (beginsLine l.rest) hua.text

/-- Whether what comes after them begins a line. -/
def optionalEndsLine (f : List Char) : Option (Word (List Char) × Option (Word Int)) → Bool
  | none => beginsLine f
  | some (l, none) => beginsLine l.rest
  | some (_, some hua) => beginsLine hua.rest

namespace Item

/-- The lines that begin in an entry; the flag tells whether its letter begins one. -/
def starts (atStart : Bool) : Item → List LineStart
  | .comment => startIf .entry atStart ['#']
  | .locks count => startIf .entry atStart ['L'] ++ wordStart .number count
  | .task w optional =>
    startIf .entry atStart ['T'] ++ w.starts ++ optionalStarts w.utility.rest optional
  | .group threadGroup wss =>
    startIf .entry atStart ['G'] ++ wordStart .number threadGroup ++ wordStart .number wss

/-- Whether what comes after an entry begins a line. -/
def endsLine : Item → Bool
  | .comment => true
  | .locks count => beginsLine count.rest
  | .task w optional => optionalEndsLine w.utility.rest optional
  | .group _ wss => beginsLine wss.rest

end Item

def lineStarts : Bool → List Item → List LineStart
  | _, [] => []
  | atStart, item :: items => item.starts atStart ++ lineStarts item.endsLine items

/-- What keeps an accepted file well structured: no line begins with a number or a
list of locks, and with a list of processors only if that looks like an entry or a
comment; a line begins with `T`, and none after a line that begins with a list of
processors that looks like a group. -/
structure LinesBeginEntries (starts : List LineStart) : Prop where
  fields : ∀ s ∈ starts, s.kind ≠ .entry →
    s.kind = .cpus ∧ (s.char = '#' ∨ s.char = 'T' ∨ s.char = 'G')
  task : ∃ s ∈ starts, s.char = 'T'
  groups : starts.Pairwise fun s s' => ¬(s = ⟨.cpus, 'G'⟩ ∧ s'.char = 'T')

/-! ## Words and lines -/

theorem map_startIf (kind : Kind) (b : Bool) (text : List Char) :
    (startIf kind b text).map LineStart.char = if b then text.take 1 else [] := by
  unfold startIf
  cases text <;> cases b <;> rfl

theorem map_wordStart {α : Type} (kind : Kind) (w : Word α) :
    (wordStart kind w).map LineStart.char = w.lineHead := by
  unfold wordStart Word.lineHead
  rw [map_startIf]
  simp

theorem headsFrom_scanLong {s : List Char} {w : Word Int} (h : scanLong s = some w) :
    headsFrom false s = (wordStart .number w).map LineStart.char ++ headsFrom false w.rest := by
  rw [headsFrom_word (scanLong_heads h).1, map_wordStart]

theorem headsFrom_scanTaskFields {f : List Char} {w : TaskFields} (h : scanTaskFields f = some w) :
    headsFrom false f = w.starts.map LineStart.char ++ headsFrom false w.utility.rest := by
  obtain ⟨hcpus, hgroup, hwss, hperiod, hexec, hutility⟩ := scanTaskFields_eq_some.mp h
  rw [headsFrom_word (scanString_heads hcpus).1, headsFrom_scanLong hgroup, headsFrom_scanLong hwss,
    headsFrom_scanLong hperiod, headsFrom_scanLong hexec, headsFrom_scanLong hutility]
  simp [TaskFields.starts, map_wordStart]

theorem headsFrom_cons {c : Char} {f : List Char} (hc : isSpace c = false) (b : Bool) :
    headsFrom b (c :: f) = (startIf .entry b [c]).map LineStart.char ++ headsFrom false f := by
  have hn : c ≠ '\n' := by
    rintro rfl
    cases hc
  cases b <;> simp [headsFrom, startIf, hc, hn]

/-- After a comment a line begins. -/
theorem headsFrom_skipLine (f : List Char) : headsFrom false f = headsFrom true (skipLine f) := by
  unfold skipLine
  induction f with
  | nil => rfl
  | cons c f ih =>
    by_cases hn : c = '\n'
    · simp [headsFrom, hn]
    · by_cases hc : isSpace c <;> simp [headsFrom, hn, hc, ih]

/-- The lines that begin in the optional fields. -/
theorem headsFrom_lexOptional {f f' : List Char}
    {optional : Option (Word (List Char) × Option (Word Int))}
    (h : lexOptional f = some (optional, f')) :
    headsFrom false f = (optionalStarts f optional).map LineStart.char ++
      headsFrom (optionalEndsLine f optional) f' := by
  rw [lexOptional_eq_some] at h
  rcases optional with - | ⟨l, hua⟩
  · obtain ⟨-, rfl⟩ := h
    exact headsFrom_skipSpace f
  obtain ⟨-, hl, hhua⟩ := h
  rw [lexHua_eq_some] at hhua
  rw [headsFrom_word_skipSpace (scanString_heads hl).1]
  cases hua with
  | none =>
    obtain ⟨-, rfl⟩ := hhua
    simp [headsFrom_skipSpace l.rest, optionalStarts, optionalEndsLine, map_startIf]
  | some w =>
    obtain ⟨-, hw, rfl⟩ := hhua
    rw [headsFrom_word_skipSpace (scanLong_heads hw).1, headsFrom_skipSpace w.rest]
    simp [optionalStarts, optionalEndsLine, map_startIf]

/-- **The lines that begin in an entry** begin with what the reader takes them for. -/
theorem headsFrom_lexItem {c : Char} {f f' : List Char} {item : Item}
    (h : lexItem c f = some (item, f')) (b : Bool) :
    headsFrom b (c :: f) = (item.starts b).map LineStart.char ++ headsFrom item.endsLine f' := by
  rw [lexItem_eq_some] at h
  cases item with
  | comment =>
    obtain ⟨rfl, rfl⟩ := h
    rw [headsFrom_cons rfl, headsFrom_skipLine]
    rfl
  | locks w =>
    obtain ⟨rfl, hw, rfl⟩ := h
    rw [headsFrom_cons rfl, headsFrom_scanLong hw, headsFrom_skipSpace w.rest]
    simp [Item.starts, Item.endsLine]
  | task w optional =>
    obtain ⟨rfl, hw, hopt⟩ := h
    rw [headsFrom_cons rfl, headsFrom_scanTaskFields hw, headsFrom_lexOptional hopt]
    simp [Item.starts, Item.endsLine]
  | group g w =>
    obtain ⟨rfl, hg, hw, rfl⟩ := h
    rw [headsFrom_cons rfl, headsFrom_scanLong hg, headsFrom_scanLong hw, headsFrom_skipSpace w.rest]
    simp [Item.starts, Item.endsLine]

theorem headsFrom_lexed {f : List Char} {items : List Item} (h : Lexed f items) (b : Bool) :
    headsFrom b f = (lineStarts b items).map LineStart.char := by
  induction h generalizing b with
  | nil => rfl
  | cons hitem _ ih =>
    rw [headsFrom_lexItem hitem, ih]
    simp [lineStarts]

/-! ## What can begin a line -/

/-- What a line may begin with, by what the reader takes it for. -/
def LineStart.Possible (s : LineStart) : Prop :=
  match s.kind with
  | .entry => s.char = '#' ∨ s.char = 'L' ∨ s.char = 'T' ∨ s.char = 'G'
  | .cpus => True
  | .number => s.char = '+' ∨ s.char = '-' ∨ s.char.isDigit = true
  | .locks => endsTask s.char = false

theorem mem_startIf {kind : Kind} {b : Bool} {text : List Char} {s : LineStart}
    (h : s ∈ startIf kind b text) : s.kind = kind ∧ s.char ∈ text.head? := by
  unfold startIf at h
  cases b with
  | false => cases h
  | true =>
    cases text with
    | nil => cases h
    | cons c text =>
      obtain rfl : s = ⟨kind, c⟩ := by simpa using h
      exact ⟨rfl, rfl⟩

theorem possible_entry {b : Bool} {c : Char} {s : LineStart}
    (hc : c = '#' ∨ c = 'L' ∨ c = 'T' ∨ c = 'G') (hs : s ∈ startIf .entry b [c]) : s.Possible := by
  obtain ⟨hkind, hchar⟩ := mem_startIf hs
  obtain rfl : c = s.char := by simpa using hchar
  unfold LineStart.Possible
  rwa [hkind]

theorem possible_number {b : Bool} {f : List Char} {w : Word Int} {s : LineStart}
    (h : scanLong f = some w) (hs : s ∈ startIf .number b w.text) : s.Possible := by
  obtain ⟨hkind, hchar⟩ := mem_startIf hs
  unfold LineStart.Possible
  rw [hkind]
  exact (scanLong_heads h).2 _ hchar

theorem possible_fields {f : List Char} {w : TaskFields} (h : scanTaskFields f = some w) :
    ∀ s ∈ w.starts, s.Possible := by
  obtain ⟨-, hgroup, hwss, hperiod, hexec, hutility⟩ := scanTaskFields_eq_some.mp h
  intro s hs
  simp only [TaskFields.starts, List.mem_append, or_assoc] at hs
  rcases hs with hs | hs | hs | hs | hs | hs
  · unfold LineStart.Possible
    rw [(mem_startIf hs).1]
    trivial
  · exact possible_number hgroup hs
  · exact possible_number hwss hs
  · exact possible_number hperiod hs
  · exact possible_number hexec hs
  · exact possible_number hutility hs

theorem possible_optional {f f' : List Char}
    {optional : Option (Word (List Char) × Option (Word Int))}
    (h : lexOptional f = some (optional, f')) : ∀ s ∈ optionalStarts f optional, s.Possible := by
  rw [lexOptional_eq_some] at h
  intro s hs
  rcases optional with - | ⟨l, hua⟩
  · cases hs
  obtain ⟨hends, hl, hhua⟩ := h
  rw [lexHua_eq_some] at hhua
  have hlocks : s ∈ startIf .locks (beginsLine f) l.text → s.Possible := by
    intro hs
    obtain ⟨hkind, hchar⟩ := mem_startIf hs
    rw [((scanString_heads hl).1.of_not_isSpace fun d hd => isSpace_head_skipSpace hd).2] at hchar
    unfold LineStart.Possible
    rw [hkind]
    exact hends _ hchar
  cases hua with
  | none => exact hlocks hs
  | some w =>
    rcases List.mem_append.mp hs with hs | hs
    · exact hlocks hs
    · exact possible_number hhua.2.1 hs

/-- What the reader takes the beginning of a line for agrees with what stands there. -/
theorem possible_starts {c : Char} {f f' : List Char} {item : Item}
    (h : lexItem c f = some (item, f')) {b : Bool} : ∀ s ∈ item.starts b, s.Possible := by
  rw [lexItem_eq_some] at h
  intro s hs
  cases item with
  | comment => exact possible_entry (.inl rfl) hs
  | locks w =>
    obtain ⟨-, hw, -⟩ := h
    rcases List.mem_append.mp hs with hs | hs
    · exact possible_entry (.inr (.inl rfl)) hs
    · exact possible_number hw hs
  | task w optional =>
    obtain ⟨-, hw, hopt⟩ := h
    simp only [Item.starts, List.mem_append, or_assoc] at hs
    rcases hs with hs | hs | hs
    · exact possible_entry (.inr (.inr (.inl rfl))) hs
    · exact possible_fields hw s hs
    · exact possible_optional hopt s hs
  | group g w =>
    obtain ⟨-, hg, hw, -⟩ := h
    simp only [Item.starts, List.mem_append, or_assoc] at hs
    rcases hs with hs | hs | hs
    · exact possible_entry (.inr (.inr (.inr rfl))) hs
    · exact possible_number hg hs
    · exact possible_number hw hs

theorem possible_lineStarts {f : List Char} {items : List Item} (h : Lexed f items) {b : Bool} :
    ∀ s ∈ lineStarts b items, s.Possible := by
  induction h generalizing b with
  | nil => simp [lineStarts]
  | cons hitem _ ih =>
    intro s hs
    rcases List.mem_append.mp hs with hs | hs
    · exact possible_starts hitem s hs
    · exact ih s hs

/-! ## The order of the entries -/

theorem kind_of_mem_fields {w : TaskFields} {s : LineStart} (hs : s ∈ w.starts) :
    s.kind ≠ .entry := by
  simp only [TaskFields.starts, List.mem_append, or_assoc] at hs
  rcases hs with hs | hs | hs | hs | hs | hs <;> simp [(mem_startIf hs).1]

theorem kind_of_mem_optional {f : List Char}
    {optional : Option (Word (List Char) × Option (Word Int))} {s : LineStart}
    (hs : s ∈ optionalStarts f optional) : s.kind ≠ .entry := by
  rcases optional with - | ⟨l, - | hua⟩
  · cases hs
  · simp [(mem_startIf hs).1]
  · rcases List.mem_append.mp hs with hs | hs <;> simp [(mem_startIf hs).1]

namespace Item

/-- The character an entry begins with. -/
def letter : Item → Char
  | .comment => '#'
  | .locks _ => 'L'
  | .task _ _ => 'T'
  | .group _ _ => 'G'

/-- In an entry only its letter is read as the beginning of one, and only in a task
anything else than numbers is read. -/
theorem mem_starts {item : Item} {b : Bool} {s : LineStart} (hs : s ∈ item.starts b) :
    s = ⟨.entry, item.letter⟩ ∨ s.kind ≠ .entry ∧ (s.kind = .number ∨ item.letter = 'T') := by
  have hentry {c : Char} (hs : s ∈ startIf .entry b [c]) : s = ⟨.entry, c⟩ := by
    obtain ⟨hkind, hchar⟩ := mem_startIf hs
    obtain rfl : c = s.char := by simpa using hchar
    rw [← hkind]
  have hnumber {w : Word Int} (hs : s ∈ wordStart .number w) : s.kind = .number :=
    (mem_startIf hs).1
  cases item with
  | comment => exact .inl (hentry hs)
  | locks w =>
    rcases List.mem_append.mp hs with hs | hs
    · exact .inl (hentry hs)
    · simp [hnumber hs]
  | task w optional =>
    simp only [starts, List.mem_append, or_assoc] at hs
    rcases hs with hs | hs | hs
    · exact .inl (hentry hs)
    · exact .inr ⟨kind_of_mem_fields hs, .inr rfl⟩
    · exact .inr ⟨kind_of_mem_optional hs, .inr rfl⟩
  | group g w =>
    simp only [starts, List.mem_append, or_assoc] at hs
    rcases hs with hs | hs | hs
    · exact .inl (hentry hs)
    · simp [hnumber hs]
    · simp [hnumber hs]

end Item

/-- The entries of an accepted file: comments, the lock line, tasks, groups. -/
def InOrder (items : List Item) (seenGroup : Bool) : Prop :=
  ∃ first w tasks groups, items = first ++ .locks w :: (tasks ++ groups) ∧
    (∀ item ∈ first, item = .comment) ∧
    (∀ item ∈ tasks, item.letter = '#' ∨ item.letter = 'T') ∧
    (∀ item ∈ groups, item.letter = '#' ∨ item.letter = 'G') ∧ (seenGroup = false → groups = [])

/-- What the reader knows of the entries it has loaded. -/
def OrderInv {σ : Type} (items : List Item) (T : Tester σ) : Prop :=
  (T.numLocks = -1 ∧ T.taskList = [] ∧ T.seenGroup = false ∧ ∀ item ∈ items, item = .comment) ∨
    (0 ≤ T.numLocks ∧ InOrder items T.seenGroup)

theorem InOrder.task {items : List Item} {item : Item} (h : InOrder items false)
    (hitem : item.letter = '#' ∨ item.letter = 'T') : InOrder (items ++ [item]) false := by
  obtain ⟨first, w, tasks, groups, rfl, hfirst, htasks, hgroups, hnil⟩ := h
  obtain rfl := hnil rfl
  refine ⟨first, w, tasks ++ [item], [], by simp, hfirst, ?_, by simp, fun _ => rfl⟩
  exact List.forall_mem_append.mpr ⟨htasks, List.forall_mem_singleton.mpr hitem⟩

theorem InOrder.group {items : List Item} {seenGroup : Bool} {item : Item}
    (h : InOrder items seenGroup) (hitem : item.letter = '#' ∨ item.letter = 'G') :
    InOrder (items ++ [item]) true := by
  obtain ⟨first, w, tasks, groups, rfl, hfirst, htasks, hgroups, -⟩ := h
  refine ⟨first, w, tasks, groups ++ [item], by simp, hfirst, htasks, ?_, by simp⟩
  exact List.forall_mem_append.mpr ⟨hgroups, List.forall_mem_singleton.mpr hitem⟩

section Loading

variable {σ : Type} {A : Allocator σ} {m : Machine} {T T' : Tester σ} {items : List Item}

theorem orderInv_loadItem {item : Item} (hinv : OrderInv items T)
    (h : loadItem A m T item = .ok T') : OrderInv (items ++ [item]) T' := by
  cases item with
  | comment =>
    cases h
    rcases hinv with ⟨hn, htl, hg, hall⟩ | ⟨hn, horder⟩
    · refine .inl ⟨hn, htl, hg, ?_⟩
      exact List.forall_mem_append.mpr ⟨hall, List.forall_mem_singleton.mpr rfl⟩
    · refine .inr ⟨hn, ?_⟩
      cases hg : T.seenGroup
      · exact (hg ▸ horder).task (.inl rfl)
      · exact (hg ▸ horder).group (.inl rfl)
  | locks w =>
    obtain ⟨hn, hpos, heap, -, rfl⟩ := loadItem_locks_eq_ok.mp h
    rcases hinv with ⟨-, -, -, hall⟩ | ⟨hn', -⟩
    · exact .inr ⟨hpos, items, w, [], [], by simp, hall, by simp, by simp, fun _ => rfl⟩
    · omega
  | task w optional =>
    obtain ⟨hpos, hg, h⟩ := loadItem_task_eq_ok.mp h
    obtain ⟨-, -, mask, masks, heap, -, -, -, -, rfl⟩ := loadTask_eq_ok.mp h
    rcases hinv with ⟨hn, -⟩ | ⟨hn, horder⟩
    · omega
    · refine .inr ⟨hn, ?_⟩
      show InOrder _ T.seenGroup
      rw [hg] at horder ⊢
      exact horder.task (.inr rfl)
  | group g w =>
    obtain ⟨taskList, hset, rfl⟩ := loadItem_group_eq_ok.mp h
    rcases hinv with ⟨-, htl, -⟩ | ⟨hn, horder⟩
    · rw [htl] at hset
      cases hset
    · exact .inr ⟨hn, horder.group (.inr rfl)⟩

/-- **The entries of an accepted file are in order.** -/
theorem inOrder_of_initTasks {f : List Char} {options : Options} {heap : σ}
    (h : initTasks A m (some f) (Tester.start options heap) = .ok T) :
    ∃ items seenGroup, lex f = some items ∧ InOrder items seenGroup := by
  obtain ⟨items, T₀, heap, hlex, hinv, hn, -, -⟩ := initTasks_invariant OrderInv h
    (fun _ => .inl ⟨rfl, rfl, rfl, by simp⟩) fun _ _ _ _ hinv hload => orderInv_loadItem hinv hload
  rcases hinv with ⟨hneg, -⟩ | ⟨-, horder⟩
  · omega
  · exact ⟨items, _, hlex, horder⟩

end Loading

/-! ## The lines of entries in order -/

theorem lineStarts_append (b : Bool) (items items' : List Item) :
    ∃ b', lineStarts b (items ++ items') = lineStarts b items ++ lineStarts b' items' := by
  induction items generalizing b with
  | nil => exact ⟨b, rfl⟩
  | cons item items ih =>
    obtain ⟨b', h⟩ := ih item.endsLine
    exact ⟨b', by simp [lineStarts, h]⟩

theorem mem_lineStarts {b : Bool} {items : List Item} {s : LineStart}
    (hs : s ∈ lineStarts b items) : ∃ item ∈ items, ∃ b', s ∈ item.starts b' := by
  induction items generalizing b with
  | nil => cases hs
  | cons item items ih =>
    rcases List.mem_append.mp hs with hs | hs
    · exact ⟨item, List.mem_cons_self, b, hs⟩
    · obtain ⟨item', hitem', b', hs⟩ := ih hs
      exact ⟨item', List.mem_cons_of_mem item hitem', b', hs⟩

/-- Comments in front of the lock line are on lines of their own. -/
theorem lineStarts_comments {first items : List Item} (h : ∀ item ∈ first, item = .comment) :
    lineStarts true (first ++ items) =
      List.replicate first.length ⟨.entry, '#'⟩ ++ lineStarts true items := by
  induction first with
  | nil => rfl
  | cons item first ih =>
    obtain rfl := h item List.mem_cons_self
    have ih := ih fun i hi => h i (List.mem_cons_of_mem _ hi)
    simp [lineStarts, Item.starts, Item.endsLine, startIf, ih, List.replicate_succ]

/-- The beginnings of lines up to the lock line, up to the first group, and from there. -/
def StartsInOrder (starts : List LineStart) : Prop :=
  ∃ n tasks groups,
    starts = List.replicate n ⟨.entry, '#'⟩ ++ ⟨.entry, 'L'⟩ :: (tasks ++ groups) ∧
    (∀ s ∈ tasks, s.kind = .entry → s.char = '#' ∨ s.char = 'T') ∧
    (∀ s ∈ groups, s.kind = .entry ∧ (s.char = '#' ∨ s.char = 'G') ∨ s.kind = .number)

theorem lineStarts_inOrder {items : List Item} {seenGroup : Bool} (h : InOrder items seenGroup) :
    StartsInOrder (lineStarts true items) := by
  obtain ⟨first, w, tasks, groups, rfl, hfirst, htasks, hgroups, -⟩ := h
  obtain ⟨b, hb⟩ := lineStarts_append (Item.locks w).endsLine tasks groups
  refine ⟨first.length, wordStart .number w ++ lineStarts (Item.locks w).endsLine tasks,
    lineStarts b groups, ?_, ?_, ?_⟩
  · rw [lineStarts_comments hfirst]
    simp [lineStarts, hb, Item.starts, startIf]
  · intro s hs hkind
    rcases List.mem_append.mp hs with hs | hs
    · rw [(mem_startIf hs).1] at hkind
      cases hkind
    · obtain ⟨item, hitem, b', hs⟩ := mem_lineStarts hs
      rcases Item.mem_starts hs with rfl | ⟨hne, -⟩
      · exact htasks item hitem
      · exact absurd hkind hne
  · intro s hs
    obtain ⟨item, hitem, b', hs⟩ := mem_lineStarts hs
    rcases Item.mem_starts hs with rfl | ⟨-, hnumber | hT⟩
    · exact .inl ⟨rfl, hgroups item hitem⟩
    · exact .inr hnumber
    · rcases hgroups item hitem with h | h
      · rw [hT] at h
        cases h
      · rw [hT] at h
        cases h

/-! ## Accepted files that are well structured -/

theorem pairwise_append_of_not {α : Type} {P Q : α → Prop} {l l' : List α}
    (hl : ∀ a ∈ l, ¬P a) (hl' : ∀ a ∈ l', ¬Q a) : (l ++ l').Pairwise fun a b => ¬(P a ∧ Q b) := by
  refine List.pairwise_append.mpr ⟨?_, ?_, fun a ha b _ h => hl a ha h.1⟩
  · exact List.pairwise_of_forall_mem_list fun a ha b _ h => hl a ha h.1
  · exact List.pairwise_of_forall_mem_list fun a _ b hb h => hl' b hb h.2

section Starts

variable {starts : List LineStart}

theorem count_heads : ((starts.map LineStart.char).filter (· ≠ '#')).count 'L' =
    starts.countP (·.char = 'L') := by
  rw [List.count_filter (by decide), List.count, List.countP_map]
  congr 1

theorem pairwise_heads (starts : List LineStart) {c d : Char} (hc : c ≠ '#') (hd : d ≠ '#') :
    (((starts.map LineStart.char).filter (· ≠ '#')).Pairwise fun a b => ¬(a = c ∧ b = d)) ↔
      starts.Pairwise fun s s' => ¬(s.char = c ∧ s'.char = d) := by
  rw [List.pairwise_filter, List.pairwise_map]
  constructor
  · apply List.Pairwise.imp
    rintro s s' h ⟨rfl, rfl⟩
    exact h (by simpa using hc) (by simpa using hd) ⟨rfl, rfl⟩
  · apply List.Pairwise.imp
    intro s s' h _ _
    exact h

/-- There is one `L` line unless `L` begins a line in the fields of an entry. -/
theorem StartsInOrder.countP_eq_one (h : StartsInOrder starts) :
    starts.countP (·.char = 'L') = 1 ↔ ∀ s ∈ starts, s.kind ≠ .entry → s.char ≠ 'L' := by
  obtain ⟨n, tasks, groups, rfl, htasks, hgroups⟩ := h
  have hentry : ∀ s ∈ tasks ++ groups, s.kind = .entry → s.char ≠ 'L' := by
    intro s hs hkind
    rcases List.mem_append.mp hs with hs | hs
    · rcases htasks s hs hkind with h | h <;> simp [h]
    · rcases hgroups s hs with ⟨-, h | h⟩ | h
      · simp [h]
      · simp [h]
      · simp [h] at hkind
  have hcount : (List.replicate n (⟨.entry, '#'⟩ : LineStart) ++
      ⟨.entry, 'L'⟩ :: (tasks ++ groups)).countP (·.char = 'L') =
        (tasks ++ groups).countP (·.char = 'L') + 1 := by
    simp [List.countP_replicate]
  rw [hcount, Nat.add_eq_right, List.countP_eq_zero]
  constructor
  · intro hrest s hs hkind
    rcases List.mem_append.mp hs with hs | hs
    · rw [List.eq_of_mem_replicate hs] at hkind
      exact absurd rfl hkind
    rcases List.mem_cons.mp hs with rfl | hs
    · exact absurd rfl hkind
    · simpa using hrest s hs
  · intro hfields s hs
    by_cases hkind : s.kind = .entry
    · simpa using hentry s hs hkind
    · simpa using hfields s (List.mem_append_right _ (List.mem_cons_of_mem _ hs)) hkind

theorem StartsInOrder.locksFirst (h : StartsInOrder starts)
    (hone : starts.countP (·.char = 'L') = 1) :
    starts.Pairwise fun s s' => ¬(s.char = 'T' ∧ s'.char = 'L') := by
  obtain ⟨n, tasks, groups, rfl, -, -⟩ := h
  have hrest : (tasks ++ groups).countP (·.char = 'L') = 0 := by
    simpa [List.countP_cons, List.countP_replicate] using hone
  rw [← List.singleton_append, ← List.append_assoc]
  apply pairwise_append_of_not
  · intro s hs
    rcases List.mem_append.mp hs with hs | hs
    · rw [List.eq_of_mem_replicate hs]
      decide
    · rw [List.mem_singleton.mp hs]
      decide
  · simpa using List.countP_eq_zero.mp hrest

/-- After the first group, no entry begins with `T`. -/
theorem StartsInOrder.groupsLast (h : StartsInOrder starts)
    (hnumber : ∀ s ∈ starts, s.kind ≠ .number) :
    starts.Pairwise fun s s' => ¬(s = ⟨.entry, 'G'⟩ ∧ s'.char = 'T') := by
  obtain ⟨n, tasks, groups, rfl, htasks, hgroups⟩ := h
  rw [← List.singleton_append, ← List.append_assoc, ← List.append_assoc]
  apply pairwise_append_of_not
  · intro s hs hG
    rw [hG] at hs
    rcases List.mem_append.mp hs with hs | hs
    · simp [List.mem_replicate] at hs
    · rcases htasks _ hs rfl with h | h <;> cases h
  · intro s hs
    rcases hgroups s hs with ⟨-, h | h⟩ | h
    · simp [h]
    · simp [h]
    · exact absurd h (hnumber s (by simp [hs]))

/-- A line that begins in the fields of an entry looks like an entry only if it
begins with a list of processors, or else with `L`. -/
theorem LineStart.Possible.cpus_of_not_entry {s : LineStart} (h : s.Possible)
    (hkind : s.kind ≠ .entry) (hchar : s.char = '#' ∨ s.char = 'T' ∨ s.char = 'G') :
    s.kind = .cpus := by
  unfold Possible at h
  cases hk : s.kind with
  | entry => exact absurd hk hkind
  | cpus => rfl
  | number =>
    rw [hk] at h
    rcases hchar with hc | hc | hc <;> simp [hc] at h
  | locks =>
    rw [hk] at h
    rcases hchar with hc | hc | hc <;> simp [hc, endsTask] at h

end Starts

theorem wellStructured_iff_of_inOrder {f : List Char} {items : List Item} {seenGroup : Bool}
    (hlex : Lexed f items) (horder : InOrder items seenGroup) :
    WellStructured f ↔ LinesBeginEntries (lineStarts true items) := by
  have hheads : entryHeads f = ((lineStarts true items).map LineStart.char).filter (· ≠ '#') := by
    unfold entryHeads
    rw [← headsFrom_true, headsFrom_lexed hlex]
  have hpossible := possible_lineStarts hlex (b := true)
  have horder := lineStarts_inOrder horder
  generalize lineStarts true items = starts at *
  have hmem {c : Char} : c ∈ entryHeads f ↔ (∃ s ∈ starts, s.char = c) ∧ c ≠ '#' := by
    rw [hheads]
    simp
  have hcount : (entryHeads f).count 'L' = starts.countP (·.char = 'L') := by
    rw [hheads, count_heads]
  have hlocks := pairwise_heads starts (c := 'T') (d := 'L') (by decide) (by decide)
  have hgroups := pairwise_heads starts (c := 'G') (d := 'T') (by decide) (by decide)
  rw [← hheads] at hlocks hgroups
  constructor
  · intro hw
    refine ⟨fun s hs hkind => ?_, ?_, ?_⟩
    · have hL : s.char ≠ 'L' := horder.countP_eq_one.mp (hcount ▸ hw.oneL) s hs hkind
      have hchar : s.char = '#' ∨ s.char = 'T' ∨ s.char = 'G' := by
        by_cases hc : s.char = '#'
        · exact .inl hc
        · exact .inr ((hw.letters _ (hmem.mpr ⟨⟨s, hs, rfl⟩, hc⟩)).resolve_left hL)
      exact ⟨(hpossible s hs).cpus_of_not_entry hkind hchar, hchar⟩
    · exact (hmem.mp hw.task).1
    · apply (hgroups.mp hw.groupsLast).imp
      rintro s s' h ⟨rfl, hT⟩
      exact h ⟨rfl, hT⟩
  · intro hb
    have hone : starts.countP (·.char = 'L') = 1 := by
      rw [horder.countP_eq_one]
      intro s hs hkind
      obtain ⟨-, h | h | h⟩ := hb.fields s hs hkind <;> simp [h]
    have hnumber : ∀ s ∈ starts, s.kind ≠ .number := by
      intro s hs hkind
      have h := (hb.fields s hs (by simp [hkind])).1
      rw [hkind] at h
      cases h
    refine ⟨fun c hc => ?_, hcount ▸ hone, hlocks.mpr (horder.locksFirst hone),
      hmem.mpr ⟨hb.task, by decide⟩, ?_⟩
    · obtain ⟨⟨s, hs, rfl⟩, hne⟩ := hmem.mp hc
      by_cases hkind : s.kind = .entry
      · have hp := hpossible s hs
        unfold LineStart.Possible at hp
        rw [hkind] at hp
        exact hp.resolve_left hne
      · exact .inr ((hb.fields s hs hkind).2.resolve_left hne)
    · rw [hgroups]
      apply (hb.groups.and (horder.groupsLast hnumber)).imp_of_mem
      rintro s s' hs - ⟨hcpus, hentry⟩ ⟨hG, hT⟩
      have hs' : s = ⟨s.kind, 'G'⟩ := by rw [← hG]
      by_cases hkind : s.kind = .entry
      · rw [hkind] at hs'
        exact hentry ⟨hs', hT⟩
      · rw [(hb.fields s hs hkind).1] at hs'
        exact hcpus ⟨hs', hT⟩

/-- **An accepted file is well structured** exactly when its lines begin with
entries where it is read. -/
theorem wellStructured_iff {σ : Type} {A : Allocator σ} {m : Machine} {T : Tester σ}
    {options : Options} {heap : σ} {f : List Char}
    (h : initTasks A m (some f) (Tester.start options heap) = .ok T) :
    WellStructured f ↔ ∃ items ∈ lex f, LinesBeginEntries (lineStarts true items) := by
  obtain ⟨items, seenGroup, hlex, horder⟩ := inOrder_of_initTasks h
  simp only [hlex, Option.mem_some_iff, exists_eq_left']
  exact wellStructured_iff_of_inOrder (lex_eq_some.mp hlex) horder

/-! ## A second lock line -/

/-- The second lock line is read as the optional fields of the task. -/
def twoLockLines : List Char := "L 1\nT 0 1 0 500000 150000 17\nL 5\n".toList

/-- What reading it leaves. -/
def twoLockLinesTester : Tester Unit where
  options := sampleOptions
  heap := ()
  domainMasks := [1, 0, 0, 0]
  numLocks := 1
  taskList := [{ freshTask with
    cpuMask := 1
    threadGroup := 1
    myLocks := [0]
    period := 500000
    periodTs := ⟨0, 500000000⟩
    execTime := 150000
    utility := 17
    huaUtility := 5
    taskWss := 0 }]
  seenGroup := false
  warnings := []

theorem initTasks_twoLockLines : initTasks sampleAllocator sampleMachine (some twoLockLines)
    (Tester.start sampleOptions ()) = .ok twoLockLinesTester := by
  decide +kernel

/-- The same without the second lock line. -/
def oneLockLine : List Char := "L 1\nT 0 1 0 500000 150000 17\n".toList

/-- What reading it leaves. -/
def oneLockLineTester : Tester Unit :=
  { twoLockLinesTester with
    taskList := twoLockLinesTester.taskList.map fun t =>
      { t with myLocks := [], huaUtility := freshTask.huaUtility } }

theorem initTasks_oneLockLine : initTasks sampleAllocator sampleMachine (some oneLockLine)
    (Tester.start sampleOptions ()) = .ok oneLockLineTester := by
  decide +kernel

theorem not_wellStructured_count : ¬WellStructured twoLockLines := by
  intro h
  have hone := h.oneL
  rw [show (entryHeads twoLockLines).count 'L' = 2 by decide +kernel] at hone
  cases hone

theorem wellStructured_oneLockLine : WellStructured oneLockLine := by
  have hheads : entryHeads oneLockLine = ['L', 'T'] := by decide +kernel
  constructor
  all_goals
    rw [hheads]
    simp

theorem wellStructured_iff_twoLockLines :
    (WellStructured oneLockLine ∧
      ∃ items ∈ lex oneLockLine, LinesBeginEntries (lineStarts true items)) ∧
    ¬WellStructured twoLockLines ∧
      ¬∃ items ∈ lex twoLockLines, LinesBeginEntries (lineStarts true items) :=
  ⟨⟨wellStructured_oneLockLine,
      (wellStructured_iff initTasks_oneLockLine).mp wellStructured_oneLockLine⟩,
    not_wellStructured_count,
    mt (wellStructured_iff initTasks_twoLockLines).mpr not_wellStructured_count⟩

theorem not_wellStructured_twoLockLines :
    initTasks sampleAllocator sampleMachine (some twoLockLines)
      (Tester.start sampleOptions ()) = .ok twoLockLinesTester ∧ ¬WellStructured twoLockLines :=
  ⟨initTasks_twoLockLines, not_wellStructured_count⟩

end Chronos.Taskset
