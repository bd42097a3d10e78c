import Chronos.Lib.Fold
import Chronos.Taskset.Defs

/-!
# The words of a taskset file

What the reader takes from the file does not depend on what it makes of it. Here
the two are apart: `lex` splits a file into entries, each with the words read for
it, and `loadItem` does with one entry what `init_tasks` does. A file is accepted
exactly when it is split and all its entries are loaded.
-/

namespace Chronos.Taskset

open Lib

/-- An entry of the file with its words, or a comment. -/
inductive Item
  | comment
  | locks (count : Word Int)
  | task (fields : TaskFields) (optional : Option (Word (List Char) × Option (Word Int)))
  | group (threadGroup wss : Word Int)
  deriving DecidableEq, Repr

def lexHua (f : List Char) : Option (Option (Word Int) × List Char) :=
  match skipSpace f with
  | [] => some (none, [])
  | c :: f =>
    if !c.isDigit then some (none, c :: f)
    else (scanLong (c :: f)).map fun hua => (some hua, skipSpace hua.rest)

/-- The optional fields of a task, after the required ones. -/
def lexOptional (f : List Char) :
    Option (Option (Word (List Char) × Option (Word Int)) × List Char) :=
  match skipSpace f with
  | [] => some (none, [])
  | c :: f =>
    if endsTask c then some (none, c :: f)
    else (scanString (c :: f)).bind fun locks =>
      (lexHua locks.rest).map fun p => (some (locks, p.1), p.2)

/-- The entry that begins with `c`, and the file after it. -/
def lexItem (c : Char) (f : List Char) : Option (Item × List Char) :=
  if c = '#' then some (.comment, skipLine f)
  else if c = 'L' then (scanLong f).map fun count => (.locks count, skipSpace count.rest)
  else if c = 'T' then
    (scanTaskFields f).bind fun fields =>
      (lexOptional fields.utility.rest).map fun p => (.task fields p.1, p.2)
  else if c = 'G' then
    (scanGroupFields f).map fun p => (.group p.1 p.2, skipSpace p.2.rest)
  else none

def lexItems : Nat → List Char → Option (List Item)
  | _, [] => some []
  | 0, _ :: _ => none
  | rounds + 1, c :: f =>
    (lexItem c f).bind fun p => (lexItems rounds p.2).map (p.1 :: ·)

def lex (f : List Char) : Option (List Item) := lexItems f.length f

/-! ## The words of an entry -/

section Words

variable {f f' : List Char}

theorem scanTaskFields_eq_some {w : TaskFields} : scanTaskFields f = some w ↔
    scanString f = some w.cpus ∧ scanLong w.cpus.rest = some w.threadGroup ∧
      scanLong w.threadGroup.rest = some w.taskWss ∧ scanLong w.taskWss.rest = some w.period ∧
      scanLong w.period.rest = some w.execTime ∧ scanLong w.execTime.rest = some w.utility := by
  simp only [scanTaskFields, Option.bind_eq_bind, Option.bind_eq_some_iff]
  constructor
  · rintro ⟨cpus, hcpus, threadGroup, hgroup, taskWss, hwss, period, hperiod, execTime, hexec,
      utility, hutility, heq⟩
    cases heq
    exact ⟨hcpus, hgroup, hwss, hperiod, hexec, hutility⟩
  · rintro ⟨hcpus, hgroup, hwss, hperiod, hexec, hutility⟩
    exact ⟨_, hcpus, _, hgroup, _, hwss, _, hperiod, _, hexec, _, hutility, rfl⟩

theorem lexHua_eq_some {hua : Option (Word Int)} : lexHua f = some (hua, f') ↔
    match hua with
    | none => (∀ c ∈ (skipSpace f).head?, c.isDigit = false) ∧ skipSpace f = f'
    | some w => (∀ c ∈ (skipSpace f).head?, c.isDigit = true) ∧ scanLong (skipSpace f) = some w ∧
      skipSpace w.rest = f' := by
  unfold lexHua
  cases skipSpace f with
  | nil =>
    have hnone : scanLong [] = none := rfl
    cases hua <;> simp [hnone]
  | cons c f₁ =>
    cases hc : c.isDigit <;> cases hua <;> simp [hc]

/-- The optional fields are looked for across the ends of lines. -/
theorem lexOptional_eq_some {optional : Option (Word (List Char) × Option (Word Int))} :
    lexOptional f = some (optional, f') ↔
      match optional with
      | none => (∀ c ∈ (skipSpace f).head?, endsTask c = true) ∧ skipSpace f = f'
      | some (l, hua) => (∀ c ∈ (skipSpace f).head?, endsTask c = false) ∧
        scanString (skipSpace f) = some l ∧ lexHua l.rest = some (hua, f') := by
  unfold lexOptional
  cases skipSpace f with
  | nil =>
    have hnone : scanString [] = none := rfl
    cases optional <;> simp [hnone]
  | cons c f₁ =>
    cases hc : endsTask c
    · cases optional with
      | none => simp [hc, Option.bind_eq_some_iff]
      | some p => simp [hc, Option.bind_eq_some_iff, Prod.ext_iff, and_assoc]
    · cases optional <;> simp [hc]

theorem lexItem_eq_some {c : Char} {item : Item} : lexItem c f = some (item, f') ↔
    match item with
    | .comment => c = '#' ∧ skipLine f = f'
    | .locks w => c = 'L' ∧ scanLong f = some w ∧ skipSpace w.rest = f'
    | .task w optional =>
      c = 'T' ∧ scanTaskFields f = some w ∧ lexOptional w.utility.rest = some (optional, f')
    | .group g w => c = 'G' ∧ scanLong f = some g ∧ scanLong g.rest = some w ∧
      skipSpace w.rest = f' := by
  unfold lexItem
  by_cases hcomment : c = '#'
  · subst hcomment
    cases item <;> simp
  by_cases hL : c = 'L'
  · subst hL
    cases item <;> simp
  by_cases hT : c = 'T'
  · subst hT
    cases item <;> simp [Option.bind_eq_some_iff]
  by_cases hG : c = 'G'
  · subst hG
    cases item <;> simp [scanGroupFields, Option.bind_eq_some_iff]
  · cases item <;> simp [hcomment, hL, hT, hG]

end Words

/-! ## Rounds are no limit -/

/-- A file and the entries it is split into. -/
inductive Lexed : List Char → List Item → Prop
  | nil : Lexed [] []
  | cons {c : Char} {f f' : List Char} {item : Item} {items : List Item} :
    lexItem c f = some (item, f') → Lexed f' items → Lexed (c :: f) (item :: items)

theorem scanLong_length {f : List Char} {w : Word Int} (h : scanLong f = some w) :
    w.rest.length < f.length := (scanLong_heads h).1.length_lt

theorem scanTaskFields_length {f : List Char} {w : TaskFields} (h : scanTaskFields f = some w) :
    w.utility.rest.length < f.length := by
  obtain ⟨hcpus, hgroup, hwss, hperiod, hexec, hutility⟩ := scanTaskFields_eq_some.mp h
  calc w.utility.rest.length < w.execTime.rest.length := scanLong_length hutility
    _ < w.period.rest.length := scanLong_length hexec
    _ < w.taskWss.rest.length := scanLong_length hperiod
    _ < w.threadGroup.rest.length := scanLong_length hwss
    _ < w.cpus.rest.length := scanLong_length hgroup
    _ < f.length := (scanString_heads hcpus).1.length_lt

theorem lexHua_length {f f' : List Char} {hua : Option (Word Int)} (h : lexHua f = some (hua, f')) :
    f'.length ≤ f.length := by
  rw [lexHua_eq_some] at h
  cases hua with
  | none => exact h.2 ▸ length_skipSpace_le f
  | some w =>
    obtain ⟨-, hw, rfl⟩ := h
    calc (skipSpace w.rest).length ≤ w.rest.length := length_skipSpace_le w.rest
      _ ≤ (skipSpace f).length := (scanLong_length hw).le
      _ ≤ f.length := length_skipSpace_le f

theorem lexOptional_length {f f' : List Char}
    {optional : Option (Word (List Char) × Option (Word Int))}
    (h : lexOptional f = some (optional, f')) : f'.length ≤ f.length := by
  rw [lexOptional_eq_some] at h
  rcases optional with - | ⟨l, hua⟩
  · exact h.2 ▸ length_skipSpace_le f
  · obtain ⟨-, hl, hhua⟩ := h
    calc f'.length ≤ l.rest.length := lexHua_length hhua
      _ ≤ (skipSpace f).length := (scanString_heads hl).1.length_lt.le
      _ ≤ f.length := length_skipSpace_le f

theorem lexItem_length {c : Char} {f f' : List Char} {item : Item}
    (h : lexItem c f = some (item, f')) : f'.length ≤ f.length := by
  rw [lexItem_eq_some] at h
  cases item with
  | comment =>
    obtain ⟨-, rfl⟩ := h
    unfold skipLine
    exact (List.tail_suffix _).length_le.trans (List.dropWhile_suffix _).length_le
  | locks w =>
    obtain ⟨-, hw, rfl⟩ := h
    exact (length_skipSpace_le w.rest).trans (scanLong_length hw).le
  | task w optional =>
    obtain ⟨-, hw, hopt⟩ := h
    exact (lexOptional_length hopt).trans (scanTaskFields_length hw).le
  | group g w =>
    obtain ⟨-, hg, hw, rfl⟩ := h
    calc (skipSpace w.rest).length ≤ w.rest.length := length_skipSpace_le w.rest
      _ ≤ g.rest.length := (scanLong_length hw).le
      _ ≤ f.length := (scanLong_length hg).le

theorem lexItems_eq_some {rounds : Nat} {f : List Char} {items : List Item}
    (hf : f.length ≤ rounds) : lexItems rounds f = some items ↔ Lexed f items := by
  constructor
  · intro h
    induction rounds generalizing f items with
    | zero =>
      obtain rfl := List.length_eq_zero_iff.mp (Nat.le_zero.mp hf)
      cases h
      exact .nil
    | succ rounds ih =>
      cases f with
      | nil =>
        cases h
        exact .nil
      | cons c f =>
        obtain ⟨⟨item, f'⟩, hitem, h⟩ := Option.bind_eq_some_iff.mp h
        obtain ⟨items', hitems, heq⟩ := Option.map_eq_some_iff.mp h
        cases heq
        exact .cons hitem (ih ((lexItem_length hitem).trans (Nat.le_of_succ_le_succ hf)) hitems)
  · intro h
    induction h generalizing rounds with
    | nil => cases rounds <;> rfl
    | cons hitem _ ih =>
      cases rounds with
      | zero => cases hf
      | succ rounds =>
        have hlen := (lexItem_length hitem).trans (Nat.le_of_succ_le_succ hf)
        simp [lexItems, hitem, ih hlen]

/-- **Splitting a file** never stops for want of rounds. -/
theorem lex_eq_some {f : List Char} {items : List Item} : lex f = some items ↔ Lexed f items :=
  lexItems_eq_some le_rfl

section Loading

variable {σ : Type} (A : Allocator σ) (m : Machine)

def setHua (t : Task) : Option (Word Int) → Task
  | none => t
  | some hua => { t with huaUtility := toUInt hua.value }

def loadOptional (T : Tester σ) (t : Task) :
    Option (Word (List Char) × Option (Word Int)) → Except Stop (Tester σ)
  | none => .ok (addTask T t)
  | some (locks, hua) => do
    let (T, t) ← initTaskLocks A locks T t
    return addTask T (setHua t hua)

/-- What `init_task` does with the words of a task. -/
def loadTask (fields : TaskFields) (optional : Option (Word (List Char) × Option (Word Int)))
    (T : Tester σ) : Except Stop (Tester σ) := do
  let (T, t) ← newTask A T
  let (T, t) ← initTaskFields m fields T t
  loadOptional A T t optional

def loadItem (T : Tester σ) : Item → Except Stop (Tester σ)
  | .comment => .ok T
  | .locks count =>
    if T.numLocks = -1 then initializeTestLocks A { T with numLocks := toInt count.value }
    else .error (.fatal
      "Ill-formed taskset file: line doesn't begin with either '#', 'T', 'L', or 'G'.")
  | .task fields optional =>
    if T.numLocks < 0 then .error (.fatal
      "Ill-formed taskset file: the number of locks must preceed the first task definition.")
    else if T.seenGroup then .error (.fatal
      "Ill-formed taskset file: no task definition may follow any group line.")
    else loadTask A m fields optional T
  | .group threadGroup wss => initGroupFields m threadGroup wss { T with seenGroup := true }

/-! ## Reading is splitting and loading -/

variable {A m} {c : Char} {f f' : List Char} {T T' : Tester σ}

theorem readHua_eq_ok {t : Task} : readHua f T t = .ok (T', f') ↔
    ∃ hua, lexHua f = some (hua, f') ∧ addTask T (setHua t hua) = T' := by
  unfold readHua lexHua
  cases skipSpace f with
  | nil => simp [setHua, and_comm]
  | cons c f =>
    dsimp only
    split
    · simp [setHua, and_comm]
    · cases scanLong (c :: f) with
      | none => simp
      | some w => simp [setHua, and_comm]

theorem readOptional_eq_ok {t : Task} : readOptional A f T t = .ok (T', f') ↔
    ∃ optional, lexOptional f = some (optional, f') ∧ loadOptional A T t optional = .ok T' := by
  unfold readOptional lexOptional
  cases skipSpace f with
  | nil => simp [loadOptional, and_comm]
  | cons c f =>
    dsimp only
    split
    · simp [loadOptional, and_comm]
    · cases scanString (c :: f) with
      | none => simp
      | some w =>
        cases hw : initTaskLocks A w T t with
        | error e =>
          simp [bind_eq_ok, hw, loadOptional]
        | ok p =>
          simp [bind_eq_ok, hw, loadOptional, readHua_eq_ok]

theorem initTask_eq_ok : initTask A m f T = .ok (T', f') ↔
    ∃ fields, scanTaskFields f = some fields ∧ ∃ optional,
      lexOptional fields.utility.rest = some (optional, f') ∧
        loadTask A m fields optional T = .ok T' := by
  unfold initTask loadTask
  cases scanTaskFields f with
  | none => simp [bind_eq_ok]
  | some fields =>
    simp only [bind_eq_ok, readOptional_eq_ok, Option.some.injEq, exists_eq_left']
    constructor
    · rintro ⟨p, hp, q, hq, optional, hlex, hload⟩
      exact ⟨optional, hlex, p, hp, q, hq, hload⟩
    · rintro ⟨optional, hlex, p, hp, q, hq, hload⟩
      exact ⟨p, hp, q, hq, optional, hlex, hload⟩

theorem initGroup_eq_ok : initGroup m f T = .ok (T', f') ↔
    ∃ p, scanGroupFields f = some p ∧ skipSpace p.2.rest = f' ∧
      initGroupFields m p.1 p.2 T = .ok T' := by
  unfold initGroup
  cases scanGroupFields f with
  | none => simp
  | some p =>
    simp [bind_eq_ok, pure, Except.pure]
    tauto

/-- One round of the loop reads an entry and loads it. -/
theorem readEntry_eq_ok : readEntry A m c f T = .ok (T', f') ↔
    ∃ item, lexItem c f = some (item, f') ∧ loadItem A m T item = .ok T' := by
  unfold readEntry lexItem
  by_cases hcomment : c = '#'
  · simp [hcomment, loadItem, and_comm]
  by_cases hL : c = 'L'
  · subst hL
    by_cases hn : T.numLocks = -1
    · cases scanLong f with
      | none => simp [hn]
      | some w =>
        simp [hn, loadItem, bind_eq_ok, pure, Except.pure]
        tauto
    · simp [hn, loadItem]
  by_cases hT : c = 'T'
  · subst hT
    simp only [hcomment, if_false, hL, false_and, if_true]
    by_cases hn : T.numLocks < 0
    · simp [hn, loadItem, Option.bind_eq_some_iff]
    · by_cases hg : T.seenGroup
      · simp [hn, hg, loadItem, Option.bind_eq_some_iff]
      · simp only [hn, if_false, hg, Bool.false_eq_true, initTask_eq_ok, Option.bind_eq_some_iff,
          Option.map_eq_some_iff, Prod.mk.injEq]
        constructor
        · rintro ⟨fields, hf, optional, ho, hload⟩
          exact ⟨.task fields optional, ⟨fields, hf, _, ho, rfl, rfl⟩, by simpa [loadItem, hn, hg]⟩
        · rintro ⟨_, ⟨fields, hf, ⟨optional, f''⟩, ho, rfl, rfl⟩, hload⟩
          exact ⟨fields, hf, optional, ho, by simpa [loadItem, hn, hg] using hload⟩
  by_cases hG : c = 'G'
  · subst hG
    simp only [hcomment, hL, hT, if_false, false_and, if_true, initGroup_eq_ok,
      Option.map_eq_some_iff, Prod.mk.injEq]
    constructor
    · rintro ⟨p, hp, hrest, hload⟩
      exact ⟨.group p.1 p.2, ⟨p, hp, rfl, hrest⟩, hload⟩
    · rintro ⟨_, ⟨p, hp, rfl, hrest⟩, hload⟩
      exact ⟨p, hp, hrest, hload⟩
  · simp [hcomment, hL, hT, hG]

/-- The loop reads entries and loads them one after another. -/
theorem readEntries_eq_ok {rounds : Nat} : readEntries A m rounds f T = .ok T' ↔
    ∃ items, lexItems rounds f = some items ∧ items.foldlM (loadItem A m) T = .ok T' := by
  induction rounds generalizing f T with
  | zero =>
    cases f with
    | nil => simp [readEntries, lexItems, pure, Except.pure]
    | cons c f => simp [readEntries, lexItems]
  | succ rounds ih =>
    cases f with
    | nil => simp [readEntries, lexItems, pure, Except.pure]
    | cons c f =>
      simp only [readEntries, lexItems, bind_eq_ok, Prod.exists, readEntry_eq_ok, ih,
        Option.bind_eq_some_iff, Option.map_eq_some_iff]
      constructor
      · rintro ⟨T₁, f₁, ⟨item, hlex, hload⟩, items, hitems, hfold⟩
        exact ⟨item :: items, ⟨item, f₁, hlex, items, hitems, rfl⟩,
          foldlM_cons_eq_ok.mpr ⟨T₁, hload, hfold⟩⟩
      · rintro ⟨_, ⟨item, f₁, hlex, items, hitems, rfl⟩, hfold⟩
        obtain ⟨T₁, hload, hfold⟩ := foldlM_cons_eq_ok.mp hfold
        exact ⟨T₁, f₁, ⟨item, hlex, hload⟩, items, hitems, hfold⟩

/-- The state in which the loop starts. -/
def beginTasks (A : Allocator σ) (m : Machine) (T : Tester σ) : Except Stop (Tester σ) := do
  let T ← allocate A (.fatal "Failed to allocate memory.") (sizeofLong * m.numProcessors) T
  return { T with domainMasks := List.replicate m.numProcessors 0, seenGroup := false }

/-- **`init_tasks` accepts** exactly the files that are split into entries that can
all be loaded. -/
theorem initTasks_eq_ok : initTasks A m (some f) T = .ok T' ↔
    ∃ items, lex f = some items ∧ ∃ T₁, beginTasks A m T = .ok T₁ ∧
      ∃ T₂, items.foldlM (loadItem A m) T₁ = .ok T₂ ∧ finishTasks A m T₂ = .ok T' := by
  unfold initTasks beginTasks lex
  simp only [bind_eq_ok, readEntries_eq_ok, pure, Except.pure, Except.ok.injEq]
  constructor
  · rintro ⟨T₁, h₁, T₂, ⟨items, hlex, hfold⟩, hfinish⟩
    exact ⟨items, hlex, _, ⟨T₁, h₁, rfl⟩, T₂, hfold, hfinish⟩
  · rintro ⟨items, hlex, _, ⟨T₁, h₁, rfl⟩, T₂, hfold, hfinish⟩
    exact ⟨T₁, h₁, T₂, ⟨items, hlex, hfold⟩, hfinish⟩

end Loading

end Chronos.Taskset
