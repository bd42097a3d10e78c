import Chronos.Taskset.Render

/-!
# Loading the entries of a taskset

What `init_tasks` makes of words that were written for a taskset: lists become
masks and locks, numbers become fields, and the tasks get leaders, whose groups get
sizes.
-/

namespace Chronos.Taskset

open Lib

/-! ## Numbers in a list -/

theorem atoi_eq {digits : List Char} (h : Nat.ofDigitChars 10 digits 0 < 2 ^ 31) :
    atoi digits = Nat.ofDigitChars 10 digits 0 := by
  have hsat : saturate (Nat.ofDigitChars 10 digits 0 : Int) = Nat.ofDigitChars 10 digits 0 :=
    saturate_eq_self (by omega) (by omega)
  simp only [atoi, strtol, Bool.false_eq_true, if_false, hsat]
  exact toInt_eq_self (by omega) (by omega)

theorem atoi_toDigits {i : Nat} (h : i < 2 ^ 31) : atoi (Nat.toDigits 10 i) = i := by
  rw [atoi_eq (by rwa [Nat.ofDigitChars_ten_toDigits]), Nat.ofDigitChars_ten_toDigits]

theorem length_toDigits_lt {i : Nat} (h : i < 2 ^ 31) : (Nat.toDigits 10 i).length + 1 < tmpSize := by
  have hlen := (Nat.length_toDigits_le_iff (b := 10) (n := i) (k := 10) (by norm_num) (by norm_num)).mpr
    (by omega)
  unfold tmpSize
  omega

theorem listDigits_append {digits acc s : List Char} (h : ∀ c ∈ digits, c.isDigit = true) :
    listDigits acc (digits ++ s) = listDigits (acc ++ digits) s := by
  induction digits generalizing acc with
  | nil => simp
  | cons c digits ih =>
    have hc : c.isDigit = true := h c List.mem_cons_self
    have ih : listDigits (acc ++ [c]) (digits ++ s) = listDigits (acc ++ [c] ++ digits) s :=
      ih fun d hd => h d (List.mem_cons_of_mem c hd)
    simp [listDigits, hc, ih]

namespace Ids

theorem listDigits_text (first : Nat) (more : List Nat) :
    listDigits [] (listed first more).text = (first :: more).map (Nat.toDigits 10) := by
  unfold text
  induction more generalizing first with
  | nil =>
    rw [listDigits_append fun c hc => isDigit_of_mem_toDigits hc]
    rfl
  | cons i more ih =>
    rw [listDigits_append fun c hc => isDigit_of_mem_toDigits hc]
    simpa [listDigits] using ih i

theorem saysAll_text (l : Ids) : saysAll l.text = decide (l = .all) := by
  cases l with
  | all => rfl
  | listed first more =>
    obtain ⟨d, digits, hl⟩ :=
      List.exists_cons_of_ne_nil (Nat.toDigits_ne_nil (n := first) (b := 10))
    have hd : d.isDigit = true := isDigit_of_mem_toDigits (hl ▸ List.mem_cons_self)
    have hne : d ≠ 'a' := by
      rintro rfl
      cases hd
    simp [saysAll, text, hl, hne]

variable {l : Ids} {n : Nat}

/-- **The locks of a list** are found again. -/
theorem lockIds_text (h : ∀ i ∈ l.toList n, i < 2 ^ 31) :
    lockIds n l.text = (l.toList n).map Int.ofNat := by
  unfold lockIds
  rw [saysAll_text]
  cases l with
  | all => simp [toList]
  | listed first more =>
    rw [listDigits_text, List.map_map]
    simp only [reduceCtorEq, decide_false, Bool.false_eq_true, if_false]
    apply List.map_congr_left
    intro i hi
    exact atoi_toDigits (h i hi)

theorem listReadable_text (h : ∀ i ∈ l.toList n, i < 2 ^ 31) :
    ListReadable l.text ↔ l.text.length < tokenSize := by
  unfold ListReadable
  rw [saysAll_text]
  cases l with
  | all => simp
  | listed first more =>
    rw [listDigits_text]
    simp only [reduceCtorEq, decide_false, Bool.false_eq_true, false_or, and_iff_left_iff_imp]
    intro _ digits hdigits
    obtain ⟨i, hi, rfl⟩ := List.mem_map.mp hdigits
    exact length_toDigits_lt (h i hi)

end Ids

/-! ## Masks -/

theorem foldl_or_eq_maskOf (l : List Nat) :
    l.foldl (fun mask i => mask ||| 2 ^ i) 0 = maskOf l.toFinset := by
  have hfold (mask j : Nat) : (l.foldl (fun mask i => mask ||| 2 ^ i) mask).testBit j =
      (mask.testBit j || decide (j ∈ l)) := by
    induction l generalizing mask with
    | nil => simp
    | cons i l ih =>
      simp only [List.foldl_cons, ih, Nat.testBit_or, Nat.testBit_two_pow, List.mem_cons]
      grind
  apply Nat.eq_of_testBit_eq
  intro j
  rw [hfold, testBit_maskOf]
  simp

variable {m : Machine}

theorem cpuBit_eq {cpu : Nat} (h : cpu < 64) : cpuBit m cpu = 2 ^ cpu := by
  have hpos : (0 : ℚ) < 2 ^ cpu := by positivity
  have hlt : (2 : ℚ) ^ cpu < 2 ^ 64 := pow_lt_pow_right₀ (by norm_num) h
  have hfloor : ⌊(2 : ℚ) ^ cpu⌋ = ((2 ^ cpu : ℕ) : ℤ) := by
    rw [Int.floor_eq_iff]
    constructor
    · push_cast
      exact le_rfl
    · push_cast
      linarith
  unfold cpuBit Task.toUnsignedLong
  rw [if_pos ⟨by linarith, hlt⟩, hfloor, Int.toNat_natCast]

theorem addCpu_toDigits {mask i : Nat} (hm : m.numProcessors ≤ 64) (h : i < m.numProcessors) :
    addCpu m mask (Nat.toDigits 10 i) = .ok (mask ||| 2 ^ i) := by
  have hatoi : atoi (Nat.toDigits 10 i) = i := atoi_toDigits (by omega)
  have hlen := length_toDigits_lt (i := i) (by omega)
  have hi : toUInt (i : Int) = i := by
    unfold toUInt
    omega
  unfold addCpu
  rw [if_neg (by omega), hatoi, hi, if_neg (by omega), cpuBit_eq (by omega)]

theorem foldlM_addCpu {ids : List Nat} (hm : m.numProcessors ≤ 64)
    (h : ∀ i ∈ ids, i < m.numProcessors) (mask : Nat) :
    (ids.map (Nat.toDigits 10)).foldlM (addCpu m) mask =
      .ok (ids.foldl (fun mask i => mask ||| 2 ^ i) mask) := by
  induction ids generalizing mask with
  | nil => rfl
  | cons i ids ih =>
    rw [List.map_cons, foldlM_cons_eq_ok]
    exact ⟨_, addCpu_toDigits hm (h i List.mem_cons_self),
      ih (fun j hj => h j (List.mem_cons_of_mem i hj)) _⟩

/-- **The processors of a list** are the bits of its mask. -/
theorem cpuMask_text {l : Ids} (hm : m.numProcessors ≤ 64)
    (h : ∀ i ∈ l.toList m.numProcessors, i < m.numProcessors) :
    cpuMask m l.text = .ok (maskOf (l.toList m.numProcessors).toFinset) := by
  unfold cpuMask
  rw [Ids.saysAll_text]
  cases l with
  | all =>
    have hbits : (List.range m.numProcessors).foldl (fun mask i => mask ||| cpuBit m i) 0 =
        (List.range m.numProcessors).foldl (fun mask i => mask ||| 2 ^ i) 0 := by
      apply List.foldl_ext
      intro mask i hi
      rw [cpuBit_eq ((h i hi).trans_le hm)]
    simp only [decide_true, if_true, hbits, foldl_or_eq_maskOf]
    rfl
  | listed first more =>
    rw [Ids.listDigits_text, ← foldl_or_eq_maskOf]
    exact foldlM_addCpu hm h 0

/-! ## Domains -/

/-- The domains in use are different sets out of `masks`; the others are free. -/
def DomainsFrom (masks : Finset Nat) (numProcessors : Nat) (domainMasks : List Nat) : Prop :=
  ∃ used, domainMasks = used ++ List.replicate (numProcessors - used.length) 0 ∧ used.Nodup ∧
    (∀ d ∈ used, d ≠ 0) ∧ ∀ d ∈ used, d ∈ masks

theorem addDomainMask_append {mask : Nat} {used : List Nat} (h : mask ∉ used)
    (hused : ∀ d ∈ used, d ≠ 0) (free : List Nat) :
    addDomainMask mask (used ++ free) = (addDomainMask mask free).map (used ++ ·) := by
  induction used with
  | nil => simp
  | cons d used ih =>
    have hd : d ≠ mask := by
      rintro rfl
      exact h List.mem_cons_self
    have hd0 := hused d List.mem_cons_self
    rw [List.cons_append, addDomainMask, if_neg hd, if_neg hd0,
      ih (fun hm => h (List.mem_cons_of_mem d hm)) fun e he => hused e (List.mem_cons_of_mem d he)]
    simp [Function.comp_def]

theorem addDomainMask_of_mem {mask : Nat} {used : List Nat} (h : mask ∈ used)
    (hused : ∀ d ∈ used, d ≠ 0) (free : List Nat) :
    addDomainMask mask (used ++ free) = some (used ++ free) := by
  induction used with
  | nil => cases h
  | cons d used ih =>
    have hd0 := hused d List.mem_cons_self
    by_cases hd : d = mask
    · rw [List.cons_append, addDomainMask, if_pos hd]
    · have hmem : mask ∈ used := by
        rcases List.mem_cons.mp h with rfl | hmem
        · exact absurd rfl hd
        · exact hmem
      rw [List.cons_append, addDomainMask, if_neg hd, if_neg hd0,
        ih hmem fun e he => hused e (List.mem_cons_of_mem d he)]
      rfl

/-- **There is a domain for a task** while there are no more sets than processors. -/
theorem DomainsFrom.add {masks : Finset Nat} {numProcessors mask : Nat} {domainMasks : List Nat}
    (h : DomainsFrom masks numProcessors domainMasks) (hmask : mask ∈ masks) (hne : mask ≠ 0)
    (hcard : masks.card ≤ numProcessors) :
    ∃ domainMasks', addDomainMask mask domainMasks = some domainMasks' ∧
      DomainsFrom masks numProcessors domainMasks' := by
  obtain ⟨used, rfl, hnodup, hused, hsub⟩ := h
  by_cases hmem : mask ∈ used
  · exact ⟨_, addDomainMask_of_mem hmem hused _, used, rfl, hnodup, hused, hsub⟩
  · have hnew : (used ++ [mask]).Nodup := by
      rw [← List.concat_eq_append]
      exact List.Nodup.concat hmem hnodup
    have hsub' : ∀ d ∈ used ++ [mask], d ∈ masks :=
      List.forall_mem_append.mpr ⟨hsub, List.forall_mem_singleton.mpr hmask⟩
    have hlen : used.length + 1 ≤ numProcessors := by
      have hle : (used ++ [mask]).toFinset.card ≤ masks.card :=
        Finset.card_le_card fun d hd => hsub' d (List.mem_toFinset.mp hd)
      rw [List.toFinset_card_of_nodup hnew, List.length_append, List.length_singleton] at hle
      exact hle.trans hcard
    obtain ⟨k, hk⟩ : ∃ k, numProcessors - used.length = k + 1 :=
      ⟨numProcessors - used.length - 1, by omega⟩
    refine ⟨used ++ mask :: List.replicate k 0, ?_, used ++ [mask], ?_, hnew, ?_, hsub'⟩
    · rw [addDomainMask_append hmem hused, hk, List.replicate_succ, addDomainMask, if_neg hne.symm,
        if_pos rfl]
      rfl
    · have hk' : numProcessors - (used ++ [mask]).length = k := by
        rw [List.length_append, List.length_singleton]
        omega
      rw [hk']
      simp
    · exact List.forall_mem_append.mpr ⟨hused, List.forall_mem_singleton.mpr hne⟩

/-! ## Tasks -/

/-- A task as it is read: `%ld` saturates. -/
def TaskSpec.read (t : TaskSpec) : TaskSpec :=
  { t with period := min t.period (2 ^ 63 - 1), execTime := min t.execTime (2 ^ 63 - 1) }

/-- The requests for a task. -/
def TaskSpec.requests (numLocks : Nat) (t : TaskSpec) : List Nat :=
  match t.optional with
  | none => [sizeofTask]
  | some _ => [sizeofTask, sizeofPointer * numLocks]

/-- The lists of a task fit the buffers that they are read into. -/
def TaskSpec.ListsFit (t : TaskSpec) : Prop :=
  t.cpus.text.length < tokenSize ∧ ∀ p ∈ t.optional, p.1.text.length < tokenSize

theorem toULong_saturate (n : Nat) : toULong (saturate n) = min n (2 ^ 63 - 1) := by
  unfold toULong saturate
  omega

theorem toUInt_saturate {n : Nat} (h : n < 2 ^ 32) : toUInt (saturate n) = n := by
  unfold toUInt saturate
  omega

theorem setPeriodTs_eq (t : Task) : t.setPeriodTs =
    { t with periodTs := ⟨t.period / MILLION, t.period % MILLION * THOUSAND⟩ } := by
  have hns : (t.period * THOUSAND - t.period / MILLION * MILLION * THOUSAND) % 2 ^ 64 =
      t.period % MILLION * THOUSAND := by
    simp only [MILLION, THOUSAND]
    omega
  unfold Task.setPeriodTs
  rw [hns]

section Loading

variable {ts : TasksetSpec m.numProcessors}

theorem setFields_eq {t : TaskSpec} {w : TaskFields}
    {optional : Option (Word (List Char) × Option (Word Int))}
    (ht : t.InRange m.numProcessors ts.numLocks) (hreads : t.Reads w optional) :
    setFields m w freshTask = { freshTask with
      threadGroup := t.threadGroup
      taskWss := clampWss (m.workload.capabilities &&& WORKLOAD_CAP_TASK_WSS ≠ 0)
        m.workload.minTaskWss m.workload.maxTaskWss t.wss
      period := t.read.period
      execTime := t.read.execTime
      utility := t.utility } := by
  unfold setFields TaskSpec.read
  rw [hreads.threadGroup, hreads.taskWss, hreads.period, hreads.execTime, hreads.utility,
    toUInt_saturate ht.threadGroup, toUInt_saturate ht.utility, toULong_saturate, toULong_saturate,
    saturate_eq_self ht.wss.1 ht.wss.2]

theorem groupWss_nil (threadGroup : Nat) : TasksetSpec.groupWss m [] threadGroup = -1 := rfl

/-- **The fields of a task** are those of its line, as they are read. -/
theorem taskOf_eq {t : TaskSpec} {w : TaskFields}
    {optional : Option (Word (List Char) × Option (Word Int))} (hn : ts.numLocks < 2 ^ 31)
    (ht : t.InRange m.numProcessors ts.numLocks) (hreads : t.Reads w optional) (index : Nat) :
    taskOf m ts.numLocks w (maskOf (t.cpuSet m.numProcessors)) optional =
      { ts.toTask m [] index t.read with groupLeader := 0 } := by
  have hopt := hreads.optional
  have hlocks := ht.locks.2
  have hhua := ht.huaUtility
  unfold TasksetSpec.toTask TaskSpec.locks TaskSpec.huaUtility taskOf
  unfold TaskSpec.locks at hlocks
  unfold TaskSpec.huaUtility at hhua
  rw [setFields_eq ht hreads, setPeriodTs_eq, groupWss_nil, ite_self]
  have hread : t.read.optional = t.optional := rfl
  rw [hread]
  have hids {l : Ids} (hl : ∀ i ∈ l.toList ts.numLocks, i < ts.numLocks) :
      lockIds ts.numLocks l.text = (l.toList ts.numLocks).map Int.ofNat :=
    Ids.lockIds_text fun i hi => (hl i hi).trans hn
  generalize t.optional = spec at *
  rcases spec with - | ⟨l, hua⟩
  · obtain rfl : optional = none := by simpa using hopt
    rfl
  · obtain ⟨⟨w, whua⟩, rfl, hw⟩ := Option.map_eq_some_iff.mp hopt
    simp only [Prod.mk.injEq] at hw
    dsimp only
    rw [hw.1, hids hlocks]
    cases hua with
    | none =>
      obtain rfl : whua = none := by simpa using hw.2
      rfl
    | some h =>
      obtain ⟨w', rfl, hw'⟩ := Option.map_eq_some_iff.mp hw.2
      simp only [setHua, hw', toUInt_saturate hhua]
      rfl

/-- The tasks made of the lines read so far, in the order of the file. -/
def tasksRead (ts : TasksetSpec m.numProcessors) (groups : List GroupSpec) (lines : List TaskSpec) :
    List Task := lines.mapIdx fun i t => ts.toTask m groups i t.read

theorem length_tasksRead {groups : List GroupSpec} {lines : List TaskSpec} :
    (tasksRead ts groups lines).length = lines.length := List.length_mapIdx

theorem mem_tasksRead {groups : List GroupSpec} {lines : List TaskSpec} {t : Task}
    (h : t ∈ tasksRead ts groups lines) :
    ∃ line ∈ lines, t.threadGroup = line.threadGroup ∧ t.groupLeader = ts.leader line.threadGroup := by
  obtain ⟨i, hi, rfl⟩ := List.mem_mapIdx.mp h
  exact ⟨lines[i], List.getElem_mem hi, rfl, rfl⟩

/-- **The leader of a group** is found among the tasks read before. -/
theorem initGroupLeader_eq {lines rest : List TaskSpec} {line : TaskSpec}
    (hts : ts.tasks = lines ++ line :: rest) :
    initGroupLeader (tasksRead ts [] lines).reverse
        { ts.toTask m [] lines.length line.read with groupLeader := 0 } =
      ts.toTask m [] lines.length line.read := by
  unfold initGroupLeader
  cases hfind : (tasksRead ts [] lines).reverse.find? fun t =>
      t.threadGroup = { ts.toTask m [] lines.length line.read with groupLeader := 0 }.threadGroup with
  | some curr =>
    obtain ⟨l, -, hgroup, hleader⟩ := mem_tasksRead (List.mem_reverse.mp (List.mem_of_find?_eq_some hfind))
    have hcurr := List.find?_some hfind
    have hsame : l.threadGroup = line.threadGroup := hgroup.symm.trans (of_decide_eq_true hcurr)
    dsimp only
    rw [hleader, hsame]
    rfl
  | none =>
    have hnone : ∀ l ∈ lines, l.threadGroup ≠ line.threadGroup := by
      intro l hl hsame
      obtain ⟨i, hi, rfl⟩ := List.mem_iff_getElem.mp hl
      have hmem : ts.toTask m [] i lines[i].read ∈ (tasksRead ts [] lines).reverse :=
        List.mem_reverse.mpr (List.mem_mapIdx.mpr ⟨i, hi, rfl⟩)
      exact List.find?_eq_none.mp hfind _ hmem (decide_eq_true hsame)
    have hleader : ts.leader line.threadGroup = lines.length := by
      unfold TasksetSpec.leader
      rw [hts, List.findIdx_append, if_neg]
      · simp [List.findIdx_cons]
      · rw [List.findIdx_lt_length]
        rintro ⟨l, hl, hsame⟩
        exact hnone l hl (by simpa using hsame)
    have hlen : (tasksRead ts [] lines).reverse.length = ts.leader line.threadGroup := by
      rw [hleader]
      simp [tasksRead]
    dsimp only
    rw [hlen]
    rfl

variable {σ : Type} {A : Allocator σ} {T T' : Tester σ}

/-- The masks of a taskset. -/
def masks (ts : TasksetSpec m.numProcessors) : Finset Nat :=
  ((ts.tasks.map (·.cpuSet m.numProcessors)).toFinset).image maskOf

/-- The state of the reader after some task lines. -/
structure TasksState (ts : TasksetSpec m.numProcessors) (lines : List TaskSpec) (T : Tester σ) :
    Prop where
  numLocks : T.numLocks = ts.numLocks
  seenGroup : T.seenGroup = false
  domains : DomainsFrom (masks ts) m.numProcessors T.domainMasks
  taskList : T.taskList = (tasksRead ts [] lines).reverse

/-- The masks of the tasks that are in a task line. -/
theorem cpuSet_nonempty {t : TaskSpec} (hpos : 0 < m.numProcessors) :
    (t.cpuSet m.numProcessors).Nonempty := by
  unfold TaskSpec.cpuSet Ids.toList
  rw [List.toFinset_nonempty_iff]
  cases t.cpus with
  | all => simpa using hpos.ne'
  | listed first more => simp

theorem processors_pos (ts : TasksetSpec m.numProcessors) : 0 < m.numProcessors := by
  obtain ⟨t, tasks, ht⟩ := List.exists_cons_of_ne_nil ts.tasks_ne_nil
  have hmem : t.cpuSet m.numProcessors ∈ (ts.tasks.map (·.cpuSet m.numProcessors)).toFinset := by
    rw [ht]
    simp
  exact (Finset.card_pos.mpr ⟨_, hmem⟩).trans_le ts.cpuSets_le

theorem card_masks_le (ts : TasksetSpec m.numProcessors) : (masks ts).card ≤ m.numProcessors :=
  Finset.card_image_le.trans ts.cpuSets_le

theorem taskRequests_eq {t : TaskSpec} {w : TaskFields}
    {optional : Option (Word (List Char) × Option (Word Int))} (hn : ts.numLocks < 2 ^ 31)
    (hreads : t.Reads w optional) :
    taskRequests ts.numLocks optional = t.requests ts.numLocks := by
  have hopt := congrArg Option.isSome hreads.optional
  have hsize : toULong (sizeofPointer * ts.numLocks) = sizeofPointer * ts.numLocks := by
    simp only [toULong, sizeofPointer]
    omega
  unfold taskRequests TaskSpec.requests
  cases optional with
  | none =>
    cases ht : t.optional with
    | none => rfl
    | some p => simp [ht] at hopt
  | some p =>
    cases ht : t.optional with
    | none => simp [ht] at hopt
    | some q =>
      dsimp only
      rw [hsize]

theorem listsFit_iff {t : TaskSpec} {w : TaskFields}
    {optional : Option (Word (List Char) × Option (Word Int))} (hn : ts.numLocks < 2 ^ 31)
    (ht : t.InRange m.numProcessors ts.numLocks) (hreads : t.Reads w optional) :
    t.ListsFit ↔ w.cpus.value.length < tokenSize ∧ ∀ p ∈ optional, ListReadable p.1.value := by
  have hopt := hreads.optional
  have hlocks := ht.locks.2
  unfold TaskSpec.ListsFit
  unfold TaskSpec.locks at hlocks
  rw [hreads.cpus]
  generalize t.optional = spec at *
  rcases spec with - | ⟨l, hua⟩
  · obtain rfl : optional = none := by simpa using hopt
    simp
  · obtain ⟨⟨w', whua⟩, rfl, hw⟩ := Option.map_eq_some_iff.mp hopt
    simp only [Prod.mk.injEq] at hw
    simp only [Option.mem_def, Option.some.injEq, forall_eq', hw.1]
    rw [Ids.listReadable_text fun i hi => (hlocks i hi).trans hn]

/-- There is a domain for the next task line. -/
theorem TasksState.addDomain {lines rest : List TaskSpec} {line : TaskSpec}
    (h : TasksState ts lines T) (hts : ts.tasks = lines ++ line :: rest) :
    ∃ domainMasks,
      addDomainMask (maskOf (line.cpuSet m.numProcessors)) T.domainMasks = some domainMasks ∧
        DomainsFrom (masks ts) m.numProcessors domainMasks := by
  have hmem : maskOf (line.cpuSet m.numProcessors) ∈ masks ts := by
    apply Finset.mem_image_of_mem
    rw [hts]
    simp
  exact h.domains.add hmem (maskOf_ne_zero (cpuSet_nonempty (processors_pos ts))) (card_masks_le ts)

theorem TasksState.load_eq_ok {lines rest : List TaskSpec} {line : TaskSpec} {w : TaskFields}
    {optional : Option (Word (List Char) × Option (Word Int))} (h : TasksState ts lines T)
    (hn : ts.numLocks < 2 ^ 31) (hts : ts.tasks = lines ++ line :: rest)
    (hreads : line.Reads w optional) :
    loadItem A m T (.task w optional) = .ok T' ↔
      line.ListsFit ∧ ∃ domainMasks heap,
        addDomainMask (maskOf (line.cpuSet m.numProcessors)) T.domainMasks = some domainMasks ∧
        A.serve T.heap (line.requests ts.numLocks) = some heap ∧
        T' = { T with
          domainMasks, heap, taskList := (tasksRead ts [] (lines ++ [line])).reverse } := by
  have hmem : line ∈ ts.tasks := by
    rw [hts]
    simp
  have ht := ts.inRange line hmem
  have hmask : cpuMask m w.cpus.value = .ok (maskOf (line.cpuSet m.numProcessors)) := by
    rw [hreads.cpus]
    exact cpuMask_text ts.processors_le ht.cpus
  have hlist : (tasksRead ts [] (lines ++ [line])).reverse =
      ts.toTask m [] lines.length line.read :: (tasksRead ts [] lines).reverse := by
    unfold tasksRead
    rw [List.mapIdx_concat, List.reverse_append]
    rfl
  have hadd (domainMasks : List Nat) (heap : σ) :
      addTask { T with domainMasks, heap }
          (taskOf m ts.numLocks w (maskOf (line.cpuSet m.numProcessors)) optional) =
        { T with domainMasks, heap, taskList := (tasksRead ts [] (lines ++ [line])).reverse } := by
    unfold addTask
    rw [taskOf_eq hn ht hreads lines.length]
    dsimp only
    rw [h.taskList, initGroupLeader_eq hts, hlist]
  simp only [h.numLocks, h.seenGroup] at hadd
  rw [loadItem_task_eq_ok, loadTask_eq_ok, h.numLocks, h.seenGroup, listsFit_iff hn ht hreads,
    taskRequests_eq hn hreads]
  constructor
  · rintro ⟨-, -, hlen, hread, mask, domainMasks, heap, hcpus, -, hdomain, hheap, rfl⟩
    rw [hmask] at hcpus
    cases hcpus
    exact ⟨⟨hlen, hread⟩, domainMasks, heap, hdomain, hheap, hadd domainMasks heap⟩
  · rintro ⟨⟨hlen, hread⟩, domainMasks, heap, hdomain, hheap, rfl⟩
    exact ⟨by omega, rfl, hlen, hread, _, domainMasks, heap, hmask,
      maskOf_ne_zero (cpuSet_nonempty (processors_pos ts)), hdomain, hheap,
      (hadd domainMasks heap).symm⟩

/-- A task line keeps the state. -/
theorem TasksState.next {lines rest : List TaskSpec} {line : TaskSpec} {w : TaskFields}
    {optional : Option (Word (List Char) × Option (Word Int))} (h : TasksState ts lines T)
    (hn : ts.numLocks < 2 ^ 31) (hts : ts.tasks = lines ++ line :: rest)
    (hreads : line.Reads w optional) (hload : loadItem A m T (.task w optional) = .ok T') :
    TasksState ts (lines ++ [line]) T' := by
  obtain ⟨-, domainMasks, heap, hdomain, -, rfl⟩ := (h.load_eq_ok hn hts hreads).mp hload
  obtain ⟨domainMasks', hdomain', hfrom⟩ := h.addDomain hts
  rw [hdomain] at hdomain'
  cases hdomain'
  exact ⟨h.numLocks, h.seenGroup, hfrom, rfl⟩

/-- **A task line is loaded** when its lists fit and its requests are served. -/
theorem TasksState.load_iff {lines rest : List TaskSpec} {line : TaskSpec} {w : TaskFields}
    {optional : Option (Word (List Char) × Option (Word Int))} (h : TasksState ts lines T)
    (hn : ts.numLocks < 2 ^ 31) (hts : ts.tasks = lines ++ line :: rest)
    (hreads : line.Reads w optional) (heap : σ) :
    (∃ T', loadItem A m T (.task w optional) = .ok T' ∧ T'.heap = heap) ↔
      line.ListsFit ∧ A.serve T.heap (line.requests ts.numLocks) = some heap := by
  constructor
  · rintro ⟨T', hload, rfl⟩
    obtain ⟨hfit, domainMasks, heap, -, hheap, rfl⟩ := (h.load_eq_ok hn hts hreads).mp hload
    exact ⟨hfit, hheap⟩
  · rintro ⟨hfit, hheap⟩
    obtain ⟨domainMasks, hdomain, -⟩ := h.addDomain hts
    exact ⟨_, (h.load_eq_ok hn hts hreads).mpr ⟨hfit, domainMasks, heap, hdomain, hheap, rfl⟩, rfl⟩

/-- **The task lines are loaded** when all their lists fit and all their requests are
served. -/
theorem TasksState.loadAll {lines rest : List TaskSpec} {items : List Item}
    (hreads : List.Forall₂ Entry.Reads (rest.map .task) items) (h : TasksState ts lines T)
    (hn : ts.numLocks < 2 ^ 31) (hts : ts.tasks = lines ++ rest) :
    (∀ T', items.foldlM (loadItem A m) T = .ok T' → TasksState ts ts.tasks T') ∧
      ∀ heap, (∃ T', items.foldlM (loadItem A m) T = .ok T' ∧ T'.heap = heap) ↔
        (∀ line ∈ rest, line.ListsFit) ∧
          A.serve T.heap (rest.flatMap (·.requests ts.numLocks)) = some heap := by
  induction rest generalizing lines items T with
  | nil =>
    cases hreads
    rw [List.append_nil] at hts
    constructor
    · intro T' hfold
      rw [foldlM_nil_eq_ok] at hfold
      rwa [← hfold, hts]
    · intro heap
      simp only [foldlM_nil_eq_ok, Allocator.serve, List.flatMap_nil, List.not_mem_nil]
      simp
  | cons line rest ih =>
    obtain ⟨item, items, hread, hrest, rfl⟩ := List.forall₂_cons_left_iff.mp hreads
    have hts' : ts.tasks = lines ++ [line] ++ rest := by simp [hts]
    cases item with
    | comment => cases hread
    | locks _ => cases hread
    | group _ _ => cases hread
    | task w optional =>
      constructor
      · intro T' hfold
        obtain ⟨T₁, hload, hfold⟩ := foldlM_cons_eq_ok.mp hfold
        exact (ih hrest (h.next hn hts hread hload) hts').1 T' hfold
      · intro heap
        rw [List.flatMap_cons, Allocator.serve_append, List.forall_mem_cons]
        constructor
        · rintro ⟨T', hfold, rfl⟩
          obtain ⟨T₁, hload, hfold⟩ := foldlM_cons_eq_ok.mp hfold
          have hnext := h.next hn hts hread hload
          obtain ⟨hfit, hserve⟩ := (h.load_iff hn hts hread T₁.heap).mp ⟨T₁, hload, rfl⟩
          obtain ⟨hfits, hserves⟩ := ((ih hrest hnext hts').2 T'.heap).mp ⟨T', hfold, rfl⟩
          exact ⟨⟨hfit, hfits⟩, by rw [hserve]; exact hserves⟩
        · rintro ⟨⟨hfit, hfits⟩, hserves⟩
          obtain ⟨heap₁, hserve, hserves⟩ := Option.bind_eq_some_iff.mp hserves
          obtain ⟨T₁, hload, rfl⟩ := (h.load_iff hn hts hread heap₁).mpr ⟨hfit, hserve⟩
          have hnext := h.next hn hts hread hload
          obtain ⟨T', hfold, hheap⟩ := ((ih hrest hnext hts').2 heap).mpr ⟨hfits, hserves⟩
          exact ⟨T', foldlM_cons_eq_ok.mpr ⟨T₁, hload, hfold⟩, hheap⟩

/-! ## Groups -/

/-- The size of a working set is stored with the task at position `k`, when this is
the only leader of the group. -/
theorem setGroupWss_reverse {threadGroup k : Nat} {wss : Int} {tasks : List Task}
    (hk : k < tasks.length)
    (h : ∀ i (hi : i < tasks.length),
      tasks[i].groupLeader = i ∧ tasks[i].threadGroup = threadGroup ↔ i = k) :
    setGroupWss threadGroup wss tasks.reverse =
      some (tasks.mapIdx fun i t => if i = k then { t with groupWss := wss } else t).reverse := by
  induction tasks using List.reverseRecOn with
  | nil => cases hk
  | append_singleton tasks t ih =>
    have hlast := h tasks.length (by simp)
    have hinit : ∀ i (hi : i < tasks.length),
        tasks[i].groupLeader = i ∧ tasks[i].threadGroup = threadGroup ↔ i = k := by
      intro i hi
      have := h i (by simp; omega)
      rwa [List.getElem_append_left hi] at this
    simp only [List.getElem_concat_length] at hlast
    rw [List.reverse_append, List.reverse_singleton, List.singleton_append, setGroupWss,
      List.length_reverse, List.mapIdx_concat, List.reverse_append]
    simp only [hlast]
    by_cases hlen : tasks.length = k
    · have hrest : (tasks.mapIdx fun i t => if i = k then { t with groupWss := wss } else t) = tasks := by
        apply List.ext_getElem (by simp)
        intro i hi hi'
        rw [List.getElem_mapIdx, if_neg (by omega)]
      simp [hlen, hrest]
    · rw [List.length_append, List.length_singleton] at hk
      rw [if_neg hlen, ih (by omega) hinit]
      simp [hlen]

theorem groupWss_append (groups : List GroupSpec) (g : GroupSpec) (threadGroup : Nat) :
    TasksetSpec.groupWss m (groups ++ [g]) threadGroup =
      if g.threadGroup = threadGroup then
        clampWss (m.workload.capabilities &&& WORKLOAD_CAP_GROUP_WSS ≠ 0)
          m.workload.minGroupWss m.workload.maxGroupWss g.wss
      else TasksetSpec.groupWss m groups threadGroup := by
  unfold TasksetSpec.groupWss
  rw [List.filter_append]
  by_cases h : g.threadGroup = threadGroup <;> simp [h]

/-- A group line only changes the leader of its group. -/
theorem toTask_append (groups : List GroupSpec) (g : GroupSpec) (index : Nat) (t : TaskSpec) :
    ts.toTask m (groups ++ [g]) index t =
      if ts.leader t.threadGroup = index ∧ t.threadGroup = g.threadGroup then
        { ts.toTask m groups index t with
          groupWss := clampWss (m.workload.capabilities &&& WORKLOAD_CAP_GROUP_WSS ≠ 0)
            m.workload.minGroupWss m.workload.maxGroupWss g.wss }
      else ts.toTask m groups index t := by
  unfold TasksetSpec.toTask
  rw [groupWss_append]
  by_cases hlead : ts.leader t.threadGroup = index
  · by_cases hsame : t.threadGroup = g.threadGroup
    · rw [if_pos hlead, if_pos hsame.symm, if_pos ⟨hlead, hsame⟩]
    · have hboth : ¬(ts.leader t.threadGroup = index ∧ t.threadGroup = g.threadGroup) :=
        fun h => hsame h.2
      rw [if_neg (Ne.symm hsame), if_neg hboth]
  · have hboth : ¬(ts.leader t.threadGroup = index ∧ t.threadGroup = g.threadGroup) :=
      fun h => hlead h.1
    simp only [if_neg hlead, if_neg hboth]

/-- **A group line is loaded**: the size is stored with the leader of the group. -/
theorem setGroupWss_tasksRead {groups : List GroupSpec} {g : GroupSpec}
    (hoccurs : ∃ t ∈ ts.tasks, t.threadGroup = g.threadGroup) :
    setGroupWss g.threadGroup
        (clampWss (m.workload.capabilities &&& WORKLOAD_CAP_GROUP_WSS ≠ 0)
          m.workload.minGroupWss m.workload.maxGroupWss g.wss)
        (tasksRead ts groups ts.tasks).reverse =
      some (tasksRead ts (groups ++ [g]) ts.tasks).reverse := by
  have hk : ts.leader g.threadGroup < ts.tasks.length := by
    obtain ⟨t, ht, hsame⟩ := hoccurs
    exact List.findIdx_lt_length.mpr ⟨t, ht, by simpa using hsame⟩
  have hleader : ts.tasks[ts.leader g.threadGroup].threadGroup = g.threadGroup :=
    of_decide_eq_true (List.findIdx_getElem (w := hk))
  have hiff (i : Nat) (hi : i < ts.tasks.length) :
      ts.leader ts.tasks[i].threadGroup = i ∧ ts.tasks[i].threadGroup = g.threadGroup ↔
        i = ts.leader g.threadGroup := by
    constructor
    · rintro ⟨hlead, hsame⟩
      rw [← hsame, hlead]
    · rintro rfl
      rw [hleader]
      exact ⟨rfl, rfl⟩
  rw [setGroupWss_reverse (k := ts.leader g.threadGroup) (by simpa [tasksRead] using hk)]
  · congr 2
    apply List.ext_getElem (by simp [tasksRead])
    intro i hi hi'
    have hlen : i < ts.tasks.length := by simpa [tasksRead] using hi'
    have hi := hiff i hlen
    simp only [tasksRead, List.getElem_mapIdx]
    rw [toTask_append]
    have hread : ts.tasks[i].read.threadGroup = ts.tasks[i].threadGroup := rfl
    rw [hread]
    by_cases hlead : i = ts.leader g.threadGroup
    · rw [if_pos hlead, if_pos (hi.mpr hlead)]
    · rw [if_neg hlead, if_neg fun h => hlead (hi.mp h)]
  · intro i hi
    have hlen : i < ts.tasks.length := by simpa [tasksRead] using hi
    simp only [tasksRead, List.getElem_mapIdx]
    exact hiff i hlen

/-- The state of the reader after the task lines and some group lines. -/
structure GroupsState (ts : TasksetSpec m.numProcessors) (groups : List GroupSpec) (T : Tester σ) :
    Prop where
  numLocks : T.numLocks = ts.numLocks
  taskList : T.taskList = (tasksRead ts groups ts.tasks).reverse

theorem TasksState.groups (h : TasksState ts ts.tasks T) : GroupsState ts [] T :=
  ⟨h.numLocks, h.taskList⟩

/-- **The group lines are loaded**, without a request. -/
theorem GroupsState.loadAll {groups rest : List GroupSpec} {items : List Item}
    (hreads : List.Forall₂ Entry.Reads (rest.map .group) items) (h : GroupsState ts groups T)
    (hts : ts.groups = groups ++ rest) :
    ∃ T', items.foldlM (loadItem A m) T = .ok T' ∧ T'.heap = T.heap ∧
      GroupsState ts ts.groups T' := by
  induction rest generalizing groups items T with
  | nil =>
    cases hreads
    rw [List.append_nil] at hts
    exact ⟨T, rfl, rfl, hts ▸ h⟩
  | cons g rest ih =>
    obtain ⟨item, items, hread, hrest, rfl⟩ := List.forall₂_cons_left_iff.mp hreads
    have hmem : g ∈ ts.groups := by
      rw [hts]
      simp
    cases item with
    | comment => cases hread
    | locks _ => cases hread
    | task _ _ => cases hread
    | group w w' =>
      obtain ⟨t, ht, hsame⟩ := ts.groups_occur g hmem
      have hgroup : toUInt w.value = g.threadGroup := by
        rw [hread.1, toUInt_saturate (hsame ▸ (ts.inRange t ht).threadGroup)]
      have hwss : Taskset.groupWss m w' =
          clampWss (m.workload.capabilities &&& WORKLOAD_CAP_GROUP_WSS ≠ 0)
            m.workload.minGroupWss m.workload.maxGroupWss g.wss := by
        unfold Taskset.groupWss
        rw [hread.2, saturate_eq_self (ts.wss_range g hmem).1 (ts.wss_range g hmem).2]
      let T₁ : Tester σ := { T with
        taskList := (tasksRead ts (groups ++ [g]) ts.tasks).reverse, seenGroup := true }
      have hload : loadItem A m T (.group w w') = .ok T₁ := by
        refine loadItem_group_eq_ok.mpr ⟨_, ?_, rfl⟩
        rw [hgroup, hwss, h.taskList, setGroupWss_tasksRead ⟨t, ht, hsame⟩]
      have hnext : GroupsState ts (groups ++ [g]) T₁ := ⟨h.numLocks, rfl⟩
      obtain ⟨T', hfold, hheap, hstate⟩ := ih hrest hnext (by simp [hts])
      exact ⟨T', foldlM_cons_eq_ok.mpr ⟨T₁, hload, hfold⟩, hheap, hstate⟩

end Loading

end Chronos.Taskset
