import Mathlib.Algebra.Order.Ring.Nat
import Mathlib.Order.Bounds.Basic
import Mathlib.Order.Lattice
import Mathlib.Tactic.NormNum
import Chronos.Lib.Scanf

/-!
# The abort region

`init_aborts` maps a character for each thread id, and `get_abort_ptr` finds the one of the
calling thread. The size of the mapping is computed in `unsigned int`, the largest thread id
is a static variable of the file, and the rest is kept in the caller's struct.
-/

namespace Chronos.Aborts

open Lib

abbrev MIN_ABORTABLE_PID : Int := 1

abbrev DEFAULT_PID_MAX : Int := 32768

/-- `read_pid_max`, with the text of the file if it can be opened. -/
def readPidMax (file : Option (List Char)) : Int :=
  match file.bind scanLong with
  | none => DEFAULT_PID_MAX
  | some pidMax => toInt pidMax.value

/-- `struct chronos_aborts_data` -/
structure AbortsData where
  mmapPointer : Int
  fd : Int
  mapsize : Nat
  initialized : Bool
  deriving DecidableEq, Repr

/-- The static `pid_max`, and the structs of the callers. -/
structure World (ι : Type) where
  pidMax : Int
  data : ι → AbortsData

/-- What `getpagesize` returns, and what `/proc/sys/kernel/pid_max` holds. -/
structure System where
  pagesize : Nat
  pidMaxFile : Option (List Char)

/-- What the system calls of one `init_aborts` return: `open`, once more after a failure, and
`mmap`, where `none` is `MAP_FAILED`. -/
structure Answers where
  fd : Int
  fdAgain : Int
  mmapptr : Option Int

/-- `(1 << pageorder) * pagesize`, in `unsigned int` -/
def orderSize (pagesize pageorder : Nat) : Nat := 2 ^ pageorder * pagesize % 2 ^ 32

/-- `(pid_max - MIN_ABORTABLE_PID + 1) * sizeof(char)` -/
def slots (pidMax : Int) : Nat := toULong (pidMax - MIN_ABORTABLE_PID + 1)

/-- The sizing loop from `pageorder` on. After `left` more rounds `1 << pageorder` is not an
`int` any more. -/
def orderLoop (pagesize bytes : Nat) : (left pageorder : Nat) → Option Nat
  | 0, _ => none
  | left + 1, pageorder =>
    if orderSize pagesize pageorder < bytes then orderLoop pagesize bytes left (pageorder + 1)
    else some pageorder

/-- The `pageorder` that the sizing loop ends with. -/
def pageorder (sys : System) : Option Nat :=
  orderLoop sys.pagesize (slots (readPidMax sys.pidMaxFile)) 31 0

/-- The descriptor of `/dev/aborts`, which is opened again if that fails. -/
def Answers.opened (answers : Answers) : Int :=
  if answers.fd < 0 then answers.fdAgain else answers.fd

section

variable {ι : Type}

/-- `init_aborts`, with its result. A null pointer is `none`. -/
def initAborts [DecidableEq ι] (sys : System) (adata : Option ι) (answers : Answers)
    (w : World ι) : Option (Int × World ι) :=
  match adata with
  | none => some (-1, w)
  | some a =>
    let w := { w with pidMax := readPidMax sys.pidMaxFile }
    if answers.opened < 0 then some (-1, w)
    else do
      let pageorder ← pageorder sys
      match answers.mmapptr with
      | none => return (-1, w)
      | some mmapPointer =>
        let mapsize := orderSize sys.pagesize pageorder
        let data := Function.update w.data a ⟨mmapPointer, answers.opened, mapsize, true⟩
        return (0, { w with data })

/-- `cleanup_aborts`, with its result. -/
def cleanupAborts [DecidableEq ι] (adata : Option ι) (w : World ι) : Int × World ι :=
  match adata with
  | none => (-1, w)
  | some a =>
    if (w.data a).initialized = false then (-1, w)
    else (0, { pidMax := 0,
               data := Function.update w.data a { w.data a with initialized := false } })

/-- `get_abort_ptr_tid` -/
def getAbortPtrTid (w : World ι) (adata : Option ι) (tid : Int) : Option Int :=
  match adata with
  | none => none
  | some a =>
    if (w.data a).initialized = false then none
    else some ((w.data a).mmapPointer + tid - MIN_ABORTABLE_PID)

/-- `get_abort_ptr` in the thread `tid` -/
def getAbortPtr (w : World ι) (adata : Option ι) (tid : Int) : Option Int :=
  if tid > w.pidMax ∨ tid < MIN_ABORTABLE_PID then none else getAbortPtrTid w adata tid

end

/-! ## The largest thread id -/

theorem toInt_lt (x : Int) : toInt x < 2 ^ 31 := Int.bmod_lt (by norm_num)

theorem readPidMax_lt (file : Option (List Char)) : readPidMax file < 2 ^ 31 := by
  unfold readPidMax
  split
  · norm_num
  · exact toInt_lt _

theorem slots_eq {pidMax : Int} (hpos : 0 < pidMax) (hint : pidMax < 2 ^ 31) :
    (slots pidMax : Int) = pidMax := by
  have hbytes : pidMax - MIN_ABORTABLE_PID + 1 = pidMax := Int.sub_add_cancel pidMax 1
  rw [slots, hbytes, toULong, Int.emod_eq_of_lt hpos.le (by omega), Int.toNat_of_nonneg hpos.le]

/-! ## The size of the mapping -/

section Size

variable {j bytes : Nat}

theorem orderSize_two_pow {i : Nat} (h : i + j ≤ 31) :
    orderSize (2 ^ j) i = 2 ^ (i + j) ∧ 2 ^ i * 2 ^ j < 2 ^ 32 := by
  have hlt : 2 ^ (i + j) < 2 ^ 32 := Nat.pow_lt_pow_right (by norm_num) (by omega)
  rw [orderSize, ← Nat.pow_add, Nat.mod_eq_of_lt hlt]
  exact ⟨rfl, hlt⟩

/-- The loop ends at the first order that suffices; it goes on only below `2 ^ 31`. -/
theorem orderLoop_eq (hj : 1 ≤ j) (hbytes : bytes ≤ 2 ^ 31) {left order : Nat}
    (hleft : left + order = 31) (hfit : order + j ≤ 31)
    (hless : ∀ i < order, 2 ^ (i + j) < bytes) :
    ∃ k, orderLoop (2 ^ j) bytes left order = some k ∧ k + j ≤ 31 ∧ bytes ≤ 2 ^ (k + j) ∧
      ∀ i < k, 2 ^ (i + j) < bytes := by
  induction left generalizing order with
  | zero => omega
  | succ left ih =>
    rw [orderLoop, (orderSize_two_pow hfit).1]
    by_cases hsmall : 2 ^ (order + j) < bytes
    · rw [if_pos hsmall]
      have hlt : order + j < 31 :=
        (Nat.pow_lt_pow_iff_right (by norm_num)).mp (hsmall.trans_le hbytes)
      refine ih (by omega) (by omega) fun i hi => ?_
      rcases Nat.lt_succ_iff_lt_or_eq.mp hi with hi | rfl
      · exact hless i hi
      · exact hsmall
    · rw [if_neg hsmall]
      exact ⟨order, rfl, hfit, Nat.le_of_not_lt hsmall, hless⟩

/-- The first order that suffices gives the least size. -/
theorem isLeast_size {k : Nat} (henough : bytes ≤ 2 ^ (k + j))
    (hless : ∀ i < k, 2 ^ (i + j) < bytes) :
    IsLeast {size | (∃ i, size = 2 ^ j * 2 ^ i) ∧ bytes ≤ size} (2 ^ (k + j)) := by
  constructor
  · exact ⟨⟨k, by rw [← Nat.pow_add, Nat.add_comm]⟩, henough⟩
  · rintro size ⟨⟨i, rfl⟩, hi⟩
    rw [← Nat.pow_add, Nat.add_comm] at hi ⊢
    apply Nat.pow_le_pow_right (by norm_num)
    by_contra hlt
    have := hless i (by omega)
    omega

end Size

/-! ## The pointers -/

section

variable {ι : Type} {sys : System} {w w' : World ι} {a : ι} {tid : Int}

theorem getAbortPtr_eq_none (h : ¬(MIN_ABORTABLE_PID ≤ tid ∧ tid ≤ w.pidMax)) :
    getAbortPtr w (some a) tid = none := by
  rw [getAbortPtr, if_pos (by omega)]

theorem getAbortPtr_cleanedUp (h : (w.data a).initialized = false) :
    getAbortPtr w (some a) tid = none := by
  simp [getAbortPtr, getAbortPtrTid, h]

theorem getAbortPtr_eq_some (h : (w.data a).initialized = true) (hmin : MIN_ABORTABLE_PID ≤ tid)
    (hmax : tid ≤ w.pidMax) :
    getAbortPtr w (some a) tid = some ((w.data a).mmapPointer + tid - MIN_ABORTABLE_PID) := by
  rw [getAbortPtr, if_neg (by omega), getAbortPtrTid]
  simp [h]

/-- What `init_aborts` leaves behind when it succeeds, and what when it fails. -/
theorem initAborts_cases [DecidableEq ι] {answers : Answers} {r : Int}
    (h : initAborts sys (some a) answers w = some (r, w')) :
    w'.pidMax = readPidMax sys.pidMaxFile ∧
      ((r = -1 ∧ w'.data = w.data) ∨
        ∃ k mmapPointer fd, r = 0 ∧ pageorder sys = some k ∧ w'.data =
          Function.update w.data a ⟨mmapPointer, fd, orderSize sys.pagesize k, true⟩) := by
  simp only [initAborts] at h
  by_cases hfd : answers.opened < 0
  · rw [if_pos hfd] at h
    cases h
    exact ⟨rfl, .inl ⟨rfl, rfl⟩⟩
  · rw [if_neg hfd] at h
    cases hk : pageorder sys with
    | none => simp [hk] at h
    | some k =>
      cases hmmap : answers.mmapptr with
      | none =>
        simp only [hk, hmmap, Option.bind_eq_bind, Option.bind_some, Option.pure_def] at h
        cases h
        exact ⟨rfl, .inl ⟨rfl, rfl⟩⟩
      | some mmapPointer =>
        simp only [hk, hmmap, Option.bind_eq_bind, Option.bind_some, Option.pure_def] at h
        cases h
        exact ⟨rfl, .inr ⟨k, mmapPointer, _, rfl, rfl, rfl⟩⟩

/-- It succeeds exactly if the device can be opened and mapped. -/
theorem initAborts_eq_zero [DecidableEq ι] {answers : Answers} {k : Nat} {mmapPointer : Int}
    (hk : pageorder sys = some k) (hopened : 0 ≤ answers.opened)
    (hmmap : answers.mmapptr = some mmapPointer) (a : ι) (w : World ι) :
    initAborts sys (some a) answers w = some (0, ⟨readPidMax sys.pidMaxFile,
      Function.update w.data a ⟨mmapPointer, answers.opened, orderSize sys.pagesize k, true⟩⟩) := by
  simp only [initAborts, if_neg hopened.not_gt, hk, hmmap]
  rfl

theorem initAborts_eq_neg [DecidableEq ι] {answers : Answers} {k : Nat}
    (hk : pageorder sys = some k) (hfails : ¬(0 ≤ answers.opened ∧ answers.mmapptr ≠ none)) (a : ι)
    (w : World ι) :
    initAborts sys (some a) answers w = some (-1, ⟨readPidMax sys.pidMaxFile, w.data⟩) := by
  simp only [initAborts, hk]
  by_cases hopened : answers.opened < 0
  · exact if_pos hopened
  · have hmmap : answers.mmapptr = none := by
      by_contra hne
      exact hfails ⟨not_lt.mp hopened, hne⟩
    rw [if_neg hopened, hmmap]
    rfl

/-- It returns if the sizing loop does. -/
theorem initAborts_isSome [DecidableEq ι] {k : Nat} (hk : pageorder sys = some k) (a : ι)
    (answers : Answers) (w : World ι) :
    ∃ r w', initAborts sys (some a) answers w = some (r, w') := by
  simp only [initAborts, hk]
  by_cases hfd : answers.opened < 0
  · exact ⟨_, _, if_pos hfd⟩
  · rw [if_neg hfd]
    cases answers.mmapptr with
    | none => exact ⟨_, _, rfl⟩
    | some mmapPointer => exact ⟨_, _, rfl⟩

end

/-- Each thread up to `pidMax` has a character of the mapping for itself, and no other
thread has any. -/
structure OneSlotEach {ι : Type} (w : World ι) (a : ι) (pidMax : Int) : Prop where
  inside : ∀ tid, 1 ≤ tid → tid ≤ pidMax →
    ∃ ptr, getAbortPtr w (some a) tid = some ptr ∧ (w.data a).mmapPointer ≤ ptr ∧
      ptr < (w.data a).mmapPointer + (w.data a).mapsize
  different : ∀ tid tid' ptr, getAbortPtr w (some a) tid = some ptr →
    getAbortPtr w (some a) tid' = some ptr → tid = tid'
  noOther : ∀ tid, ¬(1 ≤ tid ∧ tid ≤ pidMax) → getAbortPtr w (some a) tid = none

theorem OneSlotEach.of_initialized {ι : Type} {w : World ι} {a : ι}
    (hinit : (w.data a).initialized = true) (henough : w.pidMax ≤ (w.data a).mapsize) :
    OneSlotEach w a w.pidMax := by
  have hptr (tid : Int) (hmin : 1 ≤ tid) (hmax : tid ≤ w.pidMax) :
      getAbortPtr w (some a) tid = some ((w.data a).mmapPointer + tid - 1) :=
    getAbortPtr_eq_some hinit hmin hmax
  have hnone (tid : Int) (h : ¬(1 ≤ tid ∧ tid ≤ w.pidMax)) : getAbortPtr w (some a) tid = none :=
    getAbortPtr_eq_none h
  refine ⟨fun tid hmin hmax => ⟨_, hptr tid hmin hmax, by omega, by omega⟩, ?_, hnone⟩
  intro tid tid' ptr htid htid'
  by_cases h : 1 ≤ tid ∧ tid ≤ w.pidMax
  · by_cases h' : 1 ≤ tid' ∧ tid' ≤ w.pidMax
    · rw [hptr tid h.1 h.2] at htid
      rw [hptr tid' h'.1 h'.2] at htid'
      cases htid
      have := Option.some.inj htid'
      omega
    · rw [hnone tid' h'] at htid'
      cases htid'
  · rw [hnone tid h] at htid
    cases htid

/-- **The abort region holds a slot for each thread id**: the sizing loop ends at the least
size that suffices before its product wraps, `init_aborts` succeeds exactly if the device can
be opened and mapped, and then the threads up to `pid_max` get different characters of the
mapping, and no other thread any. -/
theorem abortRegion_slots {ι : Type} [DecidableEq ι] {sys : System} {j : Nat}
    (hpagesize : sys.pagesize = 2 ^ j) (hlow : 12 ≤ j) (hhigh : j ≤ 31)
    (hpos : 0 < readPidMax sys.pidMaxFile) :
    ∃ k, pageorder sys = some k ∧ (∀ i ≤ k, 2 ^ i * sys.pagesize < 2 ^ 32) ∧
      IsLeast {size : Nat | (∃ i, size = sys.pagesize * 2 ^ i) ∧
        readPidMax sys.pidMaxFile ≤ size} (orderSize sys.pagesize k) ∧
      ∀ (a : ι) (answers : Answers) (w : World ι),
        ∃ r w', initAborts sys (some a) answers w = some (r, w') ∧
          (r = 0 ↔ 0 ≤ answers.opened ∧ answers.mmapptr ≠ none) ∧
          (r = 0 → answers.mmapptr = some (w'.data a).mmapPointer ∧
            (w'.data a).mapsize = orderSize sys.pagesize k ∧
            OneSlotEach w' a (readPidMax sys.pidMaxFile)) := by
  let bytes := slots (readPidMax sys.pidMaxFile)
  have hslots : (bytes : Int) = readPidMax sys.pidMaxFile :=
    slots_eq hpos (readPidMax_lt sys.pidMaxFile)
  have hint := readPidMax_lt sys.pidMaxFile
  have hbytes : bytes ≤ 2 ^ 31 := by omega
  obtain ⟨k, hloop, hfit, henough, hless⟩ :=
    orderLoop_eq (by omega : 1 ≤ j) hbytes (by rfl : 31 + 0 = 31) (by omega) (by omega)
  have hk : pageorder sys = some k := by rw [pageorder, hpagesize, hloop]
  have hsize : orderSize sys.pagesize k = 2 ^ (k + j) := by
    rw [hpagesize, (orderSize_two_pow hfit).1]
  have hroom : readPidMax sys.pidMaxFile ≤ orderSize sys.pagesize k := by
    rw [hsize, ← hslots]
    exact Int.ofNat_le.mpr henough
  refine ⟨k, hk, ?_, ?_, fun a answers w => ?_⟩
  · intro i hi
    rw [hpagesize]
    exact (orderSize_two_pow (by omega)).2
  · rw [hsize, hpagesize, ← hslots]
    simpa only [Nat.cast_le] using isLeast_size henough hless
  · by_cases hanswers : 0 ≤ answers.opened ∧ answers.mmapptr ≠ none
    · obtain ⟨mmapPointer, hmmap⟩ := Option.ne_none_iff_exists'.mp hanswers.2
      refine ⟨_, _, initAborts_eq_zero hk hanswers.1 hmmap a w, iff_of_true rfl hanswers, ?_⟩
      refine fun _ => ⟨?_, ?_, OneSlotEach.of_initialized ?_ ?_⟩
      all_goals simp only [Function.update_self]
      · exact hmmap
      · exact hroom
    · refine ⟨_, _, initAborts_eq_neg hk hanswers a w, iff_of_false (by decide) hanswers, ?_⟩
      exact fun hr => absurd hr (by decide)

/-- Pages of 4 kB, a system whose largest thread id cannot be read, and a device that can be
opened at the second try only. -/
theorem abortRegion_slots_default :
    ∃ k, pageorder ⟨4096, none⟩ = some k ∧ (∀ i ≤ k, 2 ^ i * 4096 < 2 ^ 32) ∧
      IsLeast {size : Nat | (∃ i, size = 4096 * 2 ^ i) ∧ DEFAULT_PID_MAX ≤ size}
        (orderSize 4096 k) ∧
      ∃ w', initAborts ⟨4096, none⟩ (some ()) ⟨-1, 3, some 65536⟩
            ⟨0, fun _ => ⟨0, 0, 0, false⟩⟩ = some (0, w') ∧
          (w'.data ()).mmapPointer = 65536 ∧ (w'.data ()).mapsize = orderSize 4096 k ∧
          OneSlotEach w' () DEFAULT_PID_MAX := by
  obtain ⟨k, hk, hwrap, hleast, hslots⟩ :=
    @abortRegion_slots Unit _ ⟨4096, none⟩ 12 rfl (by decide) (by decide) (by decide)
  refine ⟨k, hk, hwrap, hleast, ?_⟩
  obtain ⟨r, w', hinit, hzero, h⟩ := hslots () ⟨-1, 3, some 65536⟩ ⟨0, fun _ => ⟨0, 0, 0, false⟩⟩
  obtain rfl : r = 0 := hzero.mpr (by decide)
  obtain ⟨hmmap, hsize, heach⟩ := h rfl
  exact ⟨w', hinit, (Option.some.inj hmmap).symm, hsize, heach⟩

end Chronos.Aborts
