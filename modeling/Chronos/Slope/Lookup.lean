import Chronos.Lib.Nearest
import Chronos.Slope.Defs

/-!
# The lookup is interpolation between the nearest sizes

`get_workload_slope` passes once through the file and keeps a line on each side of the
size. With `double` replaced by the rationals, these are the nearest ones in the whole
file, and the order of the lines matters only among equal sizes.
-/

namespace Chronos.Slope

open Lib Taskset

/-! ## The lookup with another rounding -/

section Rounding

variable (round : ℚ → ℚ)

def Neighbours.interpolateWith (s : Neighbours) (target : Int) : ℚ :=
  let percentageBetween :=
    round (round (target - s.lowerWss : Int) / round (s.higherWss - s.lowerWss : Int))
  round (s.lowerSlope + round (percentageBetween * round (s.higherSlope - s.lowerSlope)))

def searchSlopeWith (target : Int) : Neighbours → List Line → ℚ
  | s, [] => if s.higherSlope < 0 ∨ s.lowerSlope < 0 then -1 else s.interpolateWith round target
  | s, l :: lines =>
    let thisSlope := round l.slope
    if l.wss = target then thisSlope
    else if l.wss < target ∧ (s.lowerSlope < 0 ∨ s.lowerWss < l.wss) then
      searchSlopeWith target { s with lowerWss := l.wss, lowerSlope := thisSlope } lines
    else if target < l.wss ∧ (s.higherSlope < 0 ∨ l.wss < s.higherWss) then
      searchSlopeWith target { s with higherWss := l.wss, higherSlope := thisSlope } lines
    else searchSlopeWith target s lines

def getWorkloadSlopeWith (w : Workload) (taskWss groupWss : Nat) (file : List Line) : ℚ :=
  searchSlopeWith round (realWss w taskWss groupWss) .start file

end Rounding

theorem searchSlopeWith_fl (target : Int) (s : Neighbours) (lines : List Line) :
    searchSlopeWith fl target s lines = searchSlope target s lines := by
  induction lines generalizing s with
  | nil => rfl
  | cons l lines ih => simp only [searchSlopeWith, searchSlope, ih]

/-- With the rounding of a `double` it is the lookup of the source. -/
theorem getWorkloadSlopeWith_fl (w : Workload) (taskWss groupWss : Nat) (file : List Line) :
    getWorkloadSlopeWith fl w taskWss groupWss file = getWorkloadSlope w taskWss groupWss file :=
  searchSlopeWith_fl _ _ _

/-! ## The slope between two lines -/

/-- The slope at a size on the straight line through two lines of the file. -/
def interpolated (target : Int) (lower higher : Line) : ℚ :=
  lower.slope + (target - lower.wss) / (higher.wss - lower.wss) * (higher.slope - lower.slope)

/-- The slope that the file gives for a size: that of its first line of this size, or
else what lies between the nearest lines on both sides. -/
def nearestSlope (target : Int) (file : List Line) : ℚ :=
  match file.find? (·.wss = target) with
  | some l => l.slope
  | none =>
    match below Line.wss target file, above Line.wss target file with
    | some lower, some higher => interpolated target lower higher
    | _, _ => -1

theorem interpolated_mem {target : Int} {lower higher : Line} (hlower : lower.wss < target)
    (hhigher : target < higher.wss) :
    min lower.slope higher.slope ≤ interpolated target lower higher ∧
      interpolated target lower higher ≤ max lower.slope higher.slope := by
  have hlower' : (0 : ℚ) < target - lower.wss := by
    have h : (lower.wss : ℚ) < target := by exact_mod_cast hlower
    linarith
  have hhigher' : (target - lower.wss : ℚ) < higher.wss - lower.wss := by
    have h : (target : ℚ) < higher.wss := by exact_mod_cast hhigher
    linarith
  have hp : (0 : ℚ) ≤ (target - lower.wss) / (higher.wss - lower.wss) :=
    div_nonneg hlower'.le (hlower'.trans hhigher').le
  have hp1 : (target - lower.wss : ℚ) / (higher.wss - lower.wss) ≤ 1 :=
    div_le_one_of_le₀ hhigher'.le (hlower'.trans hhigher').le
  unfold interpolated
  generalize (target - lower.wss : ℚ) / (higher.wss - lower.wss) = p at hp hp1
  rcases le_total lower.slope higher.slope with hle | hle
  · rw [min_eq_left hle, max_eq_right hle]
    have hprod := mul_nonneg hp (sub_nonneg.mpr hle)
    have hprod' := mul_le_mul_of_nonneg_right hp1 (sub_nonneg.mpr hle)
    constructor <;> linarith
  · rw [min_eq_right hle, max_eq_left hle]
    have hprod := mul_nonneg hp (sub_nonneg.mpr hle)
    have hprod' := mul_le_mul_of_nonneg_right hp1 (sub_nonneg.mpr hle)
    constructor <;> linarith

/-! ## What the search has seen -/

/-- A size and a slope in the locals hold a line, or mark that there is none. -/
def Holds (wss : Int) (slope : ℚ) : Option Line → Prop
  | none => slope < 0
  | some l => wss = l.wss ∧ slope = l.slope ∧ 0 < l.slope

/-- The locals hold the nearest lines so far. -/
structure Neighbours.Of (target : Int) (seen : List Line) (s : Neighbours) : Prop where
  lower : Holds s.lowerWss s.lowerSlope (below Line.wss target seen)
  higher : Holds s.higherWss s.higherSlope (above Line.wss target seen)

section Search

variable {target : Int} {seen lines : List Line} {s : Neighbours} {l : Line}

theorem Neighbours.of_start : Neighbours.start.Of target [] where
  lower := by norm_num [below, Holds, Neighbours.start]
  higher := by norm_num [above, Holds, Neighbours.start]

theorem Holds.lower_concat {wss : Int} {slope : ℚ}
    (h : Holds wss slope (below Line.wss target seen)) (hl : 0 < l.slope) (hlt : l.wss < target) :
    if slope < 0 ∨ wss < l.wss then Holds l.wss l.slope (below Line.wss target (seen ++ [l]))
    else Holds wss slope (below Line.wss target (seen ++ [l])) := by
  rw [below_concat_of_lt hlt]
  cases hbelow : below Line.wss target seen with
  | none =>
    rw [hbelow] at h
    rw [if_pos (.inl h)]
    exact ⟨rfl, rfl, hl⟩
  | some b =>
    rw [hbelow] at h
    obtain ⟨hwss, hslope, hpos⟩ := h
    have hneg : ¬slope < 0 := by linarith
    by_cases hlarger : b.wss < l.wss
    · simp only [hwss, hlarger, or_true, if_true]
      exact ⟨rfl, rfl, hl⟩
    · simp only [hwss, hneg, hlarger, or_self, if_false]
      exact ⟨rfl, hslope, hpos⟩

theorem Holds.higher_concat {wss : Int} {slope : ℚ}
    (h : Holds wss slope (above Line.wss target seen)) (hl : 0 < l.slope) (hlt : target < l.wss) :
    if slope < 0 ∨ l.wss < wss then Holds l.wss l.slope (above Line.wss target (seen ++ [l]))
    else Holds wss slope (above Line.wss target (seen ++ [l])) := by
  rw [above_concat_of_lt hlt]
  cases habove : above Line.wss target seen with
  | none =>
    rw [habove] at h
    rw [if_pos (.inl h)]
    exact ⟨rfl, rfl, hl⟩
  | some b =>
    rw [habove] at h
    obtain ⟨hwss, hslope, hpos⟩ := h
    have hneg : ¬slope < 0 := by linarith
    by_cases hsmaller : l.wss < b.wss
    · simp only [hwss, hsmaller, or_true, if_true]
      exact ⟨rfl, rfl, hl⟩
    · simp only [hwss, hneg, hsmaller, or_self, if_false]
      exact ⟨rfl, hslope, hpos⟩

/-- The end of the search, when no line has the size itself. -/
theorem Neighbours.Of.interpolate_eq (h : s.Of target seen) (hseen : ∀ l ∈ seen, l.wss ≠ target) :
    searchSlopeWith id target s [] = nearestSlope target seen := by
  have hfind : seen.find? (·.wss = target) = none :=
    List.find?_eq_none.mpr fun l hl => by simpa using hseen l hl
  obtain ⟨hlower, hhigher⟩ := h
  rw [searchSlopeWith, nearestSlope, hfind]
  cases hbelow : below Line.wss target seen with
  | none =>
    rw [hbelow] at hlower
    exact if_pos (.inr hlower)
  | some lower =>
    rw [hbelow] at hlower
    cases habove : above Line.wss target seen with
    | none =>
      rw [habove] at hhigher
      exact if_pos (.inl hhigher)
    | some higher =>
      rw [habove] at hhigher
      obtain ⟨hlowerWss, hlowerSlope, hlowerPos⟩ := hlower
      obtain ⟨hhigherWss, hhigherSlope, hhigherPos⟩ := hhigher
      have hset : ¬(s.higherSlope < 0 ∨ s.lowerSlope < 0) := by
        rw [hlowerSlope, hhigherSlope]
        exact not_or.mpr ⟨hhigherPos.not_gt, hlowerPos.not_gt⟩
      rw [if_neg hset]
      simp [interpolateWith, interpolated, hlowerWss, hlowerSlope, hhigherWss, hhigherSlope]

/-- **The search finds the nearest lines**, whatever it has passed through before. -/
theorem searchSlopeWith_id (h : s.Of target seen) (hseen : ∀ l ∈ seen, l.wss ≠ target)
    (hlines : ∀ l ∈ lines, 0 < l.slope) :
    searchSlopeWith id target s lines = nearestSlope target (seen ++ lines) := by
  induction lines generalizing s seen with
  | nil => rw [List.append_nil, h.interpolate_eq hseen]
  | cons l lines ih =>
    have hl := hlines l List.mem_cons_self
    have hrest := fun l' hl' => hlines l' (List.mem_cons_of_mem l hl')
    have hfind : seen.find? (·.wss = target) = none :=
      List.find?_eq_none.mpr fun l hl => by simpa using hseen l hl
    rw [searchSlopeWith]
    split
    · next heq =>
      -- nothing before this line has the size
      have hfirst : (seen ++ l :: lines).find? (·.wss = target) = some l := by
        rw [List.find?_append, hfind, Option.none_or, List.find?_cons_of_pos (by simpa using heq)]
      rw [nearestSlope, hfirst, id]
    · next hne =>
      have hconcat : ∀ l' ∈ seen ++ [l], l'.wss ≠ target :=
        List.forall_mem_append.mpr ⟨hseen, List.forall_mem_singleton.mpr hne⟩
      rw [List.append_cons]
      rcases lt_or_gt_of_ne hne with hlt | hgt
      · have hkeep := above_concat_of_not_lt (l := seen) (not_lt.mpr hlt.le)
        have hlower := h.lower.lower_concat hl hlt
        split
        · next hcloser =>
          rw [if_pos hcloser.2] at hlower
          exact ih ⟨hlower, by rw [hkeep]; exact h.higher⟩ hconcat hrest
        · next hfarther =>
          rw [if_neg fun hcloser => hfarther ⟨hlt, hcloser⟩] at hlower
          rw [if_neg (by omega)]
          exact ih ⟨hlower, by rw [hkeep]; exact h.higher⟩ hconcat hrest
      · have hkeep := below_concat_of_not_lt (l := seen) (not_lt.mpr hgt.le)
        have hhigher := h.higher.higher_concat hl hgt
        rw [if_neg (by omega)]
        split
        · next hcloser =>
          rw [if_pos hcloser.2] at hhigher
          exact ih ⟨by rw [hkeep]; exact h.lower, hhigher⟩ hconcat hrest
        · next hfarther =>
          rw [if_neg fun hcloser => hfarther ⟨hgt, hcloser⟩] at hhigher
          exact ih ⟨by rw [hkeep]; exact h.lower, hhigher⟩ hconcat hrest

end Search

/-! ## The lookup -/

section Lookup

variable {file file' : List Line} {target : Int}

/-- A slope that is found lies between those of the lines it comes from. -/
theorem nearestSlope_mem {lower higher : Line} (hfile : ∀ l ∈ file, l.wss ≠ target)
    (hlower : below Line.wss target file = some lower)
    (hhigher : above Line.wss target file = some higher) :
    min lower.slope higher.slope ≤ nearestSlope target file ∧
      nearestSlope target file ≤ max lower.slope higher.slope := by
  have hfind : file.find? (·.wss = target) = none :=
    List.find?_eq_none.mpr fun l hl => by simpa using hfile l hl
  rw [nearestSlope, hfind, hlower, hhigher]
  exact interpolated_mem (below_lt hlower).2 (lt_above hhigher).2

theorem nearestSlope_perm (hperm : file.Perm file') (hnodup : (file.map Line.wss).Nodup) :
    nearestSlope target file = nearestSlope target file' := by
  rw [nearestSlope, nearestSlope, find?_perm hperm hnodup, below_perm hperm hnodup,
    above_perm hperm hnodup]

/-- **The lookup interpolates** between the nearest lines of the file, in exact
arithmetic: the result lies between their slopes and is positive, and the order of the
lines does not matter where the sizes are different. -/
theorem getWorkloadSlope_nearest (w : Workload) (taskWss groupWss : Nat) (file : List Line)
    (hfile : ∀ l ∈ file, 0 < l.slope) :
    let target := realWss w taskWss groupWss
    let slope := getWorkloadSlopeWith id w taskWss groupWss file
    slope = nearestSlope target file ∧
      (∀ lower higher, (∀ l ∈ file, l.wss ≠ target) → below Line.wss target file = some lower →
        above Line.wss target file = some higher →
          min lower.slope higher.slope ≤ slope ∧ slope ≤ max lower.slope higher.slope ∧
            0 < slope) ∧
      ((file.map Line.wss).Nodup → ∀ file', file.Perm file' →
        getWorkloadSlopeWith id w taskWss groupWss file' = slope) := by
  intro target slope
  have hslope : slope = nearestSlope target file :=
    searchSlopeWith_id Neighbours.of_start (by simp) hfile
  refine ⟨hslope, ?_, ?_⟩
  · intro lower higher hne hlower hhigher
    obtain ⟨hmin, hmax⟩ := nearestSlope_mem hne hlower hhigher
    have hpos : 0 < min lower.slope higher.slope :=
      lt_min (hfile lower (below_lt hlower).1) (hfile higher (lt_above hhigher).1)
    rw [hslope]
    exact ⟨hmin, hmax, hpos.trans_le hmin⟩
  · intro hnodup file' hperm
    have hfile' : ∀ l ∈ file', 0 < l.slope := fun l hl => hfile l (hperm.mem_iff.mpr hl)
    have hslope' : getWorkloadSlopeWith id w taskWss groupWss file' = nearestSlope target file' :=
      searchSlopeWith_id Neighbours.of_start (by simp) hfile'
    rw [hslope', hslope, nearestSlope_perm hperm hnodup]

theorem getWorkloadSlope_nearest_between :
    let target := realWss arrayWalkWorkload 0 70000
    let file : List Line := [⟨80000, 1⟩, ⟨60000, 3⟩, ⟨10, 9⟩]
    let slope := getWorkloadSlopeWith id arrayWalkWorkload 0 70000 file
    slope = nearestSlope target file ∧
      (∀ lower higher, (∀ l ∈ file, l.wss ≠ target) → below Line.wss target file = some lower →
        above Line.wss target file = some higher →
          min lower.slope higher.slope ≤ slope ∧ slope ≤ max lower.slope higher.slope ∧
            0 < slope) ∧
      ((file.map Line.wss).Nodup → ∀ file', file.Perm file' →
        getWorkloadSlopeWith id arrayWalkWorkload 0 70000 file' = slope) :=
  getWorkloadSlope_nearest arrayWalkWorkload 0 70000 _ (by simp)

end Lookup

end Chronos.Slope
