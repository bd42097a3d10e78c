import Mathlib.Data.List.Basic

/-!
# Reads before writes

A program reads and writes the fields of a record. What it makes of a record depends on the
fields that it reads first: everything else it has written itself by the time it reads it.
-/

namespace Chronos.Lib

/-- An access to a field. -/
inductive FieldAccess (F : Type) where
  | read (f : F)
  | write (f : F)
  deriving DecidableEq, Repr

namespace FieldAccess

variable {F ι : Type} {f g : F} {l l' : List (FieldAccess F)}

/-- The first access to `f` is a read. -/
def ReadFirst (f : F) : List (FieldAccess F) → Prop
  | [] => False
  | .read g :: l => g = f ∨ ReadFirst f l
  | .write g :: l => g ≠ f ∧ ReadFirst f l

@[simp] theorem readFirst_nil : ¬ReadFirst f [] := id

@[simp] theorem readFirst_read : ReadFirst f (.read g :: l) ↔ g = f ∨ ReadFirst f l := Iff.rfl

@[simp] theorem readFirst_write : ReadFirst f (.write g :: l) ↔ g ≠ f ∧ ReadFirst f l := Iff.rfl

/-- One part after another. -/
@[simp] theorem readFirst_append :
    ReadFirst f (l ++ l') ↔ ReadFirst f l ∨ (.write f ∉ l ∧ ReadFirst f l') := by
  induction l with
  | nil => simp
  | cons a l ih =>
    cases a with
    | read g => simp [ih, or_assoc]
    | write g =>
      by_cases hg : g = f
      · simp [hg]
      · simp [ih, hg, Ne.symm hg]

/-- What a loop reads first, one of its rounds reads first. -/
theorem ReadFirst.of_flatMap {rounds : List ι} {body : ι → List (FieldAccess F)}
    (h : ReadFirst f (rounds.flatMap body)) : ∃ i ∈ rounds, ReadFirst f (body i) := by
  induction rounds with
  | nil => exact h.elim
  | cons i rounds ih =>
    rw [List.flatMap_cons, readFirst_append] at h
    rcases h with h | ⟨-, h⟩
    · exact ⟨i, List.mem_cons_self, h⟩
    · obtain ⟨j, hj, h⟩ := ih h
      exact ⟨j, List.mem_cons_of_mem _ hj, h⟩

/-- All that is read is one of the fields `fs`. -/
def ReadsIn (fs : List F) (l : List (FieldAccess F)) : Prop := ∀ f, .read f ∈ l → f ∈ fs

/-- All that is read is one of the fields `fs` or has been written before. -/
def DefinedIn (fs : List F) : List (FieldAccess F) → Prop
  | [] => True
  | .read f :: l => f ∈ fs ∧ DefinedIn fs l
  | .write f :: l => DefinedIn (f :: fs) l

section Fields

variable {fs fs' : List F}

@[simp] theorem readsIn_nil : ReadsIn fs ([] : List (FieldAccess F)) := nofun

@[simp] theorem readsIn_read : ReadsIn fs (.read g :: l) ↔ g ∈ fs ∧ ReadsIn fs l := by
  simp [ReadsIn]

@[simp] theorem readsIn_write : ReadsIn fs (.write g :: l) ↔ ReadsIn fs l := by
  simp [ReadsIn]

@[simp] theorem readsIn_append : ReadsIn fs (l ++ l') ↔ ReadsIn fs l ∧ ReadsIn fs l' := by
  simp [ReadsIn, or_imp, forall_and]

@[simp] theorem readsIn_flatMap {rounds : List ι} {body : ι → List (FieldAccess F)} :
    ReadsIn fs (rounds.flatMap body) ↔ ∀ i ∈ rounds, ReadsIn fs (body i) := by
  simp only [ReadsIn, List.mem_flatMap]
  constructor
  · intro h i hi f hf
    exact h f ⟨i, hi, hf⟩
  · intro h f ⟨i, hi, hf⟩
    exact h i hi f hf

theorem ReadsIn.mono (h : ReadsIn fs l) (hsub : ∀ f ∈ fs, f ∈ fs') : ReadsIn fs' l :=
  fun f hf => hsub f (h f hf)

@[simp] theorem definedIn_nil : DefinedIn fs ([] : List (FieldAccess F)) := trivial

@[simp] theorem definedIn_read : DefinedIn fs (.read g :: l) ↔ g ∈ fs ∧ DefinedIn fs l := Iff.rfl

@[simp] theorem definedIn_write : DefinedIn fs (.write g :: l) ↔ DefinedIn (g :: fs) l := Iff.rfl

theorem DefinedIn.mono (h : DefinedIn fs l) (hsub : ∀ f ∈ fs, f ∈ fs') : DefinedIn fs' l := by
  induction l generalizing fs fs' with
  | nil => exact trivial
  | cons a l ih =>
    cases a with
    | read f => exact ⟨hsub f h.1, ih h.2 hsub⟩
    | write f =>
      refine ih h fun g hg => ?_
      rcases List.mem_cons.mp hg with rfl | hg
      · exact List.mem_cons_self
      · exact List.mem_cons_of_mem _ (hsub g hg)

theorem ReadsIn.definedIn (h : ReadsIn fs l) : DefinedIn fs l := by
  induction l generalizing fs with
  | nil => exact trivial
  | cons a l ih =>
    cases a with
    | read f =>
      obtain ⟨hf, hl⟩ := readsIn_read.mp h
      exact ⟨hf, ih hl⟩
    | write f => exact ih ((readsIn_write.mp h).mono fun g hg => List.mem_cons_of_mem _ hg)

/-- The second part may also read what the first one has written. -/
theorem DefinedIn.append (h : DefinedIn fs l) (h' : DefinedIn fs' l')
    (hsub : ∀ f ∈ fs', f ∈ fs ∨ .write f ∈ l) : DefinedIn fs (l ++ l') := by
  induction l generalizing fs with
  | nil => exact h'.mono fun f hf => (hsub f hf).resolve_right List.not_mem_nil
  | cons a l ih =>
    cases a with
    | read f =>
      refine ⟨h.1, ih h.2 fun g hg => ?_⟩
      simpa using hsub g hg
    | write f =>
      refine ih h fun g hg => ?_
      have hg := hsub g hg
      simp only [List.mem_cons, FieldAccess.write.injEq] at hg ⊢
      tauto

/-- **What is read first** is one of the fields that are there. -/
theorem DefinedIn.mem (h : DefinedIn fs l) (hf : ReadFirst f l) : f ∈ fs := by
  induction l generalizing fs with
  | nil => exact hf.elim
  | cons a l ih =>
    cases a with
    | read g =>
      rcases hf with rfl | hf
      · exact h.1
      · exact ih h.2 hf
    | write g => exact (List.mem_cons.mp (ih h hf.2)).resolve_left hf.1.symm

end Fields

end FieldAccess

end Chronos.Lib
