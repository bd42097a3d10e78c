import Chronos.Salloc.Release
import Chronos.Salloc.Coalesce

/-!
# Stores into payloads

The allocator reads nothing behind the header of a block in use, so that whatever
is stored there leaves a well-formed heap well formed.
-/

namespace Chronos.Salloc

open Chronos.Lib

/-- An address behind the header of a block in use. -/
def InPayload (bs : List Block) (x : Nat) : Prop :=
  ∃ b ∈ used bs, regionStart b.addr ≤ x ∧ x < b.addr + b.size

section

variable {s : Heap} {bs : List Block} {b d : Block} {mem : Memory} {x : Nat}

theorem WellFormed.mapped_payload (h : WellFormed s bs) (hx : InPayload bs x) :
    s.mem.mapped x = true := by
  obtain ⟨b, hb, hlo, hhi⟩ := hx
  have hbound := h.block_bounds (mem_used.mp hb).1
  unfold regionStart at hlo
  have := h.mapped (x - s.head) (by omega)
  rwa [show s.head + (x - s.head) = x by omega] at this

/-- No header field of the invariant lies in a payload. -/
theorem WellFormed.not_inPayload (h : WellFormed s bs) (hd : d ∈ bs) {f : Field}
    (hf : d.free = true ∨ f.offset + 8 ≤ regionOffset) (hlo : d.addr + f.offset ≤ x)
    (hhi : x < d.addr + f.offset + 8) : ¬InPayload bs x := by
  rintro ⟨b, hb, hblo, hbhi⟩
  obtain ⟨hbm, hused⟩ := mem_used.mp hb
  unfold regionStart at hblo
  by_cases hdb : d = b
  · subst hdb
    rw [hused] at hf
    rcases hf with hf | hf
    · cases hf
    · omega
  · have := h.blocks.tiles.disjoint hd hbm hdb
    have := f.offset_le
    have := d.fits
    omega

/-- **Payloads are the client's**: a heap whose memory differs in payloads only is
as well formed as it was. -/
theorem WellFormed.of_payload (h : WellFormed s bs) (hmapped : mem.mapped = s.mem.mapped)
    (hbyte : ∀ x, ¬InPayload bs x → mem.byte x = s.mem.byte x) :
    WellFormed { s with mem } bs := by
  have hfield : ∀ d ∈ bs, ∀ f : Field, (d.free = true ∨ f.offset + 8 ≤ regionOffset) →
      mem.peek 8 (d.addr + f.offset) = s.mem.peek 8 (d.addr + f.offset) := fun d hd f hf =>
    Memory.peek_congr fun x hlo hhi => hbyte x (h.not_inPayload hd hf hlo hhi)
  refine ⟨⟨h.pos, h.space, ?_, ?_, ?_⟩, h.noAdjacent⟩
  · intro i hi
    rw [show ({ s with mem } : Heap).mem.mapped = s.mem.mapped from hmapped]
    exact h.mapped i hi
  · refine h.blocks.congr rfl rfl ?_ ?_
    · intro x hx
      obtain ⟨d, hd, rfl⟩ := mem_addrs.mp hx
      exact hfield d hd .sizeAndFree (Or.inr (by decide))
    · intro x hx
      obtain ⟨d, hd, rfl⟩ := mem_addrs.mp hx
      exact hfield d hd .prev (Or.inr (by decide))
  · refine h.frees.congr rfl ?_ ?_
    · intro x hx
      obtain ⟨d, hd, hdf, rfl⟩ := mem_freeAddrs.mp hx
      exact hfield d hd .nextFree (Or.inl hdf)
    · intro x hx
      obtain ⟨d, hd, hdf, rfl⟩ := mem_freeAddrs.mp hx
      exact hfield d hd .prevFree (Or.inl hdf)

theorem WellFormed.setByte (h : WellFormed s bs) (hx : InPayload bs x) (byte : Fin 256) :
    WellFormed { s with mem := s.mem.setByte x byte } bs := by
  refine h.of_payload rfl fun y hy => ?_
  have hne : y ≠ x := by
    rintro rfl
    exact hy hx
  exact if_neg hne

theorem WellFormed.poke (h : WellFormed s bs) {n v : Nat} (hx : ∀ i < n, InPayload bs (x + i)) :
    WellFormed { s with mem := s.mem.poke n x v } bs := by
  refine h.of_payload Memory.poke_mapped fun y hy => ?_
  rw [Memory.poke_byte, if_neg]
  rintro ⟨hlo, hhi⟩
  have := hx (y - x) (by omega)
  rw [show x + (y - x) = y by omega] at this
  exact hy this

end

end Chronos.Salloc
