import OmarchyAne.T6021.BufInv
import Mathlib.Algebra.BigOperators.Group.Finset.Piecewise
import Mathlib.Algebra.Order.BigOperators.Group.List

/-!
# What a release does to the other buffers

`Bufs.Moved q drops B B' evs` says what a step that drops references may do.
A buffer with references keeps them unless its last one is in `drops`, memory
that an EXEC marked survives a quarantined firmware, and the byte counter
goes down by what is freed.

The counter is read against `Bufs.allocBytes`, the page-aligned sizes of all
buffers whose memory is allocated.
-/

namespace OmarchyAne.T6021

open Lib Function List

section Bytes

variable [PageShift]

/-- The allocated bytes of a buffer object. -/
def Bo.bytes (o : Bo) : Int :=
  if o.cpu then (pageAlign o.size : Int) else 0

theorem Bo.bytes_nonneg (o : Bo) : 0 ≤ o.bytes := by
  rw [Bo.bytes]
  split
  · exact Int.natCast_nonneg _
  · exact le_refl 0

/-- The allocated bytes of the first `n` buffer objects. -/
def bytesBelow (bo : Nat → Bo) (n : Nat) : Int :=
  ∑ b ∈ Finset.range n, (bo b).bytes

theorem bytesBelow_nonneg (bo : Nat → Bo) (n : Nat) : 0 ≤ bytesBelow bo n :=
  Finset.sum_nonneg (fun b _ => (bo b).bytes_nonneg)

/-- Changing one object exchanges its bytes. -/
theorem bytesBelow_update (bo : Nat → Bo) {n b : Nat} (hb : b < n) (o : Bo) :
    bytesBelow (update bo b o) n + (bo b).bytes = bytesBelow bo n + o.bytes := by
  have hmem : b ∈ Finset.range n := Finset.mem_range.mpr hb
  rw [bytesBelow, bytesBelow, ← Finset.add_sum_erase _ _ hmem,
    ← Finset.add_sum_erase _ (fun x => (bo x).bytes) hmem,
    update_self]
  have hrest : ∑ x ∈ (Finset.range n).erase b, (update bo b o x).bytes =
      ∑ x ∈ (Finset.range n).erase b, (bo x).bytes := by
    refine Finset.sum_congr rfl (fun x hx => ?_)
    rw [update_of_ne (Finset.ne_of_mem_erase hx)]
  rw [hrest]
  omega

/-- A new object adds its bytes. -/
theorem bytesBelow_succ (bo : Nat → Bo) (n : Nat) (o : Bo) :
    bytesBelow (update bo n o) (n + 1) = bytesBelow bo n + o.bytes := by
  rw [bytesBelow, Finset.sum_range_succ, update_self, bytesBelow]
  congr 1
  refine Finset.sum_congr rfl (fun x hx => ?_)
  rw [update_of_ne (Finset.mem_range.mp hx).ne]

end Bytes

section Charges

variable [PageShift]

/-- The charge of a BO_INIT that is counted and has no memory yet. -/
def InitOp.pending : InitOp → Int
  | alloc _ size | refund _ size => pageAlign size
  | _ => 0

/-- The charge of a BO_INIT that passed the cap. -/
def InitOp.admitted : InitOp → Int
  | alloc _ size => pageAlign size
  | _ => 0

theorem InitOp.admitted_le_pending (op : InitOp) : op.admitted ≤ op.pending := by
  cases op <;> simp [admitted, pending]

theorem InitOp.admitted_nonneg (op : InitOp) : 0 ≤ op.admitted := by
  cases op <;> simp [admitted]

end Charges

namespace Bufs

variable [PageShift] {q : Bool} {drops : BoId → Prop} {B B' : Bufs} {b : BoId}
  {old : List (PoolEnt BoId)} {uses : BoId → Nat}

/-- The page-aligned sizes of all buffers whose memory is allocated. -/
def allocBytes (B : Bufs) : Int := bytesBelow B.bo B.next

/-- The charges of the BO_INIT calls in progress. -/
def pendingBytes (B : Bufs) : Int := (B.inits.map InitOp.pending).sum

/-- The charges in progress that passed the cap. -/
def admittedBytes (B : Bufs) : Int := (B.inits.map InitOp.admitted).sum

/-- The byte counter is exact and the memory fits under the cap. -/
structure Account (cap : Nat) (B : Bufs) : Prop where
  total : B.total = B.allocBytes + B.pendingBytes
  fits : B.allocBytes + B.admittedBytes ≤ cap

theorem admittedBytes_nonneg (B : Bufs) : 0 ≤ B.admittedBytes := by
  apply sum_nonneg
  intro x hx
  obtain ⟨op, -, rfl⟩ := mem_map.mp hx
  exact op.admitted_nonneg

theorem admittedBytes_le_pendingBytes (B : Bufs) : B.admittedBytes ≤ B.pendingBytes :=
  sum_le_sum (fun op _ => op.admitted_le_pending)

/-- What a step that drops references may do. -/
structure Moved (q : Bool) (drops : BoId → Prop) (B B' : Bufs)
    (evs : List Ev) : Prop where
  next : B'.next = B.next
  inits : B'.inits = B.inits
  io : ∀ x, (B'.bo x).fwIo = (B.bo x).fwIo
  held : ∀ x, B.place x = .held → B'.place x = .held
  freed : ∀ x, B.place x = .freed → B'.place x = .freed
  /-- References are kept, except where the last one was dropped. -/
  counted : ∀ x, (B.place x).counted = true →
    B'.place x = B.place x ∨ B'.place x = .loose ∨ drops x
  /-- A quarantined firmware may still write an io buffer. -/
  safe : q = true → ∀ x, (B.bo x).fwIo = true →
    (B.place x).counted = true →
      (B'.place x).counted = true ∨ B'.place x = .held
  evs_freed : ∀ ev ∈ evs, ∃ x, ev = .freed x ∧ B'.place x = .freed
  paid : B'.total - B'.allocBytes = B.total - B.allocBytes
  alloc_le : B'.allocBytes ≤ B.allocBytes

theorem Moved.refl (q : Bool) (drops : BoId → Prop) (B : Bufs) : Moved q drops B B [] where
  next := rfl
  inits := rfl
  io _ := rfl
  held _ h := h
  freed _ h := h
  counted _ _ := .inl rfl
  safe _ _ _ h := .inl h
  evs_freed := by simp
  paid := rfl
  alloc_le := le_rfl

theorem Moved.trans {B₁ B₂ B₃ : Bufs} {e₁ e₂ : List Ev}
    (h₁ : Moved q drops B₁ B₂ e₁) (h₂ : Moved q drops B₂ B₃ e₂) :
    Moved q drops B₁ B₃ (e₁ ++ e₂) where
  next := h₂.next.trans h₁.next
  inits := h₂.inits.trans h₁.inits
  io x := (h₂.io x).trans (h₁.io x)
  held x h := h₂.held x (h₁.held x h)
  freed x h := h₂.freed x (h₁.freed x h)
  counted x h := by
    rcases h₁.counted x h with heq | hloose | hdrop
    · rcases h₂.counted x (heq ▸ h) with heq' | hloose | hdrop
      · exact .inl (heq'.trans heq)
      · exact .inr (.inl hloose)
      · exact .inr (.inr hdrop)
    · rcases h₂.counted x (by rw [hloose]; rfl) with heq' | hloose' | hdrop
      · exact .inr (.inl (heq'.trans hloose))
      · exact .inr (.inl hloose')
      · exact .inr (.inr hdrop)
    · exact .inr (.inr hdrop)
  safe hq x hio h := by
    rcases h₁.safe hq x hio h with hc | hh
    · exact h₂.safe hq x ((h₁.io x).trans hio) hc
    · exact .inr (h₂.held x hh)
  evs_freed ev hev := by
    rcases mem_append.mp hev with hev | hev
    · obtain ⟨x, rfl, hx⟩ := h₁.evs_freed ev hev
      exact ⟨x, rfl, h₂.freed x hx⟩
    · exact h₂.evs_freed ev hev
  paid := h₂.paid.trans h₁.paid
  alloc_le := h₂.alloc_le.trans h₁.alloc_le

theorem Moved.mono {d : BoId → Prop} {evs : List Ev}
    (h : Moved q drops B B' evs) (hd : ∀ x, drops x → d x) :
    Moved q d B B' evs :=
  { h with
    counted := fun x hx => by
      rcases h.counted x hx with heq | hloose | hdrop
      · exact .inl heq
      · exact .inr (.inl hloose)
      · exact .inr (.inr (hd x hdrop)) }

theorem Account.moved {cap : Nat} {evs : List Ev} (h : B.Account cap)
    (hm : Moved q drops B B' evs) : B'.Account cap := by
  have hpend : B'.pendingBytes = B.pendingBytes := by
    rw [pendingBytes, hm.inits, pendingBytes]
  have hadm : B'.admittedBytes = B.admittedBytes := by
    rw [admittedBytes, hm.inits, admittedBytes]
  have htotal := h.total
  have hfits := h.fits
  have hpaid := hm.paid
  have hle := hm.alloc_le
  exact ⟨by omega, by omega⟩

/-- A change of one object that keeps its memory and its mark. -/
theorem moved_modify (q : Bool) (B : Bufs) {g : Bo → Bo} (hcpu : (g (B.bo b)).cpu = (B.bo b).cpu)
    (hsize : (g (B.bo b)).size = (B.bo b).size)
    (hio : (g (B.bo b)).fwIo = (B.bo b).fwIo) (drops : BoId → Prop) :
    Moved q drops B (B.modify b g) [] := by
  have hbo : ∀ x, ((B.modify b g).bo x).fwIo = (B.bo x).fwIo ∧
      ((B.modify b g).bo x).bytes = (B.bo x).bytes := by
    intro x
    by_cases hx : x = b
    · subst hx
      simp only [Bufs.modify, update_self, Bo.bytes, hcpu, hsize, hio, and_self]
    · simp only [Bufs.modify, update_of_ne hx, and_self]
  have hbytes : (B.modify b g).allocBytes = B.allocBytes := by
    rw [allocBytes, allocBytes, bytesBelow, bytesBelow]
    exact Finset.sum_congr rfl (fun x _ => (hbo x).2)
  exact ⟨rfl, rfl, fun x => (hbo x).1, fun _ h => h, fun _ h => h,
    fun _ _ => .inl rfl, fun _ _ _ h => .inl h, by simp, by rw [hbytes]; rfl,
    hbytes.le⟩

/-! ## The release -/

/-- Freeing the memory of an allocated buffer. -/
theorem dmaFree_paid (hb : b < B.next) (hcpu : (B.bo b).cpu = true) :
    (B.dmaFree b).total - (B.dmaFree b).allocBytes = B.total - B.allocBytes ∧
      (B.dmaFree b).allocBytes ≤ B.allocBytes := by
  have hupd : (B.dmaFree b).allocBytes + (B.bo b).bytes = B.allocBytes +
      ({ B.bo b with cpu := false } : Bo).bytes :=
    bytesBelow_update B.bo hb _
  have hold : (B.bo b).bytes = pageAlign (B.bo b).size := by
    simp [Bo.bytes, hcpu]
  have hnew : ({ B.bo b with cpu := false } : Bo).bytes = 0 := by
    simp [Bo.bytes]
  have htotal : (B.dmaFree b).total = B.total - pageAlign (B.bo b).size := rfl
  rw [hold, hnew] at hupd
  rw [htotal]
  omega

theorem releaseEnts_paid (hnodup : (old.map (·.bo)).Nodup)
    (halloc : ∀ e ∈ old, e.bo < B.next ∧ (B.bo e.bo).cpu = true) :
    (B.releaseEnts old).total - (B.releaseEnts old).allocBytes = B.total - B.allocBytes ∧
      (B.releaseEnts old).allocBytes ≤ B.allocBytes := by
  induction old generalizing B with
  | nil => exact ⟨rfl, le_rfl⟩
  | cons e old ih =>
    rw [map_cons, nodup_cons] at hnodup
    obtain ⟨hlt, hcpu⟩ := halloc e (by simp)
    obtain ⟨hpaid, hle⟩ := dmaFree_paid hlt hcpu
    have hrest := ih (B := B.dmaFree e.bo) hnodup.2 (fun e' he' => by
      have hne : e'.bo ≠ e.bo := fun heq =>
        hnodup.1 (heq ▸ mem_map_of_mem he')
      simp only [Bufs.dmaFree, Bufs.modify, Bufs.setPlace, update_of_ne hne]
      exact halloc e' (by simp [he']))
    exact ⟨hrest.1.trans hpaid, hrest.2.trans hle⟩

/-- An allocated place belongs to an object that exists. -/
theorem Owned.alloc_lt (h : B.Owned uses) (hb : (B.place b).allocated = true) :
    b < B.next ∧ (B.bo b).cpu = true := by
  refine ⟨?_, (h.each b).cpu.trans hb⟩
  by_contra hge
  rw [(h.each b).absent_iff.mpr (Nat.not_lt.mp hge)] at hb
  simp [Place.allocated] at hb

theorem moved_dmaFree (q : Bool) (drops : BoId → Prop) (h : B.Owned uses)
    (hb : B.place b = .limbo) :
    Moved q drops B (B.dmaFree b) [.freed b] := by
  obtain ⟨hlt, hcpu⟩ := h.alloc_lt (b := b) (by rw [hb]; rfl)
  obtain ⟨hpaid, hle⟩ := dmaFree_paid hlt hcpu
  have hself : (B.dmaFree b).place b = .freed := update_self _ _ _
  have hother : ∀ x, x ≠ b → (B.dmaFree b).place x = B.place x := fun x hx =>
    update_of_ne hx _ _
  have hkeep : ∀ x, B.place x ≠ .limbo → (B.dmaFree b).place x = B.place x := by
    intro x hx
    refine hother x ?_
    rintro rfl
    exact hx hb
  refine ⟨rfl, rfl, fun x => ?_, fun x hx => ?_, fun x hx => ?_,
    fun x hx => .inl (hkeep x ?_), fun _ x _ hx => .inl ?_, ?_, hpaid, hle⟩
  · by_cases hx : x = b
    · subst hx
      simp [Bufs.dmaFree, Bufs.modify, Bufs.setPlace]
    · simp [Bufs.dmaFree, Bufs.modify, Bufs.setPlace, hx]
  · rw [hkeep x (by simp [hx]), hx]
  · rw [hkeep x (by simp [hx]), hx]
  · intro hl
    rw [hl] at hx
    simp [Place.counted] at hx
  · rw [hkeep x (fun hl => by rw [hl] at hx; simp [Place.counted] at hx)]
    exact hx
  · intro ev hev
    exact ⟨b, mem_singleton.mp hev, hself⟩

/-- Entries that a pool function unlinked are freed.  `S` is the state after
the pool function, which moves parked and unlinked buffers only. -/
theorem moved_releaseEnts (q : Bool) (drops : BoId → Prop) {S : Bufs}
    (h : B.Owned uses) (hnodup : (old.map (·.bo)).Nodup)
    (hparked : ∀ e ∈ old, B.place e.bo = .parked) (hbo : S.bo = B.bo)
    (hnext : S.next = B.next) (htotal : S.total = B.total)
    (hinits : S.inits = B.inits)
    (hplace : ∀ x, B.place x ≠ .parked → B.place x ≠ .limbo → S.place x = B.place x) :
    Moved q drops B (S.releaseEnts old) (old.map (fun e => Ev.freed e.bo)) := by
  obtain ⟨hpaid, hle⟩ := releaseEnts_paid (B := S) hnodup (fun e he => by
    rw [hnext, hbo]
    exact h.alloc_lt (by rw [hparked e he]; rfl))
  have hsame : S.allocBytes = B.allocBytes := by
    rw [allocBytes, hbo, hnext, allocBytes]
  have hkeep : ∀ x, B.place x ≠ .parked → B.place x ≠ .limbo →
      (S.releaseEnts old).place x = B.place x := by
    intro x hp hl
    have hnot : x ∉ old.map (·.bo) := by
      intro hx
      obtain ⟨e, he, rfl⟩ := mem_map.mp hx
      exact hp (hparked e he)
    rw [(releaseEnts_at S old x).1, if_neg hnot, hplace x hp hl]
  have hcounted : ∀ x, (B.place x).counted = true → (S.releaseEnts old).place x = B.place x := by
    intro x hx
    refine hkeep x ?_ ?_ <;> intro heq <;> rw [heq] at hx <;>
      simp [Place.counted] at hx
  have hk := keeps_releaseEnts S old
  refine ⟨hk.next.trans hnext, hk.inits.trans hinits, fun x => ?_,
    fun x hx => ?_, fun x hx => ?_, fun x hx => .inl (hcounted x hx),
    fun _ x _ hx => .inl ((hcounted x hx).symm ▸ hx), fun ev hev => ?_, ?_,
    ?_⟩
  · rw [(releaseEnts_at S old x).2, hbo]
    split_ifs <;> rfl
  · rw [hkeep x (by simp [hx]) (by simp [hx]), hx]
  · rw [hkeep x (by simp [hx]) (by simp [hx]), hx]
  · obtain ⟨e, he, rfl⟩ := mem_map.mp hev
    refine ⟨e.bo, rfl, ?_⟩
    rw [(releaseEnts_at S old e.bo).1, if_pos (mem_map_of_mem he)]
  · rw [hpaid, htotal, hsame]
  · rw [← hsame]
    exact hle

/-- What evicted entries were. -/
theorem Owned.evicted_parked (h : B.Owned uses) {p : Pool BoId}
    (he : Evicts B.pool p old) {e : PoolEnt BoId} (hmem : e ∈ old) :
    B.place e.bo = .parked := by
  obtain ⟨y, hy, hyb, -⟩ := he.charged e hmem
  exact (h.each e.bo).parked_iff.mp ⟨y, hy, hyb⟩

/-- A move of an unlinked buffer that keeps every object. -/
theorem moved_setPlace (q : Bool) (drops : BoId → Prop)
    (hb : B.place b = .limbo) (hbo : B'.bo = B.bo) (hnext : B'.next = B.next)
    (htotal : B'.total = B.total) (hinits : B'.inits = B.inits)
    (hplace : ∀ x, x ≠ b → B'.place x = B.place x) : Moved q drops B B' [] := by
  have hkeep : ∀ x, B.place x ≠ .limbo → B'.place x = B.place x := by
    intro x hx
    refine hplace x ?_
    rintro rfl
    exact hx hb
  have hcounted : ∀ x, (B.place x).counted = true → B'.place x = B.place x := by
    intro x hx
    refine hkeep x (fun heq => ?_)
    rw [heq] at hx
    simp [Place.counted] at hx
  have hsame : B'.allocBytes = B.allocBytes := by
    rw [allocBytes, hbo, hnext, allocBytes]
  refine ⟨hnext, hinits, fun x => by rw [hbo], fun x hx => ?_, fun x hx => ?_,
    fun x hx => .inl (hcounted x hx),
    fun _ x _ hx => .inl ((hcounted x hx).symm ▸ hx), by simp,
    by rw [htotal, hsame], hsame.le⟩
  · rw [hkeep x (by simp [hx]), hx]
  · rw [hkeep x (by simp [hx]), hx]

/-- What `ane_t6021_bo_release` does.  A buffer that an EXEC marked is kept
while the firmware is quarantined. -/
theorem Owned.boRelease_moved (h : B.Owned uses) (hb : B.place b = .limbo)
    (q : Bool) (drops : BoId → Prop) :
    Moved q drops B (B.boRelease q b).1 (B.boRelease q b).2 ∧
      ((B.bo b).fwRef = true → q = true → (B.boRelease q b).1.place b = .held) := by
  rw [Bufs.boRelease]
  split
  · rename_i href
    refine ⟨?_, fun hr => absurd (href.symm.trans hr) (by simp)⟩
    have hev := poolPark_evicts B.pool b (B.bo b).size
    generalize poolPark B.pool b (B.bo b).size = r at hev
    obtain ⟨st, p, old⟩ := r
    have hplace : ∀ x, B.place x ≠ .parked → ∀ p₁, Evicts B.pool p₁ old →
        (B.setPool p old).place x = B.place x := by
      intro x hx p₁ he
      refine if_neg (fun hold => ?_)
      obtain ⟨e, hmem, rfl⟩ := mem_map.mp hold
      exact hx (h.evicted_parked he hmem)
    rcases hev with ⟨hok, p₁, he, -⟩ | ⟨⟨err, herr⟩, he⟩
    · simp only at hok he ⊢
      subst hok
      refine moved_releaseEnts q drops h (he.evs_nodup h.parked_nodup)
        (fun e hmem => h.evicted_parked he hmem) rfl rfl rfl rfl
        (fun x hp hl => ?_)
      have hne : x ≠ b := by
        rintro rfl
        exact hl hb
      simp only [Bufs.setPlace, update_of_ne hne]
      exact hplace x hp p₁ he
    · simp only at herr he ⊢
      subst herr
      refine (moved_releaseEnts q drops (S := B.setPool p old) h
        (he.evs_nodup h.parked_nodup) (fun e hmem => h.evicted_parked he hmem)
        rfl rfl rfl rfl (fun x hp _ => hplace x hp p he)).trans
        (moved_dmaFree q drops ((h.setPool he).releaseEnts (he.evs_nodup h.parked_nodup)
          (fun e hmem => if_pos (mem_map_of_mem hmem))
          (fun e hmem => h.evicted_ref he hmem)) ?_)
      have hnot : b ∉ old.map (·.bo) := by
        intro hmem
        obtain ⟨e, hmem, heq⟩ := mem_map.mp hmem
        exact h.limbo_notMem hb he e hmem heq
      rw [(releaseEnts_at _ old b).1, if_neg hnot]
      exact (if_neg hnot).trans hb
  · split
    · exact ⟨moved_setPlace q drops hb rfl rfl rfl rfl (fun x hx => update_of_ne hx _ _),
        fun _ _ => update_self _ _ _⟩
    · rename_i hkeep
      refine ⟨moved_setPlace q drops hb rfl rfl rfl rfl
        (fun x hx => update_of_ne hx _ _), fun _ hq => ?_⟩
      simp [hq] at hkeep

/-- What dropping one reference of `b` does. -/
theorem Owned.kput_moved (h : B.Owned (bump uses b)) (hb : (B.place b).counted = true) (q : Bool) :
    Moved q (fun x => x = b ∧ (B.bo b).refs = 1) B (B.kput q b).1 (B.kput q b).2 := by
  rw [Bufs.kput]
  split
  · rename_i hone
    have hlimbo := h.toLimbo hb hone
    have hmod := moved_modify q B (b := b) (g := fun o => { o with refs := o.refs - 1 }) rfl rfl rfl
      (fun x => x = b ∧ (B.bo b).refs = 1)
    generalize hB₁ : (B.modify b (fun o => { o with refs := o.refs - 1 })) = B₁ at hlimbo hmod
    have hplace : ∀ x, x ≠ b → (B₁.setPlace b .limbo).place x = B.place x := by
      intro x hx
      rw [← hB₁]
      exact update_of_ne hx _ _
    obtain ⟨hmoved, hheld⟩ := hlimbo.boRelease_moved
      (update_self _ _ _) q (fun x => x = b ∧ (B.bo b).refs = 1)
    have hne : ∀ x, (B.place x).counted = false → x ≠ b := by
      rintro x hx rfl
      exact absurd (hb.symm.trans hx) (by simp)
    refine ⟨hmoved.next.trans hmod.next, hmoved.inits.trans hmod.inits,
      fun x => (hmoved.io x).trans (hmod.io x), fun x hx => ?_, fun x hx => ?_,
      fun x hx => ?_, fun hq x hio hx => ?_, hmoved.evs_freed,
      hmoved.paid.trans hmod.paid, hmoved.alloc_le.trans hmod.alloc_le⟩
    · refine hmoved.held x ?_
      rw [hplace x (hne x (by rw [hx]; rfl)), hx]
    · refine hmoved.freed x ?_
      rw [hplace x (hne x (by rw [hx]; rfl)), hx]
    · by_cases hxb : x = b
      · exact .inr (.inr ⟨hxb, hone⟩)
      · have hsame := hmoved.counted x (by rw [hplace x hxb]; exact hx)
        rw [hplace x hxb] at hsame
        exact hsame
    · by_cases hxb : x = b
      · subst hxb
        refine .inr (hheld ?_ hq)
        rw [← hB₁]
        simp only [Bufs.setPlace, Bufs.modify, update_self]
        exact (h.each x).io_ref hio
      · exact hmoved.safe hq x ((hmod.io x).trans hio)
          (by rw [hplace x hxb]; exact hx)
  · exact moved_modify q B (b := b)
      (g := fun o => { o with refs := o.refs - 1 }) rfl rfl rfl _

theorem Owned.boDrop_moved (h : B.Owned uses) {f : FileId} (hb : b ∈ B.bos f) (q : Bool) :
    Moved q (fun x => x = b ∧ (B.bo b).refs = 1) B (B.boDrop q f b).1 (B.boDrop q f b).2 := by
  have hself : (B.unlink f b).place b = .loose := update_self _ _ _
  have hplace : ∀ x, x ≠ b → (B.unlink f b).place x = B.place x := fun x hx =>
    update_of_ne hx _ _
  have hpl := ((h.each b).file_iff f).mp hb
  have hunlink : Moved q (fun x => x = b ∧ (B.bo b).refs = 1) B (B.unlink f b)
      [] := by
    refine ⟨rfl, rfl, fun _ => rfl, fun x hx => ?_, fun x hx => ?_,
      fun x hx => ?_, fun _ x _ hx => .inl ?_, by simp, rfl, le_rfl⟩
    · rw [hplace x (fun heq => by rw [heq, hpl] at hx; simp at hx), hx]
    · rw [hplace x (fun heq => by rw [heq, hpl] at hx; simp at hx), hx]
    · by_cases hxb : x = b
      · exact .inr (.inl (hxb ▸ hself))
      · exact .inl (hplace x hxb)
    · by_cases hxb : x = b
      · rw [hxb, hself]
        rfl
      · rw [hplace x hxb]
        exact hx
  exact hunlink.trans ((h.unlink hb).kput_moved (by rw [hself]; rfl) q)

theorem Owned.vmClose_moved (h : B.Owned uses) (hb : 0 < B.maps b) (q : Bool) :
    Moved q (fun x => x = b ∧ (B.bo b).refs = 1) B (B.vmClose q b).1 (B.vmClose q b).2 := by
  obtain ⟨h', hcounted⟩ := h.unmap hb
  have hkput := h'.kput_moved hcounted q
  exact ⟨hkput.next, hkput.inits, hkput.io, hkput.held, hkput.freed,
    hkput.counted, hkput.safe, hkput.evs_freed, hkput.paid, hkput.alloc_le⟩

theorem Owned.dropAll_moved (h : B.Owned uses) {f : FileId} {bs : List BoId}
    (hnodup : bs.Nodup) (hbs : ∀ b ∈ bs, b ∈ B.bos f) (q : Bool) :
    Moved q (fun x => x ∈ bs) B (B.dropAll q f bs).1 (B.dropAll q f bs).2 := by
  induction bs generalizing B with
  | nil => exact Moved.refl q _ B
  | cons b bs ih =>
    obtain ⟨hb, hrest⟩ := nodup_cons.mp hnodup
    have hfirst := (h.boDrop_moved (hbs b (by simp)) q).mono
      (d := fun x => x ∈ b :: bs) (fun x hx => by simp [hx.1])
    refine hfirst.trans ((ih (h.boDrop (hbs b (by simp)) q) hrest ?_).mono
      (fun x hx => by simp [hx]))
    intro c hc
    have hne : c ≠ b := fun heq => hb (heq ▸ hc)
    exact boDrop_bos (hbs c (by simp [hc])) hne q

theorem Owned.releaseSec_moved (h : B.Owned (bump uses b)) (q : Bool) :
    Moved q (fun _ => True) B (B.releaseSec q b).1 (B.releaseSec q b).2 := by
  have hb : (B.place b).counted = true := h.counted_of_use (by rw [bump_self]; omega)
  have hmod := moved_modify q B (b := b) (g := Bo.dropProgram)
    (Bo.dropProgram_keeps _).1 (Bo.dropProgram_keeps _).2.1
    (Bo.dropProgram_keeps _).2.2.2 (fun _ => True)
  exact hmod.trans ((h.dropProgram.kput_moved hb q).mono (fun _ _ => trivial))

theorem Owned.releaseSecs_moved {secs : List (Option BoId)}
    (h : B.Owned (fun x => uses x + secs.count (some x))) (q : Bool) :
    Moved q (fun _ => True) B (B.releaseSecs q secs).1 (B.releaseSecs q secs).2 := by
  induction secs generalizing B with
  | nil => exact Moved.refl q _ B
  | cons sec secs ih =>
    cases sec with
    | none => exact ih (by simpa [count_cons] using h)
    | some b =>
      have hb := h.secs_cons
      exact (hb.releaseSec_moved q).trans (ih (hb.releaseSec q))

theorem Owned.setPoolMax_moved (h : B.Owned uses) (maxMb : Nat) (q : Bool) (drops : BoId → Prop) :
    Moved q drops B (B.setPoolMax maxMb).1 (B.setPoolMax maxMb).2 := by
  rw [Bufs.setPoolMax]
  split
  · have he := poolDrain_evicts { B.pool with maxMb := maxMb }
    have hparked : ∀ e ∈ (poolDrain { B.pool with maxMb := maxMb }).2,
        B.place e.bo = .parked := by
      intro e hmem
      obtain ⟨y, hy, hyb, -⟩ := he.charged e hmem
      exact (h.each e.bo).parked_iff.mp ⟨y, hy, hyb⟩
    refine moved_releaseEnts q drops h (he.evs_nodup h.parked_nodup) hparked
      rfl rfl rfl rfl (fun x hp _ => if_neg (fun hmem => ?_))
    obtain ⟨e, he', rfl⟩ := mem_map.mp hmem
    exact hp (hparked e he')
  · exact ⟨rfl, rfl, fun _ => rfl, fun _ hx => hx, fun _ hx => hx,
      fun _ _ => .inl rfl, fun _ _ _ hx => .inl hx, by simp, rfl,
      le_rfl⟩

end Bufs

end OmarchyAne.T6021
