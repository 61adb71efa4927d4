import OmarchyAne.Lib.Kernel
import Mathlib.Data.List.Nodup

/-!
# The parked-buffer pool

The functions of `ane/t6021/ane_t6021_pool.h`, run without concurrency.
`OmarchyAne.T6021.PoolConc` runs the same functions step by step.

A pool entry is embedded in the buffer object that it parks, so an entry
here carries its buffer object `bo`.  The list is oldest first.  The C
functions call `release` on every entry they evict; here they return the
evicted entries in the order of those calls, and the caller releases them.

`sec_bytes` is a signed 64-bit counter.  It counts bytes of buffers that are
really allocated, which is far below `2 ^ 63`, so the model keeps it as an
integer and the two casts to `size_t` are the identity.

The result that the callers use is `Evicts`: what a sequence of evictions
can do to a pool.  Every function below that evicts meets it.
-/

namespace OmarchyAne.T6021

open Lib List

variable {β : Type}

/-- `struct ane_t6021_pool_ent`, with the buffer object around it. -/
structure PoolEnt (β : Type) where
  bo : β
  size : Nat
  /-- Charged against the section budget. -/
  pooledSec : Bool
  deriving DecidableEq, Repr

/-- `struct ane_t6021_pool`. -/
structure Pool (β : Type) where
  list : List (PoolEnt β)
  secBytes : Int
  /-- The section-park budget in MiB; `0` switches it off. -/
  maxMb : Nat
  /-- The smallest section that is parked, in KiB. -/
  minKb : Nat
  deriving DecidableEq, Repr

/-- `ane_t6021_pool_init`. -/
def poolInit (maxMb minKb : Nat) : Pool β :=
  { list := [], secBytes := 0, maxMb := maxMb, minKb := minKb }

/-- The budget in bytes, `max_mb << 20`. -/
def Pool.budget (p : Pool β) : Nat := p.maxMb * 2 ^ 20

section Functions

variable [PageShift]

/-- `ane_t6021_pool_admits`. -/
def poolAdmits (p : Pool β) (size : Nat) : Bool :=
  p.maxMb != 0 && decide (p.minKb * 1024 ≤ pageAlign size)

/-- `ane_t6021_pool_evict_oldest`: unlink and uncharge the oldest charged
entry. -/
def poolEvictOldest (p : Pool β) : Option (PoolEnt β × Pool β) :=
  match p.list.find? (·.pooledSec) with
  | none => none
  | some e =>
    some ({ e with pooledSec := false },
      { p with
        secBytes := p.secBytes - pageAlign e.size
        list := p.list.eraseP (·.pooledSec) })

/-- `ane_t6021_pool_park_uncharged`. -/
def poolParkUncharged (p : Pool β) (bo : β) (size : Nat) : Pool β :=
  { p with list := p.list ++ [{ bo := bo, size := size, pooledSec := false }] }

/-- Evict until `stop` holds or nothing charged is left.  Each turn removes
one entry, so the length of the list is enough fuel. -/
def poolEvictUntil (stop : Pool β → Bool) :
    Nat → Pool β → Pool β × List (PoolEnt β)
  | 0, p => (p, [])
  | fuel + 1, p =>
    if stop p then (p, [])
    else
      match poolEvictOldest p with
      | none => (p, [])
      | some (old, p') =>
        let r := poolEvictUntil stop fuel p'
        (r.1, old :: r.2)

/-- The drain loop of a budget that is switched off. -/
def poolDrain (p : Pool β) : Pool β × List (PoolEnt β) :=
  poolEvictUntil (fun _ => false) p.list.length p

/-- The loop that makes room for a charge that is already counted. -/
def poolMakeRoom (p : Pool β) : Pool β × List (PoolEnt β) :=
  poolEvictUntil (fun q => decide (q.secBytes ≤ q.budget)) p.list.length p

/-- The end of a successful park: set the charged flag and link the entry as
the newest. -/
def poolLink (p : Pool β) (bo : β) (size : Nat) : Pool β :=
  { p with list := p.list ++ [{ bo := bo, size := size, pooledSec := true }] }

/-- `ane_t6021_pool_park`: the status, the pool, and the entries that were
released. -/
def poolPark (p : Pool β) (bo : β) (size : Nat) :
    Except Errno Unit × Pool β × List (PoolEnt β) :=
  let pg := pageAlign size
  if p.budget = 0 then
    (.error .EINVAL, (poolDrain p).1, (poolDrain p).2)
  else if !poolAdmits p size then (.error .EINVAL, p, [])
  else if p.budget < pg then (.error .ENOSPC, p, [])
  else
    -- charge first, then make room
    let charged : Pool β := { p with secBytes := p.secBytes + pg }
    if charged.secBytes ≤ p.budget then (.ok (), poolLink charged bo size, [])
    else
      let r := poolMakeRoom charged
      if r.1.secBytes ≤ p.budget then (.ok (), poolLink r.1 bo size, r.2)
      else
        (.error .ENOSPC, { r.1 with secBytes := r.1.secBytes - pg }, r.2)

/-- `ane_t6021_pool_take`: the oldest entry of the same page-aligned size. -/
def poolTake (p : Pool β) (size : Nat) (quarantined : Bool) :
    Option (PoolEnt β × Pool β) :=
  if quarantined then none
  else
    match p.list.find? (fun e => pageAlign e.size == pageAlign size) with
    | none => none
    | some e =>
      some ({ e with pooledSec := false },
        { p with
          secBytes := if e.pooledSec then p.secBytes - pageAlign e.size
            else p.secBytes
          list := p.list.eraseP
            (fun e => pageAlign e.size == pageAlign size) })

end Functions

/-! ## What one removal does -/

section Removal

/-- The entry that a search finds, and what is left of the list without it. -/
theorem find_eraseP_split {α : Type} {q : α → Bool} {l : List α} {e : α} (h : l.find? q = some e) :
    ∃ l₁ l₂, l = l₁ ++ e :: l₂ ∧ l.eraseP q = l₁ ++ l₂ ∧ q e = true ∧ ∀ x ∈ l₁, q x = false := by
  obtain ⟨hq, l₁, l₂, hl, hpre⟩ := find?_eq_some_iff_append.mp h
  refine ⟨l₁, l₂, hl, ?_, hq, fun x hx => by simpa using hpre x hx⟩
  rw [hl, eraseP_append_right _ (fun x hx => by simpa using hpre x hx), eraseP_cons_of_pos hq]

variable [PageShift]

/-- What `poolEvictOldest` does when it finds a charged entry. -/
theorem poolEvictOldest_some {p p' : Pool β} {old : PoolEnt β}
    (h : poolEvictOldest p = some (old, p')) :
    ∃ e l₁ l₂, p.list = l₁ ++ e :: l₂ ∧ e.pooledSec = true ∧ (∀ x ∈ l₁, x.pooledSec = false) ∧
      old = { e with pooledSec := false } ∧
      p' = { p with secBytes := p.secBytes - pageAlign e.size
                    list := l₁ ++ l₂ } := by
  rw [poolEvictOldest] at h
  split at h
  · cases h
  · rename_i e hfind
    obtain ⟨l₁, l₂, hl, herase, hq, hpre⟩ := find_eraseP_split hfind
    cases h
    exact ⟨e, l₁, l₂, hl, hq, hpre, rfl, by rw [herase]⟩

/-- What `poolTake` does when it finds an entry of the size. -/
theorem poolTake_some {p p' : Pool β} {size : Nat} {q : Bool} {ent : PoolEnt β}
    (h : poolTake p size q = some (ent, p')) :
    q = false ∧ ∃ e l₁ l₂, p.list = l₁ ++ e :: l₂ ∧
      p.list.find? (fun e => pageAlign e.size == pageAlign size) = some e ∧
      pageAlign e.size = pageAlign size ∧
      ent = { e with pooledSec := false } ∧
      p' = { p with
        secBytes := if e.pooledSec then p.secBytes - pageAlign e.size
          else p.secBytes
        list := l₁ ++ l₂ } := by
  rw [poolTake] at h
  split at h
  · cases h
  · rename_i hq
    refine ⟨by simpa using hq, ?_⟩
    split at h
    · cases h
    · rename_i e hfind
      obtain ⟨l₁, l₂, hl, herase, hsz, -⟩ := find_eraseP_split hfind
      cases h
      exact ⟨e, l₁, l₂, hl, hfind, by simpa using hsz, rfl, by rw [herase]⟩

end Removal

/-! ## What a sequence of evictions does -/

/-- `p'` is `p` after the charged entries `evs` were evicted: nothing is
reordered, every evicted entry was charged, and no entry is lost. -/
structure Evicts (p p' : Pool β) (evs : List (PoolEnt β)) : Prop where
  sublist : p'.list.Sublist p.list
  perm : (evs.map (·.bo) ++ p'.list.map (·.bo)).Perm (p.list.map (·.bo))
  charged : ∀ e ∈ evs, ∃ x ∈ p.list, x.bo = e.bo ∧ x.pooledSec = true
  maxMb_eq : p'.maxMb = p.maxMb
  minKb_eq : p'.minKb = p.minKb

theorem Evicts.refl (p : Pool β) : Evicts p p [] where
  sublist := List.Sublist.refl _
  perm := List.Perm.refl _
  charged := by simp
  maxMb_eq := rfl
  minKb_eq := rfl

variable {p p' : Pool β} {evs : List (PoolEnt β)}

/-- The counter is no part of what `Evicts` says. -/
theorem Evicts.congr {q q' : Pool β} (h : Evicts p p' evs)
    (hl : q.list = p.list) (hl' : q'.list = p'.list) (hm : q.maxMb = p.maxMb)
    (hm' : q'.maxMb = p'.maxMb) (hk : q.minKb = p.minKb)
    (hk' : q'.minKb = p'.minKb) :
    Evicts q q' evs where
  sublist := by rw [hl, hl']; exact h.sublist
  perm := by rw [hl, hl']; exact h.perm
  charged := by rw [hl]; exact h.charged
  maxMb_eq := by rw [hm, hm', h.maxMb_eq]
  minKb_eq := by rw [hk, hk', h.minKb_eq]

/-- One eviction before a sequence of evictions. -/
theorem Evicts.cons {q r : Pool β} {old : PoolEnt β} (h₁ : Evicts p q [old]) (h₂ : Evicts q r evs) :
    Evicts p r (old :: evs) := by
  refine ⟨h₂.sublist.trans h₁.sublist, ?_, ?_, h₂.maxMb_eq.trans h₁.maxMb_eq,
    h₂.minKb_eq.trans h₁.minKb_eq⟩
  · have h := h₁.perm
    simp only [map_cons, map_nil, singleton_append] at h
    simp only [map_cons, cons_append]
    exact (h₂.perm.cons _).trans h
  · intro e he
    rcases mem_cons.mp he with rfl | he
    · exact h₁.charged e (by simp)
    · obtain ⟨x, hx, hbo, hsec⟩ := h₂.charged e he
      exact ⟨x, h₁.sublist.subset hx, hbo, hsec⟩

/-- An evicted buffer is not parked any more. -/
theorem Evicts.notMem (h : Evicts p p' evs) (hnodup : (p.list.map (·.bo)).Nodup)
    {e : PoolEnt β} (he : e ∈ evs) : ∀ x ∈ p'.list, x.bo ≠ e.bo := by
  intro x hx heq
  have hsplit := h.perm.nodup_iff.mpr hnodup
  exact (nodup_append.mp hsplit).2.2 e.bo (mem_map_of_mem he) x.bo (mem_map_of_mem hx) heq.symm

/-- An entry whose buffer was not evicted stays. -/
theorem Evicts.mem_iff (h : Evicts p p' evs) (hnodup : (p.list.map (·.bo)).Nodup) {e : PoolEnt β}
    (he : e.bo ∉ evs.map (·.bo)) : e ∈ p'.list ↔ e ∈ p.list := by
  refine ⟨fun hmem => h.sublist.subset hmem, fun hmem => ?_⟩
  have hbo : e.bo ∈ evs.map (·.bo) ++ p'.list.map (·.bo) := h.perm.mem_iff.mpr (mem_map_of_mem hmem)
  rcases mem_append.mp hbo with hbo | hbo
  · exact absurd hbo he
  · obtain ⟨e', he', heq⟩ := mem_map.mp hbo
    exact inj_on_of_nodup_map hnodup (h.sublist.subset he') hmem heq ▸ he'

theorem Evicts.nodup (h : Evicts p p' evs) (hnodup : (p.list.map (·.bo)).Nodup) :
    (p'.list.map (·.bo)).Nodup :=
  (h.sublist.map _).nodup hnodup

/-- No entry is evicted twice. -/
theorem Evicts.evs_nodup (h : Evicts p p' evs) (hnodup : (p.list.map (·.bo)).Nodup) :
    (evs.map (·.bo)).Nodup :=
  (nodup_append.mp (h.perm.nodup_iff.mpr hnodup)).1

section Eviction

variable [PageShift]

theorem poolEvictOldest_evicts {old : PoolEnt β} (h : poolEvictOldest p = some (old, p')) :
    Evicts p p' [old] := by
  obtain ⟨e, l₁, l₂, hl, hsec, -, rfl, rfl⟩ := poolEvictOldest_some h
  refine ⟨?_, ?_, ?_, rfl, rfl⟩
  · rw [hl]
    exact (List.Sublist.refl l₁).append (sublist_cons_self e l₂)
  · rw [hl]
    simp only [map_cons, map_nil, map_append, singleton_append]
    exact perm_middle.symm
  · intro x hx
    rw [mem_singleton.mp hx]
    exact ⟨e, by rw [hl]; simp, rfl, hsec⟩

theorem poolEvictUntil_evicts (stop : Pool β → Bool) (fuel : Nat) (p : Pool β) :
    Evicts p (poolEvictUntil stop fuel p).1 (poolEvictUntil stop fuel p).2 := by
  induction fuel generalizing p with
  | zero => exact Evicts.refl p
  | succ fuel ih =>
    rw [poolEvictUntil]
    split
    · exact Evicts.refl p
    · split
      · exact Evicts.refl p
      · rename_i old p' hevict
        exact (poolEvictOldest_evicts hevict).cons (ih p')

theorem poolDrain_evicts (p : Pool β) : Evicts p (poolDrain p).1 (poolDrain p).2 :=
  poolEvictUntil_evicts _ _ p

/-- A park evicts some charged entries; on success the new entry is then the
newest one, and it is charged. -/
theorem poolPark_evicts (p : Pool β) (bo : β) (size : Nat) :
    ((poolPark p bo size).1 = .ok () ∧ ∃ q, Evicts p q (poolPark p bo size).2.2 ∧
          (poolPark p bo size).2.1.list =
            q.list ++ [{ bo := bo, size := size, pooledSec := true }]) ∨
      (∃ err, (poolPark p bo size).1 = .error err) ∧
        Evicts p (poolPark p bo size).2.1 (poolPark p bo size).2.2 := by
  have hroom : ∀ c : Int, Evicts p (poolMakeRoom { p with secBytes := c }).1
      (poolMakeRoom { p with secBytes := c }).2 := fun c =>
    (poolEvictUntil_evicts _ _ { p with secBytes := c }).congr rfl rfl rfl rfl
      rfl rfl
  rw [poolPark]
  simp only
  split_ifs with hoff hadm hbig hfit hroomy
  · exact .inr ⟨⟨_, rfl⟩, poolDrain_evicts p⟩
  · exact .inr ⟨⟨_, rfl⟩, Evicts.refl p⟩
  · exact .inr ⟨⟨_, rfl⟩, Evicts.refl p⟩
  · exact .inl ⟨rfl, p, Evicts.refl p, rfl⟩
  · exact .inl ⟨rfl, _, hroom _, rfl⟩
  · exact .inr ⟨⟨_, rfl⟩, (hroom _).congr rfl rfl rfl rfl rfl rfl⟩

end Eviction

end OmarchyAne.T6021
