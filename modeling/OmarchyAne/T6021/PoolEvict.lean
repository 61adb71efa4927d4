import OmarchyAne.T6021.PoolConc

/-!
# What the pool evicts

The two loops of `ane/t6021/ane_t6021_pool.h` that evict: the one of a park
that makes room, and the one of an allocation that is tried again.  Both take
the oldest charged entry in each turn, so what they release is a prefix of the
charged entries (`poolEvictUntil_eq`).

A park charges the newcomer first and evicts against a counter that has it.
The result does not show this: the prefix is the shortest that makes room, and
a park that is refused releases nothing (`poolPark_policy`).

`OmarchyAne.T6021.AllocRetry` is the loop of an allocation.
-/

namespace OmarchyAne.T6021

open Lib List

variable {β : Type}

/-- The charged entries, the oldest first. -/
def Pool.charged (p : Pool β) : List (PoolEnt β) :=
  p.list.filter (·.pooledSec)

/-- An entry after its eviction. -/
def PoolEnt.uncharged (e : PoolEnt β) : PoolEnt β :=
  { e with pooledSec := false }

section Evict

variable [PageShift] {p : Pool β} {e : PoolEnt β} {rest : List (PoolEnt β)}

/-- The pool after `k` evictions. -/
def Pool.evict (p : Pool β) (k : Nat) : Pool β :=
  { p with
    list := dropFirst (·.pooledSec) k p.list
    secBytes := p.secBytes -
      ((p.charged.take k).map fun e => (pageAlign e.size : Int)).sum }

theorem Pool.evict_zero (p : Pool β) : p.evict 0 = p := by
  simp [Pool.evict, dropFirst]

theorem Pool.charged_evict (p : Pool β) (k : Nat) : (p.evict k).charged = p.charged.drop k :=
  filter_dropFirst k p.list

theorem poolEvictOldest_nil (h : p.charged = []) : poolEvictOldest p = none := by
  have hnone : p.list.find? (·.pooledSec) = none := by
    rw [← head?_filter]
    exact congrArg List.head? h
  rw [poolEvictOldest, hnone]

theorem poolEvictOldest_cons (h : p.charged = e :: rest) :
    poolEvictOldest p = some (e.uncharged, p.evict 1) := by
  have hsome : p.list.find? (·.pooledSec) = some e := by
    rw [← head?_filter]
    exact congrArg List.head? h
  rw [poolEvictOldest, hsome]
  simp [Pool.evict, h, dropFirst, PoolEnt.uncharged]

theorem Pool.evict_succ (h : p.charged = e :: rest) (k : Nat) :
    p.evict (k + 1) = (p.evict 1).evict k := by
  have hrest : (p.evict 1).charged = rest := by
    rw [p.charged_evict, h, drop_one, tail_cons]
  have hbytes : (p.evict (k + 1)).secBytes = ((p.evict 1).evict k).secBytes := by
    simp only [Pool.evict] at hrest ⊢
    rw [hrest, h]
    simp only [take_succ_cons, map_cons, sum_cons,
      take_zero, map_nil, sum_nil]
    omega
  calc p.evict (k + 1)
      = { (p.evict 1).evict k with
          secBytes := (p.evict (k + 1)).secBytes } := rfl
    _ = (p.evict 1).evict k := by rw [hbytes]

/-- A loop of evictions releases a prefix of the charged entries.  It goes on
while it may not stop and something charged is left. -/
theorem poolEvictUntil_eq (stop : Pool β → Bool) (fuel : Nat) (p : Pool β)
    (hfuel : p.charged.length ≤ fuel) :
    ∃ k ≤ p.charged.length, poolEvictUntil stop fuel p =
        (p.evict k, (p.charged.take k).map PoolEnt.uncharged) ∧
      (∀ j < k, stop (p.evict j) = false) ∧
      (k < p.charged.length → stop (p.evict k) = true) := by
  induction fuel generalizing p with
  | zero =>
    refine ⟨0, Nat.zero_le _, ?_, ?_, ?_⟩
    · rw [p.evict_zero]
      rfl
    · intro j hj
      omega
    · intro hlt
      omega
  | succ fuel ih =>
    rw [poolEvictUntil]
    split
    next hstop =>
      refine ⟨0, Nat.zero_le _, ?_, ?_, ?_⟩
      · rw [p.evict_zero]
        rfl
      · intro j hj
        omega
      · intro _
        rw [p.evict_zero]
        exact hstop
    next hgo =>
    cases hcharged : p.charged with
    | nil =>
      rw [poolEvictOldest_nil hcharged]
      refine ⟨0, Nat.zero_le _, ?_, ?_, ?_⟩
      · rw [p.evict_zero]
        rfl
      · intro j hj
        omega
      · intro hlt
        exact absurd hlt (Nat.lt_irrefl 0)
    | cons e rest =>
      have hrest : (p.evict 1).charged = rest := by
        rw [p.charged_evict, hcharged, drop_one, tail_cons]
      rw [hcharged, length_cons] at hfuel
      obtain ⟨k, hk, hrun, hbefore, hlast⟩ := ih (p.evict 1) (by rw [hrest]; omega)
      rw [hrest] at hk hrun hlast
      rw [poolEvictOldest_cons hcharged]
      refine ⟨k + 1, Nat.succ_le_succ hk, ?_, ?_, ?_⟩
      · rw [Pool.evict_succ hcharged k]
        simp only [hrun]
        rfl
      · intro j hj
        cases j with
        | zero =>
          rw [p.evict_zero]
          exact Bool.eq_false_of_not_eq_true hgo
        | succ j =>
          rw [Pool.evict_succ hcharged]
          exact hbefore j (by omega)
      · intro hlt
        rw [Pool.evict_succ hcharged]
        exact hlast (Nat.lt_of_succ_lt_succ hlt)

end Evict

/-! ## A park -/

/-- `rest` is `l` without its first `k` charged entries. -/
structure Without (k : Nat) (l rest : List (PoolEnt β)) : Prop where
  order : rest.Sublist l
  charged : rest.filter (·.pooledSec) =
    (l.filter (·.pooledSec)).drop k
  uncharged : rest.filter (fun e => !e.pooledSec) =
    l.filter (fun e => !e.pooledSec)

section Park

variable [PageShift] {p : Pool β}

theorem Pool.evict_without (p : Pool β) (k : Nat) : Without k p.list (p.evict k).list where
  order := dropFirst_sublist k p.list
  charged := filter_dropFirst k p.list
  uncharged := filter_not_dropFirst k p.list

/-- An entry fits behind the entries of a list. -/
def Fits (budget size : Nat) (l : List (PoolEnt β)) : Prop :=
  chargedBytes l + pageAlign size ≤ budget

theorem chargedBytes_eq_filter (l : List (PoolEnt β)) : chargedBytes l =
      ((l.filter fun e => e.pooledSec).map fun e =>
        (pageAlign e.size : Int)).sum := by
  induction l with
  | nil => rfl
  | cons e l ih =>
    rw [chargedBytes_cons, ih]
    cases he : e.pooledSec with
    | true => simp [he]
    | false => simp [he]

/-- The charged entries alone decide what fits. -/
theorem Without.chargedBytes_eq {k : Nat} {l rest rest' : List (PoolEnt β)}
    (h : Without k l rest) (h' : Without k l rest') :
    chargedBytes rest = chargedBytes rest' := by
  rw [chargedBytes_eq_filter, chargedBytes_eq_filter, h.charged, h'.charged]

/-- The counter follows the evictions. -/
theorem Pool.evict_secBytes {pg : Int} (h : p.secBytes = chargedBytes p.list + pg) (k : Nat) :
    (p.evict k).secBytes = chargedBytes (p.evict k).list + pg := by
  have hsplit := sum_take_add_sum_drop (p.charged.map fun e => (pageAlign e.size : Int)) k
  rw [← map_take, ← map_drop] at hsplit
  rw [chargedBytes_eq_filter] at h ⊢
  have hrest := (p.evict_without k).charged
  change (p.evict k).list.filter _ = p.charged.drop k at hrest
  rw [hrest]
  change p.secBytes - _ = _
  change p.secBytes = (p.charged.map _).sum + pg at h
  omega

/-- A park that is not refused for its size makes room. -/
theorem poolPark_admitted (hbudget : p.budget ≠ 0)
    (hcount : p.secBytes = chargedBytes p.list) (bo : β) {size : Nat}
    (hsmall : poolAdmits p size = true) (hbig : pageAlign size ≤ p.budget) :
    ∃ k ≤ p.charged.length, poolPark p bo size =
        (.ok (), poolLink ({ p with secBytes := p.secBytes + pageAlign size }.evict k) bo size,
          (p.charged.take k).map PoolEnt.uncharged) ∧
      Fits p.budget size (p.evict k).list ∧
      ∀ j < k, ¬ Fits p.budget size (p.evict j).list := by
  let c : Pool β := { p with secBytes := p.secBytes + pageAlign size }
  have hfits : ∀ j, (c.evict j).secBytes ≤ c.budget ↔ Fits p.budget size (p.evict j).list := by
    intro j
    have hc : c.secBytes = chargedBytes c.list + pageAlign size := by
      change p.secBytes + _ = _
      rw [hcount]
    rw [Pool.evict_secBytes hc j]
    exact Iff.rfl
  have hpark : poolPark p bo size =
      if c.secBytes ≤ p.budget then (.ok (), poolLink c bo size, [])
      else if (poolMakeRoom c).1.secBytes ≤ p.budget then
        (.ok (), poolLink (poolMakeRoom c).1 bo size, (poolMakeRoom c).2)
      else (.error .ENOSPC,
        { (poolMakeRoom c).1 with
          secBytes := (poolMakeRoom c).1.secBytes - pageAlign size },
        (poolMakeRoom c).2) := by
    rw [poolPark]
    simp only [hbudget, hsmall, Nat.not_lt.2 hbig, if_false, Bool.not_true, Bool.false_eq_true]
    rfl
  by_cases hfast : c.secBytes ≤ p.budget
  · refine ⟨0, Nat.zero_le _, ?_, ?_, ?_⟩
    · rw [hpark, if_pos hfast, Pool.evict_zero]
      rfl
    · rw [← hfits, c.evict_zero]
      exact hfast
    · intro j hj
      omega
  · have hlen : c.charged.length ≤ c.list.length := length_filter_le _ _
    obtain ⟨k, hk, hrun, hbefore, hlast⟩ := poolEvictUntil_eq
      (fun q => decide (q.secBytes ≤ q.budget)) c.list.length c hlen
    change poolMakeRoom c = _ at hrun
    -- With nothing charged left, the entry fits alone.
    have hroom : (c.evict k).secBytes ≤ c.budget := by
      by_cases hall : k < c.charged.length
      · exact of_decide_eq_true (hlast hall)
      · have hnone : (p.evict k).list.filter (·.pooledSec) = [] := (p.charged_evict k).trans
            (drop_eq_nil_of_le (Nat.not_lt.1 hall))
        rw [hfits, Fits, chargedBytes_eq_filter, hnone, map_nil, sum_nil]
        omega
    refine ⟨k, hk, ?_, (hfits k).1 hroom, ?_⟩
    · have hok : (poolMakeRoom c).1.secBytes ≤ p.budget := by
        rw [hrun]
        exact hroom
      rw [hpark, if_neg hfast, if_pos hok, hrun]
      rfl
    · intro j hj hj'
      exact of_decide_eq_false (hbefore j hj) ((hfits j).2 hj')

/-- A park under a budget.  On success it releases the shortest prefix of the
charged entries that makes room, and links the new entry behind the rest.  It
is refused for its size only, and then nothing happens. -/
theorem poolPark_policy {p : Pool β} (hbudget : p.maxMb ≠ 0)
    (hcount : p.secBytes = chargedBytes p.list) (bo : β) (size : Nat) :
    let r := poolPark p bo size
    (r.1 = .ok () → ∃ k ≤ p.charged.length, ∃ rest,
      r.2.2 = (p.charged.take k).map PoolEnt.uncharged ∧
      Without k p.list rest ∧ Fits p.budget size rest ∧
      (∀ j < k, ∀ rest', Without j p.list rest' → ¬ Fits p.budget size rest') ∧
      r.2.1.list = rest ++ [{ bo := bo, size := size, pooledSec := true }] ∧
      r.2.1.secBytes = chargedBytes r.2.1.list) ∧
    ∀ err, r.1 = .error err →
      (err = .EINVAL ∧ pageAlign size < p.minKb * 1024 ∨
        err = .ENOSPC ∧ p.budget < pageAlign size) ∧
      r.2.2 = [] ∧ r.2.1 = p := by
  have hbudget' : p.budget ≠ 0 := by
    rw [Pool.budget]
    omega
  by_cases hsmall : poolAdmits p size = true
  · by_cases hbig : pageAlign size ≤ p.budget
    · obtain ⟨k, hk, hpark, hfits, hbefore⟩ :=
        poolPark_admitted hbudget' hcount bo hsmall hbig
      rw [hpark]
      refine ⟨?_, fun err herr => (by cases herr)⟩
      intro _
      refine ⟨k, hk, (p.evict k).list, rfl, p.evict_without k, hfits, ?_, rfl, ?_⟩
      · intro j hj rest' hrest' hfits'
        rw [Fits, hrest'.chargedBytes_eq (p.evict_without j)] at hfits'
        exact hbefore j hj hfits'
      · have hc : p.secBytes + pageAlign size = chargedBytes p.list + pageAlign size := by
          rw [hcount]
        have hbytes := Pool.evict_secBytes
          (p := { p with secBytes := p.secBytes + pageAlign size }) hc k
        simp only [poolLink]
        rw [chargedBytes_append, hbytes]
        simp [chargedBytes]
    · have hpark : poolPark p bo size = (.error .ENOSPC, p, []) := by
        rw [poolPark]
        simp only [hbudget', hsmall, Nat.not_le.1 hbig, if_false, if_true,
          Bool.not_true, Bool.false_eq_true]
      rw [hpark]
      refine ⟨fun hok => (by cases hok), ?_⟩
      intro err herr
      cases herr
      exact ⟨.inr ⟨rfl, Nat.not_le.1 hbig⟩, rfl, rfl⟩
  · have hpark : poolPark p bo size = (.error .EINVAL, p, []) := by
      rw [poolPark]
      simp only [hbudget', Bool.eq_false_of_not_eq_true hsmall, if_false, Bool.not_false, if_true]
    rw [hpark]
    refine ⟨fun hok => (by cases hok), ?_⟩
    intro err herr
    cases herr
    refine ⟨.inl ⟨rfl, ?_⟩, rfl, rfl⟩
    rw [poolAdmits, Bool.and_eq_true, bne_iff_ne, decide_eq_true_eq] at hsmall
    omega

end Park

section Example

local instance parkPages : PageShift := page16K

/-- A budget of 1 MiB with two sections of 512 KiB, and an io buffer between
them. -/
def fullPool : Pool Nat where
  list := [⟨1, 524288, true⟩, ⟨2, 16384, false⟩, ⟨3, 524288, true⟩]
  secBytes := 1048576
  maxMb := 1
  minKb := 64

/-- A third section takes the place of the oldest. -/
theorem poolPark_policy_fullPool : (poolPark fullPool 4 262144).2.1.list =
      [⟨2, 16384, false⟩, ⟨3, 524288, true⟩, ⟨4, 262144, true⟩] ∧
    ∃ k rest, (poolPark fullPool 4 262144).2.2 = (fullPool.charged.take k).map PoolEnt.uncharged ∧
      Without k fullPool.list rest ∧ Fits fullPool.budget 262144 rest := by
  have hcount : fullPool.secBytes = chargedBytes fullPool.list := by decide
  obtain ⟨k, -, rest, hout, hrest, hfits, -⟩ :=
    (poolPark_policy (show fullPool.maxMb ≠ 0 by decide) hcount 4 262144).1 rfl
  exact ⟨by decide, k, rest, hout, hrest, hfits⟩

end Example

end OmarchyAne.T6021
