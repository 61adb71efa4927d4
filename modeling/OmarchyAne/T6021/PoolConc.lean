import OmarchyAne.Lib.Lists
import OmarchyAne.Lib.Run
import OmarchyAne.T6021.Pool
import Mathlib.Algebra.Order.BigOperators.Group.List
import Mathlib.Algebra.Order.Group.Nat

/-!
# The parked-buffer pool under concurrency

`ane_t6021_pool_park`, `ane_t6021_pool_take` and
`ane_t6021_pool_evict_oldest` run at the same time on several CPUs: an
unmap drops its reference without the buffer lock.  The pool lock protects
the list, and the byte counter is a single atomic word that is also read
and written outside the lock.

`PoolOp` is the program counter of one such call.  One step of an operation
is one section under the pool lock or one access to the counter, so a run of
`poolSystem` is one interleaving of any number of calls.

In the middle of a park the counter and the list disagree: the charge is
counted before the entry is linked.  `PoolOp.pending` is that charge, and
`PoolInv.bytes` is the balance that every interleaving keeps.  A park links
its entry only after it saw the counter at or below the budget.  At that
moment the counter holds its own charge, every linked charge and the charge
of every other park that passed the same test, and that is `PoolInv.fits`.

`counted` is a ghost: the buffers whose charge the counter holds now.  It
changes exactly where the code adds to the counter or subtracts from it.
-/

namespace OmarchyAne.T6021

open Lib List

variable {β : Type}

/-- The program counter of one pool call. -/
inductive PoolOp (β : Type) where
  /-- At the entry of `pool_park`. -/
  | parkStart (bo : β) (size : Nat)
  /-- In the drain loop of a budget that is switched off. -/
  | parkDrain (bo : β)
  /-- In the drain loop, with an evicted entry to release. -/
  | parkDrainRelease (bo old : β)
  /-- Before `atomic64_add_return`. -/
  | parkCharge (bo : β) (size : Nat)
  /-- At the read of the loop condition. -/
  | parkLoop (bo : β) (size : Nat)
  /-- In the loop, before the eviction. -/
  | parkEvict (bo : β) (size : Nat)
  /-- In the loop, with an evicted entry to release. -/
  | parkRelease (bo : β) (size : Nat) (old : β)
  /-- At the read after the loop. -/
  | parkCheck (bo : β) (size : Nat)
  /-- Before the charge is undone. -/
  | parkUndo (bo : β) (size : Nat)
  /-- Before the entry is linked. -/
  | parkLink (bo : β) (size : Nat)
  /-- Before an uncharged entry is linked. -/
  | parkUncharged (bo : β) (size : Nat)
  /-- At the entry of `pool_take`. -/
  | take (size : Nat) (quarantined : Bool)
  /-- At the entry of `pool_evict_oldest`. -/
  | evict
  /-- The call returned, and its caller owns the buffer. -/
  | returned (bo : β)
  /-- The call returned without a buffer. -/
  | done
  deriving DecidableEq, Repr

/-- The pool and the calls in progress. -/
structure PoolState (β : Type) where
  pool : Pool β
  ops : List (PoolOp β)
  counted : List β
  deriving DecidableEq, Repr

inductive PoolAct (β : Type) where
  /-- A new call starts. -/
  | spawn (op : PoolOp β)
  /-- Call `i` makes its next step. -/
  | step (i : Nat)
  /-- The caller of call `i` is done with the buffer it was handed. -/
  | forget (i : Nat)
  deriving DecidableEq, Repr

namespace PoolOp

/-- The buffers that a call has in its hands. -/
def holds : PoolOp β → List β
  | parkStart bo _ | parkDrain bo | parkCharge bo _ | parkLoop bo _
  | parkEvict bo _ | parkCheck bo _ | parkUndo bo _ | parkLink bo _
  | parkUncharged bo _ | returned bo => [bo]
  | parkDrainRelease bo old | parkRelease bo _ old => [bo, old]
  | take _ _ | evict | done => []

/-- The buffer of a charge that is counted and not yet linked or undone. -/
def charging : PoolOp β → Option β
  | parkLoop bo _ | parkEvict bo _ | parkRelease bo _ _ | parkCheck bo _
  | parkUndo bo _ | parkLink bo _ => some bo
  | _ => none

section Bytes

variable [PageShift]

/-- The bytes of a charge that is counted and not yet linked or undone. -/
def pending : PoolOp β → Int
  | parkLoop _ size | parkEvict _ size | parkRelease _ size _
  | parkCheck _ size | parkUndo _ size | parkLink _ size => pageAlign size
  | _ => 0

/-- The bytes of a charge that passed the budget test. -/
def admitted : PoolOp β → Int
  | parkLink _ size => pageAlign size
  | _ => 0

theorem admitted_le_pending (op : PoolOp β) : op.admitted ≤ op.pending := by
  cases op <;> simp [admitted, pending]

theorem pending_nonneg (op : PoolOp β) : 0 ≤ op.pending := by
  cases op <;> simp [pending]

theorem admitted_nonneg (op : PoolOp β) : 0 ≤ op.admitted := by
  cases op <;> simp [admitted]

end Bytes

/-- A call starts at the entry of one of the pool functions. -/
def isEntry : PoolOp β → Bool
  | parkStart _ _ | parkUncharged _ _ | take _ _ | evict => true
  | _ => false

end PoolOp

section Steps

variable [PageShift] [DecidableEq β]

/-- The entry that `poolTake` finds is charged. -/
def poolTakeCharged (p : Pool β) (size : Nat) : Bool :=
  (p.list.find? (fun e => pageAlign e.size == pageAlign size)).any
    (·.pooledSec)

/-- One atomic step of a call: the pool, the ghost set of counted charges and
the next program counter. -/
def poolOpStep (p : Pool β) (c : List β) :
    PoolOp β → Option (Pool β × List β × PoolOp β)
  | .parkStart bo size =>
    -- the tests before the charge read constants only
    if p.budget = 0 then some (p, c, .parkDrain bo)
    else if !poolAdmits p size then some (p, c, .returned bo)
    else if p.budget < pageAlign size then some (p, c, .returned bo)
    else some (p, c, .parkCharge bo size)
  | .parkDrain bo =>
    match poolEvictOldest p with
    | none => some (p, c, .returned bo)
    | some (old, p') => some (p', c.erase old.bo, .parkDrainRelease bo old.bo)
  | .parkDrainRelease bo _ => some (p, c, .parkDrain bo)
  | .parkCharge bo size =>
    let p' : Pool β := { p with secBytes := p.secBytes + pageAlign size }
    some (p', bo :: c, if p'.secBytes ≤ p.budget then .parkLink bo size else .parkLoop bo size)
  | .parkLoop bo size =>
    some (p, c, if p.secBytes ≤ p.budget then .parkCheck bo size else .parkEvict bo size)
  | .parkEvict bo size =>
    match poolEvictOldest p with
    | none => some (p, c, .parkCheck bo size)
    | some (old, p') => some (p', c.erase old.bo, .parkRelease bo size old.bo)
  | .parkRelease bo size _ => some (p, c, .parkLoop bo size)
  | .parkCheck bo size =>
    some (p, c, if p.secBytes ≤ p.budget then .parkLink bo size else .parkUndo bo size)
  | .parkUndo bo size =>
    some ({ p with secBytes := p.secBytes - pageAlign size }, c.erase bo,
      .returned bo)
  | .parkLink bo size => some (poolLink p bo size, c, .done)
  | .parkUncharged bo size => some (poolParkUncharged p bo size, c, .done)
  | .take size quarantined =>
    match poolTake p size quarantined with
    | none => some (p, c, .done)
    | some (e, p') =>
      -- the code subtracts from the counter for a charged entry only
      some (p', if poolTakeCharged p size then c.erase e.bo else c, .returned e.bo)
  | .evict =>
    match poolEvictOldest p with
    | none => some (p, c, .done)
    | some (old, p') => some (p', c.erase old.bo, .returned old.bo)
  | .returned _ | .done => none

/-- Nobody has the buffer: it is not parked, and no call holds it.  The
caller of a park promises this, because it dropped the last reference. -/
def PoolState.unowned (s : PoolState β) (bo : β) : Bool :=
  s.pool.list.all (fun e => decide (e.bo ≠ bo)) &&
    s.ops.all (fun op => decide (bo ∉ op.holds))

/-- One step of the pool with all its calls. -/
def poolStep (s : PoolState β) : PoolAct β → Option (PoolState β)
  | .spawn op =>
    if op.isEntry && op.holds.all s.unowned then
      some { s with ops := s.ops ++ [op] }
    else none
  | .step i =>
    match s.ops[i]? with
    | none => none
    | some op =>
      match poolOpStep s.pool s.counted op with
      | none => none
      | some (p, c, op') =>
        some { pool := p, counted := c, ops := s.ops.set i op' }
  | .forget i =>
    match s.ops[i]? with
    | some (.returned _) => some { s with ops := s.ops.set i .done }
    | _ => none

/-- An empty pool without calls. -/
def poolStart (maxMb minKb : Nat) : PoolState β :=
  { pool := poolInit maxMb minKb, ops := [], counted := [] }

/-- The pool with a budget that no step changes. -/
def poolSystem (maxMb minKb : Nat) : System (PoolState β) (PoolAct β) where
  init s := s = poolStart maxMb minKb
  step := poolStep

end Steps

/-! ## The invariant -/

section Measures

variable [PageShift]

/-- The bytes of the charged entries of a list. -/
def chargedBytes (l : List (PoolEnt β)) : Int :=
  (l.map (fun e => if e.pooledSec then (pageAlign e.size : Int) else 0)).sum

/-- The charges of the parks that are still in progress. -/
def pendingBytes (ops : List (PoolOp β)) : Int :=
  (ops.map PoolOp.pending).sum

/-- The charges that passed the budget test and are not linked yet. -/
def admittedBytes (ops : List (PoolOp β)) : Int :=
  (ops.map PoolOp.admitted).sum

/-- The buffers of the charged entries of a list. -/
def chargedBos (l : List (PoolEnt β)) : List β :=
  (l.filter (·.pooledSec)).map (·.bo)

theorem chargedBytes_append (l₁ l₂ : List (PoolEnt β)) :
    chargedBytes (l₁ ++ l₂) = chargedBytes l₁ + chargedBytes l₂ := by
  simp [chargedBytes]

theorem chargedBytes_cons (e : PoolEnt β) (l : List (PoolEnt β)) : chargedBytes (e :: l) =
      (if e.pooledSec then (pageAlign e.size : Int) else 0) + chargedBytes l := by
  simp [chargedBytes]

theorem chargedBytes_nonneg (l : List (PoolEnt β)) : 0 ≤ chargedBytes l := by
  apply sum_nonneg
  intro x hx
  obtain ⟨e, -, rfl⟩ := mem_map.mp hx
  split
  · exact Int.natCast_nonneg _
  · exact le_refl 0

theorem pendingBytes_nonneg (ops : List (PoolOp β)) : 0 ≤ pendingBytes ops := by
  apply sum_nonneg
  intro x hx
  obtain ⟨op, -, rfl⟩ := mem_map.mp hx
  exact op.pending_nonneg

theorem admittedBytes_nonneg (ops : List (PoolOp β)) : 0 ≤ admittedBytes ops := by
  apply sum_nonneg
  intro x hx
  obtain ⟨op, -, rfl⟩ := mem_map.mp hx
  exact op.admitted_nonneg

theorem admittedBytes_le_pendingBytes (ops : List (PoolOp β)) :
    admittedBytes ops ≤ pendingBytes ops :=
  sum_le_sum (fun op _ => op.admitted_le_pending)

/-- The bytes of the calls after call `i` moved from `op` to `op'`. -/
theorem ops_set_bytes {ops : List (PoolOp β)} {i : Nat} {op : PoolOp β}
    (hop : ops[i]? = some op) (op' : PoolOp β) :
    pendingBytes (ops.set i op') + op.pending = pendingBytes ops + op'.pending ∧
      admittedBytes (ops.set i op') + op.admitted = admittedBytes ops + op'.admitted :=
  ⟨sum_map_set _ hop op', sum_map_set _ hop op'⟩

end Measures

section Counts

variable [DecidableEq β]

/-- How many places have the buffer: the list and the hands of the calls. -/
def PoolState.owners (s : PoolState β) (bo : β) : Nat :=
  (s.pool.list.map (·.bo)).count bo +
    (s.ops.map (fun op => op.holds.count bo)).sum

/-- How many charges of the buffer the list and the calls account for. -/
def PoolState.charges (s : PoolState β) (bo : β) : Nat :=
  (chargedBos s.pool.list).count bo +
    (s.ops.map (fun op => op.charging.toList.count bo)).sum

/-- A charge in progress is in the hands of its call. -/
theorem PoolOp.count_charging_le (op : PoolOp β) (bo : β) :
    op.charging.toList.count bo ≤ op.holds.count bo := by
  cases op <;> simp [PoolOp.charging, PoolOp.holds, count_cons]

/-- The buffers of the calls after call `i` moved from `op` to `op'`. -/
theorem ops_set_counts {ops : List (PoolOp β)} {i : Nat} {op : PoolOp β}
    (hop : ops[i]? = some op) (op' : PoolOp β) (bo : β) :
    ((ops.set i op').map (fun o => o.holds.count bo)).sum + op.holds.count bo =
        (ops.map (fun o => o.holds.count bo)).sum + op'.holds.count bo ∧
      ((ops.set i op').map (fun o => o.charging.toList.count bo)).sum +
          op.charging.toList.count bo =
        (ops.map (fun o => o.charging.toList.count bo)).sum + op'.charging.toList.count bo :=
  ⟨sum_map_set _ hop op', sum_map_set _ hop op'⟩

/-- An unowned buffer is in no place. -/
theorem PoolState.owners_eq_zero {s : PoolState β} {bo : β}
    (h : s.unowned bo = true) : s.owners bo = 0 := by
  simp only [PoolState.unowned, Bool.and_eq_true, all_eq_true, decide_eq_true_eq] at h
  obtain ⟨hlist, hops⟩ := h
  have hl : (s.pool.list.map (·.bo)).count bo = 0 := by
    rw [count_eq_zero]
    intro hmem
    obtain ⟨e, he, hbo⟩ := mem_map.mp hmem
    exact hlist e he hbo
  have ho : (s.ops.map (fun op => op.holds.count bo)).sum = 0 := by
    rw [sum_eq_zero]
    intro n hn
    obtain ⟨op, hop, rfl⟩ := mem_map.mp hn
    exact count_eq_zero.mpr (hops op hop)
  rw [PoolState.owners, hl, ho]

end Counts

section Invariant

variable [PageShift] [DecidableEq β] {p p' : Pool β} {old : PoolEnt β} {size : Nat} {q : Bool}
  {ent : PoolEnt β} {c : List β} {op op' : PoolOp β} {maxMb : Nat} {s : PoolState β} {e : PoolEnt β}

/-- What every interleaving keeps. -/
structure PoolInv (maxMb : Nat) (s : PoolState β) : Prop where
  maxMb_eq : s.pool.maxMb = maxMb
  /-- The counter is the linked charges and the charges in progress. -/
  bytes : s.pool.secBytes = chargedBytes s.pool.list + pendingBytes s.ops
  /-- The linked charges and the charges about to be linked fit. -/
  fits : chargedBytes s.pool.list + admittedBytes s.ops ≤ s.pool.budget
  /-- A buffer is in one place. -/
  once : ∀ bo, s.owners bo ≤ 1
  /-- The ghost set of counted charges is what the places account for. -/
  counted : ∀ bo, s.counted.count bo = s.charges bo

/-- How an eviction moves the four measures. -/
theorem poolEvictOldest_measures (h : poolEvictOldest p = some (old, p')) (bo : β) :
    p'.secBytes = p.secBytes - pageAlign old.size ∧
      chargedBytes p.list = chargedBytes p'.list + pageAlign old.size ∧
      (p.list.map (·.bo)).count bo = (p'.list.map (·.bo)).count bo + [old.bo].count bo ∧
      (chargedBos p.list).count bo = (chargedBos p'.list).count bo + [old.bo].count bo ∧
      p'.maxMb = p.maxMb := by
  obtain ⟨e, l₁, l₂, hl, hsec, -, rfl, rfl⟩ := poolEvictOldest_some h
  simp only [hl, chargedBytes_append, chargedBytes_cons, hsec, if_true,
    chargedBos, filter_append, filter_cons_of_pos, map_append,
    map_cons, count_append, count_cons, count_nil]
  refine ⟨trivial, by omega, by omega, by omega, trivial⟩

/-- How a take moves the four measures. -/
theorem poolTake_measures (h : poolTake p size q = some (ent, p')) (bo : β) :
    p.secBytes - chargedBytes p.list = p'.secBytes - chargedBytes p'.list ∧
      chargedBytes p'.list ≤ chargedBytes p.list ∧
      (p.list.map (·.bo)).count bo = (p'.list.map (·.bo)).count bo + [ent.bo].count bo ∧
      (chargedBos p.list).count bo = (chargedBos p'.list).count bo +
        (if poolTakeCharged p size then [ent.bo].count bo else 0) ∧
      p'.maxMb = p.maxMb := by
  obtain ⟨-, e, l₁, l₂, hl, hfind, -, rfl, rfl⟩ := poolTake_some h
  have hch : poolTakeCharged p size = e.pooledSec := by
    simp [poolTakeCharged, hfind]
  simp only [hch, hl, chargedBytes_append, chargedBytes_cons, chargedBos,
    filter_append, map_append, map_cons, count_append,
    count_cons, count_nil]
  cases hsec : e.pooledSec with
  | false =>
    simp only [hsec, Bool.false_eq_true, if_false, not_false_eq_true, filter_cons_of_neg]
    refine ⟨by omega, by omega, by omega, by omega, trivial⟩
  | true =>
    simp only [hsec, if_true, filter_cons_of_pos, map_cons, count_cons]
    refine ⟨by omega, by omega, by omega, by omega, trivial⟩

/-- What one step of a call does, in the measures of the invariant.  The
only step that may add to the admitted bytes is one that saw the counter at
or below the budget. -/
structure OpEffect (p : Pool β) (c : List β) (op : PoolOp β)
    (p' : Pool β) (c' : List β) (op' : PoolOp β) : Prop where
  maxMb_eq : p'.maxMb = p.maxMb
  bytes : p'.secBytes - chargedBytes p'.list - op'.pending =
    p.secBytes - chargedBytes p.list - op.pending
  fits : chargedBytes p'.list + op'.admitted ≤
      chargedBytes p.list + op.admitted ∨
    p'.secBytes ≤ p.budget
  once : ∀ bo, (p'.list.map (·.bo)).count bo + op'.holds.count bo ≤
    (p.list.map (·.bo)).count bo + op.holds.count bo
  counted : (∀ bo, (chargedBos p.list).count bo + op.charging.toList.count bo ≤ c.count bo) →
    ∀ bo, c'.count bo + (chargedBos p.list).count bo +
        op.charging.toList.count bo =
      c.count bo + (chargedBos p'.list).count bo +
        op'.charging.toList.count bo

/-- A step that touches neither the list nor the counter. -/
theorem OpEffect.silent (hpend : op'.pending = op.pending)
    (hadm : op'.admitted ≤ op.admitted ∨ p.secBytes ≤ p.budget)
    (hholds : ∀ bo, op'.holds.count bo ≤ op.holds.count bo)
    (hchg : op'.charging = op.charging) : OpEffect p c op p c op' where
  maxMb_eq := rfl
  bytes := by rw [hpend]
  fits := by
    rcases hadm with h | h
    · exact .inl (by omega)
    · exact .inr h
  once bo := Nat.add_le_add_left (hholds bo) _
  counted _ bo := by rw [hchg]

/-- A step that evicts `old` and takes it into its hands. -/
theorem OpEffect.evicted (h : poolEvictOldest p = some (old, p'))
    (hpend : op'.pending = op.pending) (hadm : op'.admitted = op.admitted)
    (hholds : ∀ bo, op'.holds.count bo ≤ op.holds.count bo + [old.bo].count bo)
    (hchg : op'.charging = op.charging) :
    OpEffect p c op p' (c.erase old.bo) op' where
  maxMb_eq := (poolEvictOldest_measures h old.bo).2.2.2.2
  bytes := by
    obtain ⟨hsec, hbytes, -⟩ := poolEvictOldest_measures h old.bo
    rw [hpend]
    omega
  fits := by
    obtain ⟨-, hbytes, -⟩ := poolEvictOldest_measures h old.bo
    rw [hadm]
    exact .inl (by omega)
  once bo := by
    obtain ⟨-, -, hlist, -⟩ := poolEvictOldest_measures h bo
    have := hholds bo
    omega
  counted hc bo := by
    obtain ⟨-, -, -, hchgd, -⟩ := poolEvictOldest_measures h bo
    have hcb := hc bo
    have herase : (c.erase old.bo).count bo + [old.bo].count bo =
        c.count bo := count_erase_add (by omega)
    rw [hchg]
    omega

/-- Charging puts the buffer among the counted ones. -/
theorem OpEffect.charge (p : Pool β) (c : List β) (bo : β) (size : Nat) :
    let p' : Pool β := { p with secBytes := p.secBytes + pageAlign size }
    OpEffect p c (.parkCharge bo size) p' (bo :: c)
      (if p'.secBytes ≤ p.budget then .parkLink bo size
        else .parkLoop bo size) := by
  intro p'
  split
  · refine ⟨rfl, ?_, .inr ‹_›, fun b => le_rfl, fun _ b => ?_⟩
    · simp only [PoolOp.pending, p']
      omega
    · simp [PoolOp.charging, p', count_cons]
      omega
  · refine ⟨rfl, ?_, .inl le_rfl, fun b => le_rfl, fun _ b => ?_⟩
    · simp only [PoolOp.pending, p']
      omega
    · simp [PoolOp.charging, p', count_cons]
      omega

/-- Undoing a charge takes it off the counter again. -/
theorem OpEffect.undo (p : Pool β) (c : List β) (bo : β) (size : Nat) :
    OpEffect p c (.parkUndo bo size) { p with secBytes := p.secBytes - pageAlign size } (c.erase bo)
      (.returned bo) := by
  refine ⟨rfl, ?_, .inl le_rfl, fun b => le_rfl, fun hc b => ?_⟩
  · simp only [PoolOp.pending]
    omega
  · have hcb := hc b
    simp only [PoolOp.charging, Option.toList_some, Option.toList_none, count_nil] at hcb ⊢
    have herase : (c.erase bo).count b + [bo].count b = c.count b := count_erase_add (by omega)
    omega

/-- Linking turns the charge in progress into a charged entry. -/
theorem OpEffect.link (p : Pool β) (c : List β) (bo : β) (size : Nat) :
    OpEffect p c (.parkLink bo size) (poolLink p bo size) c .done := by
  refine ⟨rfl, ?_, .inl ?_, fun b => ?_, fun _ b => ?_⟩
  · simp only [poolLink, chargedBytes_append, chargedBytes_cons, PoolOp.pending, if_true]
    simp only [chargedBytes, map_nil, sum_nil]
    omega
  · simp only [poolLink, chargedBytes_append, chargedBytes_cons, PoolOp.admitted, if_true]
    simp only [chargedBytes, map_nil, sum_nil]
    omega
  · simp [poolLink, PoolOp.holds]
  · simp [poolLink, PoolOp.charging, chargedBos]
    omega

/-- An uncharged entry moves no counter. -/
theorem OpEffect.uncharged (p : Pool β) (c : List β) (bo : β) (size : Nat) :
    OpEffect p c (.parkUncharged bo size) (poolParkUncharged p bo size) c .done := by
  have hbytes : chargedBytes (poolParkUncharged p bo size).list = chargedBytes p.list := by
    simp [poolParkUncharged, chargedBytes]
  refine ⟨rfl, ?_, .inl ?_, fun b => ?_, fun _ b => ?_⟩
  · rw [hbytes]
    rfl
  · rw [hbytes]
    exact le_rfl
  · simp [poolParkUncharged, PoolOp.holds]
  · simp [poolParkUncharged, PoolOp.charging, chargedBos]

/-- A take moves its entry from the list to the hands of the caller. -/
theorem OpEffect.take (c : List β) (h : poolTake p size q = some (ent, p')) :
    OpEffect p c (.take size q) p' (if poolTakeCharged p size then c.erase ent.bo else c)
      (.returned ent.bo) where
  maxMb_eq := (poolTake_measures h ent.bo).2.2.2.2
  bytes := by
    obtain ⟨hbytes, -⟩ := poolTake_measures h ent.bo
    simp only [PoolOp.pending]
    omega
  fits := by
    obtain ⟨-, hfits, -⟩ := poolTake_measures h ent.bo
    exact .inl (add_le_add_left hfits _)
  once b := by
    obtain ⟨-, -, hlist, -⟩ := poolTake_measures h b
    simp only [PoolOp.holds, count_nil]
    omega
  counted hc b := by
    obtain ⟨-, -, -, hchg, -⟩ := poolTake_measures h b
    have hcb := hc b
    simp only [PoolOp.charging, Option.toList_none, count_nil] at hcb ⊢
    split at hchg
    · have herase : (c.erase ent.bo).count b + [ent.bo].count b =
          c.count b := count_erase_add (by omega)
      rw [if_pos ‹_›]
      omega
    · rw [if_neg ‹_›]
      omega

/-- Every step of a call has an `OpEffect`. -/
theorem poolOpStep_effect {c' : List β} (h : poolOpStep p c op = some (p', c', op')) :
    OpEffect p c op p' c' op' := by
  cases op with
  | parkStart bo size =>
    simp only [poolOpStep] at h
    split_ifs at h <;> obtain ⟨rfl, rfl, rfl⟩ := h <;>
      exact .silent rfl (.inl le_rfl) (fun _ => le_rfl) rfl
  | parkDrain bo =>
    simp only [poolOpStep] at h
    split at h
    · obtain ⟨rfl, rfl, rfl⟩ := h
      exact .silent rfl (.inl le_rfl) (fun _ => le_rfl) rfl
    · rename_i old q hevict
      obtain ⟨rfl, rfl, rfl⟩ := h
      exact .evicted hevict rfl rfl (fun b => by simp [PoolOp.holds, count_cons]; omega) rfl
  | parkDrainRelease bo old =>
    obtain ⟨rfl, rfl, rfl⟩ := h
    exact .silent rfl (.inl le_rfl) (fun b => by simp [PoolOp.holds, count_cons]) rfl
  | parkCharge bo size =>
    cases h
    exact .charge p c bo size
  | parkLoop bo size =>
    cases h
    split <;>
      exact .silent rfl (.inl le_rfl) (fun _ => le_rfl) rfl
  | parkEvict bo size =>
    simp only [poolOpStep] at h
    split at h
    · obtain ⟨rfl, rfl, rfl⟩ := h
      exact .silent rfl (.inl le_rfl) (fun _ => le_rfl) rfl
    · rename_i old q hevict
      obtain ⟨rfl, rfl, rfl⟩ := h
      exact .evicted hevict rfl rfl (fun b => by simp [PoolOp.holds, count_cons]; omega) rfl
  | parkRelease bo size old =>
    obtain ⟨rfl, rfl, rfl⟩ := h
    exact .silent rfl (.inl le_rfl) (fun b => by simp [PoolOp.holds, count_cons]) rfl
  | parkCheck bo size =>
    cases h
    split
    · exact .silent rfl (.inr ‹_›) (fun _ => le_rfl) rfl
    · exact .silent rfl (.inl le_rfl) (fun _ => le_rfl) rfl
  | parkUndo bo size =>
    cases h
    exact .undo p c bo size
  | parkLink bo size =>
    obtain ⟨rfl, rfl, rfl⟩ := h
    exact .link p c bo size
  | parkUncharged bo size =>
    obtain ⟨rfl, rfl, rfl⟩ := h
    exact .uncharged p c bo size
  | take size quarantined =>
    simp only [poolOpStep] at h
    split at h
    · obtain ⟨rfl, rfl, rfl⟩ := h
      exact .silent rfl (.inl le_rfl) (fun _ => le_rfl) rfl
    · rename_i ent q htake
      cases h
      exact .take c htake
  | evict =>
    simp only [poolOpStep] at h
    split at h
    · obtain ⟨rfl, rfl, rfl⟩ := h
      exact .silent rfl (.inl le_rfl) (fun _ => le_rfl) rfl
    · rename_i old q hevict
      obtain ⟨rfl, rfl, rfl⟩ := h
      exact .evicted hevict rfl rfl (fun b => by simp [PoolOp.holds]) rfl
  | returned bo => exact absurd h (by simp [poolOpStep])
  | done => exact absurd h (by simp [poolOpStep])

/-- Setting call `i` keeps the invariant when its step has an `OpEffect`. -/
theorem PoolInv.set {i : Nat} (hinv : PoolInv maxMb s)
    (hop : s.ops[i]? = some op) (heff : OpEffect s.pool s.counted op p c op') :
    PoolInv maxMb { pool := p, counted := c, ops := s.ops.set i op' } := by
  obtain ⟨hpend, hadm⟩ := ops_set_bytes hop op'
  have hbytes : p.secBytes = chargedBytes p.list + pendingBytes (s.ops.set i op') := by
    have hold := hinv.bytes
    have hnew := heff.bytes
    omega
  refine ⟨heff.maxMb_eq.trans hinv.maxMb_eq, hbytes, ?_, ?_, ?_⟩
  · have hbudget : p.budget = s.pool.budget := by
      simp only [Pool.budget, heff.maxMb_eq]
    have hold := hinv.fits
    have hle := admittedBytes_le_pendingBytes (s.ops.set i op')
    simp only [hbudget]
    rcases heff.fits with hless | hsaw
    · omega
    · -- the counter that was read holds every admitted charge
      omega
  · intro bo
    obtain ⟨hholds, -⟩ := ops_set_counts hop op' bo
    have hold := hinv.once bo
    have hnew := heff.once bo
    simp only [PoolState.owners] at hold ⊢
    omega
  · have hle : ∀ bo, (chargedBos s.pool.list).count bo +
        op.charging.toList.count bo ≤ s.counted.count bo := by
      intro bo
      obtain ⟨-, hchg⟩ := ops_set_counts hop .done bo
      have hold := hinv.counted bo
      simp only [PoolState.charges] at hold
      have hnone : (PoolOp.done : PoolOp β).charging.toList.count bo = 0 := rfl
      omega
    intro bo
    obtain ⟨-, hchg⟩ := ops_set_counts hop op' bo
    have hold := hinv.counted bo
    have hnew := heff.counted hle bo
    simp only [PoolState.charges] at hold ⊢
    omega

/-- A call that starts has charged nothing and holds at most its buffer. -/
theorem PoolOp.entry_measures (h : op.isEntry = true) :
    op.pending = 0 ∧ op.admitted = 0 ∧ op.charging = none ∧ ∀ bo, op.holds.count bo ≤ 1 := by
  cases op <;> simp [PoolOp.isEntry] at h <;>
    simp [PoolOp.pending, PoolOp.admitted, PoolOp.charging, PoolOp.holds, count_le_length.trans]

/-- A new call keeps the invariant. -/
theorem PoolInv.spawn (hinv : PoolInv maxMb s) (hentry : op.isEntry = true)
    (hown : ∀ bo ∈ op.holds, s.unowned bo = true) :
    PoolInv maxMb { s with ops := s.ops ++ [op] } := by
  obtain ⟨hpend, hadm, hchg, hholds⟩ := PoolOp.entry_measures hentry
  refine ⟨hinv.maxMb_eq, ?_, ?_, ?_, ?_⟩
  · simpa [pendingBytes, hpend] using hinv.bytes
  · simpa [admittedBytes, hadm] using hinv.fits
  · intro bo
    have hold := hinv.once bo
    have hone := hholds bo
    simp only [PoolState.owners, map_append, map_cons,
      map_nil, sum_append, sum_cons, sum_nil] at hold ⊢
    by_cases hmem : bo ∈ op.holds
    · have hzero := PoolState.owners_eq_zero (hown bo hmem)
      simp only [PoolState.owners] at hzero
      omega
    · have hnone := count_eq_zero.mpr hmem
      omega
  · intro bo
    simpa [PoolState.charges, hchg] using hinv.counted bo

/-- Every step keeps the invariant. -/
theorem poolStep_inv {s' : PoolState β} {a : PoolAct β} (hinv : PoolInv maxMb s)
    (h : poolStep s a = some s') :
    PoolInv maxMb s' := by
  cases a with
  | spawn op =>
    simp only [poolStep] at h
    split at h
    · rename_i hok
      obtain ⟨hentry, hown⟩ := Bool.and_eq_true_iff.mp hok
      exact Option.some.inj h ▸ hinv.spawn hentry (all_eq_true.mp hown)
    · cases h
  | step i =>
    simp only [poolStep] at h
    split at h
    · cases h
    · rename_i op hop
      split at h
      · cases h
      · rename_i p c op' hstep
        exact Option.some.inj h ▸ hinv.set hop (poolOpStep_effect hstep)
  | forget i =>
    simp only [poolStep] at h
    split at h
    · rename_i bo hop
      refine Option.some.inj h ▸ hinv.set hop ?_
      exact .silent rfl (.inl le_rfl) (fun _ => by simp [PoolOp.holds])
        rfl
    · cases h

theorem poolInv_init (maxMb minKb : Nat) : PoolInv maxMb (poolStart maxMb minKb : PoolState β) where
  maxMb_eq := rfl
  bytes := rfl
  fits := Int.natCast_nonneg _
  once _ := Nat.zero_le 1
  counted _ := rfl

theorem poolSystem_inv {minKb : Nat} (h : (poolSystem maxMb minKb).Reachable s) : PoolInv maxMb s :=
  System.reachable_invariant (fun _ hinit => by cases hinit; exact poolInv_init maxMb minKb)
    (fun _ _ _ => poolStep_inv) h

/-- A parked buffer is on the list once. -/
theorem PoolInv.nodup (hinv : PoolInv maxMb s) : (s.pool.list.map (·.bo)).Nodup := by
  rw [nodup_iff_count]
  intro bo
  have := hinv.once bo
  simp only [PoolState.owners] at this
  omega

/-- A parked buffer is in nobody's hands, so no charge of it is pending. -/
theorem PoolInv.counted_parked (hinv : PoolInv maxMb s) (he : e ∈ s.pool.list) :
    s.counted.count e.bo = (chargedBos s.pool.list).count e.bo := by
  have hlist : 0 < (s.pool.list.map (·.bo)).count e.bo := count_pos_iff.mpr (mem_map_of_mem he)
  have hpending : (s.ops.map (fun op => op.charging.toList.count e.bo)).sum ≤
      (s.ops.map (fun op => op.holds.count e.bo)).sum :=
    sum_le_sum (fun op _ => op.count_charging_le e.bo)
  have hone := hinv.once e.bo
  have hcnt := hinv.counted e.bo
  simp only [PoolState.owners] at hone
  simp only [PoolState.charges] at hcnt
  omega

/-- The flag of an entry says whether its charge is counted. -/
theorem PoolInv.pooledSec_iff (hinv : PoolInv maxMb s) (he : e ∈ s.pool.list) :
    e.pooledSec = true ↔ e.bo ∈ s.counted := by
  rw [← count_pos_iff, hinv.counted_parked he, count_pos_iff]
  constructor
  · intro hsec
    exact mem_map_of_mem (mem_filter.mpr ⟨he, hsec⟩)
  · intro hmem
    obtain ⟨e', he', hbo⟩ := mem_map.mp hmem
    obtain ⟨hmem', hsec⟩ := mem_filter.mp he'
    exact inj_on_of_nodup_map hinv.nodup hmem' he hbo ▸ hsec

/-- Along every interleaving the counter is the charges of the list and of
the parks in progress, it is not negative, the charged entries fit in the
budget, a buffer is parked at most once, and its flag is set exactly when its
charge is counted. -/
theorem poolSystem_charges_exact {maxMb minKb : Nat} {s : PoolState β}
    (h : (poolSystem maxMb minKb).Reachable s) :
    s.pool.secBytes = chargedBytes s.pool.list + pendingBytes s.ops ∧ 0 ≤ s.pool.secBytes ∧
      chargedBytes s.pool.list ≤ (maxMb * 2 ^ 20 : Nat) ∧
      (s.pool.list.map (·.bo)).Nodup ∧
      ∀ e ∈ s.pool.list, e.pooledSec = true ↔ e.bo ∈ s.counted := by
  have hinv := poolSystem_inv h
  have hcharged := chargedBytes_nonneg s.pool.list
  have hpending := pendingBytes_nonneg s.ops
  have hadmitted := admittedBytes_nonneg s.ops
  have hbytes := hinv.bytes
  refine ⟨hbytes, by omega, ?_, hinv.nodup, fun e => hinv.pooledSec_iff⟩
  have hfits := hinv.fits
  rw [Pool.budget, hinv.maxMb_eq] at hfits
  omega

end Invariant

section Interleaving

local instance poolPages : PageShift := page16K

/-- Two parks of 640 KiB race for a budget of 1 MiB, and a third buffer is
parked uncharged.  Both charges are counted before the first entry is linked;
the second park evicts the first entry before it links its own. -/
def racingParks : List (PoolAct Nat) :=
  [.spawn (.parkStart 1 655360), .spawn (.parkStart 2 655360),
    .spawn (.parkUncharged 3 16384), .step 0, .step 1, .step 0, .step 1,
    .step 2, .step 0, .step 1, .step 1, .step 1, .step 1, .step 1, .step 1]

theorem poolSystem_charges_exact_racingParks : ∃ s : PoolState Nat, (poolSystem 1 0).Reachable s ∧
      s.pool.list.map (fun e => (e.bo, e.pooledSec)) = [(3, false), (2, true)] ∧
      s.pool.secBytes = chargedBytes s.pool.list + pendingBytes s.ops := by
  have hrun : ((poolSystem 1 0).run (poolStart 1 0) racingParks).isSome := by decide
  have hreach : (poolSystem 1 0).Reachable
      (((poolSystem 1 0).run (poolStart 1 0) racingParks).get hrun) :=
    ⟨poolStart 1 0, racingParks, rfl, by simp⟩
  exact ⟨_, hreach, rfl, (poolSystem_charges_exact hreach).1⟩

end Interleaving

end OmarchyAne.T6021
