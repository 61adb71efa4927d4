import OmarchyAne.T6021.Bufs
import OmarchyAne.T6021.PoolEvict

/-!
# The allocation loop of BO_INIT

`ane_t6021_pool_alloc_retry` tries an allocation, and after a failure for want
of memory it releases the oldest charged entry of the pool and tries again.
The attempt is a pointer to a function with a context, so it is any function on
a state here, and a release may change that state too.

The C loop has no bound of its own.  The model has fuel, and the loop ends with
more fuel than there are charged entries (`poolAllocRetry_ends`).

The driver passes `ane_t6021_bo_alloc_attempt`.  The steps of a BO_INIT that
runs alone are this loop with that attempt (`boAllocRetry_steps`).
-/

namespace OmarchyAne.T6021

open Lib List

variable {β σ : Type}

/-- `-ENOMEM`. -/
def enomem : Int32 := -12

/-- `-ENOSPC`. -/
def enospc : Int32 := -28

/-- The attempt failed for want of memory. -/
def starved (ret : Int32) : Bool := ret == enomem || ret == enospc

/-- A turn of the loop: what the attempt returned, and the entry that was
released after it. -/
structure Turn (β : Type) where
  ret : Int32
  released : Option (PoolEnt β)
  deriving DecidableEq, Repr

/-- What the loop leaves. -/
structure Retried (β σ : Type) where
  ret : Int32
  pool : Pool β
  state : σ
  turns : List (Turn β)

section Retry

variable [PageShift] (attempt : σ → Int32 × σ) (release : PoolEnt β → σ → σ)

/-- `ane_t6021_pool_alloc_retry`. -/
def poolAllocRetry : Nat → Pool β → σ → Option (Retried β σ)
  | 0, _, _ => none
  | fuel + 1, p, s =>
    let (ret, s) := attempt s
    if !starved ret then some ⟨ret, p, s, [⟨ret, none⟩]⟩
    else
      match poolEvictOldest p with
      | none => some ⟨ret, p, s, [⟨ret, none⟩]⟩
      | some (old, p) => do
        let r ← poolAllocRetry fuel p (release old s)
        return { r with turns := ⟨ret, some old⟩ :: r.turns }

/-- The state before turn `i`: each turn before it made an attempt and released
the oldest entry that was charged then. -/
def stateBefore (p : Pool β) (s : σ) (i : Nat) : σ :=
  (p.charged.take i).foldl (fun s e => release e.uncharged (attempt s).2) s

/-- A run of the loop whose last turn is turn `n`. -/
structure RetryRun (p : Pool β) (s : σ) (n : Nat) (r : Retried β σ) : Prop where
  turns : r.turns.length = n + 1
  /-- Every turn before the last made an attempt that failed for want of memory,
  and released the oldest entry that was charged then. -/
  before : ∀ i < n, ∃ e, p.charged[i]? = some e ∧
    starved (attempt (stateBefore attempt release p s i)).1 = true ∧
    r.turns[i]? = some ⟨(attempt (stateBefore attempt release p s i)).1, some e.uncharged⟩
  /-- The last turn releases nothing, and what its attempt gives is returned. -/
  last : r.turns[n]? = some ⟨r.ret, none⟩
  result : attempt (stateBefore attempt release p s n) = (r.ret, r.state)
  /-- The pool lost these entries and no other. -/
  pool : r.pool = p.evict n
  /-- The last turn did not fail, or nothing charged is left. -/
  final : starved r.ret = true → r.pool.charged = []

variable {attempt release} {p : Pool β} {s : σ} {n : Nat} {r : Retried β σ}

theorem RetryRun.le (h : RetryRun attempt release p s n r) : n ≤ p.charged.length := by
  by_contra hlt
  obtain ⟨e, he, -⟩ := h.before p.charged.length (Nat.not_le.1 hlt)
  rw [getElem?_eq_none le_rfl] at he
  cases he

/-- A run of one turn. -/
theorem RetryRun.single (hfinal : starved (attempt s).1 = true → p.charged = []) :
    RetryRun attempt release p s 0
      ⟨(attempt s).1, p, (attempt s).2, [⟨(attempt s).1, none⟩]⟩ where
  turns := rfl
  before := by simp
  last := rfl
  result := rfl
  pool := p.evict_zero.symm
  final := hfinal

/-- A failed turn before a run. -/
theorem RetryRun.cons {e : PoolEnt β} {rest : List (PoolEnt β)} (hcharged : p.charged = e :: rest)
    (hret : starved (attempt s).1 = true)
    (h : RetryRun attempt release (p.evict 1) (release e.uncharged (attempt s).2) n r) :
    RetryRun attempt release p s (n + 1)
      { r with turns := ⟨(attempt s).1, some e.uncharged⟩ :: r.turns } := by
  have hrest : (p.evict 1).charged = rest := by
    rw [p.charged_evict, hcharged, drop_one, tail_cons]
  have hstate (i : Nat) : stateBefore attempt release p s (i + 1) =
      stateBefore attempt release (p.evict 1) (release e.uncharged (attempt s).2) i := by
    rw [stateBefore, stateBefore, hcharged, hrest, take_succ_cons, foldl_cons]
  refine ⟨congrArg (· + 1) h.turns, ?_, h.last, (congrArg attempt (hstate n)).trans h.result, ?_,
    h.final⟩
  · intro i hi
    cases i with
    | zero => exact ⟨e, by rw [hcharged]; rfl, hret, rfl⟩
    | succ i =>
      obtain ⟨x, hx, hstarved, hturn⟩ := h.before i (Nat.lt_of_succ_lt_succ hi)
      rw [hrest] at hx
      rw [hstate]
      exact ⟨x, by rw [hcharged]; exact hx, hstarved, hturn⟩
  · exact h.pool.trans (Pool.evict_succ hcharged n).symm

variable (attempt release)

theorem poolAllocRetry_run (k : Nat) (hk : p.charged.length = k) (s : σ) :
    ∃ r n, (∀ fuel, k < fuel → poolAllocRetry attempt release fuel p s = some r) ∧
      RetryRun attempt release p s n r := by
  induction k generalizing p s with
  | zero =>
    have hnil : p.charged = [] := length_eq_zero_iff.1 hk
    refine ⟨_, _, ?_, RetryRun.single fun _ => hnil⟩
    intro fuel hfuel
    obtain ⟨fuel, rfl⟩ := Nat.exists_eq_succ_of_ne_zero (Nat.ne_zero_of_lt hfuel)
    rw [poolAllocRetry, poolEvictOldest_nil hnil]
    simp only [ite_self]
  | succ k ih =>
    obtain ⟨e, rest, hcharged⟩ := exists_cons_of_length_eq_add_one hk
    cases hstarved : starved (attempt s).1 with
    | false =>
      refine ⟨_, _, ?_, RetryRun.single fun h => absurd h (by simp [hstarved])⟩
      intro fuel hfuel
      obtain ⟨fuel, rfl⟩ := Nat.exists_eq_succ_of_ne_zero (Nat.ne_zero_of_lt hfuel)
      rw [poolAllocRetry]
      simp only [hstarved, Bool.not_false, if_true]
    | true =>
      have hrest : (p.evict 1).charged.length = k := by
        rw [p.charged_evict, length_drop, hk]
        rfl
      obtain ⟨r, n, hrun, hr⟩ := ih hrest (release e.uncharged (attempt s).2)
      refine ⟨_, _, ?_, hr.cons hcharged hstarved⟩
      intro fuel hfuel
      obtain ⟨fuel, rfl⟩ := Nat.exists_eq_succ_of_ne_zero (Nat.ne_zero_of_lt hfuel)
      rw [poolAllocRetry, poolEvictOldest_cons hcharged]
      simp only [hstarved, Bool.not_true, Bool.false_eq_true, if_false]
      rw [hrun fuel (Nat.lt_of_succ_lt_succ hfuel)]
      rfl

/-- The loop ends after at most one turn more than there are charged entries.
It releases the oldest charged entry after each failed turn but the last, and
it fails for want of memory only when nothing charged is left. -/
theorem poolAllocRetry_ends (p : Pool β) (s : σ) :
    ∃ r n, (∀ fuel, p.charged.length < fuel → poolAllocRetry attempt release fuel p s = some r) ∧
      r.turns.length ≤ p.charged.length + 1 ∧ RetryRun attempt release p s n r := by
  obtain ⟨r, n, hrun, hr⟩ := poolAllocRetry_run attempt release _ rfl s
  exact ⟨r, n, hrun, hr.turns ▸ Nat.succ_le_succ hr.le, hr⟩

end Retry

/-! ## The attempt of the driver -/

section Driver

variable [PageShift] {κ : Type} (cfg : BufCfg) (alloc : Bufs → κ → AllocResult × κ)
  (i : Nat) (f : FileId) (size : Nat)

/-- `-ERANGE`. -/
def erange : Int32 := -34

/-- `ane_t6021_bo_alloc_attempt` in BO_INIT call `i`.  `alloc` is what the
allocators of the kernel answer. -/
def boAllocAttempt (c : Bufs × κ) : Int32 × Bufs × κ :=
  let B := c.1.charge size
  if (cfg.cap : Int) < B.total then (enospc, B.uncharge size, c.2)
  else
    match alloc B c.2 with
    | (.kzallocFails, k) | (.dmaFails, k) => (enomem, B.uncharge size, k)
    | (.ok dma, k) =>
      if dma % 2 ^ 14 ≠ 0 ∨ cfg.aliasOk dma size = false then
        (erange, (B.uncharge size).addBo dma size false .freed, k)
      else (0, B.addBo dma size true (.hand i), k)

/-- `ane_t6021_pool_release_ent` on an entry that the pool has unlinked. -/
def poolReleaseEnt (e : PoolEnt BoId) (c : Bufs × κ) : Bufs × κ :=
  ((c.1.setPool c.1.pool [e]).releaseEnts [e], c.2)

/-- The buffers with this pool, and call `i` at this point. -/
def Bufs.point (B : Bufs) (p : Pool BoId) (op : InitOp) : Bufs :=
  { B with pool := p }.setInit i op

/-- A step of call `i`. -/
def InitStep (quarantined : Bool) (B B' : Bufs) : Prop :=
  ∃ res evs, B.initStep cfg quarantined i res = some (B', evs)

/-- Where call `i` is after an attempt. -/
def afterAttempt (ret : Int32) (B : Bufs) : InitOp :=
  if ret = 0 then .publish f size (B.next - 1)
  else if ret = enospc then .evict f size .ENOSPC
  else if ret = enomem then .evict f size .ENOMEM
  else .done

variable {cfg alloc i f size} {quarantined : Bool} {B B' : Bufs} {p p' : Pool BoId}
  {op op' : InitOp}

omit [PageShift] in
theorem Bufs.point_inits (hi : i < B.inits.length) : (B.point i p op).inits[i]? = some op :=
  getElem?_set_self hi

theorem InitStep.of (res : AllocResult) (evs : List Ev)
    (h : (B.point i p op).initStep cfg quarantined i res =
      some ((B'.point i p' op).setInit i op', evs)) :
    InitStep cfg i quarantined (B.point i p op) (B'.point i p' op') :=
  ⟨res, evs, by rw [h, Bufs.point, Bufs.setInit, Bufs.setInit, set_set]; rfl⟩

theorem boAllocAttempt_steps
    (halloc : ∀ B k dma, (alloc B k).1 = .ok dma → B.rangeFree dma size = true)
    (c : Bufs × κ) (hi : i < c.1.inits.length) :
    let r := boAllocAttempt cfg alloc i size c
    r.2.1.inits = c.1.inits ∧
      Relation.ReflTransGen (InitStep cfg i quarantined) (c.1.point i p (.attempt f size))
        (r.2.1.point i p (afterAttempt f size r.1 r.2.1)) := by
  have hcharge : InitStep cfg i quarantined (c.1.point i p (.attempt f size))
      ((c.1.charge size).point i p (if (cfg.cap : Int) < (c.1.charge size).total
        then .refund f size else .alloc f size)) :=
    .of .dmaFails [] (by rw [Bufs.initStep, Bufs.point_inits hi]; rfl)
  have hi' : i < (c.1.charge size).inits.length := hi
  rw [boAllocAttempt]
  split
  next hcap =>
    rw [if_pos hcap] at hcharge
    refine ⟨rfl, .head hcharge (.single (.of .dmaFails [] ?_))⟩
    rw [Bufs.initStep, Bufs.point_inits hi']
    rfl
  next hcap =>
    rw [if_neg hcap] at hcharge
    have hrange := halloc (c.1.charge size) c.2
    generalize alloc (c.1.charge size) c.2 = a at hrange ⊢
    obtain ⟨res, k⟩ := a
    have hinit : ((c.1.charge size).point i p (.alloc f size)).initStep cfg quarantined i res =
        ((c.1.charge size).point i p (.alloc f size)).allocStep cfg i f size res := by
      rw [Bufs.initStep, Bufs.point_inits hi']
    cases res with
    | kzallocFails => exact ⟨rfl, .head hcharge (.single (.of .kzallocFails _ hinit))⟩
    | dmaFails => exact ⟨rfl, .head hcharge (.single (.of .dmaFails _ hinit))⟩
    | ok dma =>
      have hfree : ((c.1.charge size).point i p (.alloc f size)).rangeFree dma size = true :=
        hrange dma rfl
      rw [Bufs.allocStep, hfree] at hinit
      dsimp only at hinit ⊢
      split
      next hbad =>
        rw [if_pos hbad] at hinit
        exact ⟨rfl, .head hcharge (.single (.of (.ok dma) _ hinit))⟩
      next hok =>
        rw [if_neg hok] at hinit
        exact ⟨rfl, .head hcharge (.single (.of (.ok dma) _ hinit))⟩

/-- BO_INIT call `i`, running alone from its first attempt on, goes through the
loop: it comes to the point before the publication if the loop returns 0, and
ends otherwise.  The memory that the kernel gives out is not in use. -/
theorem boAllocRetry_steps
    (halloc : ∀ B k dma, (alloc B k).1 = .ok dma → B.rangeFree dma size = true)
    {fuel : Nat} {c : Bufs × κ} {r : Retried BoId (Bufs × κ)} (hi : i < c.1.inits.length)
    (h : poolAllocRetry (boAllocAttempt cfg alloc i size) poolReleaseEnt fuel p c = some r) :
    Relation.ReflTransGen (InitStep cfg i quarantined) (c.1.point i p (.attempt f size))
      (r.state.1.point i r.pool
        (if r.ret = 0 then .publish f size (r.state.1.next - 1) else .done)) := by
  induction fuel generalizing p c r with
  | zero => cases h
  | succ fuel ih =>
    obtain ⟨hinits, hsteps⟩ : _ ∧ Relation.ReflTransGen (InitStep cfg i quarantined)
      (c.1.point i p (.attempt f size)) _ := boAllocAttempt_steps halloc c hi
    rw [poolAllocRetry] at h
    generalize boAllocAttempt cfg alloc i size c = a at h hinits hsteps
    obtain ⟨ret, c'⟩ := a
    dsimp only at h hinits hsteps
    have hi' : i < c'.1.inits.length := hinits ▸ hi
    cases hstarved : starved ret with
    | false =>
      rw [hstarved] at h
      cases h
      rw [starved, Bool.or_eq_false_iff, beq_eq_false_iff_ne, beq_eq_false_iff_ne] at hstarved
      rwa [afterAttempt, if_neg hstarved.2, if_neg hstarved.1] at hsteps
    | true =>
      rw [hstarved] at h
      obtain ⟨hret, err, hafter⟩ : ret ≠ 0 ∧ ∃ err, afterAttempt f size ret c'.1 =
          .evict f size err := by
        rw [starved, Bool.or_eq_true, beq_iff_eq, beq_iff_eq] at hstarved
        obtain rfl | rfl := hstarved
        · exact ⟨by decide, _, rfl⟩
        · exact ⟨by decide, _, rfl⟩
      rw [hafter] at hsteps
      have hinit := Bufs.initStep.eq_def cfg quarantined (c'.1.point i p (.evict f size err)) i
        .dmaFails
      have hpool : (c'.1.point i p (.evict f size err)).pool = p := rfl
      rw [Bufs.point_inits hi'] at hinit
      dsimp only at hinit
      rw [hpool] at hinit
      cases hevict : poolEvictOldest p with
      | none =>
        rw [hevict] at h hinit
        cases h
        rw [if_neg hret]
        exact hsteps.tail (.of .dmaFails _ hinit)
      | some old =>
        rw [hevict] at h hinit
        obtain ⟨r', hr', h⟩ := Option.bind_eq_some_iff.1 h
        cases h
        have hrest := ih (c := poolReleaseEnt old.1 c') hi' hr'
        have hevicted : InitStep cfg i quarantined _ ((poolReleaseEnt old.1 c').1.point i old.2
            (.attempt f size)) := .of .dmaFails _ hinit
        exact (hsteps.tail hevicted).trans hrest

end Driver

end OmarchyAne.T6021
