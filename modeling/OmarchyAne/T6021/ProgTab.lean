import Mathlib.Data.List.Basic

/-!
# The program table

The functions of `ane/t6021/ane_t6021_progtab.h`.  A table has at most 250
slots, and `slots` is the part of the array below `hi`.  A slot pointer is
an index here, and a search that fails is `none`.

The two firmware operations of a close are a parameter (`ProgtabOps`), as
they are in the source.  `progtabPut` is the body of the loop in
`ane_t6021_progtab_fd_close`.

`Prog.serial` is a ghost: the number of the load that filled the slot.  A
slot is reused and the firmware may hand out an id again, so the serial is
what tells two programs apart.
-/

namespace OmarchyAne.T6021

open List

variable {δ β κ : Type} {i : Nat}

/-- `ANE_T6021_MAX_PROGRAMS`. -/
def maxPrograms : Nat := 250

/-- `ANE_T6021_PROG_SECS`. -/
def progSecs : Nat := 9

/-- `ANE_T6021_PROG_NOPROC`. -/
def progNoproc : UInt32 := 0xffffffff

/-- `enum ane_t6021_prog_state`. -/
inductive ProgState where
  | free
  /-- Loaded in the firmware, shared by its users. -/
  | live
  /-- An unload failed: kept forever, buffers never freed. -/
  | held
  deriving DecidableEq, Repr

/-- `struct ane_t6021_prog`. -/
structure Prog (δ β : Type) where
  digest : δ
  progId : UInt32
  procId : UInt32
  /-- The files that hold a reference. -/
  users : Nat
  state : ProgState
  /-- The reference of the driver on each section buffer. -/
  sec : List (Option β)
  serial : Nat
  deriving DecidableEq, Repr

/-- `struct ane_t6021_progtab`. -/
structure ProgTab (δ β : Type) where
  slots : List (Prog δ β)
  bounded : slots.length ≤ maxPrograms
  deriving DecidableEq

/-- `struct ane_t6021_fdprogs`: the programs one file holds a reference on. -/
structure FdProgs where
  ids : List UInt32
  bounded : ids.length ≤ maxPrograms
  deriving DecidableEq

def ProgTab.empty : ProgTab δ β := ⟨[], Nat.zero_le _⟩

def FdProgs.empty : FdProgs := ⟨[], Nat.zero_le _⟩

/-- Overwrite slot `i`. -/
def ProgTab.set (t : ProgTab δ β) (i : Nat) (p : Prog δ β) : ProgTab δ β :=
  ⟨t.slots.set i p, by simpa using t.bounded⟩

/-- The slot after `memset`. -/
def Prog.cleared [Inhabited δ] : Prog δ β :=
  { digest := default, progId := 0, procId := 0, users := 0, state := .free,
    sec := List.replicate progSecs none, serial := 0 }

/-- A slot of a program that the firmware just loaded. -/
def Prog.loaded (digest : δ) (progId : UInt32) (serial : Nat) : Prog δ β :=
  { digest := digest, progId := progId, procId := progNoproc, users := 0,
    state := .live, sec := List.replicate progSecs none, serial := serial }

/-- `ane_t6021_progtab_find`. -/
def progtabFind [DecidableEq δ] (t : ProgTab δ β) (digest : δ) : Option Nat :=
  t.slots.findIdx? (fun p => p.state == .live && p.digest == digest)

/-- `ane_t6021_progtab_by_id`. -/
def progtabById (t : ProgTab δ β) (progId : UInt32) : Option Nat :=
  t.slots.findIdx? (fun p => p.state == .live && p.progId == progId)

/-- `ane_t6021_progtab_has_room`. -/
def progtabHasRoom (t : ProgTab δ β) : Bool :=
  decide (t.slots.length < maxPrograms) ||
    t.slots.any (fun p => p.state == .free)

/-- `ane_t6021_progtab_add`: a free slot below `hi`, else a new one. -/
def progtabAdd (t : ProgTab δ β) (digest : δ) (progId : UInt32)
    (serial : Nat) : Option (ProgTab δ β × Nat) :=
  let p := Prog.loaded digest progId serial
  match t.slots.findIdx? (fun p => p.state == .free) with
  | some i => some (t.set i p, i)
  | none =>
    if h : t.slots.length < maxPrograms then
      some (⟨t.slots ++ [p], by rw [length_append]; exact h⟩,
        t.slots.length)
    else none

/-- `ane_t6021_fdprogs_has`. -/
def fdprogsHas (f : FdProgs) (progId : UInt32) : Bool :=
  f.ids.any (fun id => id == progId)

/-- `ane_t6021_fdprogs_ref` on the program `p` in slot `i`: the list and the
table, or `none` when the list is full. -/
def fdprogsRef (f : FdProgs) (t : ProgTab δ β) (i : Nat) (p : Prog δ β) :
    Option (FdProgs × ProgTab δ β) :=
  if fdprogsHas f p.progId then some (f, t)
  else if h : f.ids.length < maxPrograms then
    some (⟨f.ids ++ [p.progId], by rw [length_append]; exact h⟩,
      t.set i { p with users := p.users + 1 })
  else none

/-- `struct ane_t6021_progtab_ops`, over a context `κ`. -/
structure ProgtabOps (δ β κ : Type) where
  /-- Zero (`true`) only when both commands were acknowledged. -/
  unload : κ → Prog δ β → Bool × κ
  release : κ → Prog δ β → κ

/-- The body of the loop in `ane_t6021_progtab_fd_close`, for one id of the
list: the table, the context and how many programs ended HELD. -/
def progtabPut [Inhabited δ] (ops : ProgtabOps δ β κ) (unloadOnClose : Bool)
    (t : ProgTab δ β) (ctx : κ) (progId : UInt32) : ProgTab δ β × κ × Nat :=
  match progtabById t progId with
  | none => (t, ctx, 0)
  | some i =>
    match t.slots[i]? with
    | none => (t, ctx, 0)
    | some p =>
      if p.users = 0 then (t, ctx, 0)
      else
        let p' := { p with users := p.users - 1 }
        if p'.users ≠ 0 ∨ unloadOnClose = false then (t.set i p', ctx, 0)
        else
          match ops.unload ctx p' with
          | (false, ctx') => (t.set i { p' with state := .held }, ctx', 1)
          | (true, ctx') => (t.set i Prog.cleared, ops.release ctx' p', 0)

/-! ## What the searches find -/

variable {l : List (Prog δ β)} {q : Prog δ β → Bool} {p : Prog δ β} {t : ProgTab δ β} {digest : δ}
  {progId : UInt32}

/-- A search answers with a slot that passes its test. -/
theorem slot_of_findIdx (h : l.findIdx? q = some i) : ∃ p, l[i]? = some p ∧ q p = true := by
  obtain ⟨hi, hq, -⟩ := findIdx?_eq_some_iff_getElem.mp h
  exact ⟨l[i], getElem?_eq_getElem hi, hq⟩

/-- A search that fails passed no slot. -/
theorem slot_of_findIdx_none (h : l.findIdx? q = none) (hp : l[i]? = some p) : q p = false :=
  findIdx?_eq_none_iff.mp h p (mem_of_getElem? hp)

/-- A digest search finds LIVE programs only. -/
theorem progtabFind_some [DecidableEq δ] (h : progtabFind t digest = some i) :
    ∃ p, t.slots[i]? = some p ∧ p.state = .live ∧ p.digest = digest := by
  obtain ⟨p, hp, hq⟩ := slot_of_findIdx h
  exact ⟨p, hp, by simpa using hq⟩

theorem progtabFind_none [DecidableEq δ] (h : progtabFind t digest = none)
    (hp : t.slots[i]? = some p) (hlive : p.state = .live) :
    p.digest ≠ digest := by
  have hq := slot_of_findIdx_none h hp
  simpa [hlive] using hq

/-- An id search finds LIVE programs only. -/
theorem progtabById_some (h : progtabById t progId = some i) :
    ∃ p, t.slots[i]? = some p ∧ p.state = .live ∧ p.progId = progId := by
  obtain ⟨p, hp, hq⟩ := slot_of_findIdx h
  exact ⟨p, hp, by simpa using hq⟩

theorem progtabById_none (h : progtabById t progId = none)
    (hp : t.slots[i]? = some p) (hlive : p.state = .live) :
    p.progId ≠ progId := by
  have hq := slot_of_findIdx_none h hp
  simpa [hlive] using hq

theorem fdprogsHas_iff {f : FdProgs} : fdprogsHas f progId = true ↔ progId ∈ f.ids := by
  simp [fdprogsHas]

/-! ## What the updates do -/

theorem ProgTab.getElem_set (hi : t.slots[i]? = some p) (q : Prog δ β) (j : Nat) :
    (t.set i q).slots[j]? = if j = i then some q else t.slots[j]? := by
  obtain ⟨hlt, -⟩ := List.getElem?_eq_some_iff.mp hi
  simp only [ProgTab.set, getElem?_set, hlt, if_true, eq_comm]

/-- A new program goes to a slot that was free, or to a new one. -/
theorem progtabAdd_some {t' : ProgTab δ β} {serial : Nat}
    (h : progtabAdd t digest progId serial = some (t', i)) :
    (∀ p, t.slots[i]? = some p → p.state = .free) ∧ ∀ j, t'.slots[j]? =
        if j = i then some (Prog.loaded digest progId serial)
        else t.slots[j]? := by
  rw [progtabAdd] at h
  split at h
  · rename_i k hfind
    obtain ⟨p, hp, hfree⟩ := slot_of_findIdx hfind
    cases h
    refine ⟨fun q hq => ?_, ProgTab.getElem_set hp _⟩
    rw [hp, Option.some.injEq] at hq
    subst hq
    simpa using hfree
  · split at h
    · cases h
      refine ⟨fun q hq => ?_, fun j => ?_⟩
      · simp at hq
      · rw [getElem?_append]
        split_ifs with hlt heq heq
        · omega
        · rfl
        · simp [heq]
        · rw [getElem?_eq_none (by simp; omega),
            getElem?_eq_none (by omega)]
    · cases h

/-- After a successful room check the table has a slot. -/
theorem progtabAdd_isSome (h : progtabHasRoom t = true) (digest : δ)
    (progId : UInt32) (serial : Nat) :
    (progtabAdd t digest progId serial).isSome = true := by
  rw [progtabAdd]
  split
  · rfl
  · rename_i hnone
    rw [progtabHasRoom, Bool.or_eq_true, decide_eq_true_eq, any_eq_true] at h
    rcases h with hlt | ⟨p, hp, hfree⟩
    · rw [dif_pos hlt]
      rfl
    · have := findIdx?_eq_none_iff.mp hnone p hp
      simp [hfree] at this

/-- The four outcomes of dropping one reference. -/
inductive PutOutcome (ops : ProgtabOps δ β κ) (t : ProgTab δ β) (ctx : κ)
    (progId : UInt32) [Inhabited δ] : ProgTab δ β × κ × Nat → Prop where
  /-- No LIVE program has the id, or nobody uses it. -/
  | skip (h : ∀ i p, progtabById t progId = some i → t.slots[i]? = some p →
      p.users = 0) : PutOutcome ops t ctx progId (t, ctx, 0)
  /-- The program has other users, or it stays loaded. -/
  | dropped {i : Nat} {p : Prog δ β} (hp : t.slots[i]? = some p)
      (hlive : p.state = .live) (hid : p.progId = progId)
      (husers : p.users ≠ 0) :
      PutOutcome ops t ctx progId
        (t.set i { p with users := p.users - 1 }, ctx, 0)
  /-- The last user went and the unload failed. -/
  | kept {i : Nat} {p : Prog δ β} {ctx' : κ} (hp : t.slots[i]? = some p)
      (hlive : p.state = .live) (hid : p.progId = progId)
      (husers : p.users = 1)
      (hunload : ops.unload ctx { p with users := 0 } = (false, ctx')) :
      PutOutcome ops t ctx progId
        (t.set i { p with users := 0, state := .held }, ctx', 1)
  /-- The last user went and the firmware dropped the program. -/
  | unloaded {i : Nat} {p : Prog δ β} {ctx' : κ} (hp : t.slots[i]? = some p)
      (hlive : p.state = .live) (hid : p.progId = progId)
      (husers : p.users = 1)
      (hunload : ops.unload ctx { p with users := 0 } = (true, ctx')) :
      PutOutcome ops t ctx progId
        (t.set i Prog.cleared, ops.release ctx' { p with users := 0 }, 0)

theorem progtabPut_outcome [Inhabited δ] (ops : ProgtabOps δ β κ)
    (unloadOnClose : Bool) (t : ProgTab δ β) (ctx : κ) (progId : UInt32) :
    PutOutcome ops t ctx progId (progtabPut ops unloadOnClose t ctx progId) := by
  rw [progtabPut]
  split
  · rename_i hnone
    exact .skip (fun i p h => by simp [hnone] at h)
  · rename_i i hi
    obtain ⟨p, hp, hlive, hid⟩ := progtabById_some hi
    simp only [hp]
    split_ifs with hzero hmore
    · refine .skip (fun j q hj hq => ?_)
      rw [hi, Option.some.injEq] at hj
      rw [← hj, hp, Option.some.injEq] at hq
      exact hq ▸ hzero
    · exact .dropped hp hlive hid hzero
    · have hone : p.users = 1 := by omega
      split
      · rename_i ctx' hun
        simp only [hone, Nat.sub_self] at hun ⊢
        exact .kept hp hlive hid hone hun
      · rename_i ctx' hun
        simp only [hone, Nat.sub_self] at hun ⊢
        exact .unloaded hp hlive hid hone hun

end OmarchyAne.T6021
