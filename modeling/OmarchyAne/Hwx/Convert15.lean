import Mathlib.Data.List.Nodup
import Mathlib.Data.List.Perm.Subperm
import Mathlib.Logic.Equiv.Basic
import OmarchyAne.Lib.Bytes
import OmarchyAne.Lib.Checks
import OmarchyAne.Lib.Insertion

/-!
# The H15 converter binds buffers to tensors

`convert` of `tools/hwx_h15_staged_to_anec.py` gives every tensor descriptor a
buffer of its size.  The tensors come in the order of the channels, and each
takes the lowest address that is left.  A descriptor whose binding is neither
input nor output is counted, and no channel is planned for it.

`Justified` says that the emitted pairs are a bijection that matches the sizes,
and the only one.  Of a conversion that succeeds this holds exactly when every
descriptor is an input or an output and no two have one size
(`convert_justified_iff`).  The record `Hwx` is what the parser gives.
-/

namespace OmarchyAne.Hwx15

open Lib List

structure Tensor where
  binding : Nat
  totalBytes : Nat

structure Hwx where
  text : Bytes
  taskCount : Nat
  iovas : List Nat
  /-- The allocation at an address. -/
  fvmlib : Nat → Option Nat
  /-- The addresses of the buffers. -/
  buffers : List Nat
  tensors : List Tensor

/-- The size of every tensor. -/
def Hwx.sizes (hwx : Hwx) : List Nat := hwx.tensors.map (·.totalBytes)

inductive Stop where
  | shortStream
  | badStream
  | badTask
  | taskCount
  | iovas
  | noAllocation
  | duplicate
  | counts
  | noOutput
  | channels
  | noBuffer
  | unpackable

/-- The loop of `split_tasks`. -/
def tasksFrom (stream : Bytes) : Nat → Nat → Except Stop (List Nat)
  | 0, _ => .ok []
  | fuel + 1, off =>
    let words := leValue (slice stream off 4) / 2 ^ 16 % 2 ^ 11
    if stream.length ≤ off then .ok []
    else if words = 0 then tasksFrom stream fuel (off + 16)
    else if words < 10 ∨ stream.length < off + 4 * words then .error .badTask
    else do
      let sizes ← tasksFrom stream fuel ((off + 4 * words + 15) / 16 * 16)
      return 4 * words :: sizes

/-- Every turn moves on, so the fuel of the length is enough. -/
theorem tasksFrom_fuel {stream : Bytes} {fuel off : Nat} (h : stream.length ≤ off + fuel)
    (more : Nat) : tasksFrom stream (fuel + more) off = tasksFrom stream fuel off := by
  induction fuel generalizing off with
  | zero =>
    cases more with
    | zero => rfl
    | succ more => exact if_pos h
  | succ fuel ih =>
    have hnext {words : Nat} (hw : words ≠ 0) := @ih ((off + 4 * words + 15) / 16 * 16) (by omega)
    rw [Nat.add_right_comm, tasksFrom, tasksFrom, ih (by omega)]
    simp (disch := assumption) only [hnext]

def splitTasks (stream : Bytes) : Except Stop (List Nat) := do
  stopIf (stream = [] ∨ stream.length % 4 ≠ 0) .badStream
  let sizes ← tasksFrom stream (stream.length + 1) 0
  stopIf (sizes = []) .badStream
  return sizes

inductive Role where
  | input
  | output

/-- A tensor with its index, its channel and its role. -/
structure Planned where
  tensor : Tensor
  index : Nat
  channel : Nat
  role : Role

/-- A row of `bound`. -/
structure Bound where
  index : Nat
  channel : Nat
  role : Role
  iova : Nat
  allocation : Nat

def channelsFrom (role : Role) (n : Nat) (ts : List (Tensor × Nat)) :
    List Planned :=
  (ts.zipIdx n).map fun t => ⟨t.1.1, t.1.2, t.2, role⟩

/-- The channel plan: the first output, the inputs, the other outputs. -/
def planOf (tensors : List Tensor) : Except Stop (List Planned) :=
  let inputs := tensors.zipIdx.filter fun t => t.1.binding = 1
  match tensors.zipIdx.filter fun t => t.1.binding = 2 with
  | [] => .error .noOutput
  | out :: outs =>
    .ok (channelsFrom .output 4 [out] ++ channelsFrom .input 5 inputs ++
      channelsFrom .output (5 + inputs.length) outs)

/-- `take`: the first buffer of the size, and the pool without it. -/
def take (total : Nat) : List (Nat × Nat) → Option (Nat × List (Nat × Nat))
  | [] => none
  | b :: pool =>
    if b.2 = total then some (b.1, pool)
    else (take total pool).map fun r => (r.1, b :: r.2)

def bindAll : List Planned → List (Nat × Nat) → Except Stop (List Bound)
  | [], _ => .ok []
  | p :: plan, pool =>
    match take p.tensor.totalBytes pool with
    | none => .error .noBuffer
    | some (addr, rest) => do
      let bound ← bindAll plan rest
      return ⟨p.index, p.channel, p.role, addr, p.tensor.totalBytes⟩ :: bound

def allocationAt (hwx : Hwx) (addr : Nat) : Except Stop (Nat × Nat) :=
  match hwx.fvmlib addr with
  | none => .error .noAllocation
  | some n => .ok (addr, n)

def convert (hwx : Hwx) : Except Stop (List Bound) := do
  stopIf (hwx.text.length < 16) .shortStream
  let sizes ← splitTasks (blit hwx.text 0 [0, 0, 0, 0])
  stopIf (hwx.taskCount ≠ sizes.length) .taskCount
  stopIf (hwx.iovas ≠ []) .iovas
  let pool ← hwx.buffers.mapM (allocationAt hwx)
  stopIf (¬ hwx.buffers.Nodup) .duplicate
  stopIf (hwx.buffers.length ≠ hwx.tensors.length) .counts
  let plan ← planOf hwx.tensors
  stopIf (∃ p ∈ plan, 32 ≤ p.channel) .channels
  let bound ← bindAll plan (sortBy (·.1) pool)
  -- the number of tiles is packed as 32 bits
  stopIf (∃ b ∈ bound, 2 ^ 32 ≤ (b.allocation + 0x3FFF) / 0x4000) .unpackable
  return bound

/-! ## Matchings -/

/-- The relation is a bijection of tensors and buffers that matches the
sizes. -/
structure Matching (hwx : Hwx) (R : Nat → Nat → Prop) : Prop where
  fits : ∀ {i a}, R i a → a ∈ hwx.buffers ∧
    ∃ n, hwx.sizes[i]? = some n ∧ hwx.fvmlib a = some n
  total : ∀ {i n}, hwx.sizes[i]? = some n → ∃ a, R i a
  onto : ∀ {a}, a ∈ hwx.buffers → ∃ i, R i a
  left : ∀ {i a a'}, R i a → R i a' → a = a'
  right : ∀ {i i' a}, R i a → R i' a → i = i'

/-- The pairs that a conversion has emitted. -/
def Emitted (bound : List Bound) (i a : Nat) : Prop :=
  ∃ b ∈ bound, b.index = i ∧ b.iova = a

/-- The emitted pairs are the only matching. -/
def Justified (hwx : Hwx) (bound : List Bound) : Prop :=
  Matching hwx (Emitted bound) ∧
    ∀ R, Matching hwx R → ∀ i a, R i a ↔ Emitted bound i a

section

variable {hwx : Hwx} {bound : List Bound} {plan : List Planned}
  {pool rest : List (Nat × Nat)} {tensors : List Tensor}

/-- If two tensors have one size, their buffers can be exchanged. -/
theorem Matching.swap {R : Nat → Nat → Prop} (h : Matching hwx R) {x y : Nat}
    (heq : hwx.sizes[x]? = hwx.sizes[y]?) :
    Matching hwx fun i => R (Equiv.swap x y i) := by
  have hsizes : ∀ i, hwx.sizes[Equiv.swap x y i]? = hwx.sizes[i]? := by
    intro i
    rw [Equiv.swap_apply_def]
    split_ifs <;> simp [*]
  refine
    { fits := fun {i a} hR => ?_
      total := fun {i n} hi => h.total ((hsizes i).trans hi)
      onto := fun {a} ha => ?_
      left := h.left
      right := fun hi hi' => (Equiv.swap x y).injective (h.right hi hi') }
  · rw [← hsizes]
    exact h.fits hR
  · obtain ⟨i, hi⟩ := h.onto ha
    exact ⟨Equiv.swap x y i, by rwa [Equiv.swap_apply_self]⟩

theorem take_perm {total addr : Nat} (h : take total pool = some (addr, rest)) :
    pool.Perm ((addr, total) :: rest) := by
  induction pool generalizing rest with
  | nil => cases h
  | cons b pool ih =>
    rw [take] at h
    split at h
    · next hb =>
      cases h
      rw [← hb]
    · obtain ⟨r, hr, heq⟩ := Option.map_eq_some_iff.mp h
      cases heq
      exact ((ih hr).cons b).trans (.swap _ _ _)

/-- Every planned tensor takes a buffer of its size out of the pool. -/
theorem bindAll_ok (h : bindAll plan pool = .ok bound) :
    bound.map (fun b => (b.index, b.allocation)) =
      plan.map (fun p => (p.index, p.tensor.totalBytes)) ∧
    ∃ rest, pool.Perm (bound.map (fun b => (b.iova, b.allocation)) ++ rest) := by
  induction plan generalizing pool bound with
  | nil =>
    cases h
    exact ⟨rfl, pool, .refl _⟩
  | cons p plan ih =>
    rw [bindAll] at h
    split at h
    · cases h
    · next addr rest htake =>
      simp only [bind_eq_ok, pure_eq_ok] at h
      obtain ⟨bound, hbound, rfl⟩ := h
      obtain ⟨hmap, left, hperm⟩ := ih hbound
      exact ⟨by simp [hmap], left, (take_perm htake).trans (hperm.cons _)⟩

theorem channelsFrom_eq (role : Role) (n : Nat) (ts : List (Tensor × Nat)) :
    (channelsFrom role n ts).map (fun p => (p.tensor, p.index)) = ts := by
  rw [channelsFrom, map_map]
  exact zipIdx_map_fst n ts

/-- The plan has the inputs and the outputs, each one time. -/
theorem planOf_perm (h : planOf tensors = .ok plan) : (plan.map fun p => (p.tensor, p.index)).Perm
      (tensors.zipIdx.filter fun t => t.1.binding = 1 ∨ t.1.binding = 2) := by
  rw [planOf] at h
  split at h
  · cases h
  · next out outs houts =>
    cases h
    have hsplit := filter_append_perm (fun t => t.1.binding = 1)
      (tensors.zipIdx.filter fun t => t.1.binding = 1 ∨ t.1.binding = 2)
    rw [filter_filter, filter_filter] at hsplit
    have hin : tensors.zipIdx.filter (fun t => decide (t.1.binding = 1) &&
        decide (t.1.binding = 1 ∨ t.1.binding = 2)) =
          tensors.zipIdx.filter fun t => t.1.binding = 1 := by
      refine filter_congr fun t _ => ?_
      rw [Bool.eq_iff_iff]
      simp
      omega
    have hout : tensors.zipIdx.filter (fun t => (!decide (t.1.binding = 1)) &&
        decide (t.1.binding = 1 ∨ t.1.binding = 2)) = out :: outs := by
      rw [← houts]
      refine filter_congr fun t _ => ?_
      rw [Bool.eq_iff_iff]
      simp
      omega
    rw [hin, hout] at hsplit
    simp only [map_append, channelsFrom_eq]
    exact perm_middle.symm.trans hsplit

/-- What a conversion that succeeds has established. -/
theorem convert_ok (h : convert hwx = .ok bound) :
    hwx.buffers.Nodup ∧ hwx.buffers.length = hwx.tensors.length ∧
    ∃ plan, planOf hwx.tensors = .ok plan ∧
    ∃ pool, bindAll plan pool = .ok bound ∧ (pool.map (·.1)).Perm hwx.buffers ∧
      ∀ b ∈ pool, hwx.fvmlib b.1 = some b.2 := by
  simp only [convert, bind_eq_ok, stopIf_eq_ok, pure_eq_ok, not_not] at h
  obtain ⟨-, -, -, -, -, -, -, -, pool, hpool, -, hnodup, -, hlen, plan, hplan,
    -, -, bound, hbound, -, -, rfl⟩ := h
  have hat : ∀ {a b}, allocationAt hwx a = .ok b →
      b = (a, (hwx.fvmlib a).getD 0) ∧ hwx.fvmlib a = some b.2 := by
    intro a b hab
    rw [allocationAt] at hab
    split at hab
    · cases hab
    · next n hn =>
      cases hab
      exact ⟨by rw [hn]; rfl, hn⟩
  obtain ⟨rfl, hall⟩ := mapM_eq_ok (fun hab => (hat hab).1) hpool
  have hperm := sortBy_perm (fun b : Nat × Nat => b.1)
    (hwx.buffers.map fun a => (a, (hwx.fvmlib a).getD 0))
  refine ⟨hnodup, hlen, plan, hplan, _, hbound, ?_, fun b hb => ?_⟩
  · refine (hperm.map _).trans ?_
    rw [map_map]
    exact .of_eq (map_id _)
  · obtain ⟨a, ha, rfl⟩ := mem_map.mp (hperm.mem_iff.mp hb)
    exact (hat (hall a ha)).2

/-- The tensors that get a channel. -/
def IsPort (t : Tensor) : Prop := t.binding = 1 ∨ t.binding = 2

/-- Exactly the inputs and the outputs are bound, each one time. -/
theorem convert_ports (h : convert hwx = .ok bound) :
    (bound.map (·.index)).Nodup ∧ (∀ i, i ∈ bound.map (·.index) ↔
      ∃ t, hwx.tensors[i]? = some t ∧ IsPort t) ∧
    ∀ b ∈ bound, hwx.sizes[b.index]? = some b.allocation := by
  obtain ⟨-, -, plan, hplan, pool, hbound, -⟩ := convert_ok h
  obtain ⟨hmap, -⟩ := bindAll_ok hbound
  have hperm := planOf_perm hplan
  have hindex : bound.map (·.index) = plan.map (·.index) := by
    simpa [Function.comp_def] using congrArg (List.map Prod.fst) hmap
  have hmem : ∀ t i, (∃ p ∈ plan, p.tensor = t ∧ p.index = i) ↔
      hwx.tensors[i]? = some t ∧ IsPort t := by
    intro t i
    have := hperm.mem_iff (a := (t, i))
    simpa [mk_mem_zipIdx_iff_getElem?, IsPort] using this
  refine ⟨?_, fun i => ?_, fun b hb => ?_⟩
  · rw [hindex]
    have hsub := (filter_sublist (l := hwx.tensors.zipIdx)
      (p := fun t => t.1.binding = 1 ∨ t.1.binding = 2)).map Prod.snd
    rw [zipIdx_map_snd] at hsub
    have hnodup := (hperm.map Prod.snd).nodup_iff.mpr (hsub.nodup nodup_range')
    simpa [Function.comp_def] using hnodup
  · rw [hindex]
    constructor
    · intro hi
      obtain ⟨p, hp, rfl⟩ := mem_map.mp hi
      exact ⟨p.tensor, (hmem _ _).mp ⟨p, hp, rfl, rfl⟩⟩
    · rintro ⟨t, ht⟩
      obtain ⟨p, hp, -, rfl⟩ := (hmem _ _).mpr ht
      exact mem_map_of_mem hp
  · have hb' : (b.index, b.allocation) ∈
        plan.map fun p => (p.index, p.tensor.totalBytes) := by
      rw [← hmap]
      exact mem_map_of_mem hb
    obtain ⟨p, hp, heq⟩ := mem_map.mp hb'
    obtain ⟨hindex, hsize⟩ := Prod.mk.inj heq
    have ht := ((hmem _ _).mp ⟨p, hp, rfl, hindex⟩).1
    rw [Hwx.sizes, getElem?_map, ht, ← hsize]
    rfl

/-- A bound buffer has the size of its row, and no buffer is bound twice. -/
theorem convert_buffers (h : convert hwx = .ok bound) :
    (bound.map (·.iova)).Nodup ∧ ∀ b ∈ bound, b.iova ∈ hwx.buffers ∧
      hwx.fvmlib b.iova = some b.allocation := by
  obtain ⟨hnodup, -, plan, -, pool, hbound, hpool, hsize⟩ := convert_ok h
  obtain ⟨-, rest, hperm⟩ := bindAll_ok hbound
  have haddr := (hperm.map Prod.fst).symm.trans hpool
  rw [map_append, map_map] at haddr
  refine ⟨((haddr.nodup_iff.mpr hnodup).sublist (sublist_append_left _ _)), fun b hb => ⟨?_, ?_⟩⟩
  · exact haddr.mem_iff.mp (mem_append_left _ (mem_map_of_mem hb))
  · exact hsize (b.iova, b.allocation) (hperm.mem_iff.mpr (mem_append_left _ (mem_map_of_mem hb)))

/-- The emitted pairs match sizes, whatever the bindings are. -/
theorem emitted_fits (h : convert hwx = .ok bound) {i a : Nat}
    (hR : Emitted bound i a) : a ∈ hwx.buffers ∧
      ∃ n, hwx.sizes[i]? = some n ∧ hwx.fvmlib a = some n := by
  obtain ⟨b, hb, rfl, rfl⟩ := hR
  obtain ⟨ha, hsize⟩ := (convert_buffers h).2 b hb
  exact ⟨ha, b.allocation, (convert_ports h).2.2 b hb, hsize⟩

theorem emitted_matching (h : convert hwx = .ok bound)
    (hports : ∀ t ∈ hwx.tensors, IsPort t) : Matching hwx (Emitted bound) := by
  obtain ⟨hindex, hmem, -⟩ := convert_ports h
  obtain ⟨hiova, hin⟩ := convert_buffers h
  have hcover : ∀ {i n}, hwx.sizes[i]? = some n → i ∈ bound.map (·.index) := by
    intro i n hi
    rw [Hwx.sizes, getElem?_map] at hi
    obtain ⟨t, ht, -⟩ := Option.map_eq_some_iff.mp hi
    exact (hmem i).mpr ⟨t, ht, hports t (mem_of_getElem? ht)⟩
  have hsame : ∀ {b c : Bound}, b ∈ bound → c ∈ bound →
      (b.index = c.index ∨ b.iova = c.iova) → b = c := by
    intro b c hb hc heq
    obtain heq | heq := heq
    · exact inj_on_of_nodup_map hindex hb hc heq
    · exact inj_on_of_nodup_map hiova hb hc heq
  refine
    { fits := emitted_fits h
      total := fun hi => ?_
      onto := fun ha => ?_
      left := fun hi hi' => ?_
      right := fun hi hi' => ?_ }
  · obtain ⟨b, hb, hi⟩ := mem_map.mp (hcover hi)
    exact ⟨b.iova, b, hb, hi, rfl⟩
  · -- as many buffers are bound as there are, so all of them are
    have hrange : List.range hwx.tensors.length ⊆ bound.map (·.index) := by
      intro i hi
      have hlt : i < hwx.sizes.length := by
        rw [Hwx.sizes, length_map]
        exact mem_range.mp hi
      exact hcover (getElem?_eq_getElem hlt)
    have hle := (subperm_of_subset nodup_range hrange).length_le
    have hsub : bound.map (·.iova) ⊆ hwx.buffers := by
      intro a ha
      obtain ⟨b, hb, rfl⟩ := mem_map.mp ha
      exact (hin b hb).1
    have hperm := (subperm_of_subset hiova hsub).perm_of_length_le (by
      rw [(convert_ok h).2.1]
      simpa using hle)
    obtain ⟨b, hb, rfl⟩ := mem_map.mp (hperm.mem_iff.mpr ha)
    exact ⟨b.index, b, hb, rfl, rfl⟩
  · obtain ⟨b, hb, rfl, rfl⟩ := hi
    obtain ⟨c, hc, heq, rfl⟩ := hi'
    rw [hsame hb hc (.inl heq.symm)]
  · obtain ⟨b, hb, rfl, rfl⟩ := hi
    obtain ⟨c, hc, rfl, heq⟩ := hi'
    rw [hsame hb hc (.inr heq.symm)]

end

/-- For every HWX that is converted: the emitted pairs are the only matching of
sizes exactly when every descriptor is an input or an output and the sizes of
the tensors are distinct. -/
theorem convert_justified_iff (hwx : Hwx) (bound : List Bound) (h : convert hwx = .ok bound) :
    Justified hwx bound ↔ (∀ t ∈ hwx.tensors, t.binding = 1 ∨ t.binding = 2) ∧ hwx.sizes.Nodup := by
  constructor
  · rintro ⟨hmatch, honly⟩
    refine ⟨fun t ht => ?_, nodup_iff_getElem?_ne_getElem?.mpr ?_⟩
    · obtain ⟨i, hi⟩ := getElem?_of_mem ht
      obtain ⟨-, b, hb, rfl, -⟩ := hmatch.total (i := i) (n := t.totalBytes)
        (by rw [Hwx.sizes, getElem?_map, hi]; rfl)
      obtain ⟨u, hu, hport⟩ :=
        ((convert_ports h).2.1 b.index).mp (mem_map_of_mem hb)
      rw [hi] at hu
      exact Option.some.inj hu ▸ hport
    · intro x y hxy hy heq
      obtain ⟨a, ha⟩ := hmatch.total (getElem?_eq_getElem hy)
      have hx := (honly _ (hmatch.swap heq) x a).mp (by
        rwa [Equiv.swap_apply_left])
      exact hxy.ne (hmatch.right hx ha)
  · rintro ⟨hports, hnodup⟩
    have hmatch := emitted_matching h hports
    -- the size of a buffer is that of one tensor
    have hone : ∀ {R}, Matching hwx R → ∀ {i j a}, R i a → Emitted bound j a →
        i = j := by
      intro R hR i j a hi hj
      obtain ⟨-, n, hn, hsize⟩ := hR.fits hi
      obtain ⟨-, m, hm, hsize'⟩ := hmatch.fits hj
      obtain rfl := Option.some.inj (hsize.symm.trans hsize')
      have hlt := (List.getElem?_eq_some_iff.mp hn).1
      exact (getElem?_inj hlt hnodup).mp (hn.trans hm.symm)
    refine ⟨hmatch, fun R hR i a => ⟨fun hi => ?_, fun hi => ?_⟩⟩
    · obtain ⟨j, hj⟩ := hmatch.onto (hR.fits hi).1
      rwa [hone hR hi hj]
    · obtain ⟨j, hj⟩ := hR.onto (hmatch.fits hi).1
      rwa [← hone hR hj hi]

/-- An output of 0x4000 bytes and an input of another size. -/
def outAndIn (size : Nat) : Hwx where
  text := List.replicate 16 0 ++ [0, 0, 10, 0] ++ List.replicate 36 0
  taskCount := 1
  iovas := []
  fvmlib := fun a =>
    if a = 0x30000 then some 0x4000 else if a = 0x38000 then some size else none
  buffers := [0x30000, 0x38000]
  tensors := [⟨2, 0x4000⟩, ⟨1, size⟩]

/-- The rows that are emitted for it. -/
def outAndInBound (size : Nat) : List Bound :=
  [⟨0, 4, .output, 0x30000, 0x4000⟩, ⟨1, 5, .input, 0x38000, size⟩]

theorem outAndIn_justified : Justified (outAndIn 0x8000) (outAndInBound 0x8000) :=
  (convert_justified_iff _ _ rfl).mpr ⟨by decide, by decide⟩

/-- Two tensors of one size: the conversion succeeds, and the buffers could be
exchanged. -/
theorem outAndIn_sameSize : convert (outAndIn 0x4000) = .ok (outAndInBound 0x4000) ∧
      ¬ Justified (outAndIn 0x4000) (outAndInBound 0x4000) := by
  refine ⟨rfl, fun ⟨hmatch, honly⟩ => ?_⟩
  have hswap := hmatch.swap (x := 0) (y := 1) rfl
  have hrow : Emitted (outAndInBound 0x4000) 1 0x38000 :=
    ⟨_, mem_cons_of_mem _ mem_cons_self, rfl, rfl⟩
  have hother := (honly _ hswap 0 0x38000).mp hrow
  exact absurd (hmatch.right hother hrow) (by decide)

end OmarchyAne.Hwx15
