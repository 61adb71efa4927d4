import OmarchyAne.T6021.Bufs
import Mathlib.Algebra.Order.BigOperators.Group.Finset
import Mathlib.Data.Finset.Range

/-!
# What the buffer half keeps

`Bufs.Owned B uses` says where every buffer object is and who references it:
`uses b` counts the references that programs hold.  The reference count of a
buffer on a list or with a reference left is at least its handle, its
mappings and its uses.  It can be more, because a load that failed never
gives its references back.

Every operation is a sequence of small moves of one buffer object, and there
is one lemma for each move.  A buffer whose last reference went is in `limbo`
until `ane_t6021_bo_release` parked it, kept it or freed it.
-/

namespace OmarchyAne.T6021

open Lib Function List

namespace Place

/-- The object has references. -/
def counted : Place → Bool
  | file _ | loose => true
  | _ => false

/-- The reference of the handle. -/
def handles : Place → Nat
  | file _ => 1
  | _ => 0

/-- The memory is allocated. -/
def allocated : Place → Bool
  | absent | freed => false
  | _ => true

/-- The object is on no list and in no hand. -/
def unlisted : Place → Bool
  | absent | loose | limbo | held | freed => true
  | _ => false

end Place

/-- The size that a BO_INIT asked for. -/
def InitOp.size : InitOp → Nat
  | start _ size | take _ size _ | zero _ size _ | attempt _ size
  | alloc _ size | refund _ size | evict _ size _ | publish _ size _ => size
  | done => 0

/-- Dropping a program keeps the memory of a buffer and its io mark. -/
theorem Bo.dropProgram_keeps (o : Bo) : o.dropProgram.cpu = o.cpu ∧ o.dropProgram.size = o.size ∧
      o.dropProgram.dma = o.dma ∧ o.dropProgram.fwIo = o.fwIo := by
  rw [Bo.dropProgram]
  split <;> exact ⟨rfl, rfl, rfl, rfl⟩

namespace Bufs

variable {b : BoId}

/-- One more reference on `b`. -/
def bump (uses : BoId → Nat) (b : BoId) : BoId → Nat :=
  fun x => uses x + if x = b then 1 else 0

theorem bump_self (uses : BoId → Nat) (b : BoId) : bump uses b b = uses b + 1 := by
  simp [bump]

theorem bump_of_ne (uses : BoId → Nat) {x : BoId} (h : x ≠ b) : bump uses b x = uses x := by
  simp [bump, h]

/-- A release touches the objects, the pool and the byte counter only. -/
structure Keeps (B B' : Bufs) : Prop where
  next : B'.next = B.next
  bos : B'.bos = B.bos
  maps : B'.maps = B.maps
  inits : B'.inits = B.inits

theorem Keeps.refl (B : Bufs) : Keeps B B := ⟨rfl, rfl, rfl, rfl⟩

theorem Keeps.trans {B₁ B₂ B₃ : Bufs} (h₁ : Keeps B₁ B₂) (h₂ : Keeps B₂ B₃) : Keeps B₁ B₃ :=
  ⟨h₂.next.trans h₁.next, h₂.bos.trans h₁.bos, h₂.maps.trans h₁.maps, h₂.inits.trans h₁.inits⟩

variable [PageShift] {B B' : Bufs} {uses uses' : BoId → Nat} {p : Pool BoId}
  {old : List (PoolEnt BoId)} {f : FileId}

/-- Buffer `b` is in one place, and its references are accounted for. -/
structure At (B : Bufs) (uses : BoId → Nat) (b : BoId) : Prop where
  absent_iff : B.place b = .absent ↔ B.next ≤ b
  file_iff : ∀ f, b ∈ B.bos f ↔ B.place b = .file f
  parked_iff : (∃ e ∈ B.pool.list, e.bo = b) ↔ B.place b = .parked
  hand_iff : ∀ i, (∃ op : InitOp, B.inits[i]? = some op ∧ op.hand = some b) ↔
    B.place b = .hand i
  /-- A buffer in the hands of a BO_INIT has the size that was asked for. -/
  hand_size : ∀ (i : Nat) (op : InitOp), B.inits[i]? = some op →
    op.hand = some b → pageAlign (B.bo b).size = pageAlign op.size
  refs : (B.place b).counted = true →
    (B.place b).handles + B.maps b + uses b ≤ (B.bo b).refs ∧
      0 < (B.bo b).refs
  unused : (B.place b).counted = false → B.maps b = 0 ∧ uses b = 0
  cpu : (B.bo b).cpu = (B.place b).allocated
  ent_size : ∀ e ∈ B.pool.list, e.bo = b → e.size = (B.bo b).size
  uncharged : ∀ e ∈ B.pool.list, e.bo = b → e.pooledSec = true →
    (B.bo b).fwRef = false
  io_ref : (B.bo b).fwIo = true → (B.bo b).fwRef = true
  freed_ref : B.place b = .freed → (B.bo b).fwRef = false

/-- Where every buffer object is and who references it. -/
structure Owned (B : Bufs) (uses : BoId → Nat) : Prop where
  each : ∀ b, B.At uses b
  bos_nodup : ∀ f, (B.bos f).Nodup
  parked_nodup : (B.pool.list.map (·.bo)).Nodup
  /-- The memory of two buffers never overlaps. -/
  ranges : ∀ b c, b ≠ c → (B.bo b).cpu = true → (B.bo c).cpu = true →
    disjoint (B.bo b).dma (pageAlign (B.bo b).size) (B.bo c).dma
      (pageAlign (B.bo c).size) = true

/-- The two states say the same about buffer `x`. -/
structure SameAt (B : Bufs) (uses : BoId → Nat) (B' : Bufs)
    (uses' : BoId → Nat) (x : BoId) : Prop where
  place : B'.place x = B.place x
  bo : B'.bo x = B.bo x
  next : B'.next ≤ x ↔ B.next ≤ x
  maps : B'.maps x = B.maps x
  uses : uses' x = uses x
  bos : ∀ f, x ∈ B'.bos f ↔ x ∈ B.bos f
  pool : ∀ e, e.bo = x → (e ∈ B'.pool.list ↔ e ∈ B.pool.list)
  inits : ∀ (i : Nat) (op : InitOp), op.hand = some x →
    (B'.inits[i]? = some op ↔ B.inits[i]? = some op)

theorem At.same {x : BoId} (h : B.At uses x) (hs : SameAt B uses B' uses' x) : B'.At uses' x where
  absent_iff := by rw [hs.place, hs.next]; exact h.absent_iff
  file_iff f := by rw [hs.place, hs.bos]; exact h.file_iff f
  parked_iff := by
    rw [hs.place, ← h.parked_iff]
    exact ⟨fun ⟨e, he, hb⟩ => ⟨e, (hs.pool e hb).mp he, hb⟩,
      fun ⟨e, he, hb⟩ => ⟨e, (hs.pool e hb).mpr he, hb⟩⟩
  hand_iff i := by
    rw [hs.place, ← h.hand_iff]
    exact ⟨fun ⟨op, hop, hb⟩ => ⟨op, (hs.inits i op hb).mp hop, hb⟩,
      fun ⟨op, hop, hb⟩ => ⟨op, (hs.inits i op hb).mpr hop, hb⟩⟩
  hand_size i op hop hb := by
    rw [hs.bo]
    exact h.hand_size i op ((hs.inits i op hb).mp hop) hb
  refs := by rw [hs.place, hs.bo, hs.maps, hs.uses]; exact h.refs
  unused := by rw [hs.place, hs.maps, hs.uses]; exact h.unused
  cpu := by rw [hs.place, hs.bo]; exact h.cpu
  ent_size e he hb := by
    rw [hs.bo]
    exact h.ent_size e ((hs.pool e hb).mp he) hb
  uncharged e he hb := by
    rw [hs.bo]
    exact h.uncharged e ((hs.pool e hb).mp he) hb
  io_ref := by rw [hs.bo]; exact h.io_ref
  freed_ref := by rw [hs.place, hs.bo]; exact h.freed_ref

/-- No list and no BO_INIT has the buffer. -/
structure Unlisted (B : Bufs) (b : BoId) : Prop where
  file : ∀ f, b ∉ B.bos f
  pool : ∀ e ∈ B.pool.list, e.bo ≠ b
  inits : ∀ (i : Nat) (op : InitOp), B.inits[i]? = some op →
    op.hand ≠ some b

theorem At.unlisted (h : B.At uses b) (hpl : (B.place b).unlisted = true) : B.Unlisted b where
  file f hf := by
    rw [(h.file_iff f).mp hf] at hpl
    simp [Place.unlisted] at hpl
  pool e he hb := by
    rw [h.parked_iff.mp ⟨e, he, hb⟩] at hpl
    simp [Place.unlisted] at hpl
  inits i op hop hb := by
    rw [(h.hand_iff i).mp ⟨op, hop, hb⟩] at hpl
    simp [Place.unlisted] at hpl

/-- What has to be said of a buffer that is on no list. -/
theorem At.of_unlisted (hun : B.Unlisted b) (hpl : (B.place b).unlisted = true)
    (habs : B.place b = .absent ↔ B.next ≤ b)
    (hrefs : (B.place b).counted = true →
      (B.place b).handles + B.maps b + uses b ≤ (B.bo b).refs ∧ 0 < (B.bo b).refs)
    (hunused : (B.place b).counted = false → B.maps b = 0 ∧ uses b = 0)
    (hcpu : (B.bo b).cpu = (B.place b).allocated)
    (hio : (B.bo b).fwIo = true → (B.bo b).fwRef = true)
    (hfreed : B.place b = .freed → (B.bo b).fwRef = false) :
    B.At uses b where
  absent_iff := habs
  file_iff f := by
    refine ⟨fun hf => absurd hf (hun.file f), fun hf => ?_⟩
    simp [hf, Place.unlisted] at hpl
  parked_iff := by
    refine ⟨fun ⟨e, he, hb⟩ => absurd hb (hun.pool e he), fun hp => ?_⟩
    simp [hp, Place.unlisted] at hpl
  hand_iff i := by
    refine ⟨fun ⟨op, hop, hb⟩ => absurd hb (hun.inits i op hop), fun hh => ?_⟩
    simp [hh, Place.unlisted] at hpl
  hand_size i op hop hb := absurd hb (hun.inits i op hop)
  refs := hrefs
  unused := hunused
  cpu := hcpu
  ent_size e he hb := absurd hb (hun.pool e he)
  uncharged e he hb := absurd hb (hun.pool e he)
  io_ref := hio
  freed_ref := hfreed

/-- No memory was added or moved. -/
def MemLe (bo bo' : BoId → Bo) : Prop :=
  ∀ x, (bo' x).cpu = true → (bo x).cpu = true ∧ (bo' x).dma = (bo x).dma ∧
    pageAlign (bo' x).size = pageAlign (bo x).size

theorem memLe_refl (bo : BoId → Bo) : MemLe bo bo := fun _ hx =>
  ⟨hx, rfl, rfl⟩

theorem memLe_update {bo : BoId → Bo} {o : Bo} (hcpu : o.cpu = true → (bo b).cpu = true)
    (hsize : pageAlign o.size = pageAlign (bo b).size)
    (hdma : o.dma = (bo b).dma) : MemLe bo (update bo b o) := by
  intro x hx
  by_cases hxb : x = b
  · subst hxb
    rw [update_self] at hx ⊢
    exact ⟨hcpu hx, hdma, hsize⟩
  · rw [update_of_ne hxb] at hx ⊢
    exact ⟨hx, rfl, rfl⟩

theorem Owned.ranges_of_memLe (h : B.Owned uses) (hm : MemLe B.bo B'.bo)
    (b c : BoId) (hbc : b ≠ c) (hb : (B'.bo b).cpu = true)
    (hc : (B'.bo c).cpu = true) :
    disjoint (B'.bo b).dma (pageAlign (B'.bo b).size) (B'.bo c).dma
      (pageAlign (B'.bo c).size) = true := by
  obtain ⟨hb', hdb, hsb⟩ := hm b hb
  obtain ⟨hc', hdc, hsc⟩ := hm c hc
  rw [hdb, hsb, hdc, hsc]
  exact h.ranges b c hbc hb' hc'

/-- A move of buffer `b` alone: only `b` has to be looked at. -/
theorem Owned.move (h : B.Owned uses)
    (hsame : ∀ x, x ≠ b → SameAt B uses B' uses' x) (hb : B'.At uses' b)
    (hmem : MemLe B.bo B'.bo) (hbos : ∀ f, (B'.bos f).Nodup)
    (hparked : (B'.pool.list.map (·.bo)).Nodup) :
    B'.Owned uses' where
  each x := by
    by_cases hx : x = b
    · exact hx ▸ hb
    · exact (h.each x).same (hsame x hx)
  bos_nodup := hbos
  parked_nodup := hparked
  ranges := h.ranges_of_memLe hmem

/-- References that nobody gives back may be forgotten. -/
theorem Owned.mono (h : B.Owned uses) (hle : ∀ x, uses' x ≤ uses x) : B.Owned uses' where
  each x :=
    { h.each x with
      refs := fun hc => by
        obtain ⟨hrefs, hpos⟩ := (h.each x).refs hc
        have := hle x
        exact ⟨by omega, hpos⟩
      unused := fun hc => by
        obtain ⟨hmaps, huses⟩ := (h.each x).unused hc
        exact ⟨hmaps, Nat.eq_zero_of_le_zero (huses ▸ hle x)⟩ }
  bos_nodup := h.bos_nodup
  parked_nodup := h.parked_nodup
  ranges := h.ranges

/-! ## Moves of a referenced buffer -/

/-- A change of a referenced object that keeps its memory. -/
theorem Owned.modify {g : Bo → Bo} (h : B.Owned uses)
    (hb : (B.place b).counted = true) (hcpu : (g (B.bo b)).cpu = (B.bo b).cpu)
    (hsize : (g (B.bo b)).size = (B.bo b).size)
    (hdma : (g (B.bo b)).dma = (B.bo b).dma)
    (hio : (g (B.bo b)).fwIo = true → (g (B.bo b)).fwRef = true)
    (hrefs : (B.place b).handles + B.maps b + uses' b ≤ (g (B.bo b)).refs ∧
      0 < (g (B.bo b)).refs) (huses : ∀ x, x ≠ b → uses' x = uses x) :
    (B.modify b g).Owned uses' := by
  have hself : (B.modify b g).bo b = g (B.bo b) := update_self _ _ _
  have hbo : ∀ x, x ≠ b → (B.modify b g).bo x = B.bo x := fun x hx =>
    update_of_ne hx _ _
  have hat := h.each b
  refine h.move (b := b) (fun x hx => ?_) ?_
    (memLe_update (fun hx => hcpu ▸ hx) (by rw [hsize]) hdma) h.bos_nodup
    h.parked_nodup
  · exact ⟨rfl, hbo x hx, Iff.rfl, rfl, huses x hx, fun _ => Iff.rfl,
      fun _ _ => Iff.rfl, fun _ _ _ => Iff.rfl⟩
  · have hunparked : ∀ e ∈ B.pool.list, e.bo ≠ b := by
      intro e he heb
      rw [hat.parked_iff.mp ⟨e, he, heb⟩] at hb
      simp [Place.counted] at hb
    refine ⟨hat.absent_iff, hat.file_iff, hat.parked_iff, hat.hand_iff, ?_,
      ?_, ?_, ?_, ?_, ?_, ?_, ?_⟩
    · intro i op hop hh
      rw [hself, hsize]
      exact hat.hand_size i op hop hh
    · intro _
      rw [hself]
      exact hrefs
    · intro hno
      exact absurd (hb.symm.trans hno) (by simp)
    · rw [hself, hcpu]
      exact hat.cpu
    · intro e he heb
      exact absurd heb (hunparked e he)
    · intro e he heb
      exact absurd heb (hunparked e he)
    · rw [hself]
      exact hio
    · intro hpl
      rw [show B.place b = .freed from hpl] at hb
      simp [Place.counted] at hb

/-- The last reference goes: nothing counts on the buffer any more. -/
theorem Owned.toLimbo (h : B.Owned (bump uses b))
    (hb : (B.place b).counted = true) (hone : (B.bo b).refs = 1) :
    ((B.modify b (fun o => { o with refs := o.refs - 1 })).setPlace b
      .limbo).Owned uses := by
  have hat := h.each b
  obtain ⟨hle, -⟩ := hat.refs hb
  rw [bump_self, hone] at hle
  have hplace : B.place b = .loose := by
    cases hpl : B.place b with
    | loose => rfl
    | file f =>
      simp only [hpl, Place.handles] at hle
      omega
    | _ => simp [hpl, Place.counted] at hb
  rw [hplace] at hle
  simp only [Place.handles] at hle
  have hun := hat.unlisted (by rw [hplace]; rfl)
  refine h.move (b := b) (fun x hx => ?_) ?_ ?_ h.bos_nodup h.parked_nodup
  · exact ⟨update_of_ne hx _ _, update_of_ne hx _ _, Iff.rfl,
      rfl, (bump_of_ne uses hx).symm, fun _ => Iff.rfl, fun _ _ => Iff.rfl,
      fun _ _ _ => Iff.rfl⟩
  · have hlive : ¬ B.next ≤ b := by
      rw [← hat.absent_iff, hplace]
      simp
    have hcpu := hat.cpu
    rw [hplace] at hcpu
    apply At.of_unlisted <;>
      simp only [setPlace, Bufs.modify, update_self]
    · exact ⟨hun.file, hun.pool, hun.inits⟩
    · rfl
    · exact ⟨fun hab => by simp at hab, fun hge => absurd hge hlive⟩
    · simp [Place.counted]
    · exact fun _ => ⟨by omega, by omega⟩
    · rw [hcpu]; rfl
    · exact hat.io_ref
    · simp
  · exact memLe_update (fun hx => hx) rfl rfl

/-! ## The release of a buffer -/

/-- The pool function unlinked the charged entries `old`. -/
theorem Owned.setPool (h : B.Owned uses) (he : Evicts B.pool p old) :
    (B.setPool p old).Owned uses := by
  refine ⟨fun x => ?_, h.bos_nodup, he.nodup h.parked_nodup, h.ranges⟩
  have hat := h.each x
  by_cases hx : x ∈ old.map (·.bo)
  · -- the buffer was parked, and now it is on no list
    have hlimbo : (B.setPool p old).place x = .limbo := if_pos hx
    obtain ⟨e, hmem, rfl⟩ := mem_map.mp hx
    obtain ⟨y, hy, hyb, -⟩ := he.charged e hmem
    have hpl := hat.parked_iff.mp ⟨y, hy, hyb⟩
    have hfile := hat.file_iff
    have hhand := hat.hand_iff
    simp only [hpl, reduceCtorEq, iff_false] at hfile hhand
    have hun : (B.setPool p old).Unlisted e.bo :=
      ⟨hfile, he.notMem h.parked_nodup hmem, fun i op hop hb => hhand i ⟨op, hop, hb⟩⟩
    apply At.of_unlisted hun
    any_goals rw [hlimbo]
    · rfl
    · rw [show (B.setPool p old).next = B.next from rfl, ← hat.absent_iff, hpl]
      simp
    · simp [Place.counted]
    · exact fun _ => hat.unused (by rw [hpl]; rfl)
    · have hcpu := hat.cpu
      rw [hpl] at hcpu
      exact hcpu
    · exact hat.io_ref
    · simp
  · refine hat.same ⟨if_neg hx, rfl, Iff.rfl, rfl, rfl, fun _ => Iff.rfl,
      fun e heb => ?_, fun _ _ _ => Iff.rfl⟩
    exact he.mem_iff h.parked_nodup (heb ▸ hx)

/-- An evicted buffer was never marked by the firmware paths. -/
theorem Owned.evicted_ref (h : B.Owned uses) (he : Evicts B.pool p old)
    {e : PoolEnt BoId} (hmem : e ∈ old) : (B.bo e.bo).fwRef = false := by
  obtain ⟨y, hy, hyb, hsec⟩ := he.charged e hmem
  exact (h.each e.bo).uncharged y hy hyb hsec

theorem Owned.dmaFree (h : B.Owned uses) (hb : B.place b = .limbo) (href : (B.bo b).fwRef = false) :
    (B.dmaFree b).Owned uses := by
  have hat := h.each b
  have hun := hat.unlisted (by rw [hb]; rfl)
  refine h.move (b := b) (fun x hx => ?_) ?_ ?_ h.bos_nodup h.parked_nodup
  · exact ⟨update_of_ne hx _ _, update_of_ne hx _ _, Iff.rfl,
      rfl, rfl, fun _ => Iff.rfl, fun _ _ => Iff.rfl, fun _ _ _ => Iff.rfl⟩
  · have hlive : ¬ B.next ≤ b := by
      rw [← hat.absent_iff, hb]
      simp
    apply At.of_unlisted <;>
      simp only [Bufs.dmaFree, Bufs.setPlace, Bufs.modify, update_self]
    · exact ⟨hun.file, hun.pool, hun.inits⟩
    · rfl
    · exact ⟨fun hab => by simp at hab, fun hge => absurd hge hlive⟩
    · simp [Place.counted]
    · exact fun _ => hat.unused (by rw [hb]; rfl)
    · rfl
    · exact hat.io_ref
    · exact fun _ => href
  · exact memLe_update (fun hx => by simp at hx) rfl rfl

/-- The object goes and the memory stays. -/
theorem Owned.hold (h : B.Owned uses) (hb : B.place b = .limbo) :
    (B.setPlace b .held).Owned uses := by
  have hat := h.each b
  have hun := hat.unlisted (by rw [hb]; rfl)
  refine h.move (b := b) (fun x hx => ?_) ?_ (memLe_refl _) h.bos_nodup h.parked_nodup
  · exact ⟨update_of_ne hx _ _, rfl, Iff.rfl, rfl, rfl,
      fun _ => Iff.rfl, fun _ _ => Iff.rfl, fun _ _ _ => Iff.rfl⟩
  · have hlive : ¬ B.next ≤ b := by
      rw [← hat.absent_iff, hb]
      simp
    apply At.of_unlisted <;>
      simp only [Bufs.setPlace, update_self]
    · exact ⟨hun.file, hun.pool, hun.inits⟩
    · rfl
    · exact ⟨fun hab => by simp at hab, fun hge => absurd hge hlive⟩
    · simp [Place.counted]
    · exact fun _ => hat.unused (by rw [hb]; rfl)
    · rw [hat.cpu, hb]
      rfl
    · exact hat.io_ref
    · simp

/-- The buffer becomes the newest entry of the pool. -/
theorem Owned.park (h : B.Owned uses) (hb : B.place b = .limbo) {sec : Bool}
    (hlist : p.list = B.pool.list ++ [{ bo := b, size := (B.bo b).size, pooledSec := sec }])
    (hsec : sec = true → (B.bo b).fwRef = false) :
    ({ B with pool := p }.setPlace b .parked).Owned uses := by
  have hat := h.each b
  have hun := hat.unlisted (by rw [hb]; rfl)
  have hmem : ∀ e, e ∈ p.list ↔ e ∈ B.pool.list ∨
      e = { bo := b, size := (B.bo b).size, pooledSec := sec } := by
    intro e
    rw [hlist]
    simp
  refine h.move (b := b) (fun x hx => ?_) ?_ (memLe_refl _) h.bos_nodup ?_
  · refine ⟨update_of_ne hx _ _, rfl, Iff.rfl, rfl, rfl,
      fun _ => Iff.rfl, fun e he => ?_, fun _ _ _ => Iff.rfl⟩
    show e ∈ p.list ↔ e ∈ B.pool.list
    rw [hmem]
    refine ⟨fun hor => hor.resolve_right ?_, Or.inl⟩
    rintro rfl
    exact hx he.symm
  · have hfile := hat.file_iff
    have hhand := hat.hand_iff
    have habsent := hat.absent_iff
    simp only [hb, reduceCtorEq, iff_false] at hfile hhand
    simp only [hb, reduceCtorEq, false_iff] at habsent
    constructor <;>
      simp only [Bufs.setPlace, update_self, reduceCtorEq, iff_false, false_iff, iff_true]
    case absent_iff => exact habsent
    case file_iff => exact hfile
    case parked_iff => exact ⟨_, (hmem _).mpr (Or.inr rfl), rfl⟩
    case hand_iff => exact hhand
    case hand_size => exact fun i op hop hh => absurd ⟨op, hop, hh⟩ (hhand i)
    case refs => simp [Place.counted]
    case unused => exact fun _ => hat.unused (by rw [hb]; rfl)
    case cpu =>
      rw [hat.cpu, hb]
      rfl
    case ent_size =>
      intro e he heb
      rcases (hmem e).mp he with he | rfl
      · exact absurd heb (hun.pool e he)
      · rfl
    case uncharged =>
      intro e he heb hch
      rcases (hmem e).mp he with he | rfl
      · exact absurd heb (hun.pool e he)
      · exact hsec hch
    case io_ref => exact hat.io_ref
    case freed_ref => simp
  · show (p.list.map (·.bo)).Nodup
    rw [hlist, map_append, nodup_append]
    refine ⟨h.parked_nodup, by simp, fun x hx y hy => ?_⟩
    obtain ⟨e, he, rfl⟩ := mem_map.mp hx
    simp only [map_cons, map_nil, mem_singleton] at hy
    exact hy ▸ hun.pool e he

/-- What `releaseEnts` does to every buffer. -/
theorem releaseEnts_at (B : Bufs) (old : List (PoolEnt BoId)) (x : BoId) :
    (B.releaseEnts old).place x = (if x ∈ old.map (·.bo) then .freed else B.place x) ∧
      (B.releaseEnts old).bo x =
        (if x ∈ old.map (·.bo) then { B.bo x with cpu := false }
          else B.bo x) := by
  induction old generalizing B with
  | nil => simp [releaseEnts]
  | cons e old ih =>
    obtain ⟨hpl, hbo⟩ := ih (B.dmaFree e.bo)
    rw [show B.releaseEnts (e :: old) = (B.dmaFree e.bo).releaseEnts old from
      rfl, hpl, hbo]
    by_cases hx : x = e.bo
    · subst hx
      simp [Bufs.dmaFree, Bufs.modify, Bufs.setPlace]
    · simp [Bufs.dmaFree, Bufs.modify, Bufs.setPlace, hx]

theorem Owned.releaseEnts (h : B.Owned uses) (hnodup : (old.map (·.bo)).Nodup)
    (hlimbo : ∀ e ∈ old, B.place e.bo = .limbo)
    (href : ∀ e ∈ old, (B.bo e.bo).fwRef = false) :
    (B.releaseEnts old).Owned uses := by
  induction old generalizing B with
  | nil => exact h
  | cons e old ih =>
    rw [map_cons, nodup_cons] at hnodup
    have hne : ∀ e' ∈ old, e'.bo ≠ e.bo := fun e' he' heq =>
      hnodup.1 (heq ▸ mem_map_of_mem he')
    refine ih (h.dmaFree (hlimbo e (by simp)) (href e (by simp))) hnodup.2
      (fun e' he' => ?_) (fun e' he' => ?_)
    · simp only [Bufs.dmaFree, Bufs.modify, Bufs.setPlace, update_of_ne (hne e' he')]
      exact hlimbo e' (by simp [he'])
    · simp only [Bufs.dmaFree, Bufs.modify, Bufs.setPlace, update_of_ne (hne e' he')]
      exact href e' (by simp [he'])

/-- A buffer that is being released is not on the pool list. -/
theorem Owned.limbo_notMem (h : B.Owned uses) (hb : B.place b = .limbo) (he : Evicts B.pool p old) :
    ∀ e ∈ old, e.bo ≠ b := by
  intro e hmem heq
  obtain ⟨y, hy, hyb, -⟩ := he.charged e hmem
  exact ((h.each b).unlisted (by rw [hb]; rfl)).pool y hy (hyb.trans heq)

/-- `ane_t6021_bo_release` finds a place for the buffer. -/
theorem Owned.boRelease (h : B.Owned uses) (hb : B.place b = .limbo) (q : Bool) :
    (B.boRelease q b).1.Owned uses := by
  rw [Bufs.boRelease]
  split
  · rename_i href
    have hev := poolPark_evicts B.pool b (B.bo b).size
    generalize poolPark B.pool b (B.bo b).size = r at hev
    obtain ⟨st, p, old⟩ := r
    rcases hev with ⟨hok, p₁, he, hlist⟩ | ⟨⟨err, herr⟩, he⟩
    · simp only at hok hlist he ⊢
      subst hok
      have h₁ := h.setPool he
      have hb₁ : (B.setPool p₁ old).place b = .limbo := by
        simp only [Bufs.setPool, hb, ite_self]
      have h₂ := h₁.park hb₁ (p := p) hlist (fun _ => href)
      refine h₂.releaseEnts (he.evs_nodup h.parked_nodup) ?_ ?_
      · intro e hmem
        have hne := h.limbo_notMem hb he e hmem
        simp only [Bufs.setPlace, update_of_ne hne, Bufs.setPool]
        exact if_pos (mem_map_of_mem hmem)
      · exact fun e hmem => h.evicted_ref he hmem
    · simp only at herr he ⊢
      subst herr
      have h₁ := h.setPool he
      have h₂ := h₁.releaseEnts (he.evs_nodup h.parked_nodup)
        (fun e hmem => if_pos (mem_map_of_mem hmem))
        (fun e hmem => h.evicted_ref he hmem)
      have hnot : b ∉ old.map (·.bo) := by
        intro hmem
        obtain ⟨e, hmem, heq⟩ := mem_map.mp hmem
        exact h.limbo_notMem hb he e hmem heq
      obtain ⟨hpl, hbo⟩ := releaseEnts_at (B.setPool p old) old b
      rw [if_neg hnot] at hpl hbo
      refine h₂.dmaFree ?_ ?_
      · rw [hpl]
        exact (if_neg hnot).trans hb
      · rw [hbo]
        exact href
  · split
    · exact h.hold hb
    · exact h.park hb rfl (by simp)

/-- Dropping a reference that was counted. -/
theorem Owned.kput (h : B.Owned (bump uses b)) (hb : (B.place b).counted = true)
    (q : Bool) : (B.kput q b).1.Owned uses := by
  rw [Bufs.kput]
  split
  · rename_i hone
    exact (h.toLimbo hb hone).boRelease (update_self _ _ _) q
  · rename_i hmore
    obtain ⟨hle, hpos⟩ := (h.each b).refs hb
    rw [bump_self] at hle
    show (B.modify b (fun o => { o with refs := o.refs - 1 })).Owned uses
    refine h.modify hb rfl rfl rfl (h.each b).io_ref ?_ (fun x hx => (bump_of_ne uses hx).symm)
    simp only
    omega

/-! ## Handles, mappings and marks -/

theorem keeps_releaseEnts (B : Bufs) (old : List (PoolEnt BoId)) : Keeps B (B.releaseEnts old) := by
  induction old generalizing B with
  | nil => exact .refl B
  | cons e old ih =>
    have h : Keeps B (B.dmaFree e.bo) := ⟨rfl, rfl, rfl, rfl⟩
    exact h.trans (ih _)

theorem keeps_boRelease (q : Bool) (B : Bufs) (b : BoId) : Keeps B (B.boRelease q b).1 := by
  rw [Bufs.boRelease]
  split
  · split
    · rename_i p old _
      have h : Keeps B ((B.setPool p old).setPlace b .parked) := ⟨rfl, rfl, rfl, rfl⟩
      exact h.trans (keeps_releaseEnts _ _)
    · rename_i p old _
      have h : Keeps B (B.setPool p old) := ⟨rfl, rfl, rfl, rfl⟩
      exact (h.trans (keeps_releaseEnts _ old)).trans ⟨rfl, rfl, rfl, rfl⟩
  · split <;> exact ⟨rfl, rfl, rfl, rfl⟩

theorem keeps_kput (q : Bool) (B : Bufs) (b : BoId) : Keeps B (B.kput q b).1 := by
  rw [Bufs.kput]
  split
  · have h : Keeps B ((B.modify b (fun o =>
        { o with refs := o.refs - 1 })).setPlace b .limbo) :=
      ⟨rfl, rfl, rfl, rfl⟩
    exact h.trans (keeps_boRelease _ _ _)
  · exact ⟨rfl, rfl, rfl, rfl⟩

/-- A buffer that a program uses has references. -/
theorem Owned.counted_of_use (h : B.Owned uses) (hb : 0 < uses b) : (B.place b).counted = true := by
  by_contra hno
  have := ((h.each b).unused (by simpa using hno)).2
  omega

/-- A buffer on the list of a file has references. -/
theorem Owned.counted_of_mem (h : B.Owned uses) (hb : b ∈ B.bos f) :
    (B.place b).counted = true := by
  rw [((h.each b).file_iff f).mp hb]
  rfl

/-- `list_del` leaves the reference of the handle to be dropped. -/
theorem Owned.unlink (h : B.Owned uses) (hb : b ∈ B.bos f) :
    (B.unlink f b).Owned (bump uses b) := by
  have hat := h.each b
  have hpl := (hat.file_iff f).mp hb
  have hmem : ∀ g x, x ∈ update B.bos f ((B.bos f).erase b) g ↔ x ∈ B.bos g ∧ x ≠ b := by
    intro g x
    by_cases hg : g = f
    · subst hg
      rw [update_self, (h.bos_nodup g).mem_erase_iff, and_comm]
    · rw [update_of_ne hg]
      refine ⟨fun hx => ⟨hx, ?_⟩, fun hx => hx.1⟩
      rintro rfl
      have hpl' := (hat.file_iff g).mp hx
      rw [hpl, Place.file.injEq] at hpl'
      exact hg hpl'.symm
  refine h.move (b := b) (fun x hx => ?_) ?_ (memLe_refl _) (fun g => ?_) h.parked_nodup
  · refine ⟨update_of_ne hx _ _, rfl, Iff.rfl, rfl,
      bump_of_ne uses hx, fun g => ?_, fun _ _ => Iff.rfl, fun _ _ _ =>
      Iff.rfl⟩
    exact (hmem g x).trans (and_iff_left hx)
  · have hlive : ¬ B.next ≤ b := by
      rw [← hat.absent_iff, hpl]
      simp
    have hparked := hat.parked_iff
    have hhand := hat.hand_iff
    simp only [hpl, reduceCtorEq, iff_false] at hparked hhand
    obtain ⟨hle, hpos⟩ := hat.refs (by rw [hpl]; rfl)
    rw [hpl] at hle
    simp only [Place.handles] at hle
    apply At.of_unlisted <;>
      simp only [Bufs.unlink, Bufs.setPlace, update_self]
    · exact ⟨fun g hg => ((hmem g b).mp hg).2 rfl, fun e he heb => hparked ⟨e, he, heb⟩,
        fun i op hop hh => hhand i ⟨op, hop, hh⟩⟩
    · rfl
    · exact ⟨fun hab => by simp at hab, fun hge => absurd hge hlive⟩
    · rw [bump_self]
      simp only [Place.handles]
      exact fun _ => ⟨by omega, hpos⟩
    · simp [Place.counted]
    · rw [hat.cpu, hpl]
      rfl
    · exact hat.io_ref
    · simp
  · by_cases hg : g = f
    · subst hg
      simp only [Bufs.unlink, Bufs.setPlace, update_self]
      exact (h.bos_nodup g).erase b
    · simp only [Bufs.unlink, Bufs.setPlace, update_of_ne hg]
      exact h.bos_nodup g

theorem Owned.boDrop (h : B.Owned uses) (hb : b ∈ B.bos f) (q : Bool) :
    (B.boDrop q f b).1.Owned uses :=
  (h.unlink hb).kput (by simp [Bufs.unlink, Bufs.setPlace, Place.counted]) q

/-- The mapping of `b` is gone; its reference is still to be dropped. -/
theorem Owned.unmap (h : B.Owned uses) (hb : 0 < B.maps b) :
    (B.unmap b).Owned (bump uses b) ∧ (B.place b).counted = true := by
  have hat := h.each b
  have hcounted : (B.place b).counted = true := by
    by_contra hno
    have := (hat.unused (by simpa using hno)).1
    omega
  obtain ⟨hle, hpos⟩ := hat.refs hcounted
  refine ⟨h.move (b := b) (fun x hx => ?_) ?_ (memLe_refl _) h.bos_nodup h.parked_nodup, hcounted⟩
  · exact ⟨rfl, rfl, Iff.rfl, update_of_ne hx _ _, bump_of_ne uses hx,
      fun _ => Iff.rfl, fun _ _ => Iff.rfl, fun _ _ _ => Iff.rfl⟩
  · refine { hat with refs := fun _ => ?_, unused := fun hno => ?_ }
    · rw [bump_self]
      simp only [Bufs.unmap, update_self]
      exact ⟨by omega, hpos⟩
    · exact absurd (hcounted.symm.trans hno) (by simp)

theorem Owned.vmClose (h : B.Owned uses) (hb : 0 < B.maps b) (q : Bool) :
    (B.vmClose q b).1.Owned uses := by
  obtain ⟨h', hcounted⟩ := h.unmap hb
  exact h'.kput hcounted q

/-- A new mapping of a referenced buffer. -/
theorem Owned.vmOpen (h : B.Owned uses) (hb : (B.place b).counted = true) :
    (B.vmOpen b).Owned uses := by
  have hat := h.each b
  obtain ⟨hle, hpos⟩ := hat.refs hb
  refine h.move (b := b) (fun x hx => ?_) ?_
    (memLe_update (fun hx => hx) rfl rfl) h.bos_nodup h.parked_nodup
  · exact ⟨rfl, update_of_ne hx _ _, Iff.rfl,
      update_of_ne hx _ _, rfl, fun _ => Iff.rfl, fun _ _ => Iff.rfl,
      fun _ _ _ => Iff.rfl⟩
  · refine ⟨hat.absent_iff, hat.file_iff, hat.parked_iff, hat.hand_iff, ?_, ?_,
      ?_, ?_, ?_, ?_, ?_, ?_⟩ <;>
      simp only [Bufs.vmOpen, Bufs.modify, update_self]
    · exact hat.hand_size
    · exact fun _ => ⟨by omega, by omega⟩
    · exact fun hno => absurd (hb.symm.trans hno) (by simp)
    · exact hat.cpu
    · exact hat.ent_size
    · exact hat.uncharged
    · exact hat.io_ref
    · exact hat.freed_ref

/-- The other buffers of the file stay linked. -/
theorem boDrop_bos {c : BoId} (hc : c ∈ B.bos f) (hne : c ≠ b) (q : Bool) :
    c ∈ (B.boDrop q f b).1.bos f := by
  rw [Bufs.boDrop, (keeps_kput q (B.unlink f b) b).bos]
  simp only [Bufs.unlink, Bufs.setPlace, update_self]
  exact (mem_erase_of_ne hne).mpr hc

theorem Owned.dropAll (h : B.Owned uses) {bs : List BoId} (hnodup : bs.Nodup)
    (hbs : ∀ b ∈ bs, b ∈ B.bos f) (q : Bool) :
    (B.dropAll q f bs).1.Owned uses := by
  induction bs generalizing B with
  | nil => exact h
  | cons b bs ih =>
    obtain ⟨hb, hrest⟩ := nodup_cons.mp hnodup
    have hmem := hbs b (by simp)
    refine ih (h.boDrop hmem q) hrest (fun c hc => ?_)
    have hne : c ≠ b := fun heq => hb (heq ▸ hc)
    exact boDrop_bos (hbs c (by simp [hc])) hne q

theorem Owned.closeBos (h : B.Owned uses) (f : FileId) (q : Bool) : (B.closeBos q f).1.Owned uses :=
  h.dropAll (h.bos_nodup f) (fun _ hb => hb) q

theorem Owned.markProgram (h : B.Owned uses) (hb : (B.place b).counted = true) :
    (B.markProgram b).Owned (bump uses b) := by
  obtain ⟨hle, hpos⟩ := (h.each b).refs hb
  refine h.modify hb rfl rfl rfl (fun _ => rfl) ?_ (fun x hx => bump_of_ne uses hx)
  rw [bump_self]
  simp only
  omega

theorem Owned.markIo (h : B.Owned uses) (hb : (B.place b).counted = true) :
    (B.markIo b).Owned uses :=
  h.modify hb rfl rfl rfl (fun _ => rfl) ((h.each b).refs hb) (fun _ _ => rfl)

theorem Owned.dropProgram (h : B.Owned (bump uses b)) :
    (B.modify b Bo.dropProgram).Owned (bump uses b) := by
  have hb : (B.place b).counted = true := h.counted_of_use (by rw [bump_self]; omega)
  obtain ⟨hcpu, hsize, hdma, hio⟩ := Bo.dropProgram_keeps (B.bo b)
  refine h.modify hb hcpu hsize hdma ?_ ?_ (fun _ _ => rfl)
  · rw [Bo.dropProgram]
    split
    · exact fun hio => hio
    · exact (h.each b).io_ref
  · rw [Bo.dropProgram]
    split <;> exact (h.each b).refs hb

theorem Owned.releaseSec (h : B.Owned (bump uses b)) (q : Bool) : (B.releaseSec q b).1.Owned uses :=
  h.dropProgram.kput (h.counted_of_use (by rw [bump_self]; omega)) q

/-- The uses of the first section apart from those of the rest. -/
theorem Owned.secs_cons {secs : List (Option BoId)}
    (h : B.Owned (fun x => uses x + (some b :: secs).count (some x))) :
    B.Owned (bump (fun x => uses x + secs.count (some x)) b) := by
  convert h using 2 with x
  simp only [bump, count_cons, beq_iff_eq, Option.some.injEq, eq_comm (a := b), Nat.add_assoc]

/-- The references of a program go one section after the other. -/
theorem Owned.releaseSecs {secs : List (Option BoId)}
    (h : B.Owned (fun x => uses x + secs.count (some x))) (q : Bool) :
    (B.releaseSecs q secs).1.Owned uses := by
  induction secs generalizing B with
  | nil => simpa [Bufs.releaseSecs] using h
  | cons sec secs ih =>
    cases sec with
    | none =>
      refine ih ?_
      simpa [count_cons] using h
    | some b =>
      exact ih (h.secs_cons.releaseSec q)

/-- A change that no buffer notices. -/
theorem Owned.congr (h : B.Owned uses) (hsame : ∀ x, SameAt B uses B' uses x)
    (hbo : B'.bo = B.bo) (hbos : B'.bos = B.bos)
    (hpool : B'.pool.list = B.pool.list) :
    B'.Owned uses where
  each x := (h.each x).same (hsame x)
  bos_nodup := hbos ▸ h.bos_nodup
  parked_nodup := hpool ▸ h.parked_nodup
  ranges := hbo ▸ h.ranges

/-- A new budget, and an empty section pool when it is off. -/
theorem Owned.setPoolMax (h : B.Owned uses) (maxMb : Nat) : (B.setPoolMax maxMb).1.Owned uses := by
  have h₁ : { B with pool := { B.pool with maxMb := maxMb } }.Owned uses :=
    h.congr (fun x => ⟨rfl, rfl, Iff.rfl, rfl, rfl, fun _ => Iff.rfl,
      fun _ _ => Iff.rfl, fun _ _ _ => Iff.rfl⟩) rfl rfl rfl
  rw [Bufs.setPoolMax]
  split
  · have he := poolDrain_evicts { B.pool with maxMb := maxMb }
    exact (h₁.setPool he).releaseEnts (he.evs_nodup h₁.parked_nodup)
      (fun e hmem => if_pos (mem_map_of_mem hmem))
      (fun e hmem => h₁.evicted_ref he hmem)
  · exact h₁

end Bufs

end OmarchyAne.T6021
