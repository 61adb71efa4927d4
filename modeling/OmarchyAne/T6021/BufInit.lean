import OmarchyAne.T6021.BufEffect

/-!
# BO_INIT keeps the buffers in order

Every step of `ane_t6021_bo_init_ioctl` keeps `Bufs.Owned`.  The buffer of a
call is in its hands from the moment it is taken from the pool or allocated
until it is published, and no other call and no list has it meanwhile.
-/

namespace OmarchyAne.T6021

open Function InitOp List

open Lib

namespace Bufs

variable {i : Nat} {op op' : InitOp} {inits : List InitOp} {b : BoId}

/-- The entry of `x` among the calls when call `i` never has `x`. -/
theorem inits_set_iff {x : BoId} (hop : inits[i]? = some op)
    (hx : op.hand ≠ some x) (hx' : op'.hand ≠ some x) {j : Nat} {r : InitOp}
    (hr : r.hand = some x) :
    (inits.set i op')[j]? = some r ↔ inits[j]? = some r := by
  obtain ⟨hlt, -⟩ := List.getElem?_eq_some_iff.mp hop
  by_cases hj : i = j
  · subst hj
    rw [getElem?_set_self hlt, hop]
    constructor
    · intro heq
      exact absurd (Option.some.inj heq ▸ hr) hx'
    · intro heq
      exact absurd (Option.some.inj heq ▸ hr) hx
  · rw [getElem?_set_ne hj]

/-- The calls after call `i` got hold of `b`. -/
theorem hand_set_iff (hop : inits[i]? = some op) (hb : op'.hand = some b)
    (hothers : ∀ (j : Nat) (r : InitOp), j ≠ i → inits[j]? = some r → r.hand ≠ some b)
    (j : Nat) :
    (∃ r : InitOp, (inits.set i op')[j]? = some r ∧ r.hand = some b) ↔
      Place.hand i = Place.hand j := by
  obtain ⟨hlt, -⟩ := List.getElem?_eq_some_iff.mp hop
  rw [Place.hand.injEq]
  by_cases hj : i = j
  · subst hj
    exact ⟨fun _ => rfl, fun _ => ⟨op', getElem?_set_self hlt, hb⟩⟩
  · refine ⟨fun ⟨r, hr, hrb⟩ => ?_, fun heq => absurd heq hj⟩
    rw [getElem?_set_ne hj] at hr
    exact absurd hrb (hothers j r (Ne.symm hj) hr)

theorem disjoint_comm (a l b m : Nat) : disjoint a l b m = disjoint b m a l := by
  simp [disjoint, or_comm]

variable [PageShift] {B : Bufs} {uses : BoId → Nat} {f : FileId} {size : Nat} {q : Bool}
  {p : Pool BoId} {dma : Nat} {old : PoolEnt BoId} {B' : Bufs} {cfg : BufCfg} {res : AllocResult}
  {evs : List Ev} {cap : Nat}

/-- A step of call `i` that has no buffer before it and none after it. -/
theorem Owned.setInit (h : B.Owned uses) (hop : B.inits[i]? = some op)
    (hhand : op.hand = none) (hhand' : op'.hand = none) (total : Int) :
    ({ B with total := total }.setInit i op').Owned uses := by
  refine h.congr (fun x => ?_) rfl rfl rfl
  refine ⟨rfl, rfl, Iff.rfl, rfl, rfl, fun _ => Iff.rfl, fun _ _ => Iff.rfl, fun j r hr => ?_⟩
  exact inits_set_iff hop (by simp [hhand]) (by simp [hhand']) hr

/-- A new call of BO_INIT has no buffer. -/
theorem Owned.addInit (h : B.Owned uses) (hhand : op.hand = none) :
    { B with inits := B.inits ++ [op] }.Owned uses := by
  refine h.congr (fun x => ?_) rfl rfl rfl
  refine ⟨rfl, rfl, Iff.rfl, rfl, rfl, fun _ => Iff.rfl, fun _ _ => Iff.rfl, fun j r hr => ?_⟩
  have hne : op ≠ r := by
    rintro rfl
    exact absurd (hhand.symm.trans hr) (by simp)
  rw [getElem?_append]
  split_ifs with hj
  · rfl
  · rw [getElem?_eq_none (Nat.not_lt.mp hj), getElem?_singleton]
    split_ifs <;> simp [hne]

/-- The place of a buffer in the hands of call `i`. -/
theorem Owned.place_of_hand (h : B.Owned uses) (hop : B.inits[i]? = some op)
    (hb : op.hand = some b) : B.place b = .hand i :=
  ((h.each b).hand_iff i).mp ⟨op, hop, hb⟩

/-- Call `i` takes a parked buffer. -/
theorem Owned.take (h : B.Owned uses) (hop : B.inits[i]? = some (.take f size q)) {e : PoolEnt BoId}
    (ht : poolTake B.pool size q = some (e, p)) :
    (({ B with pool := p }.setPlace e.bo (.hand i)).setInit i
      (.zero f size e.bo)).Owned uses ∧ B.place e.bo = .parked := by
  obtain ⟨-, y, l₁, l₂, hl, -, hsz, rfl, rfl⟩ := poolTake_some ht
  have hy : y ∈ B.pool.list := by simp [hl]
  have hat := h.each y.bo
  have hpl := hat.parked_iff.mp ⟨y, hy, rfl⟩
  have hnodup := h.parked_nodup
  rw [hl, map_append, map_cons] at hnodup
  have hgone : ∀ e ∈ l₁ ++ l₂, e.bo ≠ y.bo := by
    intro e he heq
    have hnot := (nodup_cons.mp (nodup_middle.mp hnodup)).1
    rw [← map_append] at hnot
    exact hnot (heq ▸ mem_map_of_mem he)
  have hhand := hat.hand_iff
  have hfile := hat.file_iff
  have habsent := hat.absent_iff
  simp only [hpl, reduceCtorEq, iff_false] at hhand hfile
  simp only [hpl, reduceCtorEq, false_iff] at habsent
  refine ⟨h.move (b := y.bo) (fun x hx => ?_) ?_ (memLe_refl _) h.bos_nodup ?_, hpl⟩
  · refine ⟨update_of_ne hx _ _, rfl, Iff.rfl, rfl, rfl,
      fun _ => Iff.rfl, fun e he => ?_, fun j r hr => ?_⟩
    · show e ∈ l₁ ++ l₂ ↔ e ∈ B.pool.list
      have hne : e ≠ y := by
        rintro rfl
        exact hx he.symm
      simp [hl, hne]
    · refine inits_set_iff hop (by simp [hand]) ?_ hr
      simp only [hand, ne_eq, Option.some.injEq]
      exact fun heq => hx heq.symm
  · constructor <;>
      simp only [Bufs.setInit, Bufs.setPlace, update_self, reduceCtorEq, iff_false, false_iff]
    case absent_iff => exact habsent
    case file_iff => exact hfile
    case parked_iff =>
      rintro ⟨e, he, heb⟩
      exact hgone e he heb
    case hand_iff =>
      exact hand_set_iff hop rfl (fun j r _ hr hb => hhand j ⟨r, hr, hb⟩)
    case hand_size =>
      intro j r hr hb
      have hown := (hat.ent_size y hy rfl).symm
      rcases getElem?_set_cases hr with ⟨-, rfl⟩ | ⟨-, hr⟩
      · rw [hown]
        exact hsz
      · exact absurd ⟨r, hr, hb⟩ (hhand j)
    case refs => simp [Place.counted]
    case unused => exact fun _ => hat.unused (by rw [hpl]; rfl)
    case cpu =>
      rw [hat.cpu, hpl]
      rfl
    case ent_size => exact fun e he heb => absurd heb (hgone e he)
    case uncharged => exact fun e he heb => absurd heb (hgone e he)
    case io_ref => exact hat.io_ref
    case freed_ref => simp
  · show ((l₁ ++ l₂).map (fun e => e.bo)).Nodup
    rw [map_append]
    exact (nodup_cons.mp (nodup_middle.mp hnodup)).2

/-- Call `i` zeroed its buffer and keeps it. -/
theorem Owned.zeroed (h : B.Owned uses) (hop : B.inits[i]? = some (.zero f size b)) :
    (B.setInit i (.publish f size b)).Owned uses := by
  have hat := h.each b
  have hpl := h.place_of_hand hop rfl
  have hothers : ∀ (j : Nat) (r : InitOp), j ≠ i → B.inits[j]? = some r → r.hand ≠ some b := by
    intro j r hj hr hb
    have heq := h.place_of_hand hr hb
    rw [hpl, Place.hand.injEq] at heq
    exact hj heq.symm
  refine h.move (b := b) (fun x hx => ?_) ?_ (memLe_refl _) h.bos_nodup h.parked_nodup
  · refine ⟨rfl, rfl, Iff.rfl, rfl, rfl, fun _ => Iff.rfl, fun _ _ => Iff.rfl, fun j r hr => ?_⟩
    refine inits_set_iff hop ?_ ?_ hr <;>
      simp only [hand, ne_eq, Option.some.injEq] <;>
      exact fun heq => hx heq.symm
  · refine { hat with hand_iff := fun j => ?_, hand_size := ?_ }
    · rw [show (B.setInit i (.publish f size b)).place b = .hand i from hpl]
      exact hand_set_iff hop rfl hothers j
    · intro j r hr hb
      rcases getElem?_set_cases hr with ⟨-, rfl⟩ | ⟨hj, hr⟩
      · exact hat.hand_size i (.zero f size b) hop rfl
      · exact absurd hb (hothers j r hj hr)

/-- What `rangeFree` says about an allocated buffer. -/
theorem rangeFree_disjoint (h : B.rangeFree dma size = true) (hb : b < B.next)
    (hcpu : (B.bo b).cpu = true) :
    disjoint dma (pageAlign size) (B.bo b).dma (pageAlign (B.bo b).size) = true := by
  have hall := all_eq_true.mp h b (mem_range.mpr hb)
  simpa [hcpu] using hall

/-- An object that does not exist yet. -/
theorem Owned.next_fresh (h : B.Owned uses) :
    B.place B.next = .absent ∧ B.Unlisted B.next ∧ B.maps B.next = 0 ∧ uses B.next = 0 := by
  have hpl := (h.each B.next).absent_iff.mpr le_rfl
  refine ⟨hpl, (h.each B.next).unlisted (by rw [hpl]; rfl), ?_⟩
  exact (h.each B.next).unused (by rw [hpl]; rfl)

/-- Call `i` allocated a new buffer. -/
theorem Owned.alloc (h : B.Owned uses) (hop : B.inits[i]? = some (.alloc f size))
    (hfree : B.rangeFree dma size = true) :
    ((B.addBo dma size true (.hand i)).setInit i (.publish f size B.next)).Owned uses := by
  obtain ⟨hpl, hun, hmaps, huses⟩ := h.next_fresh
  have hold : ∀ x, x ≠ B.next → (update B.bo B.next
      { Bo.zero with cpu := true, dma := dma, size := size }) x = B.bo x :=
    fun x hx => update_of_ne hx _ _
  have hlt : ∀ x, (B.bo x).cpu = true → x < B.next := by
    intro x hx
    by_contra hge
    have habs := (h.each x).absent_iff.mpr (Nat.not_lt.mp hge)
    rw [(h.each x).cpu, habs] at hx
    simp [Place.allocated] at hx
  refine ⟨fun x => ?_, h.bos_nodup, h.parked_nodup, fun x y hxy hx hy => ?_⟩
  · by_cases hx : x = B.next
    · subst hx
      constructor <;>
        simp only [Bufs.setInit, Bufs.addBo, update_self, reduceCtorEq, iff_false, false_iff]
      case absent_iff => omega
      case file_iff => exact hun.file
      case parked_iff =>
        rintro ⟨e, he, heb⟩
        exact hun.pool e he heb
      case hand_iff =>
        exact hand_set_iff hop rfl (fun j r _ hr => hun.inits j r hr)
      case hand_size =>
        intro j r hr hb
        rcases getElem?_set_cases hr with ⟨-, rfl⟩ | ⟨-, hr⟩
        · rfl
        · exact absurd hb (hun.inits j r hr)
      case refs => simp [Place.counted]
      case unused => exact fun _ => ⟨hmaps, huses⟩
      case cpu => rfl
      case ent_size => exact fun e he heb => absurd heb (hun.pool e he)
      case uncharged => exact fun e he heb => absurd heb (hun.pool e he)
      case io_ref => simp [Bo.zero]
      case freed_ref => simp
    · refine (h.each x).same ⟨update_of_ne hx _ _, hold x hx, ?_, rfl,
        rfl, fun _ => Iff.rfl, fun _ _ => Iff.rfl, fun j r hr => ?_⟩
      · exact ⟨Nat.le_of_succ_le, fun hle =>
          Nat.lt_of_le_of_ne hle (Ne.symm hx)⟩
      · refine inits_set_iff hop (by simp [hand]) ?_ hr
        simp only [hand, ne_eq, Option.some.injEq]
        exact fun heq => hx heq.symm
  · simp only [Bufs.setInit, Bufs.addBo] at hx hy ⊢
    by_cases hxn : x = B.next
    · subst hxn
      rw [hold y (Ne.symm hxy)] at hy ⊢
      rw [update_self]
      exact rangeFree_disjoint hfree (hlt y hy) hy
    · rw [hold x hxn] at hx ⊢
      by_cases hyn : y = B.next
      · subst hyn
        rw [update_self, disjoint_comm]
        exact rangeFree_disjoint hfree (hlt x hx) hx
      · rw [hold y hyn] at hy ⊢
        exact h.ranges x y hxy hx hy

/-- The memory that call `i` got broke the alias contract. -/
theorem Owned.allocBad (h : B.Owned uses) (hop : B.inits[i]? = some (.alloc f size)) :
    (((B.uncharge size).addBo dma size false .freed).setInit i .done).Owned uses := by
  obtain ⟨hpl, hun, hmaps, huses⟩ := h.next_fresh
  refine h.move (b := B.next) (fun x hx => ?_) ?_ ?_ h.bos_nodup h.parked_nodup
  · refine ⟨update_of_ne hx _ _, update_of_ne hx _ _, ?_, rfl,
      rfl, fun _ => Iff.rfl, fun _ _ => Iff.rfl, fun j r hr => ?_⟩
    · exact ⟨Nat.le_of_succ_le, fun hle =>
          Nat.lt_of_le_of_ne hle (Ne.symm hx)⟩
    · exact inits_set_iff hop (by simp [hand]) (by simp [hand]) hr
  · apply At.of_unlisted <;>
      simp only [Bufs.setInit, Bufs.addBo, Bufs.uncharge, update_self]
    · refine ⟨hun.file, hun.pool, fun j r hr hb => ?_⟩
      exact hun.inits j r ((inits_set_iff hop (by simp [hand]) (by simp [hand]) hb).mp hr) hb
    · rfl
    · simp
    · simp [Place.counted]
    · exact fun _ => ⟨hmaps, huses⟩
    · rfl
    · simp [Bo.zero]
    · simp [Bo.zero]
  · intro x hx
    by_cases hxn : x = B.next
    · subst hxn
      simp [Bufs.setInit, Bufs.addBo, Bufs.uncharge] at hx
    · simp only [Bufs.setInit, Bufs.addBo, Bufs.uncharge, update_of_ne hxn] at hx ⊢
      exact ⟨hx, trivial, trivial⟩

/-- Call `i` evicted an entry and tries again. -/
theorem Owned.evictFree (h : B.Owned uses) (hop : B.inits[i]? = some op)
    (hhand : op.hand = none) (hhand' : op'.hand = none)
    (hev : poolEvictOldest B.pool = some (old, p)) :
    (((B.setPool p [old]).releaseEnts [old]).setInit i op').Owned uses := by
  have he := poolEvictOldest_evicts hev
  have hfree := (h.setPool he).releaseEnts (he.evs_nodup h.parked_nodup)
    (fun e hmem => if_pos (mem_map_of_mem hmem))
    (fun e hmem => h.evicted_ref he hmem)
  have hkeep := keeps_releaseEnts (B.setPool p [old]) [old]
  have hop' : ((B.setPool p [old]).releaseEnts [old]).inits[i]? = some op := by
    rw [hkeep.inits]
    exact hop
  exact hfree.setInit hop' hhand hhand' _

/-- Call `i` publishes its buffer on the list of file `f`. -/
theorem Owned.publish (h : B.Owned uses) (hop : B.inits[i]? = some (.publish f size b)) :
    ((B.publish f size b).setInit i .done).Owned uses := by
  have hat := h.each b
  have hpl := h.place_of_hand hop rfl
  have hfile := hat.file_iff
  have hparked := hat.parked_iff
  have habsent := hat.absent_iff
  simp only [hpl, reduceCtorEq, iff_false] at hfile hparked
  simp only [hpl, reduceCtorEq, false_iff] at habsent
  obtain ⟨hmaps, huses⟩ := hat.unused (by rw [hpl]; rfl)
  have hmem : ∀ g x, x ∈ update B.bos f (B.bos f ++ [b]) g ↔ x ∈ B.bos g ∨ g = f ∧ x = b := by
    intro g x
    by_cases hg : g = f
    · subst hg
      simp
    · simp [hg]
  have hnohand : ∀ (j : Nat) (r : InitOp),
      (B.inits.set i .done)[j]? = some r → r.hand ≠ some b := by
    intro j r hr hb
    rcases getElem?_set_cases hr with ⟨-, rfl⟩ | ⟨hj, hr⟩
    · simp [hand] at hb
    · have heq := h.place_of_hand hr hb
      rw [hpl, Place.hand.injEq] at heq
      exact hj heq.symm
  refine h.move (b := b) (fun x hx => ?_) ?_ ?_ (fun g => ?_) h.parked_nodup
  · refine ⟨update_of_ne hx _ _, update_of_ne hx _ _, Iff.rfl,
      rfl, rfl, fun g => ?_, fun _ _ => Iff.rfl, fun j r hr => ?_⟩
    · refine (hmem g x).trans ⟨fun hor => hor.resolve_right ?_, .inl⟩
      exact fun hboth => hx hboth.2
    · refine inits_set_iff hop ?_ (by simp [hand]) hr
      simp only [hand, ne_eq, Option.some.injEq]
      exact fun heq => hx heq.symm
  · constructor <;>
      simp only [Bufs.setInit, Bufs.publish, Bufs.setPlace, Bufs.modify,
        update_self, reduceCtorEq, iff_false, false_iff]
    case absent_iff => exact habsent
    case file_iff =>
      intro g
      rw [hmem, Place.file.injEq]
      exact ⟨fun hor => (hor.resolve_left (hfile g)).1.symm, fun heq => .inr ⟨heq.symm, rfl⟩⟩
    case parked_iff => exact hparked
    case hand_iff =>
      rintro j ⟨r, hr, hb⟩
      exact hnohand j r hr hb
    case hand_size => exact fun j r hr hb => absurd hb (hnohand j r hr)
    case refs =>
      rw [hmaps, huses]
      simp [Place.handles]
    case unused => simp [Place.counted]
    case cpu =>
      rw [hat.cpu, hpl]
      rfl
    case ent_size => exact fun e he heb => absurd ⟨e, he, heb⟩ hparked
    case uncharged => exact fun e he heb => absurd ⟨e, he, heb⟩ hparked
    case io_ref => exact hat.io_ref
    case freed_ref => simp
  · exact memLe_update (fun hx => hx) (hat.hand_size i _ hop rfl).symm rfl
  · by_cases hg : g = f
    · subst hg
      simp only [Bufs.setInit, Bufs.publish, Bufs.setPlace, update_self]
      rw [nodup_append]
      refine ⟨h.bos_nodup g, by simp, fun x hx y hy => ?_⟩
      rw [mem_singleton.mp hy]
      rintro rfl
      exact hfile g hx
    · simp only [Bufs.setInit, Bufs.publish, Bufs.setPlace, update_of_ne hg]
      exact h.bos_nodup g

/-- Every step of BO_INIT keeps the buffers in order. -/
theorem Owned.initStep (h : B.Owned uses)
    (hstep : B.initStep cfg q i res = some (B', evs)) : B'.Owned uses := by
  rw [Bufs.initStep] at hstep
  split at hstep
  · cases hstep
  · cases hstep
  · rename_i f size hop
    split_ifs at hstep <;> obtain ⟨rfl, rfl⟩ := hstep <;>
      exact h.setInit hop rfl rfl B.total
  · rename_i f size qf hop
    split at hstep
    · obtain ⟨rfl, rfl⟩ := hstep
      exact h.setInit hop rfl rfl B.total
    · rename_i e p ht
      obtain ⟨rfl, rfl⟩ := hstep
      exact (h.take hop ht).1
  · rename_i f size b hop
    obtain ⟨rfl, rfl⟩ := hstep
    exact h.zeroed hop
  · rename_i f size hop
    obtain ⟨rfl, rfl⟩ := hstep
    exact h.setInit hop rfl (by split_ifs <;> rfl) _
  · rename_i f size hop
    obtain ⟨rfl, rfl⟩ := hstep
    exact h.setInit hop rfl rfl _
  · rename_i f size hop
    cases res with
    | kzallocFails =>
      obtain ⟨rfl, rfl⟩ := hstep
      exact h.setInit hop rfl rfl _
    | dmaFails =>
      obtain ⟨rfl, rfl⟩ := hstep
      exact h.setInit hop rfl rfl _
    | ok dma =>
      simp only [Bufs.allocStep] at hstep
      split_ifs at hstep with hfree hbad
      · obtain ⟨rfl, rfl⟩ := hstep
        exact h.allocBad hop
      · obtain ⟨rfl, rfl⟩ := hstep
        exact h.alloc hop (by simpa using hfree)
  · rename_i f size err hop
    split at hstep
    · obtain ⟨rfl, rfl⟩ := hstep
      exact h.setInit hop rfl rfl B.total
    · rename_i old p hev
      obtain ⟨rfl, rfl⟩ := hstep
      exact h.evictFree hop rfl rfl hev
  · rename_i f size b hop
    obtain ⟨rfl, rfl⟩ := hstep
    exact h.publish hop

/-! ## What a step of BO_INIT shows -/

/-- What a step of BO_INIT may do to the buffers of others. -/
structure Inited (B B' : Bufs) (evs : List Ev) : Prop where
  next_le : B.next ≤ B'.next
  io : ∀ x, x < B.next → (B'.bo x).fwIo = (B.bo x).fwIo
  held : ∀ x, B.place x = .held → B'.place x = .held
  freed : ∀ x, B.place x = .freed → B'.place x = .freed
  counted : ∀ x, (B.place x).counted = true →
    B'.place x = B.place x ∨ B'.place x = .loose
  taken_ev : ∀ x, .taken x ∈ evs → B.place x = .parked
  zeroed_ev : ∀ x, .zeroed x ∈ evs → ∃ i, B.place x = .hand i
  published_ev : ∀ x, .published x ∈ evs → ∃ i, B.place x = .hand i
  freed_ev : ∀ x, .freed x ∈ evs → B'.place x = .freed
  /-- New memory overlaps no memory that is allocated. -/
  allocated_ev : ∀ x, .allocated x ∈ evs → x = B.next ∧
    ∀ y, (B.bo y).cpu = true → disjoint (B'.bo x).dma
      (pageAlign (B'.bo x).size) (B.bo y).dma (pageAlign (B.bo y).size) = true

/-- A step that no buffer notices. -/
theorem inited_quiet (hnext : B'.next = B.next) (hbo : B'.bo = B.bo)
    (hplace : B'.place = B.place) (hevs : ∀ ev ∈ evs, ∃ r, ev = .ret r) :
    Inited B B' evs := by
  have hno : ∀ ev ∈ evs, (∀ r, ev ≠ .ret r) → False := by
    intro ev hev hne
    obtain ⟨r, hr⟩ := hevs ev hev
    exact hne r hr
  refine ⟨hnext.ge, fun x _ => by rw [hbo], fun x hx => by rw [hplace, hx],
    fun x hx => by rw [hplace, hx], fun x _ => .inl (by rw [hplace]),
    fun x hx => ?_, fun x hx => ?_, fun x hx => ?_, fun x hx => ?_,
    fun x hx => ?_⟩ <;> exact (hno _ hx (by simp)).elim

/-- An eviction frees one buffer and keeps the others. -/
theorem Inited.of_moved (h : Moved false (fun _ => False) B B' evs) : Inited B B' evs := by
  have hfreed : ∀ ev ∈ evs, (∀ x, ev ≠ .freed x) → False := by
    intro ev hev hne
    obtain ⟨x, hx, -⟩ := h.evs_freed ev hev
    exact hne x hx
  refine ⟨h.next.ge, fun x _ => h.io x, h.held, h.freed, fun x hx => ?_,
    fun x hx => ?_, fun x hx => ?_, fun x hx => ?_, fun x hx => ?_,
    fun x hx => ?_⟩
  · rcases h.counted x hx with heq | hloose | hno
    · exact .inl heq
    · exact .inr hloose
    · exact hno.elim
  · exact (hfreed _ hx (by simp)).elim
  · exact (hfreed _ hx (by simp)).elim
  · exact (hfreed _ hx (by simp)).elim
  · obtain ⟨y, hy, hpl⟩ := h.evs_freed _ hx
    rw [Ev.freed.injEq] at hy
    exact hy ▸ hpl
  · exact (hfreed _ hx (by simp)).elim

theorem Inited.setInit (h : Inited B B' evs) (i : Nat) (op : InitOp) :
    Inited B (B'.setInit i op) evs :=
  ⟨h.next_le, h.io, h.held, h.freed, h.counted, h.taken_ev, h.zeroed_ev,
    h.published_ev, h.freed_ev, h.allocated_ev⟩

/-- A move of a buffer that nobody references. -/
theorem inited_move (hb : B.place b = .parked ∨ ∃ i, B.place b = .hand i)
    (hnext : B'.next = B.next) (hio : ∀ x, (B'.bo x).fwIo = (B.bo x).fwIo)
    (hplace : ∀ x, x ≠ b → B'.place x = B.place x)
    (htaken : ∀ x, .taken x ∈ evs → B.place x = .parked)
    (hzeroed : ∀ x, .zeroed x ∈ evs → ∃ i, B.place x = .hand i)
    (hpublished : ∀ x, .published x ∈ evs → ∃ i, B.place x = .hand i)
    (hfreed : ∀ x, .freed x ∉ evs) (halloc : ∀ x, .allocated x ∉ evs) :
    Inited B B' evs := by
  have hne : ∀ x, (∀ i, B.place x ≠ .hand i) → B.place x ≠ .parked → x ≠ b := by
    rintro x hh hp rfl
    rcases hb with hb | ⟨i, hb⟩
    · exact hp hb
    · exact hh i hb
  refine ⟨hnext.ge, fun x _ => hio x, fun x hx => ?_, fun x hx => ?_,
    fun x hx => ?_, htaken, hzeroed, hpublished,
    fun x hx => absurd hx (hfreed x), fun x hx => absurd hx (halloc x)⟩
  · rw [hplace x (hne x (by simp [hx]) (by simp [hx])), hx]
  · rw [hplace x (hne x (by simp [hx]) (by simp [hx])), hx]
  · refine .inl (hplace x (hne x (fun i hi => ?_) (fun hp => ?_)))
    · simp [hi, Place.counted] at hx
    · simp [hp, Place.counted] at hx

/-- A new object overlaps nothing and moves nobody. -/
theorem Owned.inited_addBo (h : B.Owned uses) {cpu : Bool} {pl : Place}
    (hfree : B.rangeFree dma size = true)
    (hbo : B'.bo = (B.addBo dma size cpu pl).bo)
    (hplace : B'.place = (B.addBo dma size cpu pl).place)
    (hnext : B'.next = B.next + 1) (htaken : ∀ x, .taken x ∉ evs)
    (hzeroed : ∀ x, .zeroed x ∉ evs) (hpublished : ∀ x, .published x ∉ evs)
    (hfreed : ∀ x, .freed x ∈ evs → x = B.next ∧ pl = .freed)
    (halloc : ∀ x, .allocated x ∈ evs → x = B.next) : Inited B B' evs := by
  have hpl := h.next_fresh.1
  have hkeep : ∀ x, B.place x ≠ .absent → B'.place x = B.place x := by
    intro x hx
    rw [hplace]
    refine update_of_ne (fun heq => ?_) _ _
    exact hx (heq ▸ hpl)
  refine ⟨by omega, fun x hx => ?_, fun x hx => ?_, fun x hx => ?_,
    fun x hx => .inl (hkeep x ?_), fun x hx => absurd hx (htaken x),
    fun x hx => absurd hx (hzeroed x), fun x hx => absurd hx (hpublished x),
    fun x hx => ?_, fun x hx => ⟨halloc x hx, fun y hy => ?_⟩⟩
  · rw [hbo]
    exact congrArg Bo.fwIo (update_of_ne (Nat.ne_of_lt hx) _ _)
  · rw [hkeep x (by simp [hx]), hx]
  · rw [hkeep x (by simp [hx]), hx]
  · intro habs
    simp [habs, Place.counted] at hx
  · obtain ⟨rfl, rfl⟩ := hfreed x hx
    rw [hplace]
    exact update_self _ _ _
  · rw [halloc x hx, hbo]
    have halloc := h.alloc_lt (b := y) ((h.each y).cpu ▸ hy)
    simp only [Bufs.addBo, update_self]
    exact rangeFree_disjoint hfree halloc.1 hy

/-- One eviction, seen from the other buffers. -/
theorem Owned.evict_moved (h : B.Owned uses) (hev : poolEvictOldest B.pool = some (old, p)) :
    Moved false (fun _ => False) B ((B.setPool p [old]).releaseEnts [old]) [.freed old.bo] := by
  have he := poolEvictOldest_evicts hev
  refine moved_releaseEnts false _ h (he.evs_nodup h.parked_nodup)
    (fun e hmem => h.evicted_parked he hmem) rfl rfl rfl rfl
    (fun x hp _ => if_neg (fun hold => ?_))
  obtain ⟨e, hmem, rfl⟩ := mem_map.mp hold
  exact hp (h.evicted_parked he hmem)

/-- Every step of BO_INIT leaves the buffers of others alone. -/
theorem Owned.initStep_inited (h : B.Owned uses)
    (hstep : B.initStep cfg q i res = some (B', evs)) : Inited B B' evs := by
  rw [Bufs.initStep] at hstep
  split at hstep
  · cases hstep
  · cases hstep
  · split_ifs at hstep <;> obtain ⟨rfl, rfl⟩ := hstep <;>
      exact inited_quiet rfl rfl rfl (by simp)
  · rename_i f size qf hop
    split at hstep
    · obtain ⟨rfl, rfl⟩ := hstep
      exact inited_quiet rfl rfl rfl (by simp)
    · rename_i e p ht
      obtain ⟨rfl, rfl⟩ := hstep
      have hpl := (h.take hop ht).2
      exact inited_move (.inl hpl) rfl (fun _ => rfl) (fun x hx => update_of_ne hx _ _)
        (by simpa using hpl) (by simp) (by simp) (by simp) (by simp)
  · rename_i f size b hop
    obtain ⟨rfl, rfl⟩ := hstep
    have hpl := h.place_of_hand hop rfl
    exact inited_move (.inr ⟨i, hpl⟩) rfl (fun _ => rfl) (fun _ _ => rfl)
      (by simp) (by simp [hpl]) (by simp) (by simp) (by simp)
  · obtain ⟨rfl, rfl⟩ := hstep
    exact inited_quiet rfl rfl rfl (by simp)
  · obtain ⟨rfl, rfl⟩ := hstep
    exact inited_quiet rfl rfl rfl (by simp)
  · cases res with
    | kzallocFails =>
      obtain ⟨rfl, rfl⟩ := hstep
      exact inited_quiet rfl rfl rfl (by simp)
    | dmaFails =>
      obtain ⟨rfl, rfl⟩ := hstep
      exact inited_quiet rfl rfl rfl (by simp)
    | ok dma =>
      simp only [Bufs.allocStep] at hstep
      split_ifs at hstep with hfree hbad
      · obtain ⟨rfl, rfl⟩ := hstep
        exact h.inited_addBo (by simpa using hfree) rfl rfl rfl (by simp)
          (by simp) (by simp) (by simp) (by simp)
      · obtain ⟨rfl, rfl⟩ := hstep
        exact h.inited_addBo (by simpa using hfree) rfl rfl rfl (by simp)
          (by simp) (by simp) (by simp) (by simp)
  · rename_i f size err hop
    split at hstep
    · obtain ⟨rfl, rfl⟩ := hstep
      exact inited_quiet rfl rfl rfl (by simp)
    · rename_i old p hev
      obtain ⟨rfl, rfl⟩ := hstep
      exact (Inited.of_moved (h.evict_moved hev)).setInit _ _
  · rename_i f size b hop
    obtain ⟨rfl, rfl⟩ := hstep
    have hpl := h.place_of_hand hop rfl
    refine inited_move (.inr ⟨i, hpl⟩) rfl (fun x => ?_)
      (fun x hx => update_of_ne hx _ _) (by simp) (by simp)
      (by simp [hpl]) (by simp) (by simp)
    by_cases hx : x = b
    · subst hx
      simp [Bufs.setInit, Bufs.publish, Bufs.modify, Bufs.setPlace]
    · simp [Bufs.setInit, Bufs.publish, Bufs.modify, Bufs.setPlace, hx]

/-! ## The byte counter -/

/-- A step of call `i` that keeps the balance.  It may only add to the
admitted bytes when it saw the counter at or below the cap. -/
theorem Account.step (h : B.Account cap) (hop : B.inits[i]? = some op)
    (hinits : B'.inits = B.inits.set i op')
    (hpaid : B'.total - B'.allocBytes - op'.pending = B.total - B.allocBytes - op.pending)
    (hfits : B'.allocBytes + op'.admitted ≤ B.allocBytes + op.admitted ∨
      B'.total ≤ cap) : B'.Account cap := by
  have hp : B'.pendingBytes + op.pending = B.pendingBytes + op'.pending := by
    rw [pendingBytes, hinits, pendingBytes]
    exact sum_map_set _ hop op'
  have ha : B'.admittedBytes + op.admitted = B.admittedBytes + op'.admitted := by
    rw [admittedBytes, hinits, admittedBytes]
    exact sum_map_set _ hop op'
  have hle := admittedBytes_le_pendingBytes B'
  have htotal := h.total
  have hold := h.fits
  have hnew : B'.total = B'.allocBytes + B'.pendingBytes := by omega
  refine ⟨hnew, ?_⟩
  rcases hfits with hfits | hfits
  · omega
  · omega

/-- A new call of BO_INIT has charged nothing. -/
theorem Account.addInit (h : B.Account cap) (hpend : op.pending = 0) (hadm : op.admitted = 0) :
    { B with inits := B.inits ++ [op] }.Account cap := by
  obtain ⟨htotal, hfits⟩ := h
  refine ⟨?_, ?_⟩
  · simpa [pendingBytes, hpend, allocBytes] using htotal
  · simpa [admittedBytes, hadm, allocBytes] using hfits

/-- The bytes after a new object. -/
theorem allocBytes_addBo (B : Bufs) (dma size : Nat) (cpu : Bool)
    (pl : Place) : (B.addBo dma size cpu pl).allocBytes =
      B.allocBytes + if cpu then (pageAlign size : Int) else 0 :=
  bytesBelow_succ B.bo B.next _

/-- A published buffer has the page-aligned size that was counted. -/
theorem Owned.allocBytes_publish (h : B.Owned uses) (hop : B.inits[i]? = some (.publish f size b)) :
    (B.publish f size b).allocBytes = B.allocBytes := by
  have hpl := h.place_of_hand hop rfl
  obtain ⟨hlt, hcpu⟩ := h.alloc_lt (b := b) (by rw [hpl]; rfl)
  have hsize : pageAlign (B.bo b).size = pageAlign size := (h.each b).hand_size i _ hop rfl
  have hupd : (B.publish f size b).allocBytes + (B.bo b).bytes =
      B.allocBytes + ({ B.bo b with
        size := size, owner := f, refs := 1,
        handle := (takeHandle B.nextHandle).1 } : Bo).bytes :=
    bytesBelow_update B.bo hlt _
  simp only [Bo.bytes, hcpu, if_true, hsize] at hupd
  omega

/-- Call `i` gives its charge back. -/
theorem Account.uncharge (h : B.Account cap) (hop : B.inits[i]? = some op)
    (hpend : op.pending = pageAlign size) (hpend' : op'.pending = 0)
    (hadm : op'.admitted ≤ op.admitted) :
    ((B.uncharge size).setInit i op').Account cap := by
  have hsame : ((B.uncharge size).setInit i op').allocBytes = B.allocBytes := rfl
  have htotal : ((B.uncharge size).setInit i op').total = B.total - pageAlign size := rfl
  refine h.step hop rfl ?_ (.inl ?_)
  · rw [hsame, htotal, hpend, hpend']
    omega
  · rw [hsame]
    omega

/-- New memory takes over the charge of call `i`. -/
theorem Account.allocStep (h : B.Account cap) (hop : B.inits[i]? = some (.alloc f size))
    (hstep : Bufs.allocStep cfg B i f size res = some (B', evs)) :
    B'.Account cap := by
  have hnonneg : (0 : Int) ≤ pageAlign size := Int.natCast_nonneg _
  cases res with
  | kzallocFails =>
    obtain ⟨rfl, rfl⟩ := hstep
    exact h.uncharge hop rfl rfl hnonneg
  | dmaFails =>
    obtain ⟨rfl, rfl⟩ := hstep
    exact h.uncharge hop rfl rfl hnonneg
  | ok dma =>
    simp only [Bufs.allocStep] at hstep
    split_ifs at hstep with hfree hbad
    · obtain ⟨rfl, rfl⟩ := hstep
      have halloc : (((B.uncharge size).addBo dma size false .freed).setInit i
          .done).allocBytes = B.allocBytes := by
        have hadd := allocBytes_addBo (B.uncharge size) dma size false .freed
        simp only [Bool.false_eq_true, if_false, add_zero] at hadd
        exact hadd
      have htotal : (((B.uncharge size).addBo dma size false .freed).setInit i
          .done).total = B.total - pageAlign size := rfl
      refine h.step hop rfl ?_ (.inl ?_)
      · rw [halloc, htotal]
        simp only [pending]
        omega
      · rw [halloc]
        simp only [admitted]
        omega
    · obtain ⟨rfl, rfl⟩ := hstep
      have halloc : ((B.addBo dma size true (.hand i)).setInit i
          (.publish f size B.next)).allocBytes =
          B.allocBytes + pageAlign size :=
        allocBytes_addBo B dma size true (.hand i)
      have htotal : ((B.addBo dma size true (.hand i)).setInit i
          (.publish f size B.next)).total = B.total := rfl
      refine h.step hop rfl ?_ (.inl ?_)
      · rw [halloc, htotal]
        simp only [pending]
        omega
      · rw [halloc]
        simp only [admitted]
        omega

/-- Every step of BO_INIT keeps the byte counter exact. -/
theorem Owned.initStep_account (h : B.Owned uses) (hacc : B.Account cfg.cap)
    (hstep : B.initStep cfg q i res = some (B', evs)) :
    B'.Account cfg.cap := by
  rw [Bufs.initStep] at hstep
  split at hstep
  · cases hstep
  · cases hstep
  · rename_i f size hop
    split_ifs at hstep <;> obtain ⟨rfl, rfl⟩ := hstep <;>
      exact hacc.step hop rfl rfl (.inl le_rfl)
  · rename_i f size qf hop
    split at hstep <;> obtain ⟨rfl, rfl⟩ := hstep <;>
      exact hacc.step hop rfl rfl (.inl le_rfl)
  · rename_i f size b hop
    obtain ⟨rfl, rfl⟩ := hstep
    exact hacc.step hop rfl rfl (.inl le_rfl)
  · rename_i f size hop
    obtain ⟨rfl, rfl⟩ := hstep
    have hsame : ∀ op, ((B.charge size).setInit i op).allocBytes = B.allocBytes := fun _ => rfl
    have htotal : ∀ op, ((B.charge size).setInit i op).total =
      B.total + pageAlign size := fun _ => rfl
    refine hacc.step hop rfl ?_ ?_
    · rw [hsame, htotal]
      split_ifs <;> simp only [pending] <;> omega
    · -- the charge is admitted only when the sum is within the cap
      rw [hsame, htotal]
      split_ifs with hover
      · exact .inl le_rfl
      · exact .inr (not_lt.mp hover)
  · rename_i f size hop
    obtain ⟨rfl, rfl⟩ := hstep
    exact hacc.uncharge hop rfl rfl (Int.natCast_nonneg _)
  · rename_i f size hop
    exact hacc.allocStep hop hstep
  · rename_i f size err hop
    split at hstep
    · obtain ⟨rfl, rfl⟩ := hstep
      exact hacc.step hop rfl rfl (.inl le_rfl)
    · rename_i old p hev
      obtain ⟨rfl, rfl⟩ := hstep
      have hm := h.evict_moved hev
      have hop' : ((B.setPool p [old]).releaseEnts [old]).inits[i]? = some (.evict f size err) := by
        rw [hm.inits]
        exact hop
      exact (hacc.moved hm).step hop' rfl rfl (.inl le_rfl)
  · rename_i f size b hop
    obtain ⟨rfl, rfl⟩ := hstep
    have hsame : ((B.publish f size b).setInit i .done).allocBytes =
      B.allocBytes := h.allocBytes_publish hop
    have htotal : ((B.publish f size b).setInit i .done).total = B.total := rfl
    refine hacc.step hop rfl ?_ (.inl ?_)
    · rw [hsame, htotal]
      rfl
    · rw [hsame]
      rfl

end Bufs

end OmarchyAne.T6021
