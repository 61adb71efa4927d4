import Mathlib.Data.UInt
import OmarchyAne.Lib.Kernel

/-!
# The H15 driver maps its own firmware image

`ane_h15_map_firmware` puts the Linux-owned image behind the entry address
that the boot loader left.  The image is two segments, TEXT and DATA, and its
pages need not be contiguous in memory.  `ane_h15_map_owned_segment` therefore
maps each segment in maximal contiguous runs, reads every run back, and takes
the segment's runs out again when one of them fails.

An unmap that does not cover its whole range sets `map_retained`.  Every
cleanup path of the driver reads that flag first: `ane_h15_unmap_firmware`,
the end of `ane_h15_run_common`, the end of the probe and `ane_h15_remove`.

Pages are counted in units of 16 KiB, and the page `p` of the image goes to
the page `base + p` of the address space.  What the IOMMU answers is a
parameter: the call number decides whether a map fails, what a read-back
sees and which pages an incomplete unmap leaves behind.

* `runLen_run` says that the pages of a run follow each other in memory.
* `mapRuns_spec` is the loop over the runs, and `mapOwnedSegment_cases` adds
  the rollback inside a segment.
* `mapFirmware_allOrNothing` is the result over both segments and over every
  sequence of cleanup calls after it.
-/

namespace OmarchyAne.H15.FwMap

open Lib

/-! ## The image, the domain and the answers of the IOMMU -/

/-- `SZ_16K`. -/
def pageBytes : UInt64 := 0x4000

/-- The pages of `ANE_H15_FW_TEXT_SIZE`. -/
def textPages : Nat := 0xcc000 / 0x4000

/-- The pages of `ANE_H15_FW_IMAGE_SIZE`. -/
def imagePages : Nat := 0x36c000 / 0x4000

/-- The plan that `ane_h15_plan_owned_map` leaves: `map_iova[0]` in pages and
`owned_pa`. -/
structure Plan where
  chan : Bool
  base : Nat
  pa : Nat → UInt64

/-- The first page of a segment. -/
def segFirst (seg : Nat) : Nat := if seg = 0 then 0 else textPages

/-- The page after the last one of a segment. -/
def segEnd (seg : Nat) : Nat := if seg = 0 then textPages else imagePages

/-- The translations of a domain, by page. -/
abbrev Table := Nat → Option UInt64

/-- What the driver gives back to the kernel. -/
inductive Event where
  | unmap (page pages : Nat) (complete : Bool)
  | freeDomain
  | freeBuffers
  deriving DecidableEq, Repr

/-- An unmap that did not cover its range. -/
def Event.Incomplete : Event → Prop
  | .unmap _ _ complete => complete = false
  | _ => False

/-- The answers of the kernel.  A `map` of a range of pages may fail at any
call, a read-back may see any address, and an unmap may leave any set of pages
behind. -/
structure Env where
  dmaDomain : Bool
  alloc : Option Errno
  attach : Option Errno
  map : Nat → Table → Nat → Nat → Option Errno
  reads : Nat → UInt64 → UInt64
  stuck : Nat → Option (Nat → Bool)
  /-- `iommu_map` does not map a page that is mapped already. -/
  refuses : ∀ n t page pages, map n t page pages = none → ∀ k < pages, t (page + k) = none

/-- The domain in use, with the flag that guards it. -/
structure Io where
  table : Table
  retained : Bool
  calls : Nat
  trace : List Event

/-- The driver's record, as far as the firmware mapping reads it. -/
structure Ane where
  io : Io
  domain : Bool
  domOwn : Bool
  mapN : Nat
  bufs : Bool
  fwTouched : Bool

/-- The table with a range of pages mapped to consecutive addresses. -/
def Table.mapRange (t : Table) (page : Nat) (pa : UInt64) (pages : Nat) :
    Table := fun p =>
  if page ≤ p ∧ p < page + pages then
    some (pa + UInt64.ofNat (p - page) * pageBytes)
  else t p

/-- The table without the pages of a range that `left` does not keep. -/
def Table.dropRange (t : Table) (page pages : Nat) (left : Nat → Bool) :
    Table := fun p =>
  if page ≤ p ∧ p < page + pages ∧ left p = false then none else t p

/-- `iommu_map`: the whole range or nothing. -/
def iommuMap (env : Env) (io : Io) (page : Nat) (pa : UInt64) (pages : Nat) :
    Except Errno Unit × Io :=
  match env.map io.calls io.table page pages with
  | some e => (.error e, { io with calls := io.calls + 1 })
  | none =>
    (.ok (), { io with
      table := io.table.mapRange page pa pages
      calls := io.calls + 1 })

/-- `iommu_iova_to_phys`. -/
def iovaToPhys (env : Env) (io : Io) (page : Nat) : UInt64 × Io :=
  (env.reads io.calls ((io.table page).getD 0),
    { io with calls := io.calls + 1 })

/-- `ane_h15_unmap_range`. -/
def unmapRange (env : Env) (io : Io) (page pages : Nat) : Bool × Io :=
  if io.retained then (false, io)
  else match env.stuck io.calls with
    | some left =>
      (false, {
        table := io.table.dropRange page pages left
        retained := true
        calls := io.calls + 1
        trace := io.trace ++ [.unmap page pages false] })
    | none =>
      (true, { io with
        table := io.table.dropRange page pages fun _ => false
        calls := io.calls + 1
        trace := io.trace ++ [.unmap page pages true] })

/-! ## Mapping -/

/-- The length of the contiguous run at `off`, in pages. -/
def runLen (pa : Nat → UInt64) (off stop : Nat) : Nat → Nat → Nat
  | 0, len => len
  | fuel + 1, len =>
    if off + len < stop ∧
        pa (off + len) = pa off + UInt64.ofNat len * pageBytes then
      runLen pa off stop fuel (len + 1)
    else len

/-- The loop of `ane_h15_map_owned_segment`.  It also returns the offset it
reached. -/
def mapRuns (env : Env) (plan : Plan) (stop : Nat) :
    Nat → Nat → Io → Except Errno Unit × Nat × Io
  | 0, off, io => (.ok (), off, io)
  | fuel + 1, off, io =>
    if off < stop then
      let len := runLen plan.pa off stop (stop - off) 1
      match iommuMap env io (plan.base + off) (plan.pa off) len with
      | (.error e, io') => (.error e, off, io')
      | (.ok (), io') =>
        if (iovaToPhys env io' (plan.base + off)).1 ≠ plan.pa off then
          (.error .Eio, off + len, (iovaToPhys env io' (plan.base + off)).2)
        else
          mapRuns env plan stop fuel (off + len)
            (iovaToPhys env io' (plan.base + off)).2
    else (.ok (), off, io)

/-- `ane_h15_map_owned_segment`. -/
def mapOwnedSegment (env : Env) (plan : Plan) (seg : Nat) (io : Io) :
    Except Errno Unit × Io :=
  let first := segFirst seg
  match mapRuns env plan (segEnd seg) (segEnd seg - first) first io with
  | (.ok (), _, io') => (.ok (), io')
  | (.error e, off, io') =>
    if first < off then
      (.error e, (unmapRange env io' (plan.base + first) (off - first)).2)
    else (.error e, io')

/-- The loop of `ane_h15_unmap_firmware` over the mapped segments. -/
def unmapSegments (env : Env) (plan : Plan) : List Nat → Io → Bool × Io
  | [], io => (true, io)
  | seg :: segs, io =>
    match unmapRange env io (plan.base + segFirst seg)
        (segEnd seg - segFirst seg) with
    | (false, io') => (false, io')
    | (true, io') => unmapSegments env plan segs io'

/-- `iommu_domain_free`. -/
def Io.freeDomain (io : Io) : Io :=
  { io with table := fun _ => none, trace := io.trace ++ [.freeDomain] }

/-- `ane_h15_unmap_firmware`. -/
def unmapFirmware (env : Env) (plan : Plan) (ane : Ane) : Ane :=
  if !ane.domain || ane.io.retained then ane
  else match unmapSegments env plan (List.range ane.mapN) ane.io with
    | (false, io) => { ane with io := io }
    | (true, io) =>
      { ane with
        io := if ane.domOwn then io.freeDomain else io
        mapN := 0
        domain := false
        domOwn := false }

/-- The loop of `ane_h15_map_firmware` over the segments. -/
def mapSegments (env : Env) (plan : Plan) :
    List Nat → Ane → Except Errno Unit × Ane
  | [], ane => (.ok (), ane)
  | seg :: segs, ane =>
    match mapOwnedSegment env plan seg ane.io with
    | (.ok (), io) =>
      mapSegments env plan segs { ane with io := io, mapN := seg + 1 }
    | (.error e, io) =>
      (.error e, unmapFirmware env plan { ane with io := io })

/-- `ane_h15_map_firmware` for the owned image. -/
def mapFirmware (env : Env) (plan : Plan) (ane : Ane) :
    Except Errno Unit × Ane :=
  if plan.chan then
    if env.dmaDomain then
      mapSegments env plan [0, 1] { ane with domOwn := false, domain := true }
    else (.error .ENODEV, ane)
  else match env.alloc with
    | some e => (.error e, ane)
    | none => match env.attach with
      | some e => (.error e, { ane with io := ane.io.freeDomain })
      | none =>
        mapSegments env plan [0, 1]
          { ane with
            io := { ane.io with table := fun _ => none }
            domOwn := true
            domain := true }

/-! ## Cleanup -/

/-- `ane_h15_hs_free`. -/
def hsFree (ane : Ane) : Ane :=
  if ane.bufs then
    { ane with
      bufs := false
      io := { ane.io with trace := ane.io.trace ++ [.freeBuffers] } }
  else ane

/-- The places of the driver that release the mapping or the buffers, and the
release of the core that `ane_h15_remove` asks about. -/
inductive Cleanup where
  | bail
  | touch
  | runEnd
  | probeEnd (failed : Bool)
  | remove
  deriving DecidableEq, Repr

/-- One cleanup path.  `bail` is an early exit of `ane_h15_run_common`, and
`runEnd` is its end once the core has stopped. -/
def cleanup (env : Env) (plan : Plan) (ane : Ane) : Cleanup → Ane
  | .bail => unmapFirmware env plan { ane with fwTouched := false }
  | .touch => { ane with fwTouched := true }
  | .runEnd =>
    let ane := unmapFirmware env plan { ane with fwTouched := false }
    if ane.io.retained then ane else hsFree ane
  | .probeEnd failed =>
    if ane.io.retained then ane else if failed then hsFree ane else ane
  | .remove =>
    if ane.fwTouched || ane.io.retained then ane else hsFree ane

/-- A sequence of cleanup paths. -/
def cleanups (env : Env) (plan : Plan) (ane : Ane) (acts : List Cleanup) :
    Ane :=
  acts.foldl (cleanup env plan) ane

/-- The record when the probe maps the firmware.  `t` is the table of the
default DMA domain, and a private domain does not exist yet. -/
def probed (plan : Plan) (t : Table) : Ane where
  io := {
    table := if plan.chan then t else fun _ => none
    retained := false
    calls := 0
    trace := [] }
  domain := false
  domOwn := false
  mapN := 0
  bufs := true
  fwTouched := false

/-! ## The runs of a segment -/

/-- The table with the pages `lo` to `hi` of the image in place. -/
def Table.image (t : Table) (plan : Plan) (lo hi : Nat) : Table := fun p =>
  if plan.base + lo ≤ p ∧ p < plan.base + hi then
    some (plan.pa (p - plan.base))
  else t p

/-- No page from `lo` to `hi` of the image has a translation. -/
def Table.Free (t : Table) (plan : Plan) (lo hi : Nat) : Prop :=
  ∀ p, plan.base + lo ≤ p → p < plan.base + hi → t p = none

theorem Table.image_self (t : Table) (plan : Plan) (lo : Nat) : t.image plan lo lo = t := by
  funext p
  unfold Table.image
  rw [if_neg (by omega)]

/-- Two neighbouring parts of the image are one part. -/
theorem Table.image_image (t : Table) (plan : Plan) {lo mid hi : Nat}
    (h1 : lo ≤ mid) (h2 : mid ≤ hi) :
    (t.image plan lo mid).image plan mid hi = t.image plan lo hi := by
  funext p
  unfold Table.image
  by_cases hmid : plan.base + mid ≤ p ∧ p < plan.base + hi
  · rw [if_pos hmid, if_pos (by omega)]
  · rw [if_neg hmid]
    by_cases hlo : plan.base + lo ≤ p ∧ p < plan.base + mid
    · rw [if_pos hlo, if_pos (by omega)]
    · rw [if_neg hlo, if_neg (by omega)]

variable {t : Table} {plan : Plan} {off : Nat} {io : Io} {ane : Ane}

/-- Dropping the part again gives the table back, if it was free there. -/
theorem Table.dropRange_image {lo hi : Nat} (hle : lo ≤ hi) (hfree : t.Free plan lo hi) :
    (t.image plan lo hi).dropRange (plan.base + lo) (hi - lo) (fun _ => false) = t := by
  funext p
  unfold Table.dropRange Table.image
  by_cases hp : plan.base + lo ≤ p ∧ p < plan.base + hi
  · rw [if_pos ⟨hp.1, by omega, rfl⟩, hfree p hp.1 hp.2]
  · rw [if_neg (by omega), if_neg hp]

/-- The pages of a run follow each other in memory, and the run stays inside
the segment. -/
theorem runLen_run (pa : Nat → UInt64) (off stop : Nat) : ∀ fuel len, 1 ≤ len → off + len ≤ stop →
      (∀ k < len, pa (off + k) = pa off + UInt64.ofNat k * pageBytes) →
      1 ≤ runLen pa off stop fuel len ∧ off + runLen pa off stop fuel len ≤ stop ∧
        ∀ k < runLen pa off stop fuel len, pa (off + k) = pa off + UInt64.ofNat k * pageBytes := by
  intro fuel
  induction fuel with
  | zero => intro len h1 hle hrun; exact ⟨h1, hle, hrun⟩
  | succ fuel ih =>
    intro len h1 hle hrun
    unfold runLen
    by_cases hnext : off + len < stop ∧ pa (off + len) = pa off + UInt64.ofNat len * pageBytes
    · rw [if_pos hnext]
      refine ih (len + 1) (by omega) (by omega) fun k hk => ?_
      rcases Nat.lt_succ_iff_lt_or_eq.mp hk with hk | rfl
      · exact hrun k hk
      · exact hnext.2
    · rw [if_neg hnext]
      exact ⟨h1, hle, hrun⟩

/-- A run starts with its first page. -/
theorem runLen_start (pa : Nat → UInt64) {stop : Nat} (h : off < stop) :
    1 ≤ runLen pa off stop (stop - off) 1 ∧ off + runLen pa off stop (stop - off) 1 ≤ stop ∧
      ∀ k < runLen pa off stop (stop - off) 1,
        pa (off + k) = pa off + UInt64.ofNat k * pageBytes := by
  refine runLen_run pa off stop _ 1 (Nat.le_refl 1) h fun k hk => ?_
  obtain rfl : k = 0 := by omega
  simp

/-- Mapping a run puts the pages of the image in place. -/
theorem Table.mapRange_image (t : Table) (plan : Plan) {len : Nat}
    (hrun : ∀ k < len, plan.pa (off + k) = plan.pa off + UInt64.ofNat k * pageBytes) :
    t.mapRange (plan.base + off) (plan.pa off) len = t.image plan off (off + len) := by
  funext p
  unfold Table.mapRange Table.image
  by_cases hp : plan.base + off ≤ p ∧ p < plan.base + off + len
  · rw [if_pos hp, if_pos ⟨hp.1, by omega⟩,
      ← hrun (p - (plan.base + off)) (by omega)]
    congr 2
    omega
  · rw [if_neg hp, if_neg (by omega)]

/-- What a map and a read-back leave alone. -/
structure Io.Keeps (io io' : Io) : Prop where
  retained : io'.retained = io.retained
  trace : io'.trace = io.trace

theorem Io.Keeps.trans {a b c : Io} (h : a.Keeps b) (h' : b.Keeps c) : a.Keeps c :=
  ⟨h'.retained.trans h.retained, h'.trace.trans h.trace⟩

/-- The two outcomes of `iommu_map`. -/
theorem iommuMap_cases (env : Env) (io : Io) (page : Nat) (pa : UInt64) (pages : Nat) :
    (∃ e io', iommuMap env io page pa pages = (.error e, io') ∧
        io'.table = io.table ∧ io.Keeps io') ∨
      ∃ io', iommuMap env io page pa pages = (.ok (), io') ∧
        (∀ k < pages, io.table (page + k) = none) ∧
        io'.table = io.table.mapRange page pa pages ∧ io.Keeps io' := by
  unfold iommuMap
  cases hmap : env.map io.calls io.table page pages with
  | some e => exact .inl ⟨e, _, rfl, rfl, rfl, rfl⟩
  | none => exact .inr ⟨_, rfl, env.refuses _ _ _ _ hmap, rfl, rfl, rfl⟩

/-- What the loop over the runs has done when it is at `off`. -/
structure Placed (plan : Plan) (t : Table) (first off : Nat) (io : Io) :
    Prop where
  le : first ≤ off
  free : t.Free plan first off
  table : io.table = t.image plan first off

/-- A mapped run extends the part that is in place. -/
theorem Placed.extend {first len : Nat} {io' : Io} (h : Placed plan t first off io)
    (hrun : ∀ k < len, plan.pa (off + k) = plan.pa off + UInt64.ofNat k * pageBytes)
    (hfree : ∀ k < len, io.table (plan.base + off + k) = none)
    (htable : io'.table = io.table.mapRange (plan.base + off) (plan.pa off) len) :
    Placed plan t first (off + len) io' := by
  refine ⟨by have := h.le; omega, fun p hlo hhi => ?_, ?_⟩
  · by_cases hp : p < plan.base + off
    · exact h.free p hlo hp
    · have hnone := hfree (p - (plan.base + off)) (by omega)
      rw [h.table, Table.image, if_neg (by omega)] at hnone
      rwa [show plan.base + off + (p - (plan.base + off)) = p by omega] at hnone
  · rw [htable, Table.mapRange_image _ _ hrun, h.table,
      Table.image_image _ _ h.le (by omega)]

/-- The loop over the runs.  Wherever it stops, the runs so far are in place
and nothing else is, and without an error it stops at the end. -/
theorem mapRuns_spec (env : Env) (plan : Plan) (t : Table) {first stop : Nat} :
    ∀ fuel off io, stop - off ≤ fuel → off ≤ stop → Placed plan t first off io →
      ∃ r off' io', mapRuns env plan stop fuel off io = (r, off', io') ∧
        Placed plan t first off' io' ∧ io.Keeps io' ∧
        (r = .ok () → off' = stop) := by
  intro fuel
  induction fuel with
  | zero =>
    intro off io hfuel hle hplaced
    exact ⟨_, _, _, rfl, hplaced, ⟨rfl, rfl⟩, fun _ => by omega⟩
  | succ fuel ih =>
    intro off io hfuel hle hplaced
    by_cases hoff : off < stop
    · obtain ⟨hlen, hend, hrun⟩ := runLen_start plan.pa hoff
      simp only [mapRuns, if_pos hoff]
      generalize runLen plan.pa off stop (stop - off) 1 = len at *
      rcases iommuMap_cases env io (plan.base + off) (plan.pa off) len with
        ⟨e, io', hmap, htable, hkeeps⟩ | ⟨io', hmap, hfree, htable, hkeeps⟩
      · rw [hmap]
        exact ⟨_, _, _, rfl, ⟨hplaced.le, hplaced.free, htable.trans hplaced.table⟩, hkeeps, nofun⟩
      · have hmore := hplaced.extend hrun hfree htable
        have hmore' : Placed plan t first (off + len) (iovaToPhys env io' (plan.base + off)).2 :=
          ⟨hmore.le, hmore.free, hmore.table⟩
        have hkeeps' : io.Keeps (iovaToPhys env io' (plan.base + off)).2 :=
          ⟨hkeeps.retained, hkeeps.trace⟩
        rw [hmap]
        by_cases hread : (iovaToPhys env io' (plan.base + off)).1 ≠ plan.pa off
        · simp only [if_pos hread]
          exact ⟨_, _, _, rfl, hmore', hkeeps', nofun⟩
        · simp only [if_neg hread]
          obtain ⟨r, off', io'', hrest, hplaced', hkeeps'', hok⟩ :=
            ih (off + len) _ (by omega) hend hmore'
          exact ⟨r, off', io'', hrest, hplaced', hkeeps'.trans hkeeps'', hok⟩
    · simp only [mapRuns, if_neg hoff]
      exact ⟨_, _, _, rfl, hplaced, ⟨rfl, rfl⟩, fun _ => by omega⟩

/-! ## Rollback -/

/-- Every unmap so far was complete, and the flag is down. -/
structure Io.Clean (io : Io) : Prop where
  retained : io.retained = false
  trace : ∀ ev ∈ io.trace, ¬ ev.Incomplete

/-- Some unmap was incomplete, and the flag is up. -/
structure Io.Stuck (io : Io) : Prop where
  retained : io.retained = true
  trace : ∃ ev ∈ io.trace, ev.Incomplete

theorem Io.Clean.keeps {io' : Io} (h : io.Clean) (hk : io.Keeps io') : io'.Clean :=
  ⟨hk.retained.trans h.retained, by rw [hk.trace]; exact h.trace⟩

/-- One more event that is not an incomplete unmap. -/
theorem Io.Clean.push (h : io.Clean) {ev : Event} (hev : ¬ ev.Incomplete) :
    ∀ e ∈ io.trace ++ [ev], ¬ e.Incomplete := by
  intro e he
  rcases List.mem_append.mp he with he | he
  · exact h.trace e he
  · rw [List.mem_singleton.mp he]
    exact hev

/-- An unmap with the flag down drops its range or raises the flag. -/
theorem unmapRange_cases (env : Env) (h : io.Clean) (page pages : Nat) :
    (∃ io', unmapRange env io page pages = (true, io') ∧ io'.Clean ∧
        io'.table = io.table.dropRange page pages fun _ => false) ∨
      ∃ io', unmapRange env io page pages = (false, io') ∧ io'.Stuck := by
  unfold unmapRange
  rw [if_neg (by rw [h.retained]; exact Bool.false_ne_true)]
  cases env.stuck io.calls with
  | none =>
    exact .inl ⟨_, rfl, ⟨h.retained, h.push (by simp [Event.Incomplete])⟩, rfl⟩
  | some left =>
    exact .inr ⟨_, rfl, rfl, _, List.mem_append_right _ (List.mem_singleton_self _), rfl⟩

/-- A segment is in place as a whole, or it is not there at all, or an unmap
was incomplete. -/
theorem mapOwnedSegment_cases (env : Env) (plan : Plan) (h : io.Clean)
    {seg : Nat} (hseg : segFirst seg ≤ segEnd seg) :
    (∃ io', mapOwnedSegment env plan seg io = (.ok (), io') ∧ io'.Clean ∧
        io.table.Free plan (segFirst seg) (segEnd seg) ∧
        io'.table = io.table.image plan (segFirst seg) (segEnd seg)) ∨
      ∃ e io', mapOwnedSegment env plan seg io = (.error e, io') ∧
        (io'.Clean ∧ io'.table = io.table ∨ io'.Stuck) := by
  have hstart : Placed plan io.table (segFirst seg) (segFirst seg) io :=
    ⟨le_rfl, fun p _ _ => by omega, (Table.image_self _ _ _).symm⟩
  obtain ⟨r, off, io', hruns, hplaced, hkeeps, hok⟩ :=
    mapRuns_spec env plan io.table _ _ io le_rfl hseg hstart
  have hclean := h.keeps hkeeps
  unfold mapOwnedSegment
  simp only [hruns]
  cases r with
  | ok u =>
    obtain rfl := hok rfl
    exact .inl ⟨io', rfl, hclean, hplaced.free, hplaced.table⟩
  | error e =>
    refine .inr ⟨e, ?_⟩
    by_cases hoff : segFirst seg < off
    · simp only [if_pos hoff]
      rcases unmapRange_cases env hclean (plan.base + segFirst seg) (off - segFirst seg) with
        ⟨io'', hun, hclean', htable⟩ | ⟨io'', hun, hstuck⟩
      · rw [hun]
        refine ⟨_, rfl, .inl ⟨hclean', ?_⟩⟩
        rw [htable, hplaced.table, Table.dropRange_image hplaced.le hplaced.free]
      · rw [hun]
        exact ⟨_, rfl, .inr hstuck⟩
    · simp only [if_neg hoff]
      refine ⟨_, rfl, .inl ⟨hclean, ?_⟩⟩
      obtain rfl : off = segFirst seg := by have := hplaced.le; omega
      rw [hplaced.table, Table.image_self]

/-- The unmap loop keeps to the flag. -/
theorem unmapSegments_cases (env : Env) (plan : Plan) (segs : List Nat) :
    ∀ {io : Io}, io.Clean → (∃ io', unmapSegments env plan segs io = (true, io') ∧ io'.Clean) ∨
        ∃ io', unmapSegments env plan segs io = (false, io') ∧ io'.Stuck := by
  induction segs with
  | nil => intro io h; exact .inl ⟨io, rfl, h⟩
  | cons seg segs ih =>
    intro io h
    rcases unmapRange_cases env h (plan.base + segFirst seg) (segEnd seg - segFirst seg) with
      ⟨io', hun, hclean, _⟩ | ⟨io', hun, hstuck⟩
    · simp only [unmapSegments, hun]
      exact ih hclean
    · simp only [unmapSegments, hun]
      exact .inr ⟨io', rfl, hstuck⟩

theorem Io.Clean.freeDomain (h : io.Clean) : io.freeDomain.Clean :=
  ⟨h.retained, h.push (by simp [Event.Incomplete])⟩

/-- `ane_h15_unmap_firmware` leaves the flag and the trace in step. -/
theorem unmapFirmware_clean (env : Env) (plan : Plan) (h : ane.io.Clean) :
    (unmapFirmware env plan ane).io.Clean ∨ (unmapFirmware env plan ane).io.Stuck := by
  unfold unmapFirmware
  split
  · exact .inl h
  · rcases unmapSegments_cases env plan (List.range ane.mapN) h with
      ⟨io', hun, hclean⟩ | ⟨io', hun, hstuck⟩
    · rw [hun]
      refine .inl ?_
      show (if ane.domOwn then io'.freeDomain else io').Clean
      split
      · exact hclean.freeDomain
      · exact hclean
    · rw [hun]
      exact .inr hstuck

/-- With the flag up `ane_h15_unmap_firmware` does nothing. -/
theorem unmapFirmware_stuck (env : Env) (plan : Plan)
    (h : ane.io.retained = true) : unmapFirmware env plan ane = ane := by
  unfold unmapFirmware
  rw [if_pos (by simp [h])]

/-- The first `n` segments are in place over the table `t`.  A private domain
started empty. -/
structure Held (plan : Plan) (t : Table) (n : Nat) (ane : Ane) : Prop where
  domain : ane.domain = true
  mapN : ane.mapN = n
  clean : ane.io.Clean
  free : t.Free plan 0 (segFirst n)
  table : ane.io.table = t.image plan 0 (segFirst n)
  own : ane.domOwn = true → t = fun _ => none

/-- The table after the last step of `ane_h15_unmap_firmware`. -/
theorem release_table {own : Bool} (htable : io.table = t) (hown : own = true → t = fun _ => none) :
    (if own then io.freeDomain else io).table = t := by
  cases own with
  | false => exact htable
  | true => exact (hown rfl).symm

/-- `ane_h15_unmap_firmware` takes the segments out of the table again. -/
theorem unmapFirmware_undo (env : Env) {n : Nat} (hn : n < 2) (h : Held plan t n ane) :
    (unmapFirmware env plan ane).io.table = t ∨ (unmapFirmware env plan ane).io.Stuck := by
  unfold unmapFirmware
  rw [if_neg (by simp [h.domain, h.clean.retained]), h.mapN]
  obtain rfl | rfl : n = 0 ∨ n = 1 := by omega
  · refine .inl (release_table ?_ h.own)
    rw [h.table]
    exact Table.image_self _ _ _
  · simp only [List.range_one, unmapSegments]
    rcases unmapRange_cases env h.clean (plan.base + segFirst 0) (segEnd 0 - segFirst 0) with
      ⟨io', hun, -, htable⟩ | ⟨io', hun, hstuck⟩
    · rw [hun]
      refine .inl (release_table ?_ h.own)
      rw [htable, h.table]
      exact Table.dropRange_image (Nat.zero_le _) h.free
    · rw [hun]
      exact .inr hstuck

/-- One segment of the loop in `ane_h15_map_firmware`. -/
theorem mapSegments_step (env : Env) {n : Nat} (hn : n < 2)
    (h : Held plan t n ane) (segs : List Nat) :
    (∃ ane', mapSegments env plan (n :: segs) ane = mapSegments env plan segs ane' ∧
        ane'.io.Clean ∧ t.Free plan 0 (segEnd n) ∧
        ane'.io.table = t.image plan 0 (segEnd n) ∧
        ane'.domain = true ∧ ane'.mapN = n + 1 ∧ ane'.domOwn = ane.domOwn) ∨
      ∃ e ane', mapSegments env plan (n :: segs) ane = (.error e, ane') ∧
        (ane'.io.Clean ∧ ane'.io.table = t ∨ ane'.io.Stuck) := by
  have hseg : segFirst n ≤ segEnd n := by
    unfold segFirst segEnd
    split <;> decide
  rcases mapOwnedSegment_cases env plan h.clean hseg with
    ⟨io', hmap, hclean, hfree, htable⟩ | ⟨e, io', hmap, hout⟩
  · refine .inl ⟨{ ane with io := io', mapN := n + 1 },
      by simp only [mapSegments, hmap], hclean, fun p hlo hhi => ?_, ?_,
      h.domain, rfl, rfl⟩
    · by_cases hp : p < plan.base + segFirst n
      · exact h.free p hlo hp
      · have hnone := hfree p (Nat.not_lt.mp hp) hhi
        rwa [h.table, Table.image, if_neg (by omega)] at hnone
    · show io'.table = _
      rw [htable, h.table, Table.image_image _ _ (Nat.zero_le _) hseg]
  · refine .inr ⟨e, unmapFirmware env plan { ane with io := io' },
      by simp only [mapSegments, hmap], ?_⟩
    rcases hout with ⟨hclean, htable⟩ | hstuck
    · have hheld : Held plan t n { ane with io := io' } :=
        ⟨h.domain, h.mapN, hclean, h.free, htable.trans h.table, h.own⟩
      rcases unmapFirmware_undo env hn hheld with hback | hstuck
      · rcases unmapFirmware_clean env plan hheld.clean with hclean' | hstuck
        · exact .inl ⟨hclean', hback⟩
        · exact .inr hstuck
      · exact .inr hstuck
    · rw [unmapFirmware_stuck env plan hstuck.retained]
      exact .inr hstuck

/-- What `ane_h15_map_firmware` leaves over the table `t`: both segments, the
table as it was, or a raised flag. -/
inductive Mapped (plan : Plan) (t : Table) :
    Except Errno Unit × Ane → Prop where
  | all {ane : Ane} (clean : ane.io.Clean)
      (table : ane.io.table = t.image plan 0 imagePages) :
      Mapped plan t (.ok (), ane)
  | nothing {e : Errno} {ane : Ane} (clean : ane.io.Clean)
      (table : ane.io.table = t) : Mapped plan t (.error e, ane)
  | stuck {e : Errno} {ane : Ane} (stuck : ane.io.Stuck) :
      Mapped plan t (.error e, ane)

/-- Both segments. -/
theorem mapSegments_mapped (env : Env) (h : Held plan t 0 ane) :
    Mapped plan t (mapSegments env plan [0, 1] ane) := by
  rcases mapSegments_step env (by decide) h [1] with
    ⟨ane', heq, hclean, hfree, htable, hdom, hn, hown⟩ | ⟨e, ane', heq, hout⟩
  · have hheld : Held plan t 1 ane' :=
      ⟨hdom, hn, hclean, hfree, htable, fun ho => h.own (hown.symm.trans ho)⟩
    rw [heq]
    rcases mapSegments_step env (by decide) hheld [] with
      ⟨ane'', heq', hclean', -, htable', -⟩ | ⟨e, ane'', heq', hout⟩
    · rw [heq']
      exact .all hclean' htable'
    · rw [heq']
      rcases hout with ⟨hclean', htable'⟩ | hstuck
      · exact .nothing hclean' htable'
      · exact .stuck hstuck
  · rw [heq]
    rcases hout with ⟨hclean, htable⟩ | hstuck
    · exact .nothing hclean htable
    · exact .stuck hstuck

theorem probed_clean (plan : Plan) (t : Table) : (probed plan t).io.Clean :=
  ⟨rfl, fun _ he => absurd he List.not_mem_nil⟩

/-- The whole of `ane_h15_map_firmware`. -/
theorem mapFirmware_mapped (env : Env) (plan : Plan) (t : Table) :
    Mapped plan (probed plan t).io.table (mapFirmware env plan (probed plan t)) := by
  have hclean := probed_clean plan t
  have hnone : plan.chan = false →
      (probed plan t).io.table = fun _ => none := by
    intro hchan
    simp [probed, hchan]
  have hfree : (probed plan t).io.table.Free plan 0 (segFirst 0) :=
    fun p hlo hhi => absurd hhi (by simpa [segFirst] using hlo)
  have htable := (Table.image_self (probed plan t).io.table plan 0).symm
  unfold mapFirmware
  cases hchan : plan.chan with
  | true =>
    simp only [if_true]
    split
    · exact mapSegments_mapped env ⟨rfl, rfl, hclean, hfree, htable, nofun⟩
    · exact .nothing hclean rfl
  | false =>
    have hempty := hnone hchan
    simp only [Bool.false_eq_true, if_false]
    cases env.alloc with
    | some e => exact .nothing hclean rfl
    | none =>
      cases env.attach with
      | some e => exact .nothing hclean.freeDomain hempty.symm
      | none =>
        refine mapSegments_mapped env
          ⟨rfl, rfl, ⟨hclean.retained, hclean.trace⟩, hfree, ?_, fun _ => hempty⟩
        exact hempty.symm.trans htable

/-! ## After the mapping -/

theorem hsFree_clean (h : ane.io.Clean) : (hsFree ane).io.Clean := by
  unfold hsFree
  split
  · exact ⟨h.retained, h.push (by simp [Event.Incomplete])⟩
  · exact h

/-- The domain, its table, the record of what was given back and the buffers
are the same. -/
structure Ane.Keeps (ane ane' : Ane) : Prop where
  io : ane'.io = ane.io
  domain : ane'.domain = ane.domain
  bufs : ane'.bufs = ane.bufs

/-- With the flag up no cleanup path gives anything back. -/
theorem cleanup_keeps (env : Env) (plan : Plan) (h : ane.io.retained = true) (act : Cleanup) :
    ane.Keeps (cleanup env plan ane act) := by
  have hun : unmapFirmware env plan { ane with fwTouched := false } =
      { ane with fwTouched := false } := unmapFirmware_stuck env plan h
  cases act with
  | bail =>
    simp only [cleanup, hun]
    exact ⟨rfl, rfl, rfl⟩
  | touch => exact ⟨rfl, rfl, rfl⟩
  | runEnd =>
    simp only [cleanup, hun, if_pos h]
    exact ⟨rfl, rfl, rfl⟩
  | probeEnd failed =>
    simp only [cleanup, if_pos h]
    exact ⟨rfl, rfl, rfl⟩
  | remove =>
    simp only [cleanup, h, Bool.or_true, if_true]
    exact ⟨rfl, rfl, rfl⟩

/-- So no sequence of them does. -/
theorem cleanups_keep (env : Env) (plan : Plan) (acts : List Cleanup) :
    ∀ {ane : Ane}, ane.io.retained = true → ane.Keeps (cleanups env plan ane acts) := by
  induction acts with
  | nil => intro ane _; exact ⟨rfl, rfl, rfl⟩
  | cons act acts ih =>
    intro ane h
    have hone := cleanup_keeps env plan h act
    have hrest := ih (by rw [hone.io]; exact h)
    exact ⟨hrest.io.trans hone.io, hrest.domain.trans hone.domain, hrest.bufs.trans hone.bufs⟩

/-- A cleanup path keeps the flag and the trace in step. -/
theorem cleanup_inStep (env : Env) (plan : Plan) (h : ane.io.Clean ∨ ane.io.Stuck) (act : Cleanup) :
    (cleanup env plan ane act).io.Clean ∨ (cleanup env plan ane act).io.Stuck := by
  rcases h with h | h
  · cases act with
    | bail =>
      exact unmapFirmware_clean env plan
        (show ({ ane with fwTouched := false } : Ane).io.Clean from h)
    | touch => exact .inl h
    | runEnd =>
      simp only [cleanup]
      split
      · exact unmapFirmware_clean env plan h
      · next hflag =>
        rcases unmapFirmware_clean env plan
            (show ({ ane with fwTouched := false } : Ane).io.Clean from h) with
          hclean | hstuck
        · exact .inl (hsFree_clean hclean)
        · exact absurd hstuck.retained hflag
    | probeEnd failed =>
      simp only [cleanup, h.retained, Bool.false_eq_true, if_false]
      split
      · exact .inl (hsFree_clean h)
      · exact .inl h
    | remove =>
      simp only [cleanup]
      split
      · exact .inl h
      · exact .inl (hsFree_clean h)
  · rw [(cleanup_keeps env plan h.retained act).io]
    exact .inr h

theorem cleanups_inStep (env : Env) (plan : Plan) (acts : List Cleanup) :
    ∀ {ane : Ane}, ane.io.Clean ∨ ane.io.Stuck → (cleanups env plan ane acts).io.Clean ∨
        (cleanups env plan ane acts).io.Stuck := by
  induction acts with
  | nil => intro ane h; exact h
  | cons act acts ih => intro ane h; exact ih (cleanup_inStep env plan h act)

/-- The flag is up exactly when some unmap was incomplete. -/
theorem Io.retained_iff (h : io.Clean ∨ io.Stuck) :
    io.retained = true ↔ ∃ ev ∈ io.trace, ev.Incomplete := by
  rcases h with h | h
  · refine ⟨fun hr => absurd (h.retained.symm.trans hr) nofun, ?_⟩
    rintro ⟨ev, hev, hinc⟩
    exact absurd hinc (h.trace ev hev)
  · exact ⟨fun _ => h.trace, fun _ => h.retained⟩

theorem Mapped.inStep {out : Except Errno Unit × Ane} (h : Mapped plan t out) :
    out.2.io.Clean ∨ out.2.io.Stuck := by
  cases h with
  | all clean _ => exact .inl clean
  | nothing clean _ => exact .inl clean
  | stuck stuck => exact .inr stuck

/-- Mapping the owned firmware is all or nothing, for every list of page
addresses and every answer of the IOMMU.  Success maps every page of the image
to its own physical page.  Failure leaves the table as it was before the call,
or some unmap was incomplete.  In the second case the flag is up.  After any
cleanup paths the flag is up exactly when an unmap was incomplete, and from
then on no further paths change the table, the domain, the buffers or the
record of what was unmapped and freed. -/
theorem mapFirmware_allOrNothing (env : Env) (plan : Plan) (t : Table) :
    ((mapFirmware env plan (probed plan t)).1 = .ok () → ∀ p < imagePages,
        (mapFirmware env plan (probed plan t)).2.io.table (plan.base + p) = some (plan.pa p)) ∧
    (∀ e, (mapFirmware env plan (probed plan t)).1 = .error e →
      (mapFirmware env plan (probed plan t)).2.io.table = (probed plan t).io.table ∨
        ∃ ev ∈ (mapFirmware env plan (probed plan t)).2.io.trace, ev.Incomplete) ∧
    ∀ acts : List Cleanup,
      let ane := cleanups env plan (mapFirmware env plan (probed plan t)).2 acts
      (ane.io.retained = true ↔ ∃ ev ∈ ane.io.trace, ev.Incomplete) ∧
      (ane.io.retained = true →
        ∀ more : List Cleanup, ane.Keeps (cleanups env plan ane more)) := by
  have hmapped := mapFirmware_mapped env plan t
  generalize mapFirmware env plan (probed plan t) = out at *
  refine ⟨?_, ?_, fun acts => ⟨?_, fun hret more => ?_⟩⟩
  · intro hok p hp
    cases hmapped with
    | all _ table =>
      rw [table, Table.image, if_pos (by omega)]
      rw [Nat.add_sub_cancel_left]
    | nothing _ _ => cases hok
    | stuck _ => cases hok
  · intro e herr
    cases hmapped with
    | all _ _ => cases herr
    | nothing _ table => exact .inl table
    | stuck stuck => exact .inr stuck.trace
  · exact Io.retained_iff (cleanups_inStep env plan acts hmapped.inStep)
  · exact cleanups_keep env plan more hret

end OmarchyAne.H15.FwMap
