import OmarchyAne.T6021.FwImage

/-!
# Where the validator stays inside

Every read of the validator is inside the blob.  Its cursor and its writes are
not safe for all bytes.  A size of a load command may be so large that the sum
with the cursor wraps into the area of the commands, and then the cursor goes
back (`Wraps`).  And the number of segments is compared with 2 behind the loop
only, so a third segment command that fits the image is written behind the end
of the segments.

`Robust` says that a blob has neither.  It speaks of the commands as they lie in
the blob (`commandsAt`), and of those that the validator accepts (`Accepted`).
`fwValidateBlob_safe_iff` is the result.
-/

namespace OmarchyAne.T6021

open Lib Traced List

/-! ## The format -/

section Format

variable (blob : Mem) (fw : FwImage)

/-- The kind of the command at an offset. -/
def cmdAt (off : Nat) : Nat := peekLe blob off 4

/-- The size of the command at an offset. -/
def cmdSizeAt (off : Nat) : Nat := peekLe blob (off + 4) 4

/-- The segment command at an offset is one of the pinned image. -/
def Pinned (off : Nat) : Prop :=
  ∃ s ∈ fw.segs,
    peekLe blob (off + 24) 8 = s.vmaddr ∧ peekLe blob (off + 32) 8 = s.vmsize ∧
    peekLe blob (off + 40) 8 = s.fileoff ∧
    peekLe blob (off + 48) 8 = s.filesize ∧ peek blob (off + 8) 16 = s.name ∧
    s.fileoff ≤ fw.size ∧ s.filesize ≤ fw.size - s.fileoff ∧
    s.filesize ≤ s.vmsize

/-- The states of a thread command from `p` on: a flavor, a count of words and
the words. -/
inductive Threads (stop : Nat) : Nat → Prop where
  | done {p : Nat} (h : stop < p + 8) : Threads stop p
  | next {p : Nat} (h : p + 8 + peekLe blob (p + 4) 4 * 4 ≤ stop)
      (hpc : peekLe blob p 4 = armThreadState → 66 ≤ peekLe blob (p + 4) 4)
      (hrest : Threads stop (p + (8 + peekLe blob (p + 4) 4 * 4))) :
      Threads stop p

/-- A load command in the area, with a body that the image may have. -/
structure Accepted (off : Nat) : Prop where
  header : off + 8 ≤ fwArea
  size : 8 ≤ cmdSizeAt blob off
  inside : off + cmdSizeAt blob off ≤ fwArea
  segment : cmdAt blob off = lcSegment → Pinned blob fw off
  threads : cmdAt blob off = lcUnixthread →
    Threads blob (off + cmdSizeAt blob off) (off + 8)

/-- A load command whose end wraps into the area. -/
structure Wraps (off : Nat) : Prop where
  header : off + 8 ≤ fwArea
  beyond : 2 ^ 32 ≤ off + cmdSizeAt blob off
  back : off + cmdSizeAt blob off ≤ 2 ^ 32 + fwArea
  segment : cmdAt blob off = lcSegment → Pinned blob fw off

/-- The offsets of `n` commands, each behind the one before. -/
def commandsAt : Nat → Nat → List Nat
  | 0, _ => []
  | n + 1, off => off :: commandsAt n (off + cmdSizeAt blob off)

/-- How many of the commands are segment commands. -/
def segCount (offs : List Nat) : Nat :=
  offs.countP fun off => cmdAt blob off == lcSegment

/-- Behind accepted commands, no command wraps, and at most two of the accepted
are segment commands if the segments are written. -/
def RobustFrom (segsOut : Bool) (n off nsegs : Nat) : Prop :=
  ∀ before at_ after, commandsAt blob n off = before ++ at_ :: after →
    (∀ o ∈ before, Accepted blob fw o) →
    ¬ Wraps blob fw at_ ∧
      (segsOut = true → Accepted blob fw at_ → cmdAt blob at_ = lcSegment →
        nsegs + segCount blob before < fwNsegs)

/-- The header is that of the image. -/
structure FwHeader : Prop where
  magic : peekLe blob 0 4 = 0xfeedfacf
  cputype : peekLe blob 4 4 = 0x0100000c
  filetype : peekLe blob 12 4 = 5
  ncmds : peekLe blob 16 4 = fwNcmds
  sizeofcmds : peekLe blob 20 4 = fwSizeofCmds
  flags : peekLe blob 24 4 = 1

/-- The blob has no command that the validator follows out of bounds. -/
def Robust (segsOut : Bool) : Prop :=
  FwHeader blob → RobustFrom blob fw segsOut fwNcmds 32 0

end Format

/-- What an event may do. -/
def FwSafe (size : Nat) : FwEv → Prop
  | .read off n => off + n ≤ size
  | .write idx _ => idx < fwNsegs
  | .cursor off next => off < next ∧ next ≤ fwArea

/-! ## The bodies of the commands -/

section Bodies

variable {blob : Mem} {fw : FwImage} {off size n : Nat} {α : Type} {nsegs : Nat}

theorem fwRead_all : (fwRead blob off n).All (FwSafe size) ↔ off + n ≤ size := by
  simp [fwRead, all_bind, FwSafe]

@[simp] theorem fwRead_res (blob : Mem) (off n : Nat) :
    (fwRead blob off n).res = .ok (peekLe blob off n) := rfl

/-- What follows a read that is inside. -/
theorem fwRead_bind_all {f : Nat → FwM α} (hin : off + n ≤ size) :
    (fwRead blob off n >>= f).All (FwSafe size) ↔ (f (peekLe blob off n)).All (FwSafe size) := by
  rw [all_bind, fwRead_all, fwRead_res, and_iff_right hin]
  simp

@[simp] theorem fwRead_bind_res (f : Nat → FwM α) :
    (fwRead blob off n >>= f).res = (f (peekLe blob off n)).res := by
  rw [fwRead]
  rfl

theorem findSeg_all {a b c d : Nat} (hin : off + 24 ≤ size) (segs : List FwSeg) :
    (findSeg blob off a b c d segs).All (FwSafe size) := by
  induction segs with
  | nil => exact all_pure _
  | cons s segs ih =>
    rw [findSeg]
    split
    · rw [all_bind, all_emit]
      refine ⟨show off + 8 + 16 ≤ size by omega, ?_⟩
      intro _ _
      split
      · exact all_pure _
      · exact ih
    · exact ih

/-- The search always ends with a result. -/
theorem findSeg_res (a b c d : Nat) (segs : List FwSeg) :
    ∃ found, (findSeg blob off a b c d segs).res = .ok found ∧
      (found.isSome ↔ ∃ s ∈ segs, a = s.vmaddr ∧ b = s.vmsize ∧
        c = s.fileoff ∧ d = s.filesize ∧ peek blob (off + 8) 16 = s.name) := by
  induction segs with
  | nil => exact ⟨none, rfl, by simp⟩
  | cons s segs ih =>
    obtain ⟨found, hfound, hiff⟩ := ih
    rw [findSeg]
    split
    next hsame =>
      obtain ⟨ha, hb, hc, hd⟩ := hsame
      by_cases hname : peek blob (off + 8) 16 = s.name
      · refine ⟨some s, ?_, ?_⟩
        · rw [if_pos hname]
          rfl
        · exact ⟨fun _ => ⟨s, mem_cons_self, ha, hb, hc, hd, hname⟩, fun _ => rfl⟩
      · refine ⟨found, ?_, ?_⟩
        · rw [if_neg hname]
          exact hfound
        · rw [hiff]
          simp [hname]
    next hother =>
      refine ⟨found, hfound, ?_⟩
      rw [hiff, exists_mem_cons_iff, or_iff_right]
      intro ⟨ha, hb, hc, hd, _⟩
      exact hother ⟨ha, hb, hc, hd⟩

/-- The computation stops, and what it did is safe. -/
def Stops {α : Type} (size : Nat) (x : FwM α) : Prop :=
  (∀ v, x.res ≠ .ok v) ∧ x.All (FwSafe size)

theorem stops_refuse (text : String) : Stops size (fwRefuse text : FwM α) :=
  ⟨fun _ h => (nomatch h), all_fail _⟩

theorem Stops.bind {β : Type} {x : FwM α} (h : Stops size x) (f : α → FwM β) :
    Stops size (x >>= f) := by
  refine ⟨?_, ?_⟩
  · intro v hv
    obtain ⟨a, ha, -⟩ := res_bind_eq_ok.1 hv
    exact h.1 a ha
  · exact all_bind.2 ⟨h.2, fun a ha => absurd ha (h.1 a)⟩

theorem stops_read_bind {f : Nat → FwM α} (hin : off + n ≤ size)
    (h : Stops size (f (peekLe blob off n))) :
    Stops size (fwRead blob off n >>= f) := by
  refine ⟨?_, (fwRead_bind_all hin).2 h.2⟩
  rw [fwRead_bind_res]
  exact h.1

/-- A segment command that is not of the image. -/
theorem segmentCmd_stops (hin : off + 56 ≤ fw.size) (segsOut : Bool)
    (nsegs : Nat) (hnot : ¬ Pinned blob fw off) :
    Stops fw.size (segmentCmd blob fw segsOut off nsegs) := by
  rw [segmentCmd]
  apply stops_read_bind (by omega)
  apply stops_read_bind (by omega)
  apply stops_read_bind (by omega)
  apply stops_read_bind (by omega)
  split
  · exact stops_refuse _
  next hrange =>
  split
  · exact stops_refuse _
  next hvm =>
  obtain ⟨found, hfound, hiff⟩ := findSeg_res (peekLe blob (off + 24) 8)
    (peekLe blob (off + 32) 8) (peekLe blob (off + 40) 8)
    (peekLe blob (off + 48) 8) fw.segs
  have hnone : found = none := by
    cases found with
    | none => rfl
    | some s =>
      obtain ⟨s, hs, ha, hb, hc, hd, hname⟩ := hiff.1 rfl
      exact absurd ⟨s, hs, ha, hb, hc, hd, hname, by omega, by omega, by omega⟩ hnot
  subst hnone
  refine ⟨?_, all_bind.2 ⟨findSeg_all (by omega) _, ?_⟩⟩
  · intro v hv
    obtain ⟨x, hx, hv⟩ := res_bind_eq_ok.1 hv
    obtain rfl := Except.ok.inj (hfound.symm.trans hx)
    exact nomatch hv
  · intro x hx
    obtain rfl := Except.ok.inj (hfound.symm.trans hx)
    exact all_fail _

/-- A segment command of the image. -/
theorem segmentCmd_pinned (hin : off + 56 ≤ fw.size) (segsOut : Bool)
    (hn : nsegs + 1 < 2 ^ 32) (h : Pinned blob fw off) :
    (segmentCmd blob fw segsOut off nsegs).res = .ok (nsegs + 1) ∧
      ((segmentCmd blob fw segsOut off nsegs).All (FwSafe fw.size) ↔
        (segsOut = true → nsegs < fwNsegs)) := by
  obtain ⟨s, hs, ha, hb, hc, hd, hname, hoff, hsize, hvm⟩ := h
  obtain ⟨found, hfound, hiff⟩ := findSeg_res (peekLe blob (off + 24) 8)
    (peekLe blob (off + 32) 8) (peekLe blob (off + 40) 8)
    (peekLe blob (off + 48) 8) fw.segs
  rw [segmentCmd, fwRead_bind_all (by omega), fwRead_bind_all (by omega),
    fwRead_bind_all (by omega), fwRead_bind_all (by omega), fwRead_bind_res,
    fwRead_bind_res, fwRead_bind_res, fwRead_bind_res, if_neg (by omega),
    if_neg (by omega), Nat.mod_eq_of_lt hn]
  cases found with
  | none => exact absurd (hiff.2 ⟨s, hs, ha, hb, hc, hd, hname⟩) (by simp)
  | some t =>
    constructor
    · apply res_bind_eq_ok.2
      refine ⟨some t, hfound, ?_⟩
      cases segsOut with
      | false => exact res_pure _
      | true => exact res_bind_eq_ok.2 ⟨(), rfl, res_pure _⟩
    · rw [all_bind, and_iff_right (findSeg_all (by omega) _)]
      constructor
      · intro hall hout
        have hwrite := hall (some t) hfound
        simp only [hout, if_true, all_bind, all_emit] at hwrite
        exact hwrite.1
      · intro hlt x hx
        obtain rfl := Except.ok.inj (hfound.symm.trans hx)
        cases segsOut with
        | false => exact all_pure _
        | true =>
          simp only [if_true, all_bind, all_emit]
          exact ⟨hlt rfl, fun _ _ => all_pure _⟩

theorem sub32_eq {a b : Nat} (hle : b ≤ a) (hlt : a < 2 ^ 32) : sub32 a b = a - b := by
  rw [sub32]
  omega

/-- A thread command that does not wrap.  Each turn moves `p` by 8 bytes or
more, so the fuel is enough. -/
theorem threadLoop_spec (blob : Mem) (fw : FwImage) {cmdsize stop : Nat}
    (hstop : off + cmdsize = stop)
    (harea : stop ≤ fwArea) (fuel : Nat) {p : Nat} (hp : off + 8 ≤ p)
    (hle : p ≤ stop) (hfuel : stop < p + fuel) (entry : Nat) :
    (threadLoop blob off cmdsize fuel p entry).All (FwSafe fw.size) ∧
      ((∃ e, (threadLoop blob off cmdsize fuel p entry).res = .ok e) ↔ Threads blob stop p) := by
  have hcovers := fw.covers
  have hend : fwArea = 2432 := rfl
  induction fuel generalizing p entry with
  | zero => omega
  | succ fuel ih =>
    rw [threadLoop, hstop, Nat.mod_eq_of_lt (show stop < 2 ^ 32 by omega),
      Nat.mod_eq_of_lt (show p + 8 < 2 ^ 32 by omega)]
    split
    next hdone =>
      exact ⟨all_pure _, fun _ => .done hdone, fun _ => ⟨entry, rfl⟩⟩
    next hmore =>
    rw [fwRead_bind_all (by omega), fwRead_bind_all (by omega), fwRead_bind_res, fwRead_bind_res]
    obtain ⟨count, hcount⟩ : ∃ n, peekLe blob (p + 4) 4 = n := ⟨_, rfl⟩
    have hroom : sub32 (sub32 cmdsize (sub32 p off)) 8 = stop - p - 8 := by
      rw [sub32_eq (show off ≤ p by omega) (by omega),
        sub32_eq (show p - off ≤ cmdsize by omega) (by omega),
        sub32_eq (by omega) (by omega)]
      omega
    rw [hcount, hroom]
    -- The count that the state has room for keeps every sum below 2^32.
    have hinv : Threads blob stop p ↔ p + 8 + count * 4 ≤ stop ∧
        (peekLe blob p 4 = armThreadState → 66 ≤ count) ∧
        Threads blob stop (p + (8 + count * 4)) := by
      constructor
      · intro h
        cases h with
        | done hdone => exact absurd hdone hmore
        | next hroom hpc hrest =>
          rw [hcount] at hroom hpc hrest
          exact ⟨hroom, hpc, hrest⟩
      · rintro ⟨hroom, hpc, hrest⟩
        rw [← hcount] at hroom hpc hrest
        exact .next hroom hpc hrest
    rw [hinv]
    split
    next hbad =>
      refine ⟨all_fail _, ?_, ?_⟩
      · rintro ⟨e, he⟩
        cases he
      · rintro ⟨hroom, -⟩
        omega
    next hgood =>
    have hfit : p + 8 + count * 4 ≤ stop := by omega
    have hnext : nextThread p count = p + (8 + count * 4) := by
      rw [nextThread, Nat.mod_eq_of_lt (by omega), Nat.mod_eq_of_lt (by omega)]
    rw [hnext, and_iff_right hfit]
    have hrest := fun entry => ih (show off + 8 ≤ p + (8 + count * 4) by omega)
      (show p + (8 + count * 4) ≤ stop by omega)
      (show stop < p + (8 + count * 4) + fuel by omega) entry
    by_cases hflavor : peekLe blob p 4 = armThreadState
    · rw [if_pos hflavor, Nat.mod_eq_of_lt (by omega)]
      split
      next hsmall =>
        refine ⟨all_fail _, ?_, ?_⟩
        · rintro ⟨e, he⟩
          cases he
        · rintro ⟨hpc, -⟩
          have := hpc hflavor
          omega
      next hpc =>
        rw [fwRead_bind_all (by omega), fwRead_bind_res]
        refine ⟨(hrest _).1, (hrest _).2.trans ?_⟩
        exact (and_iff_right fun _ => by omega).symm
    · rw [if_neg hflavor]
      refine ⟨(hrest _).1, (hrest _).2.trans ?_⟩
      exact (and_iff_right fun h => absurd h hflavor).symm

/-- The body of a load command fits the image. -/
def BodyOk (blob : Mem) (fw : FwImage) (off : Nat) : Prop :=
  (cmdAt blob off = lcSegment → Pinned blob fw off) ∧
    (cmdAt blob off = lcUnixthread → Threads blob (off + cmdSizeAt blob off) (off + 8))

/-- What a load command adds to the number of segments. -/
def segsIn (blob : Mem) (off : Nat) : Nat :=
  if cmdAt blob off = lcSegment then 1 else 0

/-- The body of a load command that fits the image. -/
theorem command_ok (segsOut : Bool) (hn : nsegs + 1 < 2 ^ 32) (entry : Nat)
    (hhead : off + 8 ≤ fwArea) (hsize : 8 ≤ cmdSizeAt blob off)
    (hin : off + cmdSizeAt blob off ≤ fwArea) (hbody : BodyOk blob fw off) :
    (∃ e, (command blob fw segsOut off (cmdAt blob off) (cmdSizeAt blob off)
      nsegs entry).res = .ok (nsegs + segsIn blob off, e)) ∧
    ((command blob fw segsOut off (cmdAt blob off) (cmdSizeAt blob off) nsegs
      entry).All (FwSafe fw.size) ↔
        (segsOut = true → cmdAt blob off = lcSegment → nsegs < fwNsegs)) := by
  have hend : fwArea = 2432 := rfl
  have hcovers := fw.covers
  obtain ⟨hpinned, hstates⟩ := hbody
  rw [command, segsIn]
  by_cases hseg : cmdAt blob off = lcSegment
  · rw [if_pos hseg, if_pos hseg]
    obtain ⟨hres, hall⟩ := segmentCmd_pinned
      (show off + 56 ≤ fw.size by omega) segsOut hn (hpinned hseg)
    refine ⟨⟨entry, ?_⟩, ?_⟩
    · rw [res_bind_eq_ok]
      exact ⟨nsegs + 1, hres, res_pure _⟩
    · rw [all_bind, hall]
      exact ⟨fun h hout _ => h.1 hout, fun h => ⟨fun hout => h hout hseg, fun _ _ => all_pure _⟩⟩
  · rw [if_neg hseg, if_neg hseg]
    refine and_comm.1 ⟨⟨fun _ _ h => absurd h hseg, fun _ => ?_⟩, ?_⟩
    · split
      next hthread =>
        rw [Nat.mod_eq_of_lt (by omega), all_bind]
        exact ⟨(threadLoop_spec blob fw rfl hin _ le_rfl (by omega)
          (by omega) entry).1, fun _ _ => all_pure _⟩
      next => exact all_pure _
    · split
      next hthread =>
        rw [Nat.mod_eq_of_lt (by omega)]
        obtain ⟨e, he⟩ := (threadLoop_spec blob fw rfl hin
          (cmdSizeAt blob off + 1) le_rfl (by omega) (by omega)
          entry).2.2 (hstates hthread)
        refine ⟨e, ?_⟩
        rw [res_bind_eq_ok]
        exact ⟨e, he, res_pure _⟩
      next => exact ⟨entry, res_pure _⟩

/-- The body of a load command that does not fit the image. -/
theorem command_stops (segsOut : Bool) (nsegs entry : Nat)
    (hhead : off + 8 ≤ fwArea) (hsize : 8 ≤ cmdSizeAt blob off)
    (hin : off + cmdSizeAt blob off ≤ fwArea) (hbad : ¬ BodyOk blob fw off) :
    Stops fw.size (command blob fw segsOut off (cmdAt blob off)
      (cmdSizeAt blob off) nsegs entry) := by
  have hend : fwArea = 2432 := rfl
  have hcovers := fw.covers
  rw [command]
  split
  next hseg =>
    apply Stops.bind
    apply segmentCmd_stops (by omega)
    intro hpinned
    refine hbad ⟨fun _ => hpinned, fun h => ?_⟩
    rw [hseg] at h
    exact absurd h (by decide)
  next hseg =>
  split
  next hthread =>
    apply Stops.bind
    rw [Nat.mod_eq_of_lt (by omega)]
    obtain ⟨hall, hres⟩ := threadLoop_spec blob fw rfl hin
      (cmdSizeAt blob off + 1) le_rfl (by omega) (by omega) entry
    refine ⟨?_, hall⟩
    intro e he
    exact hbad ⟨fun h => absurd h hseg, fun _ => hres.1 ⟨e, he⟩⟩
  next hthread =>
    exact absurd ⟨fun h => absurd h hseg, fun h => absurd h hthread⟩ hbad

/-- A load command that wraps: the loop over its states does not start. -/
theorem command_wraps (segsOut : Bool) (hn : nsegs + 1 < 2 ^ 32) (entry : Nat)
    (h : Wraps blob fw off) (hsize : cmdSizeAt blob off < 2 ^ 32) :
    ∃ v, (command blob fw segsOut off (cmdAt blob off) (cmdSizeAt blob off) nsegs
      entry).res = .ok v := by
  have hend : fwArea = 2432 := rfl
  have hcovers := fw.covers
  have hhead := h.header
  have hover := h.beyond
  rw [command]
  split
  next hseg =>
    obtain ⟨hres, -⟩ := segmentCmd_pinned
      (show off + 56 ≤ fw.size by omega) segsOut hn (h.segment hseg)
    refine ⟨(nsegs + 1, entry), ?_⟩
    rw [res_bind_eq_ok]
    exact ⟨nsegs + 1, hres, res_pure _⟩
  next =>
  split
  next =>
    refine ⟨(nsegs, entry), ?_⟩
    rw [res_bind_eq_ok]
    refine ⟨entry, ?_, res_pure _⟩
    have hstart : (off + cmdSizeAt blob off) % 2 ^ 32 < ((off + 8) % 2 ^ 32 + 8) % 2 ^ 32 := by
      omega
    rw [threadLoop, if_pos hstart]
    exact res_pure _
  next => exact ⟨_, res_pure _⟩

end Bodies

/-! ## The loop -/

section Loop

variable {blob : Mem} {fw : FwImage} {segsOut : Bool} {off nsegs : Nat}

theorem robustFrom_zero (off nsegs : Nat) : RobustFrom blob fw segsOut 0 off nsegs := by
  intro before at_ after h
  exact absurd (congrArg List.length h) (by simp [commandsAt])

theorem segCount_cons (off : Nat) (offs : List Nat) :
    segCount blob (off :: offs) = segsIn blob off + segCount blob offs := by
  rw [segCount, segCount, countP_cons, segsIn]
  by_cases hseg : cmdAt blob off = lcSegment
  · simp only [hseg, beq_self_eq_true, if_true]
    omega
  · simp [hseg]

/-- The first command, and those behind it. -/
theorem robustFrom_succ (n off nsegs : Nat) : RobustFrom blob fw segsOut (n + 1) off nsegs ↔
      (¬ Wraps blob fw off ∧ (segsOut = true → Accepted blob fw off →
        cmdAt blob off = lcSegment → nsegs < fwNsegs)) ∧
      (Accepted blob fw off → RobustFrom blob fw segsOut n
        (off + cmdSizeAt blob off) (nsegs + segsIn blob off)) := by
  constructor
  · intro h
    refine ⟨h [] off _ rfl (by simp), ?_⟩
    intro hacc before at_ after hsplit hbefore
    have hrest := h (off :: before) at_ after (by rw [commandsAt, hsplit, cons_append])
      (forall_mem_cons.2 ⟨hacc, hbefore⟩)
    rw [segCount_cons, ← Nat.add_assoc] at hrest
    exact hrest
  · rintro ⟨hhead, hrest⟩ before at_ after hsplit hbefore
    rw [commandsAt] at hsplit
    cases before with
    | nil =>
      obtain rfl := (List.cons.inj hsplit).1
      exact hhead
    | cons o before =>
      obtain ⟨rfl, htail⟩ := List.cons.inj hsplit
      obtain ⟨hacc, hbefore⟩ := forall_mem_cons.1 hbefore
      have hnext := hrest hacc before at_ after htail hbefore
      rw [segCount_cons, ← Nat.add_assoc]
      exact hnext

theorem cmdSizeAt_lt (blob : Mem) (off : Nat) : cmdSizeAt blob off < 2 ^ 32 := by
  have h0 := (blob (off + 4)).toNat_lt
  have h1 := (blob (off + 4 + 1)).toNat_lt
  have h2 := (blob (off + 4 + 2)).toNat_lt
  have h3 := (blob (off + 4 + 3)).toNat_lt
  simp only [cmdSizeAt, peekLe, peek, leValue, range_succ, range_zero,
    nil_append, cons_append, map_cons, map_nil,
    foldr_cons, foldr_nil, Nat.add_zero]
  omega

/-- A turn of the loop whose command passes the checks of its size. -/
theorem cmdLoop_succ_all {n entry : Nat} (hhead : off + 8 ≤ fwArea) (hsize : 8 ≤ cmdSizeAt blob off)
    (hnext : nextCmd off (cmdSizeAt blob off) ≤ fwArea) :
    (cmdLoop blob fw segsOut (n + 1) off nsegs entry).All (FwSafe fw.size) ↔
      (command blob fw segsOut off (cmdAt blob off) (cmdSizeAt blob off) nsegs
        entry).All (FwSafe fw.size) ∧
      ∀ v, (command blob fw segsOut off (cmdAt blob off) (cmdSizeAt blob off)
        nsegs entry).res = .ok v →
        off < nextCmd off (cmdSizeAt blob off) ∧
        (cmdLoop blob fw segsOut n (nextCmd off (cmdSizeAt blob off)) v.1
          v.2).All (FwSafe fw.size) := by
  have hend : fwArea = 2432 := rfl
  have hcovers := fw.covers
  rw [cmdSizeAt] at hsize hnext
  rw [cmdSizeAt, cmdAt, cmdLoop, if_neg (by omega), fwRead_bind_all (by omega),
    fwRead_bind_all (by omega), if_neg (by omega), all_bind]
  refine and_congr_right fun _ => forall_congr' fun v => ?_
  refine imp_congr_right fun _ => ?_
  change (emit _ >>= _ : FwM _).All _ ↔ _
  rw [all_bind, all_emit]
  constructor
  · rintro ⟨hcursor, hrest⟩
    exact ⟨hcursor.1, hrest () rfl⟩
  · rintro ⟨hlt, hrest⟩
    exact ⟨⟨hlt, hnext⟩, fun _ _ => hrest⟩

/-- A turn of the loop whose command does not pass them. -/
theorem cmdLoop_succ_refused {n entry : Nat} (hoff : off ≤ fwArea)
    (h : ¬ (off + 8 ≤ fwArea ∧ 8 ≤ cmdSizeAt blob off ∧
      nextCmd off (cmdSizeAt blob off) ≤ fwArea)) :
    (cmdLoop blob fw segsOut (n + 1) off nsegs entry).All (FwSafe fw.size) := by
  have hend : fwArea = 2432 := rfl
  have hcovers := fw.covers
  rw [cmdSizeAt] at h
  rw [cmdLoop]
  split
  · exact all_fail _
  next hhead =>
  rw [fwRead_bind_all (by omega), fwRead_bind_all (by omega), if_pos (by omega)]
  exact all_fail _

/-- The loop is safe exactly if the commands from its cursor on are robust.  A
command that is not accepted ends the loop before the cursor moves. -/
theorem cmdLoop_safe_iff (n : Nat) (hoff : off ≤ fwArea) (hn : nsegs + n < 2 ^ 32) (entry : Nat) :
    (cmdLoop blob fw segsOut n off nsegs entry).All (FwSafe fw.size) ↔
      RobustFrom blob fw segsOut n off nsegs := by
  have hend : fwArea = 2432 := rfl
  induction n generalizing off nsegs entry with
  | zero =>
    exact ⟨fun _ => robustFrom_zero off nsegs, fun _ => all_pure _⟩
  | succ n ih =>
    have hlt := cmdSizeAt_lt blob off
    rw [robustFrom_succ]
    by_cases hpass : off + 8 ≤ fwArea ∧ 8 ≤ cmdSizeAt blob off ∧
        nextCmd off (cmdSizeAt blob off) ≤ fwArea
    · obtain ⟨hhead, hsize, hnext⟩ := hpass
      rw [cmdLoop_succ_all hhead hsize hnext]
      by_cases hover : 2 ^ 32 ≤ off + cmdSizeAt blob off
      · -- The sum wraps, so the cursor would go back.
        have hback : ¬ off < nextCmd off (cmdSizeAt blob off) := by
          rw [nextCmd]
          omega
        have hnot : ¬ Accepted blob fw off := by
          intro h
          have := h.inside
          omega
        by_cases hseg : cmdAt blob off = lcSegment → Pinned blob fw off
        · have hwraps : Wraps blob fw off := by
            refine ⟨hhead, hover, ?_, hseg⟩
            rw [nextCmd] at hnext
            omega
          obtain ⟨v, hv⟩ := command_wraps segsOut
            (show nsegs + 1 < 2 ^ 32 by omega) entry hwraps hlt
          exact ⟨fun h => absurd (h.2 v hv).1 hback, fun h => absurd hwraps h.1.1⟩
        · have hstops : Stops fw.size (command blob fw segsOut off
              (cmdAt blob off) (cmdSizeAt blob off) nsegs entry) := by
            rw [Classical.not_imp] at hseg
            rw [command, if_pos hseg.1]
            apply Stops.bind
            exact segmentCmd_stops (by have := fw.covers; omega) segsOut nsegs hseg.2
          exact ⟨fun _ => ⟨⟨fun h => absurd h.segment hseg,
            fun _ h => absurd h hnot⟩, fun h => absurd h hnot⟩,
            fun _ => ⟨hstops.2, fun v hv => absurd hv (hstops.1 v)⟩⟩
      · have hstep : nextCmd off (cmdSizeAt blob off) = off + cmdSizeAt blob off := by
          rw [nextCmd, Nat.mod_eq_of_lt (by omega)]
        have hwraps : ¬ Wraps blob fw off := fun h => hover h.beyond
        rw [hstep] at hnext
        rw [hstep, and_iff_right hwraps]
        by_cases hbody : BodyOk blob fw off
        · have hacc : Accepted blob fw off := ⟨hhead, hsize, hnext, hbody.1, hbody.2⟩
          obtain ⟨⟨e, he⟩, hall⟩ := command_ok segsOut
            (show nsegs + 1 < 2 ^ 32 by omega) entry hhead hsize hnext hbody
          have hle : segsIn blob off ≤ 1 := by
            rw [segsIn]
            split <;> omega
          have hrest := ih hnext (show nsegs + segsIn blob off + n < 2 ^ 32 by omega) e
          rw [hall]
          constructor
          · rintro ⟨hseg, hnexts⟩
            exact ⟨fun hout _ h => hseg hout h, fun _ => hrest.1 (hnexts _ he).2⟩
          · rintro ⟨hseg, hrobust⟩
            refine ⟨fun hout h => hseg hout hacc h, ?_⟩
            intro v hv
            obtain rfl := Except.ok.inj (he.symm.trans hv)
            exact ⟨by omega, hrest.2 (hrobust hacc)⟩
        · have hnot : ¬ Accepted blob fw off := fun h =>
            hbody ⟨h.segment, h.threads⟩
          have hstops := command_stops segsOut nsegs entry hhead hsize hnext hbody
          exact ⟨fun _ => ⟨fun _ h => absurd h hnot, fun h => absurd h hnot⟩,
            fun _ => ⟨hstops.2, fun v hv => absurd hv (hstops.1 v)⟩⟩
    · have hnot : ¬ Accepted blob fw off := by
        intro h
        refine hpass ⟨h.header, h.size, ?_⟩
        have := h.inside
        rw [nextCmd]
        omega
      have hwraps : ¬ Wraps blob fw off := by
        intro h
        have hback := h.back
        have hover := h.beyond
        have hhead := h.header
        refine hpass ⟨hhead, by omega, ?_⟩
        rw [nextCmd]
        omega
      exact ⟨fun _ => ⟨⟨hwraps, fun _ h => absurd h hnot⟩,
        fun h => absurd h hnot⟩, fun _ => cmdLoop_succ_refused hoff hpass⟩

end Loop

/-! ## The validator -/

section Validate

variable (blob : Mem) (fw : FwImage) (segsOut : Bool)

theorem writeSegs_all {size i : Nat} (segs : List FwSeg)
    (h : i + segs.length ≤ fwNsegs) : (writeSegs i segs).All (FwSafe size) := by
  induction segs generalizing i with
  | nil => exact all_pure _
  | cons s segs ih =>
    rw [length_cons] at h
    rw [writeSegs, all_bind, all_emit]
    exact ⟨show i < fwNsegs by omega, fun _ _ => ih (by omega)⟩

/-- What follows the loop is safe. -/
theorem validateCmds_all : (validateCmds blob fw segsOut).All (FwSafe fw.size) ↔
      (cmdLoop blob fw segsOut fwNcmds 32 0 (2 ^ 64 - 1)).All (FwSafe fw.size) := by
  rw [validateCmds, all_bind]
  refine and_iff_left ?_
  rintro ⟨nsegs, entry⟩ -
  change (if nsegs ≠ fwNsegs then _ else _ : FwM _).All _
  split
  · exact all_fail _
  split
  · exact all_fail _
  split
  · rw [all_bind]
    refine ⟨writeSegs_all _ ?_, fun _ _ => all_pure _⟩
    rw [fw.segs_length, Nat.zero_add]
  · exact all_pure _

/-- For every blob of the pinned size and the pinned hash: each read is inside,
each write has an index below the number of segments, and the cursor moves on
and stays in the area, exactly if the blob is robust. -/
theorem fwValidateBlob_safe_iff :
    (fwValidateBlob blob fw.size fw fw.sha256 segsOut).All (FwSafe fw.size) ↔
      Robust blob fw segsOut := by
  have hend : fwArea = 2432 := rfl
  have hcovers := fw.covers
  rw [fwValidateBlob, if_neg (not_not.2 rfl), if_neg (not_not.2 rfl),
    fwRead_bind_all (by omega), fwRead_bind_all (by omega),
    fwRead_bind_all (by omega), fwRead_bind_all (by omega),
    fwRead_bind_all (by omega), fwRead_bind_all (by omega)]
  split
  next h => exact ⟨fun _ hdr => absurd hdr.magic h, fun _ => all_fail _⟩
  next hmagic =>
  split
  next h => exact ⟨fun _ hdr => absurd hdr.cputype h, fun _ => all_fail _⟩
  next hcpu =>
  split
  next h => exact ⟨fun _ hdr => absurd hdr.filetype h, fun _ => all_fail _⟩
  next hfile =>
  split
  next h =>
    refine ⟨fun _ hdr => ?_, fun _ => all_fail _⟩
    rcases h with h | h | h
    · exact absurd hdr.ncmds h
    · exact absurd hdr.sizeofcmds h
    · exact absurd hdr.flags h
  next hrest =>
    rw [not_or, not_or] at hrest
    obtain ⟨hncmds, hsizeof, hflags⟩ := hrest
    have hdr : FwHeader blob := ⟨not_not.1 hmagic, not_not.1 hcpu,
      not_not.1 hfile, not_not.1 hncmds, not_not.1 hsizeof, not_not.1 hflags⟩
    rw [validateCmds_all, cmdLoop_safe_iff fwNcmds (show 32 ≤ fwArea by omega)
      (show 0 + fwNcmds < 2 ^ 32 by decide)]
    exact ⟨fun h _ => h, fun h => h hdr⟩

end Validate

/-- The pinned header with load commands behind it. -/
def fwBlob (cmds : Bytes) : Mem := fun i =>
  ([0xfeedfacf, 0x0100000c, 0, 5, fwNcmds, fwSizeofCmds, 1, 0].flatMap (leBytes 4) ++ cmds).getD i 0

/-- The command of a segment. -/
def segmentBytes (s : FwSeg) : Bytes :=
  leBytes 4 lcSegment ++ leBytes 4 72 ++ s.name ++
    [s.vmaddr, s.vmsize, s.fileoff, s.filesize, 0, 0].flatMap (leBytes 8)

/-- Three commands with the first segment of the image, and a command whose size
is 2^32 - 8: one blob has a write behind the end of the segments, the other a
cursor that goes back. -/
theorem unsafe_commands :
    let text : FwSeg := ⟨0, 0xc4000, 0x4000, 0xc4000, fwName "__TEXT"⟩
    let three := segmentBytes text ++ segmentBytes text ++ segmentBytes text
    let long := leBytes 4 2 ++ leBytes 4 0xfffffff8
    FwEv.write 2 text ∈ (fwValidateBlob (fwBlob three) fwSelene.size fwSelene
      fwSelene.sha256 true).log ∧
    FwEv.cursor 32 24 ∈ (fwValidateBlob (fwBlob long) fwSelene.size fwSelene
      fwSelene.sha256 true).log := by
  decide +kernel

end OmarchyAne.T6021
