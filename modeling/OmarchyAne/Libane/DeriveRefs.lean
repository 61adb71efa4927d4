import OmarchyAne.Libane.Derive
import OmarchyAne.Libane.Stream
import OmarchyAne.Lib.Lists

/-!
# What `derive_refs` binds

A slot takes its tag from the register of the first reference in each task
(`ruleTag`), or the scratch if two tasks disagree (`mergeTags`).  The proof
follows the two passes.  `refTag_ok` reads the three tag rules as one,
`refsOfTask_spec` says what a task adds to the union, `unionTasks_spec` what
the union holds at the end, and `deriveRefs_spec` what the build emits.
-/

namespace OmarchyAne.Libane

open Lib List

variable {stream : List UInt8} {t : Task} {fuel idx last : Nat}

/-! ## The walk as a list of references -/

/-- The words of a task at which the walk finds a BAR reference. -/
def barIdxs (stream : List UInt8) (t : Task) : Nat → Nat → List Nat
  | 0, _ => []
  | fuel + 1, idx =>
    if t.words ≤ idx then []
    else
      let h := recordHeader stream t idx
      let rest := barIdxs stream t fuel (idx + 1 + recordWords h)
      if isBarRef h then idx :: rest else rest

/-- The reference at a word of a task. -/
def refAt (stream : List UInt8) (t : Task) (idx : Nat) : BarRef :=
  barRef (recordHeader stream t idx) (le32 stream (t.off + (idx + 1) * 4))

/-- The BAR references of a task. -/
def barRefs (stream : List UInt8) (t : Task) : List BarRef :=
  (barIdxs stream t t.words (firstRecord stream t.off)).map (refAt stream t)

theorem mem_barIdxs (hfuel : t.words ≤ idx + fuel) :
    last ∈ barIdxs stream t fuel idx ↔ ReachesRecord stream t idx last ∧
      last < t.words ∧ isBarRef (recordHeader stream t last) = true := by
  induction fuel generalizing idx with
  | zero =>
    refine ⟨fun h => absurd h not_mem_nil, ?_⟩
    rintro ⟨hreach, hlast, -⟩
    obtain rfl | ⟨hlt, -⟩ := hreach.cases <;> omega
  | succ fuel ih =>
    rw [barIdxs]
    split
    case isTrue hpast =>
      refine ⟨fun h => absurd h not_mem_nil, ?_⟩
      rintro ⟨hreach, hlast, -⟩
      obtain rfl | ⟨hlt, -⟩ := hreach.cases <;> omega
    case isFalse hinside =>
      have hfuel' : t.words ≤ idx + 1 + recordWords (recordHeader stream t idx) + fuel := by
        omega
      have hrec := ih hfuel'
      -- The walk goes on behind the record, or ends at it.
      have hcases : ReachesRecord stream t idx last ↔ last = idx ∨ ReachesRecord stream t
            (idx + 1 + recordWords (recordHeader stream t idx)) last := by
        refine ⟨fun h => h.cases.imp id And.right, ?_⟩
        rintro (rfl | h)
        · exact .refl
        · exact .head ⟨by omega, rfl⟩ h
      simp only [hcases]
      split
      case isTrue hbar =>
        rw [mem_cons, hrec, or_and_right]
        refine or_congr_left ⟨?_, And.left⟩
        rintro rfl
        exact ⟨rfl, by omega, hbar⟩
      case isFalse hbar =>
        rw [hrec, or_and_right]
        refine (or_iff_right ?_).symm
        rintro ⟨rfl, -, hbar'⟩
        exact hbar hbar'

/-- The references of a task are the BAR records that the walk visits. -/
theorem mem_barRefs {r : BarRef} : r ∈ barRefs stream t ↔ ∃ idx,
      ReachesRecord stream t (firstRecord stream t.off) idx ∧
      idx < t.words ∧ isBarRef (recordHeader stream t idx) = true ∧
      refAt stream t idx = r := by
  simp only [barRefs, mem_map, mem_barIdxs (Nat.le_add_left _ _), and_assoc]

section Walk

variable {σ : Type} {body : σ → BarRef → Res σ} {s s' : σ}

theorem walkRecords_ok (h : walkRecords body stream t fuel idx s = .ok s') :
    ((barIdxs stream t fuel idx).map (refAt stream t)).foldlM body s = .ok s' := by
  induction fuel generalizing idx s with
  | zero => exact h
  | succ fuel ih =>
    rw [walkRecords] at h
    rw [barIdxs]
    split at h
    case isTrue hpast =>
      rw [if_pos hpast]
      exact h
    case isFalse hinside =>
      rw [if_neg hinside]
      simp only [show le32 stream (t.off + idx * 4) = recordHeader stream t idx from rfl] at h
      split at h
      · exact absurd h (by simp [fail])
      split at h
      case isTrue hbar =>
        obtain ⟨s₁, hbody, hrest⟩ := bind_eq_ok.mp h
        rw [if_pos hbar, map_cons, foldlM_cons, bind_eq_ok]
        exact ⟨s₁, hbody, ih hrest⟩
      case isFalse hbar =>
        rw [if_neg hbar]
        exact ih h

theorem walkTask_ok (h : walkTask body stream t s = .ok s') :
    (barRefs stream t).foldlM body s = .ok s' :=
  walkRecords_ok h

theorem walkTasks_ok {tasks : List Task} (h : walkTasks body stream tasks s = .ok s') :
    (tasks.flatMap (barRefs stream)).foldlM body s = .ok s' := by
  induction tasks generalizing s with
  | nil => exact h
  | cons t tasks ih =>
    rw [walkTasks, foldlM_cons, bind_eq_ok] at h
    obtain ⟨s₁, hfirst, hrest⟩ := h
    rw [flatMap_cons, foldlM_append, bind_eq_ok]
    exact ⟨s₁, walkTask_ok hfirst, ih hrest⟩

end Walk

/-! ## The tag of a reference -/

/-- The tag rule on its own.  `out` is the size of the output channel.  A
destination slot becomes scratch when the program is a matmul or a blend, the
slot is written at two places, and the output channel does not reach the
larger one. -/
def ruleTag (s : Scan) (out : Nat) (r : BarRef) : Nat :=
  if isKdma r.addr then 2
  else if r.addr = tdDst then
    if (s.matmul ∨ s.blend) ∧ (s.dst r.slot).chunk ≠ 0 ∧
        out < (s.dst r.slot).maxOffset then scratchBufid
    else 4
  else if r.slot ≤ 1 then 2
  else if s.blend then (s.blendRank r.slot).getD scratchBufid
  else if s.matmul then r.slot
  else if r.addr = tdSrcA then 5
  else 6

/-- A table of input channels and the output channel. -/
structure IsChannelTable (io : List Io) (out : Nat) : Prop where
  split : ∃ inputs, io = inputs ++ [{ bufferId := 4, dir := 1, size := out }]
    ∧ ∀ c ∈ inputs, c.dir = 0
  small : out < 2 ^ 64 - 1

section Tags

variable {io : List Io} {out : Nat} {s : Scan} {r : BarRef} {tag addr : Nat}

theorem IsChannelTable.smallestOutput (h : IsChannelTable io out) : smallestOutput io = some 4 := by
  have hsmall : out < 18446744073709551615 := h.small
  obtain ⟨inputs, rfl, hin⟩ := h.split
  rw [Libane.smallestOutput, foldl_append, foldl_skip (l := inputs)]
  · simp [hsmall]
  · intro c hc
    simp [hin c hc]

theorem IsChannelTable.pickOutput (h : IsChannelTable io out)
    (reach : Nat) : pickSmallestFitChannel io 1 reach = if out < reach then none else some 4 := by
  have hsmall : out < 18446744073709551615 := h.small
  obtain ⟨inputs, rfl, hin⟩ := h.split
  rw [pickSmallestFitChannel, foldl_append, foldl_skip (l := inputs)]
  · by_cases hreach : out < reach
    · simp [hreach]
    · simp [hreach, hsmall]
  · intro c hc
    simp [hin c hc]

theorem isSrc_cases (h : isSrc addr = true) : isKdma addr = false ∧ addr ≠ tdDst := by
  simp only [isSrc, Bool.or_eq_true, beq_iff_eq] at h
  obtain rfl | rfl := h <;> decide

/-- The rule for a destination in a matmul or a blend. -/
theorem IsChannelTable.dstTagExtents (h : IsChannelTable io out) (g : Gap) :
    dstTagExtents io scratchBufid g =
      .ok (if g.chunk ≠ 0 ∧ out < g.maxOffset then scratchBufid else 4) := by
  unfold Libane.dstTagExtents
  rw [h.smallestOutput, h.pickOutput, h.pickOutput]
  by_cases hchunk : g.chunk = 0
  · simp [hchunk]
  · by_cases hmax : out < g.maxOffset
    · simp [hchunk, hmax, show out < g.maxOffset + g.chunk by omega,
        scratchBufid]
    · by_cases hreach : out < g.maxOffset + g.chunk <;>
        simp [hchunk, hmax, hreach]

theorem noRole_ne_ok : noRole addr ≠ .ok tag := by
  unfold noRole
  split <;> simp [fail]

/-- The tag that a reference gets is the tag of the rule. -/
theorem refTag_ok (hio : IsChannelTable io out)
    (h : refTag io scratchBufid s r = .ok tag) : tag = ruleTag s out r := by
  unfold refTag at h
  unfold ruleTag
  split at h
  case isTrue hblend =>
    obtain ⟨hblend, hsrc, hslot⟩ := hblend
    obtain ⟨hkdma, hdst⟩ := isSrc_cases hsrc
    rw [if_neg (by simp [hkdma]), if_neg hdst, if_neg (by omega), if_pos hblend]
    split at h
    case h_1 rank hrank =>
      rw [hrank]
      exact (Except.ok.inj h).symm
    case h_2 hrank =>
      rw [hrank]
      exact (Except.ok.inj h).symm
  case isFalse hnot =>
    split at h
    case isTrue hmode =>
      unfold barRefTagExtents at h
      split at h
      case isTrue hkdma =>
        rw [if_pos hkdma]
        exact (Except.ok.inj h).symm
      case isFalse hkdma =>
        rw [if_neg hkdma]
        split at h
        case isTrue hdst =>
          rw [hio.dstTagExtents] at h
          rw [if_pos hdst, ← Except.ok.inj h]
          simp only [hmode, true_and]
        case isFalse hdst =>
          rw [if_neg hdst]
          split at h
          case isFalse => exact absurd h noRole_ne_ok
          case isTrue hsrc =>
            split at h
            case isTrue hslot =>
              rw [if_pos hslot]
              exact (Except.ok.inj h).symm
            case isFalse hslot =>
              -- A blend took the branch above, so this is a matmul.
              have hblend : s.blend = false := by
                by_contra hne
                exact hnot ⟨by simpa using hne, hsrc, by omega⟩
              have hmatmul : s.matmul = true := by simpa [hblend] using hmode
              rw [if_pos hmatmul] at h
              rw [if_neg hslot, if_neg (by simp [hblend]), if_pos hmatmul]
              exact (Except.ok.inj h).symm
    case isFalse hmode =>
      rw [not_or] at hmode
      unfold barRefTagLegacy at h
      split at h
      case isTrue hkdma =>
        rw [if_pos hkdma]
        exact (Except.ok.inj h).symm
      case isFalse hkdma =>
        rw [if_neg hkdma]
        split at h
        case isTrue hdst =>
          rw [if_pos hdst, if_neg (by simp [hmode.1, hmode.2])]
          exact (Except.ok.inj h).symm
        case isFalse hdst =>
          rw [if_neg hdst]
          split at h
          case isFalse => exact absurd h noRole_ne_ok
          case isTrue hsrc =>
            split at h
            case isTrue hslot =>
              rw [if_pos hslot]
              exact (Except.ok.inj h).symm
            case isFalse hslot =>
              rw [if_neg hslot, if_neg hmode.2, if_neg hmode.1]
              split at h
              · exact absurd h (by simp [fail])
              · exact (Except.ok.inj h).symm

end Tags

/-! ## The references of a task -/

section Union

variable {io : List Io} {out : Nat} {s : Scan} {refs refs' : List TaskRef} {r : BarRef}
  {done : List BarRef} {slot k : Nat} {u u' : Union} {tags : Nat → List Nat} {tasks : List Task}

/-- The reference that the union takes from a BAR reference. -/
def ruleRef (s : Scan) (out : Nat) (r : BarRef) : TaskRef where
  slot := r.slot
  tag := ruleTag s out r
  addr := r.addr

theorem taskRecord_ok (hio : IsChannelTable io out)
    (h : taskRecord io scratchBufid s refs r = .ok refs') :
    refs.any (fun q => q.slot == r.slot) = true ∧ refs' = refs ∨
      refs.any (fun q => q.slot == r.slot) = false ∧ refs' = refs ++ [ruleRef s out r] := by
  simp only [taskRecord, bind_eq_ok, refuse_eq_ok, exists_const] at h
  obtain ⟨-, -, tag, htag, h⟩ := h
  split at h
  case isTrue hany => exact .inl ⟨hany, (pure_eq_ok.mp h).symm⟩
  case isFalse hany =>
    simp only [bind_eq_ok, refuse_eq_ok, exists_const] at h
    rw [refTag_ok hio htag] at h
    exact .inr ⟨by simpa using hany, (pure_eq_ok.mp h.2).symm⟩

/-- A walk that keeps the first reference at each slot, as `f` reads it. -/
structure FirstRefs (f : BarRef → TaskRef) (done : List BarRef)
    (refs : List TaskRef) : Prop where
  nodup : (refs.map TaskRef.slot).Nodup
  find : ∀ slot, refs.find? (fun e => e.slot == slot) =
    (done.find? (fun r => r.slot == slot)).map f

theorem FirstRefs.step {f : BarRef → TaskRef} (hf : ∀ r, (f r).slot = r.slot)
    (hspec : FirstRefs f done refs)
    (h : refs.any (fun q => q.slot == r.slot) = true ∧ refs' = refs ∨
      refs.any (fun q => q.slot == r.slot) = false ∧ refs' = refs ++ [f r]) :
    FirstRefs f (done ++ [r]) refs' := by
  have hfind := hspec.find r.slot
  obtain ⟨hany, rfl⟩ | ⟨hany, rfl⟩ := h
  · -- The slot has a reference already, so the new one does not count.
    refine ⟨hspec.nodup, fun slot => ?_⟩
    rw [find?_append, hspec.find]
    by_cases hslot : r.slot = slot
    · subst hslot
      cases hdone : done.find? (fun q => q.slot == r.slot) with
      | none =>
        rw [hdone] at hfind
        have := find?_eq_none.mp hfind
        obtain ⟨q, hq, hqs⟩ := any_eq_true.mp hany
        exact absurd hqs (this q hq)
      | some q => rfl
    · simp [hslot]
  · have hnone : refs.find? (fun e => e.slot == r.slot) = none := by
      rw [find?_eq_none]
      intro q hq
      exact any_eq_false.mp hany q hq
    refine ⟨?_, fun slot => ?_⟩
    · rw [map_append, nodup_append]
      refine ⟨hspec.nodup, by simp, ?_⟩
      intro a ha b hb
      obtain ⟨q, hq, rfl⟩ := mem_map.mp ha
      obtain rfl := mem_singleton.mp hb
      exact fun heq => find?_eq_none.mp hnone q hq (beq_iff_eq.mpr (heq.trans (hf r)))
    · rw [find?_append, find?_append, hspec.find]
      by_cases hslot : r.slot = slot
      · subst hslot
        rw [hfind, Option.map_eq_none_iff] at hnone
        simp [hnone, hf]
      · simp [hslot, hf]

/-- What `refs_of_task` returns. -/
theorem refsOfTask_spec (hio : IsChannelTable io out)
    (h : refsOfTask io scratchBufid s stream t = .ok refs) :
    FirstRefs (ruleRef s out) (barRefs stream t) refs :=
  foldlM_invariant (walkTask_ok h) ⟨by simp, by simp⟩
    (fun hspec hstep => hspec.step (fun _ => rfl) (taskRecord_ok hio hstep))

/-! ## The union -/

/-- The tag of a slot from the tags in the tasks that refer to it: the one
tag, or the scratch if they disagree. -/
def mergeTags : List Nat → Option Nat
  | [] => none
  | tag :: rest =>
    some (if rest.all (fun other => other == tag) then tag else scratchBufid)

theorem mergeTags_concat (tags : List Nat) (tag : Nat) :
    mergeTags (tags ++ [tag]) = some (match mergeTags tags with
      | none => tag
      | some prev => if prev = tag then prev else scratchBufid) := by
  cases tags with
  | nil => simp [mergeTags]
  | cons first rest =>
    simp only [mergeTags, cons_append, all_append, all_cons,
      all_nil, Bool.and_true, Bool.and_eq_true, beq_iff_eq]
    by_cases hall : rest.all (fun other => other == first) = true
    · simp only [hall, true_and, if_true, eq_comm]
    · simp [hall]

/-- The union holds each slot once, with the tag that the tags so far
give. -/
structure UnionSpec (tags : Nat → List Nat) (u : Union) : Prop where
  nodup : (u.refs.map TaskRef.slot).Nodup
  find : ∀ slot, (u.refs.find? (fun e => e.slot == slot)).map TaskRef.tag =
    mergeTags (tags slot)

theorem Union.merge_find (u : Union) (scratch slot at' : Nat) :
    (u.merge scratch slot).refs.find? (fun e => e.slot == at') =
      (u.refs.find? (fun e => e.slot == at')).map (fun e =>
        if e.slot = slot then { e with tag := scratch } else e) := by
  rw [Union.merge, find?_map]
  congr 1
  congr 1
  funext e
  simp only [Function.comp_apply]
  split <;> rfl

theorem Union.merge_find_ne (u : Union) (scratch : Nat) {at' : Nat} (hne : slot ≠ at') :
    (u.merge scratch slot).refs.find? (fun e => e.slot == at') =
      u.refs.find? (fun e => e.slot == at') := by
  rw [Union.merge_find]
  cases hq : u.refs.find? (fun e => e.slot == at') with
  | none => rfl
  | some q =>
    have hqs : q.slot = at' := by simpa using find?_some hq
    simp [hqs, Ne.symm hne]

/-- The turns of the union loop that go on. -/
theorem unionRef_cases {scratch : Nat} {r : TaskRef} (h : unionRef scratch k u r = .ok u') :
    u.refs.find? (fun e => e.slot == r.slot) = none ∧ u' = { u with refs := u.refs ++ [r] } ∨
      ∃ e, u.refs.find? (fun e => e.slot == r.slot) = some e ∧
        (e.tag = r.tag ∧ u' = u ∨ e.tag ≠ r.tag ∧ scratchEligibleAddr e.addr = true ∧
            u' = u.merge scratch r.slot) := by
  unfold unionRef at h
  split at h
  case h_1 hnone => exact .inl ⟨hnone, (Except.ok.inj h).symm⟩
  case h_2 e hfound =>
    refine .inr ⟨e, hfound, ?_⟩
    split at h
    case isTrue htag => exact .inl ⟨htag, (Except.ok.inj h).symm⟩
    case isFalse htag =>
      split at h
      · exact absurd h (by simp [fail])
      split at h
      · exact absurd h (by simp [fail])
      case isFalse helig =>
        refine .inr ⟨htag, ?_, (Except.ok.inj h).symm⟩
        by_contra hne
        exact helig (by simp [hne])

theorem UnionSpec.step {r : TaskRef} (hspec : UnionSpec tags u)
    (h : unionRef scratchBufid k u r = .ok u') :
    UnionSpec (fun slot => tags slot ++ if r.slot = slot then [r.tag] else []) u' := by
  -- At another slot nothing changes.
  have hother : ∀ slot, r.slot ≠ slot →
      (u'.refs.find? (fun e => e.slot == slot)).map TaskRef.tag =
        (u.refs.find? (fun e => e.slot == slot)).map TaskRef.tag →
      (u'.refs.find? (fun e => e.slot == slot)).map TaskRef.tag =
        mergeTags (tags slot ++ if r.slot = slot then [r.tag] else []) := by
    intro slot hne heq
    rw [if_neg hne, append_nil, heq, hspec.find]
  have hslot := hspec.find r.slot
  obtain ⟨hnone, rfl⟩ | ⟨e, hfound, hcase⟩ := unionRef_cases h
  · rw [hnone, Option.map_none] at hslot
    constructor
    · rw [map_append, nodup_append]
      refine ⟨hspec.nodup, by simp, ?_⟩
      intro a ha b hb
      obtain ⟨q, hq, rfl⟩ := mem_map.mp ha
      obtain rfl := mem_singleton.mp hb
      exact fun heq => find?_eq_none.mp hnone q hq (beq_iff_eq.mpr heq)
    · intro slot
      by_cases heq : r.slot = slot
      · subst heq
        rw [if_pos rfl, mergeTags_concat, ← hslot, find?_append, hnone]
        simp
      · refine hother slot heq ?_
        rw [find?_append]
        simp [heq]
  rw [hfound, Option.map_some] at hslot
  have he : e.slot = r.slot := by
    simpa using find?_some hfound
  obtain ⟨htag, rfl⟩ | ⟨htag, -, rfl⟩ := hcase
  · refine ⟨hspec.nodup, fun slot => ?_⟩
    by_cases heq : r.slot = slot
    · subst heq
      rw [if_pos rfl, mergeTags_concat, ← hslot, hfound]
      simp [htag]
    · exact hother slot heq rfl
  · constructor
    · have hslots : ((u.merge scratchBufid r.slot).refs.map
          TaskRef.slot) = u.refs.map TaskRef.slot := by
        rw [Union.merge, map_map]
        refine map_congr_left (fun q _ => ?_)
        simp only [Function.comp_apply]
        split <;> rfl
      rw [hslots]
      exact hspec.nodup
    · intro slot
      by_cases heq : r.slot = slot
      · subst heq
        rw [if_pos rfl, mergeTags_concat, ← hslot, Union.merge_find, hfound]
        simp [he, htag]
      · refine hother slot heq ?_
        rw [Union.merge_find_ne _ _ heq]

/-- The tags of a slot, one for each task that refers to it. -/
def slotTags (s : Scan) (out : Nat) (stream : List UInt8)
    (tasks : List Task) (slot : Nat) : List Nat :=
  tasks.filterMap (fun t =>
    ((barRefs stream t).find? (fun r => r.slot == slot)).map (ruleTag s out))

/-- A slot has a tag exactly if a task refers to it. -/
theorem mergeTags_slotTags : (∃ tag, mergeTags (slotTags s out stream tasks slot) = some tag) ↔
      ∃ t ∈ tasks, ∃ r ∈ barRefs stream t, r.slot = slot := by
  have hnil : (∃ tag, mergeTags (slotTags s out stream tasks slot) =
      some tag) ↔ slotTags s out stream tasks slot ≠ [] := by
    cases slotTags s out stream tasks slot <;> simp [mergeTags]
  rw [hnil, slotTags, ne_eq, filterMap_eq_nil_iff]
  simp

/-- One task of the second pass. -/
theorem UnionSpec.task (hspec : UnionSpec tags u)
    (hrefs : FirstRefs (ruleRef s out) (barRefs stream t) refs)
    (h : refs.foldlM (unionRef scratchBufid k) u = .ok u') :
    UnionSpec (fun slot => tags slot ++ slotTags s out stream [t] slot) u' := by
  have hloop : UnionSpec (fun slot => tags slot ++
      (refs.filter (fun e => e.slot == slot)).map TaskRef.tag) u' := by
    refine foldlM_invariant (I := fun done u => UnionSpec (fun slot =>
      tags slot ++ (done.filter (fun e => e.slot == slot)).map TaskRef.tag)
      u) h (by simpa using hspec) ?_
    intro done u₁ r u₂ hdone hstep
    have := hdone.step hstep
    convert this using 2 with slot
    rw [filter_append, map_append, append_assoc]
    by_cases hslot : r.slot = slot <;> simp [hslot]
  convert hloop using 3 with slot
  rw [filter_key hrefs.nodup, hrefs.find, slotTags, filterMap_cons, filterMap_nil]
  cases (barRefs stream t).find? (fun r => r.slot == slot) <;> rfl

/-- What the second pass ends with. -/
theorem unionTasks_spec (hio : IsChannelTable io out)
    (h : unionTasks io scratchBufid s stream tasks = .ok u) :
    UnionSpec (slotTags s out stream tasks) u := by
  have hloop : UnionSpec (slotTags s out stream
      (tasks.zipIdx.map Prod.fst)) u := by
    refine foldlM_invariant (I := fun done u => UnionSpec
      (slotTags s out stream (done.map Prod.fst)) u) h
      ⟨by simp, by simp [slotTags, mergeTags]⟩ ?_
    intro done u₁ t u₂ hdone hstep
    obtain ⟨refs, hrefs, hunion⟩ := bind_eq_ok.mp hstep
    have := hdone.task (refsOfTask_spec hio hrefs) hunion
    convert this using 2 with slot
    simp [slotTags, filterMap_append]
  simpa using hloop

/-- What `derive_refs` returns: each slot that a task refers to, once, with
its tag. -/
structure RefsSpec (s : Scan) (out : Nat) (io : List Io)
    (stream : List UInt8) (tasks : List Task) (refs : List Ref) : Prop where
  sorted : refs.Pairwise (fun a b => a.slot < b.slot)
  mem : ∀ slot tag, { slot := slot, tag := tag } ∈ refs ↔
    mergeTags (slotTags s out stream tasks slot) = some tag
  known : ∀ r ∈ refs, knownTag io scratchBufid r.tag = true
  few : refs.length ≤ maxBinds

theorem deriveRefs_spec {refs : List Ref} {used : Bool} (hio : IsChannelTable io out)
    (h : deriveRefs io scratchBufid stream tasks = .ok (refs, used)) :
    ∃ s, walkTasks scanRecord stream tasks {} = .ok s ∧ RefsSpec s out io stream tasks refs := by
  simp only [deriveRefs, bind_eq_ok, refuse_eq_ok, pure_eq_ok, exists_const] at h
  obtain ⟨s, hscan, u, hunion, hfew, hknown, -, heq⟩ := h
  obtain ⟨rfl, -⟩ := Prod.mk.inj heq
  have hspec := unionTasks_spec hio hunion
  set pairs := u.refs.map (fun e =>
    ({ slot := e.slot, tag := e.tag } : Ref)) with hpairs
  have hperm := sortBy_perm Ref.slot pairs
  refine ⟨s, hscan, ?_, fun slot tag => ?_, fun r hr => ?_, ?_⟩
  · refine sortBy_strict Ref.slot ?_
    rw [hpairs, map_map]
    exact hspec.nodup
  · rw [hperm.mem_iff, ← hspec.find, Option.map_eq_some_iff, mem_map]
    constructor
    · rintro ⟨e, he, heq⟩
      obtain ⟨rfl, rfl⟩ := Ref.mk.inj heq
      exact ⟨e, (find?_key hspec.nodup).mpr he, rfl⟩
    · rintro ⟨e, he, rfl⟩
      have hslot : e.slot = slot := by simpa using find?_some he
      exact ⟨e, mem_of_find?_eq_some he, by rw [hslot]⟩
  · simp only [any_eq_true, Bool.not_eq_true', not_exists, not_and] at hknown
    simpa using hknown r hr
  · rw [hperm.length_eq, length_map]
    omega

end Union

end OmarchyAne.Libane
