import Mathlib.Logic.Equiv.Basic
import OmarchyAne.H13.Bind
import OmarchyAne.Lib.Bytes

/-!
# Running a program in a loop (src/libane/ane.c)

`ane_exec_loop` runs a program several times and feeds its output state back as
its input state.  It does not copy: every second run has the buffers of the two
channels swapped.  `ane_read` always reads the buffer of the destination channel.

After `n` runs the latest state is in the buffer of the destination if `n` is
odd, and in that of the source if `n` is even (`Latest`).  So the read gives the
latest state for odd `n`, and for even `n` the one before it.

This is the M1 path, where `nn->m2` is not set.
-/

namespace OmarchyAne.H13

open Lib List

/-! ## The model -/

/-- A channel index. -/
abbrev Chan := Fin tileCount

/-- The contents of the buffer objects, by handle. -/
abbrev Bufs := Nat → Bytes

/-- A loaded program, with the buffer objects of its channels. -/
structure Nn where
  anec : Anec
  tileShift : Nat
  shift_le : tileShift ≤ 20
  srcBdx : Nat → Chan
  dstBdx : Nat → Chan
  handle : Chan → Nat
  handle_ne : ∀ bdx : Chan, anec.tile bdx ≠ 0 → handle bdx ≠ 0
  handle_inj : ∀ a b : Chan, anec.tile a ≠ 0 → anec.tile b ≠ 0 →
    handle a = handle b → a = b

/-- What the engine computes: the channels that it writes, and what it puts
there, from the contents of all channels. -/
structure Prog where
  outs : List Chan
  out : (Chan → Bytes) → Chan → Bytes

namespace Nn

variable (nn : Nn)

/-- `__ane_src_size`, for an index that is in range. -/
def srcSize (idx : Nat) : Nat := tileBytes nn.anec nn.tileShift (nn.srcBdx idx)

/-- `__ane_dst_size`. -/
def dstSize (idx : Nat) : Nat := tileBytes nn.anec nn.tileShift (nn.dstBdx idx)

/-- The handles of the channels that have tiles. -/
def chanHandle (bdx : Chan) : Nat :=
  if nn.anec.tile bdx ≠ 0 then nn.handle bdx else 0

/-- `args.handles`. -/
def handles (swapState : Bool) (src dst : Chan) : Chan → Nat :=
  if swapState then fun bdx =>
    if bdx = dst then nn.chanHandle src
    else if bdx = src then nn.chanHandle dst
    else nn.chanHandle bdx
  else nn.chanHandle

end Nn

/-- The contents of the channels.  The handle 0 is no buffer. -/
def chanContents (handles : Chan → Nat) (bufs : Bufs) (bdx : Chan) : Bytes :=
  if handles bdx = 0 then [] else bufs (handles bdx)

/-- The engine runs a program on buffers. -/
def submit (prog : Prog) (handles : Chan → Nat) (bufs : Bufs) : Bufs := fun h =>
  match prog.outs.find? fun bdx => handles bdx ≠ 0 ∧ handles bdx = h with
  | some bdx => prog.out (chanContents handles bufs) bdx
  | none => bufs h

/-- `ane_exec_with_state_swap`.  `answer` is the error of the driver. -/
def execWithStateSwap (nn : Nn) (prog : Prog) (answer : Option Errno)
    (swapState : Bool) (srcIdx dstIdx : Nat) (bufs : Bufs) :
    Except Errno Bufs :=
  match answer with
  | some e => .error e
  | none => .ok (submit prog (nn.handles swapState (nn.srcBdx srcIdx) (nn.dstBdx dstIdx)) bufs)

/-- The loop of `ane_exec_loop`. -/
def loopRuns (nn : Nn) (prog : Prog) (answers : Nat → Option Errno)
    (iterations srcIdx dstIdx : Nat) (bufs : Bufs) : Except Errno Bufs :=
  (List.range iterations).foldlM (fun bufs iteration =>
    execWithStateSwap nn prog (answers iteration) (iteration % 2 = 1) srcIdx
      dstIdx bufs) bufs

/-- `ane_exec_loop`. -/
def execLoop (nn : Nn) (prog : Prog) (answers : Nat → Option Errno)
    (iterations srcIdx dstIdx : Nat) (bufs : Bufs) : Except Errno Bufs :=
  if iterations = 0 ∨ nn.anec.srcCount.toNat ≤ srcIdx ∨
      nn.anec.dstCount.toNat ≤ dstIdx then .error .EINVAL
  else if nn.srcSize srcIdx ≠ nn.dstSize dstIdx then .error .EINVAL
  else loopRuns nn prog answers iterations srcIdx dstIdx bufs

/-- `__ane_send`: the bytes of the caller go to the mapping of the channel. -/
def aneSend (nn : Nn) (data : Bytes) (idx : Nat) (bufs : Bufs) : Bufs :=
  if nn.anec.srcCount.toNat ≤ idx ∨ nn.chanHandle (nn.srcBdx idx) = 0 then bufs
  else fun h => if h = nn.chanHandle (nn.srcBdx idx) then data else bufs h

/-- `__ane_read`: what the memory of the caller holds after it. -/
def aneRead (nn : Nn) (to_ : Bytes) (idx : Nat) (bufs : Bufs) : Bytes :=
  if nn.anec.dstCount.toNat ≤ idx then to_
  else chanContents nn.chanHandle bufs (nn.dstBdx idx)

/-! ## The handles -/

section Handles

variable {nn : Nn} {a b : Chan}

theorem chanHandle_inj (hne : nn.chanHandle a ≠ 0)
    (h : nn.chanHandle a = nn.chanHandle b) : a = b := by
  have ha : nn.anec.tile a ≠ 0 := by
    intro hzero
    rw [Nn.chanHandle, if_neg (not_not.2 hzero)] at hne
    exact hne rfl
  have hb : nn.anec.tile b ≠ 0 := by
    intro hzero
    rw [h, Nn.chanHandle, if_neg (not_not.2 hzero)] at hne
    exact hne rfl
  rw [Nn.chanHandle, Nn.chanHandle, if_pos ha, if_pos hb] at h
  exact nn.handle_inj a b ha hb h

theorem chanHandle_ne_zero {bdx : Chan} : nn.chanHandle bdx ≠ 0 ↔ nn.anec.tile bdx ≠ 0 := by
  rw [Nn.chanHandle]
  split
  next h => exact ⟨fun _ => h, fun _ => nn.handle_ne bdx h⟩
  next h => exact ⟨fun hne => absurd rfl hne, fun hne => absurd hne h⟩

/-- The handles of a run are those of the channels, swapped or not. -/
theorem handles_eq (swapState : Bool) (src dst bdx : Chan) : nn.handles swapState src dst bdx =
      nn.chanHandle (if swapState then Equiv.swap src dst bdx else bdx) := by
  cases swapState with
  | false => rfl
  | true =>
    rw [Nn.handles, if_pos rfl, if_pos rfl, Equiv.swap_apply_def]
    by_cases hdst : bdx = dst
    · by_cases hsrc : bdx = src
      · rw [if_pos hdst, if_pos hsrc, ← hsrc, ← hdst]
      · rw [if_pos hdst, if_neg hsrc, if_pos hdst]
    · by_cases hsrc : bdx = src
      · rw [if_neg hdst, if_pos hsrc, if_pos hsrc]
      · rw [if_neg hdst, if_neg hsrc, if_neg hsrc, if_neg hdst]

theorem handles_inj {swapState : Bool} {src dst : Chan} (hne : nn.handles swapState src dst a ≠ 0)
    (h : nn.handles swapState src dst a = nn.handles swapState src dst b) :
    a = b := by
  rw [handles_eq] at hne
  rw [handles_eq, handles_eq] at h
  have heq := chanHandle_inj hne h
  cases swapState with
  | false => exact heq
  | true => exact (Equiv.swap src dst).injective heq

end Handles

/-! ## One run -/

section Submit

variable {prog : Prog} {handles : Chan → Nat} {bufs : Bufs}

theorem submit_out {bdx : Chan} (hout : bdx ∈ prog.outs) (hne : handles bdx ≠ 0)
    (hinj : ∀ other, handles other = handles bdx → other = bdx) :
    submit prog handles bufs (handles bdx) = prog.out (chanContents handles bufs) bdx := by
  have hfind : prog.outs.find? (fun other =>
      handles other ≠ 0 ∧ handles other = handles bdx) = some bdx := by
    cases hres : prog.outs.find? (fun other =>
        handles other ≠ 0 ∧ handles other = handles bdx) with
    | none =>
      have hall := find?_eq_none.1 hres bdx hout
      exact absurd (decide_eq_true ⟨hne, rfl⟩) hall
    | some other =>
      have hother : handles other ≠ 0 ∧ handles other = handles bdx := by
        simpa using find?_some hres
      rw [hinj other hother.2]
  rw [submit, hfind]

theorem submit_keeps {h : Nat} (hout : ∀ bdx ∈ prog.outs, handles bdx ≠ 0 → handles bdx ≠ h) :
    submit prog handles bufs h = bufs h := by
  have hfind : prog.outs.find? (fun bdx =>
      handles bdx ≠ 0 ∧ handles bdx = h) = none := by
    apply find?_eq_none.2
    intro bdx hbdx hyes
    have hboth := of_decide_eq_true hyes
    exact hout bdx hbdx hboth.1 hboth.2
  rw [submit, hfind]

end Submit

/-! ## The loop -/

/-- The channel is an input of the program. -/
def Nn.IsInput (nn : Nn) (bdx : Chan) : Prop :=
  ∃ idx < nn.anec.srcCount.toNat, nn.srcBdx idx = bdx

/-- The program computes the state in `dst` from the state in `src`, as long as
its other inputs are as they are in `bufs`.  It does not write its inputs. -/
structure Computes (nn : Nn) (prog : Prog) (src dst : Chan) (f : Bytes → Bytes)
    (bufs : Bufs) : Prop where
  dst_mem : dst ∈ prog.outs
  inputs : ∀ bdx, nn.IsInput bdx → bdx ≠ dst → bdx ∉ prog.outs
  dst_input : nn.IsInput dst → dst = src
  out_dst : ∀ contents, (∀ bdx, nn.IsInput bdx → bdx ≠ src →
      contents bdx = chanContents nn.chanHandle bufs bdx) →
    prog.out contents dst = f (contents src)

/-- The channel whose buffer holds the state after `i` runs. -/
def stateChan (src dst : Chan) (i : Nat) : Chan := if i % 2 = 1 then dst else src

/-- Where the states are after `i` runs. -/
structure Latest (nn : Nn) (src dst : Chan) (f : Bytes → Bytes) (x0 : Bytes)
    (bufs : Bufs) (i : Nat) (now : Bufs) : Prop where
  state : now (nn.chanHandle (stateChan src dst i)) = f^[i] x0
  before : src ≠ dst → ∀ j, i = j + 1 →
    now (nn.chanHandle (stateChan src dst j)) = f^[j] x0
  others : ∀ bdx, nn.IsInput bdx → bdx ≠ src →
    chanContents nn.chanHandle now bdx = chanContents nn.chanHandle bufs bdx

section Loop

variable {nn : Nn} {prog : Prog} {src dst bdx : Chan} {f : Bytes → Bytes} {bufs : Bufs} {x0 : Bytes}
  {now : Bufs} {answers : Nat → Option Errno} {srcIdx dstIdx : Nat} {start : Bufs} {n : Nat}

theorem handles_src (i : Nat) :
    nn.handles (i % 2 = 1) src dst src = nn.chanHandle (stateChan src dst i) := by
  rw [handles_eq, stateChan]
  by_cases hodd : i % 2 = 1 <;> simp [hodd]

theorem handles_dst (i : Nat) : nn.handles (i % 2 = 1) src dst dst =
      nn.chanHandle (stateChan src dst (i + 1)) := by
  rw [handles_eq, stateChan]
  rcases Nat.mod_two_eq_zero_or_one i with heven | hodd
  · have hnext : (i + 1) % 2 = 1 := by omega
    simp [heven, hnext]
  · have hnext : (i + 1) % 2 = 0 := by omega
    simp [hodd, hnext]

theorem handles_other (swapState : Bool) (hsrc : bdx ≠ src) (hdst : bdx ≠ dst) :
    nn.handles swapState src dst bdx = nn.chanHandle bdx := by
  rw [handles_eq]
  cases swapState with
  | false => rfl
  | true => rw [if_pos rfl, Equiv.swap_apply_of_ne_of_ne hsrc hdst]

/-- One run takes the state on. -/
theorem Latest.step (hprog : Computes nn prog src dst f bufs)
    (hinput : nn.IsInput src) (hsrc : nn.chanHandle src ≠ 0)
    (hdst : nn.chanHandle dst ≠ 0) {i : Nat}
    (h : Latest nn src dst f x0 bufs i now) :
    Latest nn src dst f x0 bufs (i + 1) (submit prog (nn.handles (i % 2 = 1) src dst) now) := by
  have hne : ∀ j, nn.chanHandle (stateChan src dst j) ≠ 0 := by
    intro j
    rw [stateChan]
    split
    · exact hdst
    · exact hsrc
  -- An input that is not the destination keeps its buffer.
  have hkeeps : ∀ bdx, nn.IsInput bdx → bdx ≠ dst → submit prog (nn.handles (i % 2 = 1) src dst) now
        (nn.handles (i % 2 = 1) src dst bdx) =
          now (nn.handles (i % 2 = 1) src dst bdx) := by
    intro bdx hbdx hnedst
    apply submit_keeps
    intro other hother hnz heq
    obtain rfl := handles_inj hnz heq
    exact hprog.inputs other hbdx hnedst hother
  have hothers : ∀ bdx, nn.IsInput bdx → bdx ≠ src →
      nn.handles (i % 2 = 1) src dst bdx = nn.chanHandle bdx ∧ bdx ≠ dst := by
    intro bdx hbdx hnesrc
    have hnedst : bdx ≠ dst := by
      rintro rfl
      exact hnesrc (hprog.dst_input hbdx)
    exact ⟨handles_other _ hnesrc hnedst, hnedst⟩
  constructor
  · rw [← handles_dst, submit_out hprog.dst_mem]
    · rw [hprog.out_dst, chanContents, handles_src, if_neg (hne i), h.state,
        Function.iterate_succ_apply']
      intro bdx hbdx hnesrc
      rw [← h.others bdx hbdx hnesrc, chanContents, chanContents, (hothers bdx hbdx hnesrc).1]
    · rw [handles_dst]
      exact hne (i + 1)
    · intro other heq
      refine (handles_inj ?_ heq.symm).symm
      rw [handles_dst]
      exact hne (i + 1)
  · intro hnedst j hj
    obtain rfl : i = j := Nat.succ.inj hj
    rw [← handles_src, hkeeps src hinput hnedst, handles_src, h.state]
  · intro bdx hbdx hnesrc
    obtain ⟨hhandle, hnedst⟩ := hothers bdx hbdx hnesrc
    have hkeep := hkeeps bdx hbdx hnedst
    rw [hhandle] at hkeep
    rw [← h.others bdx hbdx hnesrc, chanContents, chanContents, hkeep]

theorem loopRuns_succ (answers : Nat → Option Errno) (n srcIdx dstIdx : Nat) :
    loopRuns nn prog answers (n + 1) srcIdx dstIdx bufs =
      (loopRuns nn prog answers n srcIdx dstIdx bufs).bind fun now =>
        execWithStateSwap nn prog (answers n) (n % 2 = 1) srcIdx dstIdx now := by
  rw [loopRuns, range_succ, foldlM_append]
  simp only [foldlM_cons, foldlM_nil, bind_pure]
  rfl

/-- All runs of a loop that succeeds. -/
theorem loopRuns_latest (hprog : Computes nn prog (nn.srcBdx srcIdx) (nn.dstBdx dstIdx) f bufs)
    (hinput : nn.IsInput (nn.srcBdx srcIdx))
    (hsrc : nn.chanHandle (nn.srcBdx srcIdx) ≠ 0)
    (hdst : nn.chanHandle (nn.dstBdx dstIdx) ≠ 0)
    (hstart : Latest nn (nn.srcBdx srcIdx) (nn.dstBdx dstIdx) f x0 bufs 0 start)
    (hrun : loopRuns nn prog answers n srcIdx dstIdx start = .ok now) :
    Latest nn (nn.srcBdx srcIdx) (nn.dstBdx dstIdx) f x0 bufs n now := by
  induction n generalizing now with
  | zero =>
    cases hrun
    exact hstart
  | succ n ih =>
    rw [loopRuns_succ] at hrun
    cases hprev : loopRuns nn prog answers n srcIdx dstIdx start with
    | error e =>
      rw [hprev] at hrun
      cases hrun
    | ok before =>
      rw [hprev] at hrun
      cases hanswer : answers n with
      | some e =>
        rw [hanswer] at hrun
        cases hrun
      | none =>
        rw [hanswer] at hrun
        cases hrun
        exact (ih hprev).step hprog hinput hsrc hdst

theorem execLoop_ok (hrun : execLoop nn prog answers n srcIdx dstIdx start = .ok now) :
    0 < n ∧ srcIdx < nn.anec.srcCount.toNat ∧
      dstIdx < nn.anec.dstCount.toNat ∧ nn.srcSize srcIdx = nn.dstSize dstIdx ∧
      loopRuns nn prog answers n srcIdx dstIdx start = .ok now := by
  rw [execLoop] at hrun
  split at hrun
  · cases hrun
  next hcounts =>
  split at hrun
  · cases hrun
  next hsizes =>
  rw [not_or, not_or] at hcounts
  exact ⟨by omega, by omega, by omega, not_not.1 hsizes, hrun⟩

/-- A channel without bytes has no tiles. -/
theorem chanHandle_eq_zero_iff :
    nn.chanHandle bdx = 0 ↔ tileBytes nn.anec nn.tileShift bdx = 0 := by
  have htiles : nn.anec.tile bdx < 2 ^ 32 := (nn.anec.tiles bdx).toNat_lt
  have hpow : 2 ^ nn.tileShift ≤ 2 ^ 20 := Nat.pow_le_pow_right (by decide) nn.shift_le
  have hmul : nn.anec.tile bdx * 2 ^ nn.tileShift < 2 ^ 32 * 2 ^ 20 :=
    Nat.mul_lt_mul_of_lt_of_le htiles hpow (by decide)
  have hpos : 2 ^ nn.tileShift ≠ 0 := Nat.ne_of_gt (Nat.two_pow_pos _)
  rw [tileBytes, Nat.shiftLeft_eq, Nat.mod_eq_of_lt (by omega),
    Nat.mul_eq_zero, or_iff_left hpos]
  exact not_iff_not.1 chanHandle_ne_zero

theorem iterate_length {size : Nat} (hf : ∀ x : Bytes, x.length = size → (f x).length = size)
    (hx0 : x0.length = size) (n : Nat) : (f^[n] x0).length = size := by
  induction n with
  | zero => exact hx0
  | succ n ih =>
    rw [Function.iterate_succ_apply']
    exact hf _ ih

/-- The state of the caller is in the buffer of the source. -/
theorem aneSend_latest (hidx : srcIdx < nn.anec.srcCount.toNat)
    (hsrc : nn.chanHandle (nn.srcBdx srcIdx) ≠ 0) :
    Latest nn (nn.srcBdx srcIdx) dst f x0 bufs 0 (aneSend nn x0 srcIdx bufs) := by
  have hsend : aneSend nn x0 srcIdx bufs = fun h =>
      if h = nn.chanHandle (nn.srcBdx srcIdx) then x0 else bufs h := by
    rw [aneSend, if_neg]
    rw [not_or]
    exact ⟨by omega, hsrc⟩
  rw [hsend]
  constructor
  · exact if_pos rfl
  · intro _ j hj
    omega
  · intro bdx _ hne
    rw [chanContents, chanContents]
    by_cases hzero : nn.chanHandle bdx = 0
    · rw [if_pos hzero, if_pos hzero]
    · rw [if_neg hzero, if_neg hzero, if_neg]
      intro heq
      exact hne (chanHandle_inj hzero heq)

end Loop

/-- After a loop of `n` runs the read gives the state after `n` runs exactly if
the state has one channel, or `n` is odd, or the last run does not change the
state. -/
theorem execLoop_read_iff (nn : Nn) (prog : Prog)
    (answers : Nat → Option Errno) (n srcIdx dstIdx : Nat)
    (f : Bytes → Bytes) (x0 to_ : Bytes) (bufs now : Bufs)
    (hx0 : x0.length = nn.srcSize srcIdx)
    (hf : ∀ x : Bytes, x.length = nn.srcSize srcIdx → (f x).length = nn.srcSize srcIdx)
    (hprog : Computes nn prog (nn.srcBdx srcIdx) (nn.dstBdx dstIdx) f bufs)
    (hrun : execLoop nn prog answers n srcIdx dstIdx (aneSend nn x0 srcIdx bufs) = .ok now) :
    aneRead nn to_ dstIdx now = f^[n] x0 ↔ nn.srcBdx srcIdx = nn.dstBdx dstIdx ∨ n % 2 = 1 ∨
        f (f^[n - 1] x0) = f^[n - 1] x0 := by
  obtain ⟨hn, hsrcIdx, hdstIdx, hsizes, hloop⟩ := execLoop_ok hrun
  obtain ⟨m, rfl⟩ : ∃ m, n = m + 1 := ⟨n - 1, by omega⟩
  rw [Nat.add_sub_cancel, Function.iterate_succ_apply', aneRead,
    if_neg (by omega), chanContents]
  by_cases hsrc : nn.chanHandle (nn.srcBdx srcIdx) = 0
  · -- A state of no bytes.
    have hsize : nn.srcSize srcIdx = 0 := chanHandle_eq_zero_iff.1 hsrc
    have hdst : nn.chanHandle (nn.dstBdx dstIdx) = 0 := by
      apply chanHandle_eq_zero_iff.2
      exact hsizes.symm.trans hsize
    have hnil : f^[m] x0 = [] := by
      apply eq_nil_of_length_eq_zero
      rw [iterate_length hf hx0, hsize]
    have hnext : f [] = [] := by
      apply eq_nil_of_length_eq_zero
      rw [← hsize]
      exact hf [] hsize.symm
    rw [if_pos hdst, hnil, hnext]
    simp
  · have hdst : nn.chanHandle (nn.dstBdx dstIdx) ≠ 0 := by
      intro hzero
      apply hsrc
      apply chanHandle_eq_zero_iff.2
      exact hsizes.trans (chanHandle_eq_zero_iff.1 hzero)
    have hlatest := loopRuns_latest hprog ⟨srcIdx, hsrcIdx, rfl⟩ hsrc hdst
      (aneSend_latest hsrcIdx hsrc) hloop
    rw [if_neg hdst]
    by_cases hsame : nn.srcBdx srcIdx = nn.dstBdx dstIdx
    · have hstate := hlatest.state
      rw [stateChan, hsame, ite_self, Function.iterate_succ_apply'] at hstate
      simp [hstate, hsame]
    · rcases Nat.mod_two_eq_zero_or_one m with heven | hodd
      · have hstate := hlatest.state
        have hnext : (m + 1) % 2 = 1 := by omega
        rw [stateChan, if_pos hnext, Function.iterate_succ_apply'] at hstate
        simp [hstate, hnext]
      · have hstate := hlatest.before hsame m rfl
        have hnext : ¬ (m + 1) % 2 = 1 := by omega
        rw [stateChan, if_pos hodd] at hstate
        rw [hstate]
        simp only [hsame, hnext, false_or]
        exact eq_comm

def chan4 : Chan := ⟨4, by decide⟩

def chan5 : Chan := ⟨5, by decide⟩

/-- A program that adds one to each byte of a state of two bytes. -/
def counter : Nn where
  anec := {
    size := 0, tdSize := 0, tdCount := 0, srcCount := 1, dstCount := 1
    tiles := fun bdx => if bdx = 4 ∨ bdx = 5 then 1 else 0
    nchw := fun _ _ => 0 }
  tileShift := 1
  shift_le := by decide
  srcBdx := fun _ => chan5
  dstBdx := fun _ => chan4
  handle := fun bdx => bdx.val + 1
  handle_ne := fun _ _ => Nat.succ_ne_zero _
  handle_inj := fun _ _ _ _ h => Fin.ext (Nat.succ.inj h)

def addOne (x : Bytes) : Bytes := x.map (· + 1)

def counterProg : Prog := ⟨[chan4], fun contents _ => addOne (contents chan5)⟩

theorem counter_computes : Computes counter counterProg chan5 chan4 addOne fun _ => [] := by
  have hinput : ∀ bdx, counter.IsInput bdx → bdx = chan5 := by
    rintro bdx ⟨idx, -, rfl⟩
    rfl
  constructor
  · exact mem_singleton_self chan4
  · intro bdx hbdx hne hmem
    exact hne (mem_singleton.1 hmem)
  · intro hbdx
    exact hinput chan4 hbdx
  · intro contents _
    rfl

theorem execLoop_read_odd : ∃ now, execLoop counter counterProg (fun _ => none) 3 0 0
        (aneSend counter [0, 7] 0 fun _ => []) = .ok now ∧
      aneRead counter [] 0 now = addOne^[3] [0, 7] := by
  refine ⟨_, rfl, ?_⟩
  exact (execLoop_read_iff counter counterProg (fun _ => none) 3 0 0 addOne [0, 7]
    [] (fun _ => []) _ rfl (fun x h => (length_map _).trans h)
    counter_computes rfl).2 (.inr (.inl rfl))

/-- Two runs, and the read gives the state after one. -/
theorem even_loop_reads_old : ∃ now, execLoop counter counterProg (fun _ => none) 2 0 0
        (aneSend counter [0, 7] 0 fun _ => []) = .ok now ∧
      aneRead counter [] 0 now = [1, 8] ∧ addOne^[2] [0, 7] = [2, 9] :=
  ⟨_, rfl, by decide +kernel, by decide +kernel⟩

end OmarchyAne.H13
