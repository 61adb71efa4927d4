import OmarchyAne.Adt.Reads15
import OmarchyAne.Lib.Memory

/-!
# Where the H15 reader reads

Every access of the walk, of the lookup of a property and of the segments is
safe.  The one comparison that may leave the value, and the blob, is that with
the wanted name: it goes on as long as the bytes agree (`textT15_safe_iff`).
A value is overrun if it is shorter than the name with its NUL and the bytes
from its start, up to the end of the blob, are those of the name
(`Overruns`).  So the reader is safe exactly when no child of the root that it
comes to is of that kind (`readT15_safe_iff`).
-/

namespace OmarchyAne.Adt

open Lib Traced List

/-- The value of the `name` property is shorter than `name` with its NUL, but
what is there agrees with it, up to the end of the blob. -/
def Overruns (b : Blob) (name : Bytes) (c : Node) : Prop :=
  ∃ nm size, prop15 b c nameText = .ok (nm, size) ∧ 0 < size ∧
    size < name.length + 1 ∧
    ∀ k < name.length + 1, nm + k < b.len → b.byte (nm + k) = name.getD k 0

section Text

variable {ε : Type} {b : Blob} {depth : Nat} {name : Bytes}

/-- A comparison with a name that has no NUL reads a byte if all before it
agree. -/
theorem readText_safe_iff (hname : 0 ∉ name) (off : Nat) :
    (readText b id name.length off name : ReadM ε Bool).All (Access.Safe b depth) ↔
      ∀ m < name.length, (∀ k < m, b.byte (off + k) = name.getD k 0) → off + m < b.len := by
  induction name generalizing off with
  | nil => simp [readText]
  | cons c name ih =>
    rw [mem_cons, not_or] at hname
    have hc : c ≠ 0 := fun h => hname.1 h.symm
    rw [length_cons, readText, all_bind, all_readByte]
    simp only [headD_cons, tail_cons, id, beq_iff_eq, hc, if_false]
    constructor
    · rintro ⟨hfirst, hrest⟩ m hm hagree
      cases m with
      | zero => exact hfirst
      | succ m =>
        have hsame : b.byte off = c := hagree 0 (Nat.succ_pos m)
        have htail := hrest () rfl
        rw [if_pos hsame, ih hname.2] at htail
        have hlt := htail m (by omega) (fun k hk => by
          have := hagree (k + 1) (by omega)
          rwa [getD_cons_succ,
            show off + (k + 1) = off + 1 + k by omega] at this)
        omega
    · intro h
      refine ⟨h 0 (Nat.succ_pos _) (fun k hk => absurd hk (Nat.not_lt_zero k)), ?_⟩
      intro _ _
      split
      next hsame =>
        rw [ih hname.2]
        intro m hm hagree
        have hlt := h (m + 1) (by omega) (fun k hk => by
          cases k with
          | zero => exact hsame
          | succ k =>
            rw [getD_cons_succ,
              show off + (k + 1) = off + 1 + k by omega]
            exact hagree k (by omega))
        omega
      next => exact all_pure _

theorem sameText_id_iff (hname : 0 ∉ name) (off : Nat) :
    sameText id b.byte name.length off name = true ↔
      ∀ k < name.length, b.byte (off + k) = name.getD k 0 := by
  induction name generalizing off with
  | nil => simp [sameText]
  | cons c name ih =>
    rw [mem_cons, not_or] at hname
    have hc : c ≠ 0 := fun h => hname.1 h.symm
    rw [length_cons, sameText]
    simp only [headD_cons, tail_cons, id, Bool.and_eq_true,
      beq_iff_eq, Bool.or_eq_true, hc, false_or, ih hname.2]
    constructor
    · rintro ⟨hfirst, hrest⟩ k hk
      cases k with
      | zero => exact hfirst
      | succ k =>
        rw [getD_cons_succ, show off + (k + 1) = off + 1 + k by omega]
        exact hrest k (by omega)
    · intro h
      refine ⟨h 0 (Nat.succ_pos _), fun k hk => ?_⟩
      have := h (k + 1) (by omega)
      rwa [getD_cons_succ,
        show off + (k + 1) = off + 1 + k by omega] at this

/-- What the test on a value does: the accesses up to the first difference, and
the match. -/
theorem textT15_safe_iff (hname : 0 ∉ name) {nm size : Nat} :
    (textT15 b name nm size).All (Access.Safe b depth) ↔
      (∀ m < name.length + 1, (∀ k < m, b.byte (nm + k) = name.getD k 0) → nm + m < b.len) ∧
      ((∀ k < name.length + 1, b.byte (nm + k) = name.getD k 0) → name.length + 1 ≤ size) := by
  have hlast : name.getD name.length 0 = 0 := by simp
  rw [textT15, all_bind, readText_safe_iff hname]
  simp only [res_readText, Except.ok.injEq, forall_eq']
  constructor
  · rintro ⟨hreads, hrest⟩
    refine ⟨?_, ?_⟩
    · intro m hm hagree
      rcases Nat.lt_succ_iff_lt_or_eq.1 hm with hlt | rfl
      · exact hreads m hlt hagree
      · rw [if_pos ((sameText_id_iff hname nm).2 hagree), all_bind, all_readByte] at hrest
        exact hrest.1
    · intro hagree
      have hsame := (sameText_id_iff hname nm).2 (fun k hk => hagree k (by omega))
      have hzero : b.byte (nm + name.length) = 0 := (hagree name.length (by omega)).trans hlast
      rw [if_pos hsame, all_bind] at hrest
      have hmatch := hrest.2 () rfl
      rw [if_pos (by simpa using hzero), all_bind, all_emit] at hmatch
      exact hmatch.1
  · rintro ⟨hreads, hmatch⟩
    refine ⟨fun m hm => hreads m (by omega), ?_⟩
    split
    next hsame =>
      have hagree := (sameText_id_iff hname nm).1 hsame
      rw [all_bind, all_readByte]
      refine ⟨hreads name.length (by omega) hagree, ?_⟩
      intro _ _
      split
      next hzero =>
        rw [all_bind, all_emit]
        refine ⟨hmatch ?_, fun _ _ => all_pure _⟩
        intro k hk
        rcases Nat.lt_succ_iff_lt_or_eq.1 hk with hlt | rfl
        · exact hagree k hlt
        · rw [hlast]
          simpa using hzero
      next => exact all_pure _
    next => exact all_pure _

/-- A nonempty value in the blob: the test is safe if the value has room for the
name, or if some byte in the blob differs. -/
theorem textT15_safe_iff_differs (hname : 0 ∉ name) {nm size : Nat} (hin : nm + size ≤ b.len) :
    (textT15 b name nm size).All (Access.Safe b depth) ↔
      ¬ (size < name.length + 1 ∧ ∀ k < name.length + 1, nm + k < b.len →
          b.byte (nm + k) = name.getD k 0) := by
  rw [textT15_safe_iff hname]
  constructor
  · rintro ⟨hreads, hmatch⟩ ⟨hshort, hagree⟩
    -- All bytes agree, one after the other.
    have hall : ∀ m ≤ name.length + 1, ∀ k < m, b.byte (nm + k) = name.getD k 0 := by
      intro m
      induction m with
      | zero => exact fun _ k hk => absurd hk (Nat.not_lt_zero k)
      | succ m ih =>
        intro hm k hk
        have hbefore := ih (by omega)
        rcases Nat.lt_succ_iff_lt_or_eq.1 hk with hlt | rfl
        · exact hbefore k hlt
        · exact hagree k (by omega) (hreads k (by omega) hbefore)
    have := hmatch (hall _ le_rfl)
    omega
  · intro hnot
    by_cases hlong : name.length + 1 ≤ size
    · exact ⟨fun m hm _ => by omega, fun _ => hlong⟩
    · have hdiff : ∃ k < name.length + 1, nm + k < b.len ∧ b.byte (nm + k) ≠ name.getD k 0 := by
        by_contra hnone
        refine hnot ⟨by omega, fun k hk hlt => ?_⟩
        by_contra hne
        exact hnone ⟨k, hk, hlt, hne⟩
      obtain ⟨k, hk, hlt, hne⟩ := hdiff
      refine ⟨fun m hm hagree => ?_, fun hagree => absurd (hagree k hk) hne⟩
      have hle : m ≤ k := by
        by_contra hgt
        exact hne (hagree k (by omega))
      omega

end Text

section Walk

variable {b : Blob} {depth : Nat} (hlen : b.len ≤ adtMaxLen) {off : Nat} {name : Bytes} {c : Node}

include hlen

omit hlen in
theorem nodeAtT15_safe (hsmall : Small off) : (nodeAtT15 b off).All (Access.Safe b depth) := by
  rw [Small] at hsmall
  rw [nodeAtT15, u32_of_lt (by omega), u32_of_lt (by omega)]
  split
  · exact all_fail _
  · rw [all_bind]
    refine ⟨all_read32 (by omega), fun _ _ => ?_⟩
    rw [all_bind]
    refine ⟨all_read32 (by omega), fun _ _ => ?_⟩
    split
    · exact all_fail _
    · exact all_pure _

theorem propsEndT15_safe (n : Nat) (hsmall : Small off) :
    (propsEndT15 b n off).All (Access.Safe b depth) := by
  have hmax : b.len ≤ 2 ^ 30 := hlen
  rw [Small] at hsmall
  induction n generalizing off with
  | zero => exact all_pure _
  | succ n ih =>
    have hpad := pad4_le b off
    rw [propsEndT15, u32_of_lt (n := off + 36) (by omega)]
    split
    · exact all_fail _
    · rw [all_bind]
      refine ⟨all_read32 (by omega), ?_⟩
      intro len hres
      cases hres
      change (propsEndT15 b n (u32 (off + (36 + pad4 (b.propLen off))))).All _
      rw [u32_of_lt (by omega)]
      exact ih (by omega)

theorem subtreeEndT15_safe (fuel : Nat) {n : Node} (hin : n.off + 8 ≤ b.len)
    (hfuel : b.len < n.off + 8 * fuel) :
    (subtreeEndT15 b fuel n).All (Access.Safe b depth) := by
  have hmax : b.len ≤ 2 ^ 30 := hlen
  induction fuel generalizing n with
  | zero => omega
  | succ fuel ih =>
    have hoff : Small (n.off + 8) := show n.off + 8 < 2 ^ 32 - 64 by omega
    rw [subtreeEndT15, u32_of_lt (by omega), all_bind]
    refine ⟨propsEndT15_safe hlen _ hoff, ?_⟩
    intro p hp
    rw [res_propsEndT15, lift_eq_ok] at hp
    obtain ⟨hle, hsmall, -⟩ := propsEnd15_ok hlen hoff hp
    rw [all_bind]
    constructor
    · refine all_repeatT (I := fun o => n.off + 8 ≤ o ∧ Small o)
        ?_ ?_ _ ⟨hle, hsmall⟩
      · rintro o ⟨hlow, ho⟩
        rw [all_bind]
        refine ⟨nodeAtT15_safe ho, ?_⟩
        intro c hc
        rw [res_nodeAtT15, lift_eq_ok] at hc
        obtain ⟨hin', rfl⟩ := nodeAt15_ok ho hc
        exact ih hin' (show b.len < o + 8 * fuel by omega)
      · rintro o o' ⟨hlow, ho⟩ hres
        rw [res_bind_eq_ok] at hres
        obtain ⟨c, hc, hend⟩ := hres
        rw [res_nodeAtT15, lift_eq_ok] at hc
        obtain ⟨hin', rfl⟩ := nodeAt15_ok ho hc
        rw [res_subtreeEndT15 hlen fuel hin'
          (show b.len < o + 8 * fuel by omega), lift_eq_ok] at hend
        have hbounds := skip15_bounds hlen fuel o o' ho (bind_eq_ok.2 ⟨_, hc, hend⟩)
        exact ⟨by omega, show o' < 2 ^ 32 - 64 by omega⟩
    · intro e _
      split
      · exact all_fail _
      · exact all_pure _

theorem childT15_safe {fuel : Nat} (hfuel : b.len < 8 * fuel) {n : Node}
    (hin : n.off + 8 ≤ b.len) (i : Nat) :
    (childT15 b fuel n i).All (Access.Safe b depth) := by
  have hmax : b.len ≤ 2 ^ 30 := hlen
  have hoff : Small (n.off + 8) := show n.off + 8 < 2 ^ 32 - 64 by omega
  have hskip : ∀ o o', Small o → (skipT15 b fuel o).res = .ok o' → Small o' := by
    intro o o' ho hres
    rw [res_skipT15 hlen hfuel ho, lift_eq_ok] at hres
    have hbounds := skip15_bounds hlen fuel o o' ho hres
    exact show o' < 2 ^ 32 - 64 by omega
  rw [childT15, nthChildOffT15, u32_of_lt (by omega), all_bind]
  split
  · exact ⟨all_fail _, fun _ h => by cases h⟩
  constructor
  · rw [all_bind]
    refine ⟨propsEndT15_safe hlen _ hoff, ?_⟩
    intro p hp
    rw [res_propsEndT15, lift_eq_ok] at hp
    obtain ⟨-, hsmall, -⟩ := propsEnd15_ok hlen hoff hp
    refine all_repeatT (I := Small) ?_ hskip _ hsmall
    intro o ho
    rw [skipT15, all_bind]
    refine ⟨nodeAtT15_safe ho, ?_⟩
    intro c hc
    rw [res_nodeAtT15, lift_eq_ok] at hc
    obtain ⟨hin', rfl⟩ := nodeAt15_ok ho hc
    exact subtreeEndT15_safe hlen fuel hin' (show b.len < o + 8 * fuel by omega)
  · intro off hres
    rw [res_bind_eq_ok] at hres
    obtain ⟨p, hp, hloop⟩ := hres
    rw [res_propsEndT15, lift_eq_ok] at hp
    obtain ⟨-, hsmall, -⟩ := propsEnd15_ok hlen hoff hp
    rw [res_repeatT (fun o ho => res_skipT15 hlen hfuel ho) (fun o o' ho ho' => hskip o o' ho
        ((res_skipT15 hlen hfuel ho).trans ho')) i hsmall] at hloop
    exact nodeAtT15_safe (repeatM_invariant (fun o o' ho ho' =>
      hskip o o' ho ((res_skipT15 hlen hfuel ho).trans ho')) hsmall hloop)

theorem propLoopT15_safe (name : Bytes) (n : Nat) (hsmall : Small off) :
    (propLoopT15 b name n off).All (Access.Safe b depth) := by
  have hmax : b.len ≤ 2 ^ 30 := hlen
  rw [Small] at hsmall
  induction n generalizing off with
  | zero => exact all_fail _
  | succ n ih =>
    have hpad := pad4_le b off
    rw [propLoopT15, u32_of_lt (n := off + 36) (by omega)]
    split
    · exact all_fail _
    rw [all_bind]
    refine ⟨all_read32 (by omega), ?_⟩
    intro len hres
    cases hres
    change Traced.All _ (if b.len < u32 (off + 36 + pad4 (b.propLen off)) then
      _ else _)
    split
    · exact all_fail _
    rw [all_bind]
    refine ⟨all_readText id name (by omega), ?_⟩
    intro same _
    split
    · exact all_pure _
    · change (propLoopT15 b name n (u32 (off + (36 + pad4 (b.propLen off))))).All _
      rw [u32_of_lt (by omega)]
      exact ih (by omega)

/-- The value that a lookup finds is in the blob. -/
theorem propLoop15_inside {n data size : Nat} (hsmall : Small off)
    (h : propLoop15 b name n off = .ok (data, size)) :
    data + size ≤ b.len := by
  have hmax : b.len ≤ 2 ^ 30 := hlen
  rw [Small] at hsmall
  induction n generalizing off with
  | zero => cases h
  | succ n ih =>
    have hpad := pad4_le b off
    have hle : b.propLen off ≤ pad4 (b.propLen off) := by
      rw [pad4]
      omega
    rw [propLoop15, u32_of_lt (n := off + 36) (by omega)] at h
    split at h
    · cases h
    rw [u32_of_lt (by omega), u32_of_lt (by omega)] at h
    split at h
    · cases h
    split at h
    · cases h
      omega
    · exact ih (by omega) h

omit hlen in
theorem res_propT15 (c : Node) (name : Bytes) :
    (propT15 b c name).res = prop15 b c name := res_propLoopT15 _ _ _

theorem small_props (hin : c.off + 8 ≤ b.len) : Small (u32 (c.off + 8)) := by
  have hmax : b.len ≤ 2 ^ 30 := hlen
  rw [u32_of_lt (by omega)]
  exact show c.off + 8 < 2 ^ 32 - 64 by omega

theorem propT15_safe (hin : c.off + 8 ≤ b.len) (name : Bytes) :
    (propT15 b c name).All (Access.Safe b depth) :=
  propLoopT15_safe hlen _ _ (small_props hlen hin)

theorem prop15_inside (hin : c.off + 8 ≤ b.len) {data size : Nat}
    (h : prop15 b c name = .ok (data, size)) :
    data + size ≤ b.len :=
  propLoop15_inside hlen (small_props hlen hin) h

theorem isNamedT15_safe_iff (hname : 0 ∉ name) (hin : c.off + 8 ≤ b.len) :
    (isNamedT15 b name c).All (Access.Safe b depth) ↔ ¬ Overruns b name c := by
  rw [isNamedT15, all_bind, all_attempt]
  simp only [res_attempt, Except.ok.injEq, forall_eq', res_propT15]
  rw [and_iff_right (propT15_safe hlen hin _), Overruns]
  cases hfound : prop15 b c nameText with
  | error e => simp
  | ok r =>
    obtain ⟨nm, size⟩ := r
    have hvalue := prop15_inside hlen hin hfound
    simp only [Except.ok.injEq, Prod.mk.injEq]
    by_cases hsize : 0 < size
    · rw [if_pos hsize, textT15_safe_iff_differs hname hvalue]
      refine not_congr ⟨?_, ?_⟩
      · rintro ⟨hshort, hagree⟩
        exact ⟨nm, size, ⟨rfl, rfl⟩, hsize, hshort, hagree⟩
      · rintro ⟨nm', size', ⟨rfl, rfl⟩, -, hshort, hagree⟩
        exact ⟨hshort, hagree⟩
    · rw [if_neg hsize]
      refine iff_of_true (all_pure _) ?_
      rintro ⟨nm', size', ⟨rfl, rfl⟩, hpos, -⟩
      exact hsize hpos

theorem isAneT15_safe (aneType : Nat) (hin : c.off + 8 ≤ b.len) :
    (isAneT15 b aneType c).All (Access.Safe b depth) := by
  rw [isAneT15, all_bind, all_attempt]
  simp only [res_attempt, Except.ok.injEq, forall_eq', res_propT15]
  refine ⟨propT15_safe hlen hin _, ?_⟩
  cases hfound : prop15 b c aneTypeText with
  | error e => cases e <;> simp
  | ok r =>
    obtain ⟨data, size⟩ := r
    have hvalue := prop15_inside hlen hin hfound
    simp only
    split
    · rw [all_bind]
      refine ⟨all_read32 (by omega), fun _ _ => ?_⟩
      split
      next =>
        rw [all_bind, all_emit]
        exact ⟨by assumption, fun _ _ => all_pure _⟩
      next => exact all_pure _
    · exact all_pure _

theorem segmentsT15_safe {ane : Node} (hin : ane.off + 8 ≤ b.len) (textExpect dataMin : Nat) :
    (segmentsT15 b ane textExpect dataMin).All (Access.Safe b depth) := by
  have hsegment : ∀ data stride i, (segmentT15 b data stride i).All (Access.Safe b depth) := by
    intro data stride i
    rw [segmentT15]
    split
    · exact all_fail _
    · rw [all_bind]
      refine ⟨all_readBytes (by omega), fun _ _ => ?_⟩
      simp only
      split
      · exact all_fail _
      · split
        · exact all_fail _
        · exact all_pure _
  rw [segmentsT15, all_bind]
  constructor
  · rw [orFail, all_bind, all_attempt]
    refine ⟨propT15_safe hlen hin _, ?_⟩
    rintro (e | r) _
    · exact all_fail _
    · exact all_pure _
  · rintro ⟨data, size⟩ _
    simp only
    split
    · exact all_fail _
    split
    · exact all_fail _
    rw [all_bind]
    refine ⟨hsegment _ _ _, fun _ _ => ?_⟩
    rw [all_bind]
    refine ⟨hsegment _ _ _, fun _ _ => ?_⟩
    split
    · exact all_fail _
    · split
      · exact all_fail _
      · exact all_pure _

end Walk

/-! ## The whole reader -/

/-- No child of the root that the search for `/arm-io` comes to is overrun.  It
comes to a child if the blob passes the first walk and no child before has the
name. -/
def NoOverrun (b : Blob) : Prop :=
  ∀ e, 8 ≤ b.len → nodeAt15 b 0 = .ok (b.node 0) →
    subtreeEnd15 b (walkFuel b) (b.node 0) = .ok e →
    ∀ i < (b.node 0).nchildren,
      (∀ j < i, ∃ d, child15 b (walkFuel b) (b.node 0) j = .ok d ∧
        isNamed15 b armIoText d = false) →
      ∀ c, child15 b (walkFuel b) (b.node 0) i = .ok c →
        ¬ Overruns b armIoText c

section Find

variable {b : Blob} {depth : Nat} (hlen : b.len ≤ adtMaxLen) {n : Node}

include hlen

theorem tryNamedT15_safe_iff (hin : n.off + 8 ≤ b.len) {name : Bytes} (hname : 0 ∉ name) (i : Nat) :
    (tryNamedT15 b (walkFuel b) n name i).All (Access.Safe b depth) ↔
      ∀ c, child15 b (walkFuel b) n i = .ok c → ¬ Overruns b name c := by
  rw [tryNamedT15, all_bind, and_iff_right (childT15_safe hlen (walkFuel_enough b) hin i),
    res_childT15 hlen (walkFuel_enough b) hin]
  simp only [lift_eq_ok]
  refine forall_congr' fun c => forall_congr' fun hc => ?_
  obtain ⟨-, hinside, -⟩ := child15_inside hlen hin hc
  rw [all_bind, isNamedT15_safe_iff hlen hname hinside]
  exact and_iff_left fun _ _ => all_pure _

theorem tryNamedT15_none_iff (hin : n.off + 8 ≤ b.len) (name : Bytes) (i : Nat) :
    (tryNamedT15 b (walkFuel b) n name i).res = .ok none ↔
      ∃ d, child15 b (walkFuel b) n i = .ok d ∧ isNamed15 b name d = false := by
  rw [res_tryNamedT15 hlen (walkFuel_enough b) hin, lift_eq_ok, bind_eq_ok]
  refine exists_congr fun d => and_congr_right fun _ => ?_
  rw [pure_eq_ok]
  cases isNamed15 b name d <;> simp

theorem childNamedT15_safe_iff (hin : n.off + 8 ≤ b.len) {name : Bytes} (hname : 0 ∉ name) :
    (childNamedT15 b (walkFuel b) n name).All (Access.Safe b depth) ↔ ∀ i < n.nchildren,
        (∀ j < i, ∃ d, child15 b (walkFuel b) n j = .ok d ∧ isNamed15 b name d = false) →
        ∀ c, child15 b (walkFuel b) n i = .ok c → ¬ Overruns b name c := by
  rw [childNamedT15, all_bind, all_firstT]
  simp only [Nat.zero_add, tryNamedT15_safe_iff hlen hin hname, tryNamedT15_none_iff hlen hin]
  refine and_iff_left ?_
  rintro (- | c) _
  · exact all_fail _
  · exact all_pure _

theorem findAneT15_safe_iff (aneType : Nat) :
    (findAneT15 b (walkFuel b) aneType).All (Access.Safe b depth) ↔ NoOverrun b := by
  have hfuel := walkFuel_enough b
  rw [findAneT15, NoOverrun]
  split
  next hshort =>
    refine iff_of_true (all_fail _) ?_
    intro e hmin
    omega
  next hmin =>
  rw [all_bind, and_iff_right (nodeAtT15_safe (show 0 < 2 ^ 32 - 64 by decide)), res_nodeAtT15]
  simp only [lift_eq_ok]
  cases hroot : nodeAt15 b 0 with
  | error e => simp
  | ok root =>
    obtain ⟨hin, rfl⟩ := nodeAt15_ok (show 0 < 2 ^ 32 - 64 by decide) hroot
    simp only [Except.ok.injEq, forall_eq', forall_true_left]
    rw [all_bind, and_iff_right (subtreeEndT15_safe hlen _ hin
      (show b.len < 0 + 8 * walkFuel b by omega)), res_subtreeEndT15 hlen _ hin
      (show b.len < 0 + 8 * walkFuel b by omega)]
    simp only [lift_eq_ok]
    refine forall_congr' fun e => ?_
    rw [forall_comm, imp_iff_right (show 8 ≤ b.len by omega)]
    refine forall_congr' fun _ => ?_
    rw [all_bind, childNamedT15_safe_iff hlen hin (by decide)]
    refine and_iff_left ?_
    intro armIo harm
    rw [res_childNamedT15 hlen hfuel hin, lift_eq_ok] at harm
    obtain ⟨-, hin'⟩ := childNamed15_inside hlen hin harm
    rw [all_bind, all_firstT]
    constructor
    · intro i _ _
      rw [tryAneT15, all_bind]
      refine ⟨childT15_safe hlen hfuel hin' _, ?_⟩
      intro c hc
      rw [res_childT15 hlen hfuel hin', lift_eq_ok] at hc
      obtain ⟨-, hinside, -⟩ := child15_inside hlen hin' hc
      rw [all_bind]
      exact ⟨isAneT15_safe hlen aneType hinside, fun _ _ => all_pure _⟩
    · rintro (- | c) _
      · exact all_fail _
      · exact all_pure _

theorem findAne15_inside {fuel aneType : Nat} {c : Node}
    (h : findAne15 b fuel aneType = .ok c) : c.off + 8 ≤ b.len := by
  rw [findAne15] at h
  split at h
  · cases h
  obtain ⟨root, hroot, h⟩ := bind_eq_ok.1 h
  obtain ⟨hin, rfl⟩ := nodeAt15_ok (show 0 < 2 ^ 32 - 64 by decide) hroot
  obtain ⟨e, -, h⟩ := bind_eq_ok.1 h
  obtain ⟨armIo, harm, h⟩ := bind_eq_ok.1 h
  obtain ⟨-, hin'⟩ := childNamed15_inside hlen hin harm
  obtain ⟨found, hfound, hres⟩ := bind_eq_ok.1 h
  cases found with
  | none => cases hres
  | some c' =>
    cases hres
    obtain ⟨i, -, hi, -⟩ := firstM_some hfound
    obtain ⟨d, hd, hi⟩ := bind_eq_ok.1 hi
    obtain ⟨yes, -, htest⟩ := bind_eq_ok.1 hi
    have htest := pure_eq_ok.1 htest
    split at htest
    · cases htest
      exact (child15_inside hlen hin' hd).2.1
    · cases htest

end Find

/-- The reader reads inside the blob, and a node matches on bytes of its own
value only, exactly when no child of the root that it comes to is overrun. -/
theorem readT15_safe_iff {b : Blob} (hlen : b.len ≤ 2 ^ 30) (aneType textExpect dataMin : Nat) :
    (readT15 b (walkFuel b) aneType textExpect dataMin).All (Access.Safe b 0) ↔ NoOverrun b := by
  rw [readT15, all_bind, findAneT15_safe_iff hlen]
  refine and_iff_left ?_
  intro ane hane
  rw [res_findAneT15 hlen (walkFuel_enough b), lift_eq_ok] at hane
  rw [all_bind]
  exact ⟨segmentsT15_safe hlen (findAne15_inside hlen hane) _ _, fun _ _ => all_pure _⟩

/-- A root with one child, which has these properties and no child. -/
def oneChild (props : List (Bytes × Bytes)) : Blob :=
  blobOf (leBytes 4 0 ++ leBytes 4 1 ++ leBytes 4 props.length ++ leBytes 4 0 ++
    props.flatMap fun p => p.1 ++ List.replicate (32 - p.1.length) 0 ++
      leBytes 4 p.2.length ++ p.2 ++
        List.replicate (pad4 p.2.length - p.2.length) 0)

theorem readT15_safe_armIo : NoOverrun (oneChild [(nameText, armIoText ++ [0])]) :=
  (readT15_safe_iff (b := oneChild [(nameText, armIoText ++ [0])]) (by decide)
    176 0 0).1 (by
      unfold Traced.All
      decide +kernel)

/-- The value `arm-` at the end of a blob: the byte behind the blob is read.
With a property `io` behind the value, the node matches on four bytes of its
own and three of that property's name. -/
theorem overruns_value :
    (∃ w ∈ (readT15 (oneChild [(nameText, ascii "arm-")])
        (walkFuel (oneChild [(nameText, ascii "arm-")])) 176 0 0).log,
      w = .read (oneChild [(nameText, ascii "arm-")]).len) ∧
    ∃ w ∈ (readT15 (oneChild [(nameText, ascii "arm-"), (ascii "io", [])])
        (walkFuel (oneChild [(nameText, ascii "arm-"), (ascii "io", [])]))
        176 0 0).log, w = .matched 4 7 := by
  decide +kernel

end OmarchyAne.Adt
