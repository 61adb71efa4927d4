import OmarchyAne.Adt.H15
import OmarchyAne.Adt.H16

/-!
# The two walks over one tree

Where the H15 reader accepts the whole tree, both readers find the children of a
node at the same places (`Kids`).  The H16 reader may stop early: behind a
subtree that is too deep for its stack it sees empty nodes only
(`child16_cases`).

The places grow along the blob, and a subtree ends before the next one starts.
All this is about blobs of at most `2 ^ 30` bytes, where no offset wraps.
-/

namespace OmarchyAne.Adt

open Lib

section Walk

variable {b : Blob} (hlen : b.len ≤ adtMaxLen) {n p fuel e : Nat}

theorem pad4_le (b : Blob) (off : Nat) : pad4 (b.propLen off) ≤ 2 ^ 31 + 2 := by
  have hlt : b.propLen off < 2 ^ 31 := Nat.mod_lt _ (by decide)
  rw [pad4]
  omega

theorem u32_of_lt (h : n < 2 ^ 32) : u32 n = n := Nat.mod_eq_of_lt h

/-! ## The H15 walk -/

/-- An offset that the walk can reach. -/
def Small (off : Nat) : Prop := off < 2 ^ 32 - 64

include hlen

omit hlen in
theorem nodeAt15_ok {off : Nat} {c : Node} (hoff : Small off)
    (h : nodeAt15 b off = .ok c) : off + 8 ≤ b.len ∧ c = b.node off := by
  rw [Small] at hoff
  rw [nodeAt15, u32_of_lt (by omega), u32_of_lt (by omega)] at h
  split at h
  · cases h
  next hin =>
  simp only at h
  split at h
  · cases h
  · exact ⟨by omega, (Except.ok.inj h).symm⟩

/-- The properties of a node, in both readers. -/
theorem propsEnd15_ok {off : Nat} (hoff : Small off) (h : propsEnd15 b n off = .ok p) :
    off ≤ p ∧ Small p ∧
      (p ≤ b.len → propsEnd16 b n off = some p ∧ childProps16 b n off = some p) := by
  rw [Small] at hoff
  induction n generalizing off with
  | zero =>
    cases h
    exact ⟨le_rfl, hoff, fun _ => ⟨rfl, rfl⟩⟩
  | succ n ih =>
    have hpad := pad4_le b off
    rw [adtMaxLen] at hlen
    rw [propsEnd15, u32_of_lt (n := off + 36) (by omega)] at h
    split at h
    · cases h
    next hin =>
    rw [u32_of_lt (by omega)] at h
    obtain ⟨hle, hsmall, hrest⟩ := ih (by omega) h
    refine ⟨by omega, hsmall, ?_⟩
    intro hp
    obtain ⟨hend, hchild⟩ := hrest hp
    rw [← Nat.add_assoc] at hend hchild
    rw [propsEnd16, childProps16, if_neg hin, if_neg (by omega), if_neg hin, if_neg (by omega)]
    exact ⟨hend, hchild⟩

theorem subtreeEnd15_ok {n : Node} (hoff : n.off + 8 ≤ b.len)
    (h : subtreeEnd15 b (fuel + 1) n = .ok e) :
    ∃ p, propsEnd15 b n.nprops (n.off + 8) = .ok p ∧
      repeatM (skip15 b fuel) n.nchildren p = .ok e ∧ e ≤ b.len := by
  rw [adtMaxLen] at hlen
  rw [subtreeEnd15] at h
  obtain ⟨p, hp, h⟩ := bind_eq_ok.1 h
  obtain ⟨e', he, h⟩ := bind_eq_ok.1 h
  split at h
  · cases h
  · cases h
    rw [u32_of_lt (by omega)] at hp
    exact ⟨p, hp, he, by omega⟩

/-- Steps that go forward. -/
theorem repeatM_skip_le
    (hskip : ∀ o o', Small o → skip15 b fuel o = .ok o' → o + 8 ≤ o' ∧ o' ≤ b.len) (hp : Small p)
    (h : repeatM (skip15 b fuel) n p = .ok e) : p ≤ e := by
  induction n generalizing p with
  | zero =>
    cases h
    exact le_rfl
  | succ n ih =>
    obtain ⟨m, hm, hrest⟩ := repeatM_succ_ok.1 h
    obtain ⟨hlow, hhigh⟩ := hskip p m hp hm
    rw [adtMaxLen] at hlen
    have hnext := ih (show m < 2 ^ 32 - 64 by omega) hrest
    omega

theorem skip15_bounds (fuel : Nat) : ∀ o o', Small o →
    skip15 b fuel o = .ok o' → o + 8 ≤ o' ∧ o' ≤ b.len := by
  induction fuel with
  | zero =>
    intro o o' _ h
    obtain ⟨c, -, hend⟩ := bind_eq_ok.1 h
    cases hend
  | succ fuel ih =>
    intro o o' ho h
    obtain ⟨c, hc, hend⟩ := bind_eq_ok.1 h
    obtain ⟨hin, rfl⟩ := nodeAt15_ok ho hc
    obtain ⟨p, hp, hkids, hle⟩ := subtreeEnd15_ok hlen hin hend
    rw [adtMaxLen] at hlen
    obtain ⟨hprops, hsmall, -⟩ := propsEnd15_ok hlen (show o + 8 < 2 ^ 32 - 64 by omega) hp
    have hrest := repeatM_skip_le hlen ih hsmall hkids
    exact ⟨Nat.le_trans hprops hrest, hle⟩

omit hlen in
/-- More fuel changes no result. -/
theorem subtreeEnd15_mono {fuel' : Nat} (hle : fuel ≤ fuel') {n : Node}
    (h : subtreeEnd15 b fuel n = .ok e) : subtreeEnd15 b fuel' n = .ok e := by
  induction fuel generalizing fuel' n e with
  | zero => cases h
  | succ fuel ih =>
    obtain ⟨fuel', rfl⟩ : ∃ k, fuel' = k + 1 := ⟨fuel' - 1, by omega⟩
    rw [subtreeEnd15] at h ⊢
    obtain ⟨p, hp, h⟩ := bind_eq_ok.1 h
    obtain ⟨e', he, h⟩ := bind_eq_ok.1 h
    refine bind_eq_ok.2 ⟨p, hp, bind_eq_ok.2 ⟨e', ?_, h⟩⟩
    apply repeatM_mono _ he
    intro o o' hskip
    obtain ⟨c, hc, hend⟩ := bind_eq_ok.1 hskip
    exact bind_eq_ok.2 ⟨c, hc, ih (by omega) hend⟩

omit hlen in
theorem skip15_mono {fuel' o o' : Nat} (hle : fuel ≤ fuel')
    (h : skip15 b fuel o = .ok o') : skip15 b fuel' o = .ok o' := by
  obtain ⟨c, hc, hend⟩ := bind_eq_ok.1 h
  exact bind_eq_ok.2 ⟨c, hc, subtreeEnd15_mono hle hend⟩

/-! ## The H16 walk -/

omit hlen in
theorem subtreeLoop16_pop (fuel off : Nat) (todo : List Nat) :
    subtreeLoop16 b fuel off (0 :: todo) = subtreeLoop16 b fuel off todo := by
  cases fuel with
  | zero => rfl
  | succ fuel => rfl

omit hlen in
/-- The children of a node, one after the other. -/
theorem subtreeLoop16_kids {fuel15 : Nat}
    (hnode : ∀ o o', Small o → skip15 b fuel15 o = .ok o' → Small o' ∧ ∀ fuel count todo r,
        subtreeLoop16 b fuel o ((count + 1) :: todo) = .ok r →
        r = b.len ∨ ∃ fuel', subtreeLoop16 b fuel' o' (count :: todo) = .ok r)
    (hp : Small p) (h : repeatM (skip15 b fuel15) n p = .ok e) {r : Nat}
    {todo : List Nat} (hloop : subtreeLoop16 b fuel p (n :: todo) = .ok r) :
    r = b.len ∨ ∃ fuel', subtreeLoop16 b fuel' e todo = .ok r := by
  induction n generalizing p fuel with
  | zero =>
    cases h
    rw [subtreeLoop16_pop] at hloop
    exact .inr ⟨fuel, hloop⟩
  | succ n ih =>
    obtain ⟨m, hm, hrest⟩ := repeatM_succ_ok.1 h
    obtain ⟨hsmall, hstep⟩ := hnode p m hp hm
    rcases hstep fuel n todo r hloop with hstop | ⟨fuel', hnext⟩
    · exact .inl hstop
    · exact ih hsmall hrest hnext

/-- A subtree that the H15 reader accepts: the loop comes to its end, or stops
because it is too deep. -/
theorem subtreeLoop16_node (fuel15 : Nat) : ∀ o o', Small o → skip15 b fuel15 o = .ok o' →
    Small o' ∧ ∀ fuel count todo r, subtreeLoop16 b fuel o ((count + 1) :: todo) = .ok r →
      r = b.len ∨ ∃ fuel', subtreeLoop16 b fuel' o' (count :: todo) = .ok r := by
  induction fuel15 with
  | zero =>
    intro o o' _ h
    obtain ⟨c, -, hend⟩ := bind_eq_ok.1 h
    cases hend
  | succ fuel15 ih =>
    intro o o' ho h
    have hbounds := skip15_bounds hlen (fuel15 + 1) o o' ho h
    obtain ⟨c, hc, hend⟩ := bind_eq_ok.1 h
    obtain ⟨hin, rfl⟩ := nodeAt15_ok ho hc
    obtain ⟨p, hp, hkids, hle⟩ := subtreeEnd15_ok hlen hin hend
    have hmax : b.len ≤ 2 ^ 30 := hlen
    obtain ⟨-, hsmall, hprops⟩ := propsEnd15_ok hlen (show o + 8 < 2 ^ 32 - 64 by omega) hp
    have hpe := repeatM_skip_le hlen (skip15_bounds hlen fuel15) hsmall hkids
    obtain ⟨hend16, -⟩ := hprops (by omega)
    refine ⟨show o' < 2 ^ 32 - 64 by omega, ?_⟩
    intro fuel count todo r hloop
    cases fuel with
    | zero => cases hloop
    | succ fuel =>
      rw [subtreeLoop16] at hloop
      simp only [popDone] at hloop
      rw [if_neg (by omega)] at hloop
      change propsEnd16 b (b.le32 o) (o + 8) = some p at hend16
      rw [hend16] at hloop
      simp only [Nat.add_sub_cancel] at hloop
      split at hloop
      next hzero =>
        change repeatM _ (b.le32 (o + 4)) p = _ at hkids
        rw [hzero] at hkids
        cases hkids
        exact .inr ⟨fuel, hloop⟩
      next =>
        split at hloop
        · exact .inl (Except.ok.inj hloop).symm
        · exact subtreeLoop16_kids ih hsmall hkids hloop

theorem subtreeEnd16_cases {fuel15 o o' r : Nat} (ho : Small o)
    (h : skip15 b fuel15 o = .ok o') (hend : subtreeEnd16 b fuel o = .ok r) :
    r = o' ∨ r = b.len := by
  obtain ⟨-, hloop⟩ := subtreeLoop16_node hlen fuel15 o o' ho h
  rcases hloop fuel 0 [] r hend with hstop | ⟨fuel', hrest⟩
  · exact .inr hstop
  · cases fuel' with
    | zero => cases hrest
    | succ fuel' => exact .inl (Except.ok.inj hrest).symm

end Walk

/-! ## The children of a node -/

/-- The subtree of a node ends at an offset. -/
def Ends (b : Blob) (n : Node) (e : Nat) : Prop :=
  ∃ fuel, subtreeEnd15 b fuel n = .ok e

/-- The child of a node at an index, by the walk of the H15 reader. -/
def ChildAt (b : Blob) (n : Node) (i off : Nat) : Prop :=
  ∃ fuel, nthChildOff15 b fuel n i = .ok off

/-- The children of a node are at the offsets `place 0`, `place 1` and so on,
and the last one ends at `place n.nchildren`. -/
structure Kids (b : Blob) (n : Node) (place : Nat → Nat) : Prop where
  first : n.off + 8 ≤ place 0
  props : childProps16 b n.nprops (n.off + 8) = some (place 0)
  childAt : ∀ i off, ChildAt b n i off ↔ i < n.nchildren ∧ off = place i
  next : ∀ i < n.nchildren, place i + 8 ≤ place (i + 1) ∧
    ∃ fuel, skip15 b fuel (place i) = .ok (place (i + 1))
  last : place n.nchildren ≤ b.len

section Kids

variable {b : Blob} (hlen : b.len ≤ adtMaxLen) {n : Node} {place : Nat → Nat} {i j fuel : Nat}

include hlen

theorem exists_kids {e : Nat} (hoff : n.off + 8 ≤ b.len) (h : Ends b n e) :
    ∃ place, Kids b n place ∧ place n.nchildren = e := by
  have hmax : b.len ≤ 2 ^ 30 := hlen
  obtain ⟨fuel, h⟩ := h
  cases fuel with
  | zero => cases h
  | succ fuel =>
    obtain ⟨p, hp, hkids, hle⟩ := subtreeEnd15_ok hlen hoff h
    obtain ⟨hfirst, hsmall, hprops⟩ := propsEnd15_ok hlen (show n.off + 8 < 2 ^ 32 - 64 by omega) hp
    have hpe := repeatM_skip_le hlen (skip15_bounds hlen fuel) hsmall hkids
    -- The place of a child is where the loop is before it.
    have hplace : ∀ i ≤ n.nchildren, ∃ o, repeatM (skip15 b fuel) i p = .ok o := by
      intro i hi
      obtain ⟨k, hk⟩ := Nat.exists_eq_add_of_le hi
      rw [hk] at hkids
      obtain ⟨o, ho, -⟩ := repeatM_add_ok.1 hkids
      exact ⟨o, ho⟩
    obtain ⟨place, hplace⟩ : ∃ place : Nat → Nat, ∀ i ≤ n.nchildren,
        repeatM (skip15 b fuel) i p = .ok (place i) := by
      refine ⟨fun i => ((repeatM (skip15 b fuel) i p).toOption).getD 0, ?_⟩
      intro i hi
      obtain ⟨o, ho⟩ := hplace i hi
      simp only [ho]
      rfl
    have hzero : place 0 = p := (Except.ok.inj (hplace 0 (Nat.zero_le _))).symm
    have hend : place n.nchildren = e := Except.ok.inj ((hplace _ le_rfl).symm.trans hkids)
    have hstep : ∀ i < n.nchildren, skip15 b fuel (place i) = .ok (place (i + 1)) := by
      intro i hi
      obtain ⟨o, ho, hskip⟩ := repeatM_concat_ok.1 (hplace (i + 1) hi)
      obtain rfl := Except.ok.inj ((hplace i (by omega)).symm.trans ho)
      exact hskip
    have hsmalls : ∀ i ≤ n.nchildren, Small (place i) := by
      intro i
      induction i with
      | zero =>
        intro _
        rw [hzero]
        exact hsmall
      | succ i ih =>
        intro hi
        have hbounds := skip15_bounds hlen fuel _ _ (ih (by omega)) (hstep i (by omega))
        exact show place (i + 1) < 2 ^ 32 - 64 by omega
    refine ⟨place, ⟨?_, ?_, ?_, ?_, ?_⟩, hend⟩
    · rw [hzero]
      exact hfirst
    · rw [hzero]
      exact (hprops (by omega)).2
    · intro i off
      constructor
      · rintro ⟨fuel', hchild⟩
        rw [nthChildOff15] at hchild
        split at hchild
        · cases hchild
        next hi =>
        obtain ⟨p', hp', hloop⟩ := bind_eq_ok.1 hchild
        rw [u32_of_lt (by omega)] at hp'
        obtain rfl := Except.ok.inj (hp.symm.trans hp')
        have hmore := repeatM_mono (fun o o' ho =>
          skip15_mono (Nat.le_max_right fuel fuel') ho) hloop
        have hmore' := repeatM_mono (fun o o' ho =>
          skip15_mono (Nat.le_max_left fuel fuel') ho) (hplace i (by omega))
        exact ⟨by omega, Except.ok.inj (hmore.symm.trans hmore')⟩
      · rintro ⟨hi, rfl⟩
        refine ⟨fuel, ?_⟩
        rw [nthChildOff15, if_neg (by omega), u32_of_lt (by omega)]
        exact bind_eq_ok.2 ⟨p, hp, hplace i (by omega)⟩
    · intro i hi
      have hbounds := skip15_bounds hlen fuel _ _ (hsmalls i (by omega)) (hstep i hi)
      exact ⟨hbounds.1, fuel, hstep i hi⟩
    · rw [hend]
      exact hle

omit hlen in
theorem Kids.place_le (h : Kids b n place) (hij : i ≤ j) (hj : j ≤ n.nchildren) :
    place i ≤ place j := by
  induction j with
  | zero =>
    obtain rfl : i = 0 := by omega
    exact le_rfl
  | succ j ih =>
    rcases Nat.lt_or_ge j i with hlt | hge
    · obtain rfl : i = j + 1 := by omega
      exact le_rfl
    · have hstep := (h.next j (by omega)).1
      have hprev := ih hge (by omega)
      omega

omit hlen in
/-- A child is inside its parent. -/
theorem Kids.inside (h : Kids b n place) (hi : i < n.nchildren) :
    n.off + 8 ≤ place i ∧ place i + 8 ≤ place n.nchildren := by
  have hfirst := h.first
  have hlow := h.place_le (Nat.zero_le i) (by omega)
  have hhigh := h.place_le (show i + 1 ≤ n.nchildren by omega) le_rfl
  have hstep := (h.next i hi).1
  omega

omit hlen in
theorem Kids.place_inj (h : Kids b n place) (hi : i < n.nchildren)
    (hj : j < n.nchildren) (heq : place i = place j) : i = j := by
  rcases Nat.lt_trichotomy i j with hlt | rfl | hgt
  · have hstep := (h.next i hi).1
    have hle := h.place_le (show i + 1 ≤ j by omega) (by omega)
    omega
  · rfl
  · have hstep := (h.next j hj).1
    have hle := h.place_le (show j + 1 ≤ i by omega) (by omega)
    omega

theorem Kids.small (h : Kids b n place) (hi : i < n.nchildren) : Small (place i) := by
  have hmax : b.len ≤ 2 ^ 30 := hlen
  have hin := (h.inside hi).2
  have hlast := h.last
  exact show place i < 2 ^ 32 - 64 by omega

/-- A child is a node that ends where the next one starts. -/
theorem Kids.child (h : Kids b n place) (hi : i < n.nchildren) :
    nodeAt15 b (place i) = .ok (b.node (place i)) ∧ Ends b (b.node (place i)) (place (i + 1)) := by
  obtain ⟨-, fuel, hskip⟩ := h.next i hi
  obtain ⟨c, hc, hend⟩ := bind_eq_ok.1 hskip
  obtain ⟨-, rfl⟩ := nodeAt15_ok (h.small hlen hi) hc
  exact ⟨hc, fuel, hend⟩

/-! ## The children that the H16 reader sees -/

omit hlen in
theorem repeatM_skip16_len (fuel k : Nat) : repeatM (skip16 b fuel) k b.len = .ok b.len := by
  have hstay : skip16 b fuel b.len = .ok b.len := by
    rw [skip16, if_pos (by omega)]
  induction k with
  | zero => rfl
  | succ k ih => exact repeatM_succ_ok.2 ⟨b.len, hstay, ih⟩

theorem Kids.skip16_cases (h : Kids b n place) {r : Nat} (hi : i ≤ n.nchildren)
    (hloop : repeatM (skip16 b fuel) i (place 0) = .ok r) :
    r = place i ∨ r = b.len := by
  induction i generalizing r with
  | zero => exact .inl (Except.ok.inj hloop).symm
  | succ i ih =>
    obtain ⟨o, ho, hskip⟩ := repeatM_concat_ok.1 hloop
    rcases ih (by omega) ho with rfl | rfl
    · have hin := (h.inside (show i < n.nchildren by omega)).2
      have hlast := h.last
      obtain ⟨-, fuel15, hnext⟩ := h.next i (by omega)
      rw [skip16, if_neg (by omega)] at hskip
      exact subtreeEnd16_cases hlen (h.small hlen (by omega)) hnext hskip
    · rw [skip16, if_pos (by omega)] at hskip
      exact .inr (Except.ok.inj hskip).symm

omit hlen in
theorem Kids.child16_ok (h : Kids b n place) {c : Node} (hchild : child16 b fuel n i = .ok c) :
    ∃ r, repeatM (skip16 b fuel) i (place 0) = .ok r ∧ c = nodeAt16 b r := by
  rw [child16, h.props] at hchild
  obtain ⟨r, hr, hc⟩ := bind_eq_ok.1 hchild
  exact ⟨r, hr, (pure_eq_ok.1 hc).symm⟩

omit hlen in
theorem Kids.nodeAt16_eq (h : Kids b n place) (hi : i < n.nchildren) :
    nodeAt16 b (place i) = b.node (place i) := by
  have hin := (h.inside hi).2
  have hlast := h.last
  rw [nodeAt16, if_neg (by omega)]

/-- A child that the H16 reader sees and that is not empty is at its place, and
so are those before it. -/
theorem Kids.child16_cases (h : Kids b n place) {c : Node}
    (hi : i < n.nchildren) (hchild : child16 b fuel n i = .ok c)
    (hne : c ≠ nodeAt16 b b.len) (hj : j ≤ i) {d : Node}
    (hd : child16 b fuel n j = .ok d) : d = b.node (place j) := by
  obtain ⟨r, hr, rfl⟩ := h.child16_ok hchild
  obtain ⟨q, hq, rfl⟩ := h.child16_ok hd
  rcases h.skip16_cases hlen (by omega) hq with rfl | rfl
  · exact h.nodeAt16_eq (by omega)
  · -- Behind an empty node there are empty nodes only.
    obtain ⟨k, rfl⟩ := Nat.exists_eq_add_of_le hj
    obtain ⟨m, hm, hrest⟩ := repeatM_add_ok.1 hr
    obtain rfl := Except.ok.inj (hq.symm.trans hm)
    have hstay := Except.ok.inj (hrest.symm.trans (repeatM_skip16_len fuel k))
    rw [hstay] at hne
    exact absurd rfl hne

end Kids

end OmarchyAne.Adt
