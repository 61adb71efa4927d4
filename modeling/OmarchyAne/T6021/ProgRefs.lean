import OmarchyAne.Lib.Lists
import OmarchyAne.T6021.ProgTab
import Mathlib.Data.List.Nodup
import Mathlib.Data.List.Perm.Subperm

/-!
# Program references of the open files

Every open file has a list of the programs it loaded or looked up, and every
program counts the files that hold it.  The lists and the counts are updated
by different functions on different exits of the ioctls.  `Progs` is the
table together with the lists, and `Progs.Agree` says that the two agree.

A close drops the references of its file one after the other.  `progs f` is
then what is left of the list: the C code walks it with an index and empties
it at the end, and nobody else reads the list of a file that is closing.
-/

namespace OmarchyAne.T6021

open Lib List

variable {δ β κ : Type}

abbrev FileId := Nat

/-- The program table and the reference lists of the files. -/
structure Progs (δ β : Type) where
  tab : ProgTab δ β
  /-- The files whose references are not dropped yet. -/
  files : List FileId
  progs : FileId → FdProgs

namespace Progs

variable {s : Progs δ β} {f : FileId} {id : UInt32} {s' : Progs δ β} {i : Nat} {p : Prog δ β}
  {digest : δ} {progId : UInt32} {serial : Nat} {sec : List (Option β)} {q : Prog δ β}
  {rest : FdProgs}

/-- A new file has no references. -/
def openFile (s : Progs δ β) (f : FileId) : Progs δ β :=
  { s with
    files := f :: s.files
    progs := Function.update s.progs f FdProgs.empty }

/-- The file `f` takes a reference on the program `p` in slot `i`. -/
def ref (s : Progs δ β) (f : FileId) (i : Nat) (p : Prog δ β) :
    Option (Progs δ β) :=
  match fdprogsRef (s.progs f) s.tab i p with
  | none => none
  | some (fp, t) =>
    some { s with tab := t, progs := Function.update s.progs f fp }

/-- Add a program with its sections: the new state, the slot and what is in
it. -/
def add (s : Progs δ β) (digest : δ) (progId : UInt32) (serial : Nat)
    (sec : List (Option β)) : Option (Progs δ β × Nat × Prog δ β) :=
  match progtabAdd s.tab digest progId serial with
  | none => none
  | some (t, i) =>
    let np : Prog δ β := Prog.loaded digest progId serial
    let p := { np with sec := sec }
    some ({ s with tab := t.set i p }, i, p)

/-- The process of the program in slot `i` exists now. -/
def setProc (s : Progs δ β) (i : Nat) (p : Prog δ β) (procId : UInt32) :
    Progs δ β :=
  { s with tab := s.tab.set i { p with procId := procId } }

/-- One turn of the close loop of file `f`. -/
def put [Inhabited δ] (ops : ProgtabOps δ β κ) (unloadOnClose : Bool)
    (s : Progs δ β) (ctx : κ) (f : FileId) (id : UInt32) (rest : FdProgs) :
    Progs δ β × κ :=
  let r := progtabPut ops unloadOnClose s.tab ctx id
  ({ s with tab := r.1, progs := Function.update s.progs f rest }, r.2.1)

/-- The references of `f` are dropped. -/
def closeFile (s : Progs δ β) (f : FileId) : Progs δ β :=
  { s with files := s.files.erase f }

/-- How many files hold a reference on the id. -/
def holders (s : Progs δ β) (progId : UInt32) : Nat :=
  s.files.countP (fun f => fdprogsHas (s.progs f) progId)

/-- Slot `i` holds the LIVE program `p`. -/
def Live (s : Progs δ β) (i : Nat) (p : Prog δ β) : Prop :=
  s.tab.slots[i]? = some p ∧ p.state = .live

/-- A LIVE program has the id. -/
def LiveId (s : Progs δ β) (progId : UInt32) : Prop :=
  ∃ i p, s.Live i p ∧ p.progId = progId

/-- The reference counts of the table agree with the lists of the files. -/
structure Agree (s : Progs δ β) : Prop where
  files_nodup : s.files.Nodup
  ids_nodup : ∀ f ∈ s.files, (s.progs f).ids.Nodup
  named : ∀ f ∈ s.files, ∀ id ∈ (s.progs f).ids, s.LiveId id
  users : ∀ i p, s.Live i p → p.users = s.holders p.progId
  distinct : ∀ i j p q, s.Live i p → s.Live j q → p.progId = q.progId → i = j

/-! ## Counting the holders -/

/-- Changing the list of one file moves the count of an id by what that file
holds of it. -/
theorem holders_update (hnodup : s.files.Nodup) (hf : f ∈ s.files)
    (fp : FdProgs) (t : ProgTab δ β) (id : UInt32) :
    holders { s with tab := t, progs := Function.update s.progs f fp } id +
        (fdprogsHas (s.progs f) id).toNat =
      s.holders id + (fdprogsHas fp id).toNat := by
  have hfun : (fun g => fdprogsHas (Function.update s.progs f fp g) id) =
      Function.update (fun g => fdprogsHas (s.progs g) id) f
        (fdprogsHas fp id) := by
    funext g
    by_cases h : g = f
    · rw [h, Function.update_self, Function.update_self]
    · rw [Function.update_of_ne h, Function.update_of_ne h]
  simp only [holders, hfun]
  exact countP_update hnodup hf _ _

theorem holders_pos (hf : f ∈ s.files) (hid : id ∈ (s.progs f).ids) : 0 < s.holders id :=
  countP_pos_iff.mpr ⟨f, hf, fdprogsHas_iff.mpr hid⟩

theorem holders_eq_zero (h : ∀ f ∈ s.files, id ∉ (s.progs f).ids) : s.holders id = 0 := by
  rw [holders, countP_eq_zero]
  intro f hf hhas
  exact h f hf (fdprogsHas_iff.mp hhas)

/-! ## What the operations do -/

/-- What `add` does: the new program is LIVE in a slot that was not in use,
and nothing else changes. -/
theorem add_some (h : s.add digest progId serial sec = some (s', i, p)) :
    (∀ q, s.tab.slots[i]? = some q → q.state = .free) ∧
      p = { (Prog.loaded digest progId serial : Prog δ β) with sec := sec } ∧
      (∀ j, s'.tab.slots[j]? = if j = i then some p else s.tab.slots[j]?) ∧
      s'.files = s.files ∧ s'.progs = s.progs := by
  rw [Progs.add] at h
  split at h
  · cases h
  · rename_i t k hadd
    simp only [Option.some.injEq, Prod.mk.injEq] at h
    obtain ⟨rfl, rfl, rfl⟩ := h
    obtain ⟨hfree, hslots⟩ := progtabAdd_some hadd
    refine ⟨hfree, rfl, fun j => ?_, rfl, rfl⟩
    have hk : t.slots[k]? = some (Prog.loaded digest progId serial) := by
      simp [hslots]
    rw [ProgTab.getElem_set hk, hslots]
    split_ifs <;> rfl

/-! ## The operations keep the agreement -/

theorem Agree.openFile (h : s.Agree) (hf : f ∉ s.files) : (s.openFile f).Agree := by
  have hother : ∀ g ∈ s.files, Function.update s.progs f FdProgs.empty g = s.progs g := by
    intro g hg
    have hne : g ≠ f := fun he => hf (he ▸ hg)
    rw [Function.update_of_ne hne]
  have hholders : ∀ id, (s.openFile f).holders id = s.holders id := by
    intro id
    simp only [holders, Progs.openFile, countP_cons, Function.update_self]
    rw [countP_congr (fun g hg => by rw [hother g hg])]
    simp [fdprogsHas, FdProgs.empty]
  refine ⟨nodup_cons.mpr ⟨hf, h.files_nodup⟩, ?_, ?_, ?_, h.distinct⟩
  · intro g hg
    rcases mem_cons.mp hg with rfl | hg
    · simp [Progs.openFile, FdProgs.empty]
    · simpa only [Progs.openFile, hother g hg] using h.ids_nodup g hg
  · intro g hg id hid
    rcases mem_cons.mp hg with rfl | hg
    · simp [Progs.openFile, FdProgs.empty] at hid
    · simp only [Progs.openFile, hother g hg] at hid
      exact h.named g hg id hid
  · intro i p hp
    rw [hholders]
    exact h.users i p hp

/-- A list without duplicates that names LIVE programs only is no longer than
the table. -/
theorem Agree.length_le {ids : List UInt32} (hnodup : ids.Nodup) (hlive : ∀ id ∈ ids, s.LiveId id) :
    ids.length ≤ s.tab.slots.length := by
  have hsub : ids ⊆ s.tab.slots.map (fun p => p.progId) := by
    intro id hid
    obtain ⟨i, p, ⟨hp, -⟩, rfl⟩ := hlive id hid
    exact mem_map_of_mem (mem_of_getElem? hp)
  simpa using (hnodup.subperm hsub).length_le

/-- A reference on a LIVE program never finds the list full. -/
theorem Agree.ref_isSome (h : s.Agree) (hf : f ∈ s.files) (hp : s.Live i p) :
    (s.ref f i p).isSome = true := by
  simp only [Progs.ref, fdprogsRef]
  by_cases hhas : fdprogsHas (s.progs f) p.progId = true
  · simp [hhas]
  · have hnew : p.progId ∉ (s.progs f).ids :=
      fun hmem => hhas (fdprogsHas_iff.mpr hmem)
    -- the list with the new id still names distinct LIVE programs
    have hlen : (p.progId :: (s.progs f).ids).length ≤ s.tab.slots.length := by
      apply Agree.length_le (nodup_cons.mpr ⟨hnew, h.ids_nodup f hf⟩)
      intro id hid
      rcases mem_cons.mp hid with rfl | hid
      · exact ⟨i, p, hp, rfl⟩
      · exact h.named f hf id hid
    have hroom : (s.progs f).ids.length < maxPrograms := Nat.lt_of_lt_of_le hlen s.tab.bounded
    simp [hhas, hroom]

/-- The LIVE programs after slot `i` was overwritten. -/
theorem live_set (hp : s.tab.slots[i]? = some p) {fp : FileId → FdProgs} {j : Nat} {r : Prog δ β} :
    Live { s with tab := s.tab.set i q, progs := fp } j r ↔
      if j = i then r = q ∧ q.state = .live else s.Live j r := by
  simp only [Live, ProgTab.getElem_set hp]
  split_ifs with hj
  · constructor
    · rintro ⟨hq, hlive⟩
      cases hq
      exact ⟨rfl, hlive⟩
    · rintro ⟨rfl, hlive⟩
      exact ⟨rfl, hlive⟩
  · rfl

/-- The file `f` has the list `fp` now and slot `i` the program `q` with the
same state and id.  The agreement stays when the users moved as the list. -/
theorem Agree.update (h : s.Agree) (hf : f ∈ s.files) {fp : FdProgs}
    (hnodup : fp.ids.Nodup) (hnamed : ∀ id ∈ fp.ids, s.LiveId id)
    (hp : s.Live i p) (hstate : q.state = .live) (hid : q.progId = p.progId)
    (husers : q.users + (fdprogsHas (s.progs f) p.progId).toNat =
      p.users + (fdprogsHas fp p.progId).toNat)
    (hsame : ∀ id ≠ p.progId, fdprogsHas fp id = fdprogsHas (s.progs f) id) :
    Agree { s with
      tab := s.tab.set i q, progs := Function.update s.progs f fp } := by
  have hlive : ∀ id, s.LiveId id → LiveId { s with
      tab := s.tab.set i q, progs := Function.update s.progs f fp } id := by
    rintro id ⟨j, r, hr, rfl⟩
    by_cases hj : j = i
    · subst hj
      obtain rfl : p = r := Option.some.inj (hp.1.symm.trans hr.1)
      exact ⟨j, q, (live_set hp.1).mpr (by simp [hstate]), hid⟩
    · exact ⟨j, r, (live_set hp.1).mpr (by simpa [hj] using hr), rfl⟩
  refine ⟨h.files_nodup, ?_, ?_, ?_, ?_⟩
  · intro g hg
    by_cases hgf : g = f
    · simpa [hgf] using hnodup
    · simpa [hgf] using h.ids_nodup g hg
  · intro g hg id hmem
    apply hlive
    by_cases hgf : g = f
    · exact hnamed id (by simpa [hgf] using hmem)
    · exact h.named g hg id (by simpa [hgf] using hmem)
  · intro j r hr
    have hcount := holders_update h.files_nodup hf fp (s.tab.set i q) r.progId
    rw [live_set hp.1] at hr
    split_ifs at hr with hj
    · obtain ⟨rfl, -⟩ := hr
      have hold := h.users i p hp
      rw [hid] at hcount ⊢
      omega
    · have hne : r.progId ≠ p.progId :=
        fun he => hj (h.distinct j i r p hr hp he)
      have hold := h.users j r hr
      rw [hsame _ hne] at hcount
      omega
  · intro j k r r' hr hr' heq
    rw [live_set hp.1] at hr hr'
    split_ifs at hr hr' with hj hk hk
    · rw [hj, hk]
    · obtain ⟨rfl, -⟩ := hr
      exact hj.trans (h.distinct i k p r' hp hr' (hid ▸ heq))
    · obtain ⟨rfl, -⟩ := hr'
      exact (h.distinct j i r p hr hp (heq.trans hid)).trans hk.symm
    · exact h.distinct j k r r' hr hr' heq

theorem Agree.ref (h : s.Agree) (hf : f ∈ s.files) (hp : s.Live i p)
    (href : s.ref f i p = some s') : s'.Agree := by
  simp only [Progs.ref, fdprogsRef] at href
  by_cases hhas : fdprogsHas (s.progs f) p.progId = true
  · simp only [hhas, if_true, Option.some.injEq] at href
    rw [← href, Function.update_eq_self]
    exact h
  · have hnew : p.progId ∉ (s.progs f).ids :=
      fun hmem => hhas (fdprogsHas_iff.mpr hmem)
    simp only [hhas, if_false, Bool.false_eq_true] at href
    split_ifs at href with hlt
    · rw [← Option.some.inj href]
      refine h.update hf ?_ ?_ hp hp.2 rfl ?_ ?_
      · rw [nodup_append]
        refine ⟨h.ids_nodup f hf, by simp, fun a ha b hb => ?_⟩
        rw [mem_singleton.mp hb]
        exact fun he => hnew (he ▸ ha)
      · intro id hid
        rcases mem_append.mp hid with hid | hid
        · exact h.named f hf id hid
        · exact ⟨i, p, hp, (mem_singleton.mp hid).symm⟩
      · have hlast : fdprogsHas ⟨(s.progs f).ids ++ [p.progId], by
            rw [length_append]; exact hlt⟩ p.progId = true :=
          fdprogsHas_iff.mpr (by simp)
        rw [hlast, Bool.eq_false_iff.mpr hhas]
        rfl
      · intro id hne
        simp [fdprogsHas, Ne.symm hne]

/-- A new program keeps the agreement when its id is not that of a LIVE
program. -/
theorem Agree.add (h : s.Agree) (hfresh : ¬ s.LiveId progId)
    (hadd : s.add digest progId serial sec = some (s', i, p)) :
    s'.Agree ∧ s'.Live i p := by
  obtain ⟨hfree, hp, hslots, hfiles, hprogs⟩ := add_some hadd
  have hnew : s'.Live i p := ⟨by simp [hslots], by rw [hp]; rfl⟩
  have hpid : p.progId = progId := by rw [hp]; rfl
  have hlive : ∀ j q, s'.Live j q ↔ if j = i then q = p else s.Live j q := by
    intro j q
    simp only [Live, hslots]
    split_ifs with hj
    · constructor
      · exact fun hq => (Option.some.inj hq.1).symm
      · rintro rfl
        exact ⟨rfl, hnew.2⟩
    · rfl
  have hkeep : ∀ j q, s.Live j q → s'.Live j q := by
    intro j q hq
    rw [hlive]
    split_ifs with hj
    · exact absurd (hfree q (hj ▸ hq.1)) (by simp [hq.2])
    · exact hq
  have hholders : ∀ id, s'.holders id = s.holders id := by
    intro id
    simp only [holders, hfiles, hprogs]
  refine ⟨⟨hfiles ▸ h.files_nodup, ?_, ?_, ?_, ?_⟩, hnew⟩
  · rw [hfiles, hprogs]
    exact h.ids_nodup
  · rw [hfiles, hprogs]
    intro f hf id hid
    obtain ⟨j, q, hq, rfl⟩ := h.named f hf id hid
    exact ⟨j, q, hkeep j q hq, rfl⟩
  · intro j q hq
    rw [hholders]
    rw [hlive] at hq
    split_ifs at hq with hj
    · -- nobody holds the new program yet
      subst hq
      rw [hpid, holders_eq_zero]
      · rw [hp]
        rfl
      · exact fun f hf hid => hfresh (h.named f hf _ hid)
    · exact h.users j q hq
  · intro j k q r hq hr heq
    rw [hlive] at hq hr
    split_ifs at hq hr with hj hk hk
    · rw [hj, hk]
    · subst hq
      exact absurd ⟨k, r, hr, heq.symm.trans hpid⟩ hfresh
    · subst hr
      exact absurd ⟨j, q, hq, heq.trans hpid⟩ hfresh
    · exact h.distinct j k q r hq hr heq

theorem Agree.setProc (h : s.Agree) (hf : f ∈ s.files) (hp : s.Live i p)
    (procId : UInt32) : (s.setProc i p procId).Agree := by
  have hupd := h.update hf (h.ids_nodup f hf) (h.named f hf) hp
    (q := { p with procId := procId }) hp.2 rfl rfl (fun _ _ => rfl)
  rw [Function.update_eq_self] at hupd
  exact hupd

/-- The last reference on a program goes and its slot stops being LIVE. -/
theorem Agree.retire (h : s.Agree) (hf : f ∈ s.files)
    (hids : (s.progs f).ids = p.progId :: rest.ids) (hp : s.Live i p)
    (husers : p.users = 1) (hq : q.state ≠ .live) :
    Agree { s with
      tab := s.tab.set i q, progs := Function.update s.progs f rest } := by
  have hnodup := h.ids_nodup f hf
  rw [hids, nodup_cons] at hnodup
  have hhas : ∀ id, fdprogsHas (s.progs f) id = (p.progId == id || fdprogsHas rest id) := by
    intro id
    simp [fdprogsHas, hids]
  have hcount := holders_update h.files_nodup hf rest (s.tab.set i q)
  -- the file was the only holder
  have hzero : ∀ g ∈ s.files, p.progId ∉ (Function.update s.progs f rest g).ids := by
    intro g hg hmem
    have hpos := holders_pos (s := { s with
      tab := s.tab.set i q, progs := Function.update s.progs f rest }) hg hmem
    have hold := h.users i p hp
    have hmove := hcount p.progId
    have hlast : fdprogsHas rest p.progId = false :=
      Bool.eq_false_iff.mpr (fun hh => hnodup.1 (fdprogsHas_iff.mp hh))
    rw [hhas, hlast] at hmove
    simp at hmove
    omega
  refine ⟨h.files_nodup, ?_, ?_, ?_, ?_⟩
  · intro g hg
    by_cases hgf : g = f
    · simpa [hgf] using hnodup.2
    · simpa [hgf] using h.ids_nodup g hg
  · intro g hg id hmem
    have hold : id ∈ (s.progs g).ids := by
      by_cases hgf : g = f
      · subst hgf
        simp only [Function.update_self] at hmem
        rw [hids]
        exact mem_cons_of_mem _ hmem
      · simpa [hgf] using hmem
    obtain ⟨j, r, hr, rfl⟩ := h.named g hg id hold
    refine ⟨j, r, (live_set hp.1).mpr ?_, rfl⟩
    have hj : j ≠ i := by
      rintro rfl
      obtain rfl : p = r := Option.some.inj (hp.1.symm.trans hr.1)
      exact hzero g hg hmem
    simpa [hj] using hr
  · intro j r hr
    rw [live_set hp.1] at hr
    split_ifs at hr with hj
    · exact absurd hr.2 hq
    · have hne : r.progId ≠ p.progId :=
        fun he => hj (h.distinct j i r p hr hp he)
      have hold := h.users j r hr
      have hmove := hcount r.progId
      rw [hhas] at hmove
      rw [beq_eq_false_iff_ne.mpr (Ne.symm hne), Bool.false_or] at hmove
      omega
  · intro j k r r' hr hr' heq
    rw [live_set hp.1] at hr hr'
    split_ifs at hr hr' with hj hk hk
    · exact absurd hr.2 hq
    · exact absurd hr.2 hq
    · exact absurd hr'.2 hq
    · exact h.distinct j k r r' hr hr' heq

/-- One turn of the close loop keeps the agreement. -/
theorem Agree.put [Inhabited δ] (h : s.Agree) (hf : f ∈ s.files)
    (hids : (s.progs f).ids = id :: rest.ids) (ops : ProgtabOps δ β κ)
    (unloadOnClose : Bool) (ctx : κ) :
    (s.put ops unloadOnClose ctx f id rest).1.Agree := by
  have hmem : id ∈ (s.progs f).ids := by simp [hids]
  have hout := progtabPut_outcome ops unloadOnClose s.tab ctx id
  simp only [Progs.put]
  generalize progtabPut ops unloadOnClose s.tab ctx id = r at hout
  have hnodup := h.ids_nodup f hf
  rw [hids, nodup_cons] at hnodup
  cases hout with
  | skip hskip =>
    -- the id names a LIVE program, and the file is one of its users
    exfalso
    obtain ⟨i, p, hp, hid⟩ := h.named f hf id hmem
    cases hfind : progtabById s.tab id with
    | none => exact progtabById_none hfind hp.1 hp.2 hid
    | some j =>
      obtain ⟨q, hq, hlive, hqid⟩ := progtabById_some hfind
      have hzero := hskip j q hfind hq
      have hcnt := h.users j q ⟨hq, hlive⟩
      have hpos := holders_pos hf hmem
      rw [hqid] at hcnt
      omega
  | @dropped i p hp hlive hid husers =>
    refine h.update hf hnodup.2 ?_ ⟨hp, hlive⟩ hlive rfl ?_ ?_
    · intro x hx
      exact h.named f hf x (by simp [hids, hx])
    · have hlast : fdprogsHas rest p.progId = false :=
        Bool.eq_false_iff.mpr (fun hh =>
          hnodup.1 (hid ▸ fdprogsHas_iff.mp hh))
      rw [hlast, fdprogsHas_iff.mpr (hid ▸ hmem)]
      simp
      omega
    · intro x hx
      simp [fdprogsHas, hids, Ne.symm (hid ▸ hx)]
  | kept hp hlive hid husers hunload =>
    exact h.retire hf (hid ▸ hids) ⟨hp, hlive⟩ husers (by simp)
  | unloaded hp hlive hid husers hunload =>
    exact h.retire hf (hid ▸ hids) ⟨hp, hlive⟩ husers (by simp [Prog.cleared])

theorem Agree.closeFile (h : s.Agree) (hids : (s.progs f).ids = []) : (s.closeFile f).Agree := by
  have hsub : ∀ g ∈ s.files.erase f, g ∈ s.files :=
    fun g hg => mem_of_mem_erase hg
  refine ⟨h.files_nodup.erase f, fun g hg => h.ids_nodup g (hsub g hg),
    fun g hg => h.named g (hsub g hg), ?_, h.distinct⟩
  intro i p hp
  have hnone : fdprogsHas (s.progs f) p.progId = false := by
    simp [fdprogsHas, hids]
  have hold := h.users i p hp
  simp only [holders, Progs.closeFile, countP_erase, hnone] at hold ⊢
  simpa using hold

end Progs

end OmarchyAne.T6021
