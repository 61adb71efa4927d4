import OmarchyAne.Stats.Busy

/-!
# The lines of the timeline

A slot of the ring belongs to one submission at a time as long as the ring is
not lapped: a submission starts to write its slot when the earlier submissions
of the slot have completed and no reader is inside it (`unlapped`).  Then an
even sequence word stands for the submission that wrote every word of the slot
(`SlotInv.committed`), and a line that is printed is not torn
(`lines_whole`).

The reader loads the sequence word first and does not look at it again.  A
submission that takes the slot over in between is not noticed
(`lines_torn`).
-/

namespace OmarchyAne.Stats

open Lib Stats.Ring List

variable {r r' : Ring} {u u' : Sub} {subs : List Sub} {v : Show}

/-! ## Writers -/

/-- The order in which the words of a slot are stored and loaded. -/
def Field.rank : Field → Nat
  | submitNs => 0
  | startNs => 1
  | endNs => 2
  | tasks => 3
  | rc => 4
  | tmst => 5

namespace Pc

/-- Between the odd and the even sequence word. -/
def writing : Pc → Bool
  | take | read | enter _ | readMax | latch _ | openUp | pair | storeSeq
  | done => false
  | _ => true

/-- The number of words that `ane_stats_begin` has stored. -/
def stored : Pc → Nat
  | take | read | enter _ | readMax | latch _ | openUp | pair | storeSeq => 0
  | readStart => 1
  | store f => f.rank
  | _ => 6

end Pc

/-- What a step of a submission does to the ring. -/
inductive SlotMove (r : Ring) (u : Sub) : Ring → Sub → Prop where
  /-- A ticket is taken. -/
  | take {u' : Sub} (pc : u.pc = .take) (ticket : u'.ticket = r.head + 1)
      (pc' : u'.pc = .read) : SlotMove r u { r with head := r.head + 1 } u'
  /-- The ring stays. -/
  | quiet {u' : Sub} (ticket : u'.ticket = u.ticket) (pc : u.pc ≠ .take)
      (pc' : u'.pc ≠ .take ∧ u'.pc ≠ .done) (open' : u.pc ≠ .done)
      (writing : u'.pc.writing = u.pc.writing)
      (stored : u'.pc.stored = u.pc.stored) : SlotMove r u r u'
  /-- The slot is taken over. -/
  | seize {u' : Sub} (ticket : u'.ticket = u.ticket) (pc : u.pc = .storeSeq)
      (pc' : u'.pc = .store .submitNs) :
      SlotMove r u (r.setSeq u.ticket (2 * u.ticket - 1)) u'
  /-- A word is stored. -/
  | word {u' : Sub} (f : Field) (val : Nat) (ticket : u'.ticket = u.ticket)
      (writing : u.pc.writing) (writing' : u'.pc.writing)
      (stored : ∀ g : Field, g.rank < u'.pc.stored → g.rank < u.pc.stored ∨ g = f) :
      SlotMove r u (r.setCell u.ticket f val) u'
  /-- The slot is committed. -/
  | commit {u' : Sub} (ticket : u'.ticket = u.ticket) (pc : u.pc = .commitSeq)
      (pc' : u'.pc = .done) : SlotMove r u (r.setSeq u.ticket (2 * u.ticket)) u'

theorem countersStep_ticket (c : Counters) (u : Sub) : (u.countersStep c).2.ticket = u.ticket := by
  unfold Sub.countersStep Sub.enterStep Sub.leaveStep Sub.foldStep
  cases hpc : u.pc with
  | enter | leave | fold | feed =>
    simp only
    split_ifs <;> rfl
  | _ => rfl

theorem step_slotMove {c c' : Counters} (h : u.step c r = some (c', r', u')) :
    SlotMove r u r' u' := by
  obtain ⟨rfl, ⟨hpc, -, rfl⟩ | ⟨htake, hbegun, hdone, -, rfl⟩⟩ :=
    Sub.step_cases h
  · rw [Sub.ringStep, hpc]
    exact .take hpc rfl rfl
  · have hticket := countersStep_ticket c u
    unfold Sub.ringStep
    cases hpc : u.pc with
    | take => exact absurd hpc htake
    | begun => exact absurd hpc hbegun
    | done => exact absurd hpc hdone
    | storeSeq =>
      exact .seize hticket hpc (by rw [Sub.countersStep, hpc])
    | commitSeq =>
      exact .commit hticket hpc (by rw [Sub.countersStep, hpc])
    | store f =>
      have hpc' : (u.countersStep c).2.pc = Sub.beginNext f := by
        rw [Sub.countersStep, hpc]
      refine .word f _ hticket (by rw [hpc]; rfl) ?_ (fun g hg => ?_)
      · rw [hpc']
        cases f <;> rfl
      · rw [hpc'] at hg
        rw [hpc]
        cases f <;> cases g <;>
          simp_all [Sub.beginNext, Pc.stored, Field.rank]
    | commitEnd | commitRc | commitTmst =>
      refine .word _ _ hticket (by rw [hpc]; rfl) ?_ (fun g hg => .inl ?_)
      · rw [Sub.countersStep, hpc]; rfl
      · rw [hpc]
        cases g <;> decide
    | enter | leave | fold | feed =>
      refine .quiet hticket htake ?_ hdone ?_ ?_ <;>
        rw [Sub.countersStep, hpc] <;>
        simp only [Sub.enterStep, Sub.leaveStep, Sub.foldStep] <;>
        split_ifs <;> simp [Pc.writing, Pc.stored]
    | _ =>
      refine .quiet hticket htake ?_ hdone ?_ ?_ <;>
        rw [Sub.countersStep, hpc] <;> simp [Pc.writing, Pc.stored, Field.rank]

/-! ## The condition -/

/-- The reader is inside a slot whose sequence word matched. -/
def Show.inside (v : Show) : Bool :=
  match v.pc with
  | .load _ => v.seq == 2 * v.ticket
  | _ => false

/-- A submission takes a slot over when the earlier submissions of the slot
have completed and no reader is inside the slot. -/
def unlapped (s : St) : Act → Bool
  | .sub i =>
    match s.subs[i]? with
    | none => true
    | some u =>
      u.pc ≠ .storeSeq ||
        (s.subs.all (fun v => v.ticket == 0 || u.ticket ≤ v.ticket ||
          s.ring.index v.ticket != s.ring.index u.ticket || v.pc == .done) &&
        s.shows.all (fun v => !v.inside || s.ring.index v.ticket != s.ring.index u.ticket))
  | _ => true

/-! ## Slots -/

namespace Ring

variable {r : Ring} {t t' : Nat}

theorem entry_update (f : Entry → Entry) : (r.update t f).entry t' =
      if r.index t' = r.index t then f (r.entry t') else r.entry t' := rfl

end Ring

/-- The earlier submissions of the slot have completed. -/
def SlotFree (r : Ring) (subs : List Sub) (u : Sub) : Prop :=
  ∀ v ∈ subs, v.ticket ≠ 0 → v.ticket < u.ticket →
    r.index v.ticket = r.index u.ticket → v.pc = .done

/-- The invariant of the ring and its writers. -/
structure SlotInv (r : Ring) (subs : List Sub) : Prop where
  ticket : ∀ u ∈ subs, u.ticket ≤ r.head ∧ (u.pc ≠ .take → 1 ≤ u.ticket)
  distinct : ∀ {i j : Nat} {u v : Sub}, subs[i]? = some u → subs[j]? = some v →
    u.ticket = v.ticket → u.ticket ≠ 0 → i = j
  /-- Behind a submission that writes, the slot is finished. -/
  turn : ∀ u ∈ subs, u.pc.writing → SlotFree r subs u
  /-- A submission that writes has marked the slot and stored its words. -/
  owner : ∀ u ∈ subs, u.pc.writing →
    (r.entry u.ticket).seq = 2 * u.ticket - 1 ∧
      ∀ g : Field, g.rank < u.pc.stored →
        ((r.entry u.ticket).cell g).ticket = u.ticket
  /-- An even sequence word stands for every word of the slot. -/
  committed : ∀ k t, (r.slots k).seq = 2 * t →
    ∀ g, ((r.slots k).cell g).ticket = t

namespace SlotInv

variable {r r' : Ring} {subs : List Sub} {i j : Nat} {u u' v : Sub}

/-- Two submissions never write one slot. -/
theorem alone (h : SlotInv r subs) (hu : subs[i]? = some u)
    (hv : subs[j]? = some v) (hne : j ≠ i) (hwu : u.pc.writing)
    (hwv : v.pc.writing) : r.index v.ticket ≠ r.index u.ticket := by
  intro hidx
  have hmu := mem_of_getElem? hu
  have hmv := mem_of_getElem? hv
  have hposu := (h.ticket u hmu).2 (by rintro hpc; simp [hpc, Pc.writing] at hwu)
  have hposv := (h.ticket v hmv).2 (by rintro hpc; simp [hpc, Pc.writing] at hwv)
  rcases Nat.lt_trichotomy v.ticket u.ticket with hlt | heq | hgt
  · have hdone := h.turn u hmu hwu v hmv (by omega) hlt hidx
    simp [hdone, Pc.writing] at hwv
  · exact hne (h.distinct hv hu heq (by omega))
  · have hdone := h.turn v hmv hwv u hmu (by omega) hgt hidx.symm
    simp [hdone, Pc.writing] at hwu

section Move

variable (h : SlotInv r subs) (hu : subs[i]? = some u)
  (hmove : SlotMove r u r' u')

include hmove

/-- A step keeps the ticket, or takes a new one. -/
theorem ticket_move : (u'.ticket = u.ticket ∧ r'.head = r.head ∧ u.pc ≠ .take ∧ u.pc ≠ .done) ∨
      (u'.ticket = r.head + 1 ∧ r'.head = r.head + 1 ∧ u'.pc = .read) := by
  cases hmove with
  | take pc ticket pc' => exact .inr ⟨ticket, rfl, pc'⟩
  | quiet ticket pc pc' open' => exact .inl ⟨ticket, rfl, pc, open'⟩
  | seize ticket pc | commit ticket pc =>
    exact .inl ⟨ticket, rfl, by simp [pc], by simp [pc]⟩
  | word f val ticket writing =>
    refine .inl ⟨ticket, rfl, fun hpc => ?_, fun hpc => ?_⟩ <;>
      simp [hpc, Pc.writing] at writing

theorem index_move (t : Nat) : r'.index t = r.index t := by
  cases hmove <;> rfl

include h hu

theorem ticket_set : ∀ v ∈ subs.set i u', v.ticket ≤ r'.head ∧ (v.pc ≠ .take → 1 ≤ v.ticket) := by
  intro v hv
  obtain ⟨j, hj⟩ := mem_iff_getElem?.mp hv
  have hmu := h.ticket u (mem_of_getElem? hu)
  obtain ⟨-, rfl⟩ | ⟨-, hv⟩ := getElem?_set_cases hj
  · obtain ⟨ht, hhead, hpc, -⟩ | ⟨ht, hhead, -⟩ := ticket_move hmove
    · have := hmu.2 hpc
      exact ⟨by omega, fun _ => by omega⟩
    · exact ⟨by omega, fun _ => by omega⟩
  · have hmv := h.ticket v (mem_of_getElem? hv)
    obtain ⟨-, hhead, -⟩ | ⟨-, hhead, -⟩ := ticket_move hmove <;>
      exact ⟨by omega, hmv.2⟩

theorem distinct_set {k : Nat} {w : Sub} (hv : (subs.set i u')[j]? = some v)
    (hw : (subs.set i u')[k]? = some w) (heq : v.ticket = w.ticket) (hne : v.ticket ≠ 0) :
    j = k := by
  -- The changed submission has its old ticket or one that is new.
  have hnew : ∀ {k w}, subs[k]? = some w → u'.ticket = w.ticket →
      u'.ticket ≠ 0 → i = k := by
    intro k w hw heq hne
    have hmw := (h.ticket w (mem_of_getElem? hw)).1
    obtain ⟨ht, -⟩ | ⟨ht, -⟩ := ticket_move hmove
    · exact h.distinct hu hw (by omega) (by omega)
    · omega
  obtain ⟨rfl, rfl⟩ | ⟨-, hvold⟩ := getElem?_set_cases hv <;>
    obtain ⟨rfl, rfl⟩ | ⟨-, hwold⟩ := getElem?_set_cases hw
  · rfl
  · exact hnew hwold heq hne
  · exact (hnew hvold heq.symm (heq ▸ hne)).symm
  · exact h.distinct hvold hwold heq hne

/-- The submission that moves has its turn, if it had it or the slot is
free. -/
theorem turn_set (hfree : u.pc = .storeSeq → SlotFree r subs u) :
    ∀ v ∈ subs.set i u', v.pc.writing → SlotFree r' (subs.set i u') v := by
  have hmu := mem_of_getElem? hu
  have hturn : u'.pc.writing → SlotFree r subs u' := by
    intro hwriting
    cases hmove with
    | take pc ticket pc' =>
      rw [pc'] at hwriting
      exact absurd hwriting Bool.false_ne_true
    | quiet ticket pc pc' open' writing =>
      rw [SlotFree, ticket]
      exact h.turn u hmu (writing ▸ hwriting)
    | seize ticket pc =>
      rw [SlotFree, ticket]
      exact hfree pc
    | word f val ticket writing =>
      rw [SlotFree, ticket]
      exact h.turn u hmu writing
    | commit ticket pc pc' =>
      rw [pc'] at hwriting
      exact absurd hwriting Bool.false_ne_true
  intro v hv hwriting w hw hne hlt hidx
  rw [index_move hmove, index_move hmove] at hidx
  obtain ⟨j, hj⟩ := mem_iff_getElem?.mp hv
  obtain ⟨k, hk⟩ := mem_iff_getElem?.mp hw
  obtain ⟨-, rfl⟩ | ⟨-, hwold⟩ := getElem?_set_cases hk <;>
    obtain ⟨-, rfl⟩ | ⟨-, hvold⟩ := getElem?_set_cases hj
  · omega
  · -- A submission that still moves is not behind a writer.
    have hmv := mem_of_getElem? hvold
    have htv := (h.ticket v hmv).1
    obtain ⟨ht, -, -, hdone⟩ | ⟨ht, -⟩ := ticket_move hmove
    · rw [ht] at hne hlt hidx
      exact absurd (h.turn v hmv hwriting u hmu hne hlt hidx) hdone
    · omega
  · exact hturn hwriting w (mem_of_getElem? hwold) hne hlt hidx
  · exact h.turn v (mem_of_getElem? hvold) hwriting w (mem_of_getElem? hwold) hne hlt hidx

omit hmove in
/-- A submission that takes a slot over finds no writer in it. -/
theorem not_writing_of_free (hpc : u.pc = .storeSeq) (hfree : SlotFree r subs u)
    (hv : subs[j]? = some v) (hne : j ≠ i) (hwriting : v.pc.writing) :
    r.index v.ticket ≠ r.index u.ticket := by
  intro hidx
  have hmu := mem_of_getElem? hu
  have hmv := mem_of_getElem? hv
  have hposu := (h.ticket u hmu).2 (by simp [hpc])
  have hposv := (h.ticket v hmv).2 (by
    rintro htake
    simp [htake, Pc.writing] at hwriting)
  rcases Nat.lt_trichotomy v.ticket u.ticket with hlt | heq | hgt
  · have hdone := hfree v hmv (by omega) hlt hidx
    simp [hdone, Pc.writing] at hwriting
  · exact hne (h.distinct hv hu heq (by omega))
  · have hdone := h.turn v hmv hwriting u hmu (by omega) hgt hidx.symm
    simp [hdone] at hpc

/-- The step leaves the slots of the other writers as they are. -/
theorem entry_move (hfree : u.pc = .storeSeq → SlotFree r subs u)
    (hv : subs[j]? = some v) (hne : j ≠ i) (hwriting : v.pc.writing) :
    r'.entry v.ticket = r.entry v.ticket := by
  cases hmove with
  | take | quiet => rfl
  | seize ticket pc =>
    rw [setSeq, entry_update, if_neg]
    exact h.not_writing_of_free hu pc (hfree pc) hv hne hwriting
  | word f val ticket writing =>
    rw [setCell, entry_update, if_neg]
    exact h.alone hu hv hne writing hwriting
  | commit ticket pc =>
    rw [setSeq, entry_update, if_neg]
    exact h.alone hu hv hne (by rw [pc]; rfl) hwriting

theorem owner_set (hfree : u.pc = .storeSeq → SlotFree r subs u) :
    ∀ v ∈ subs.set i u', v.pc.writing → (r'.entry v.ticket).seq = 2 * v.ticket - 1 ∧
        ∀ g : Field, g.rank < v.pc.stored → ((r'.entry v.ticket).cell g).ticket = v.ticket := by
  intro v hv hwriting
  have hmu := mem_of_getElem? hu
  obtain ⟨j, hj⟩ := mem_iff_getElem?.mp hv
  obtain ⟨-, rfl⟩ | ⟨hne, hvold⟩ := getElem?_set_cases hj
  · cases hmove with
    | take pc ticket pc' =>
      rw [pc'] at hwriting
      exact absurd hwriting Bool.false_ne_true
    | quiet ticket pc pc' open' writing stored =>
      rw [ticket, stored]
      exact h.owner u hmu (writing ▸ hwriting)
    | seize ticket pc pc' =>
      rw [ticket, pc', setSeq, entry_update, if_pos rfl]
      exact ⟨rfl, fun g hg => absurd hg (Nat.not_lt_zero _)⟩
    | word f val ticket writing writing' stored =>
      obtain ⟨hseq, hcell⟩ := h.owner u hmu writing
      rw [ticket, setCell, entry_update, if_pos rfl]
      refine ⟨hseq, fun g hg => ?_⟩
      simp only
      split
      case isTrue => rfl
      case isFalse hgf => exact hcell g ((stored g hg).resolve_right hgf)
    | commit ticket pc pc' =>
      rw [pc'] at hwriting
      exact absurd hwriting Bool.false_ne_true
  · rw [h.entry_move hu hmove hfree hvold hne hwriting]
    exact h.owner v (mem_of_getElem? hvold) hwriting

theorem committed_move : ∀ k t, (r'.slots k).seq = 2 * t →
    ∀ g, ((r'.slots k).cell g).ticket = t := by
  have hmu := mem_of_getElem? hu
  intro k t hseq g
  cases hmove with
  | take | quiet => exact h.committed k t hseq g
  | seize ticket pc =>
    have hpos := (h.ticket u hmu).2 (by simp [pc])
    simp only [setSeq, update] at hseq ⊢
    split at hseq
    case isTrue => simp only at hseq; omega
    case isFalse hk =>
      rw [if_neg hk]
      exact h.committed k t hseq g
  | word f val ticket writing =>
    have hpos := (h.ticket u hmu).2 (by
      rintro htake
      simp [htake, Pc.writing] at writing)
    obtain ⟨howner, -⟩ := h.owner u hmu writing
    simp only [setCell, update] at hseq ⊢
    split at hseq
    case isTrue hk =>
      subst hk
      rw [entry] at howner
      simp only at hseq
      omega
    case isFalse hk =>
      rw [if_neg hk]
      exact h.committed k t hseq g
  | commit ticket pc =>
    obtain ⟨-, hcell⟩ := h.owner u hmu (by rw [pc]; rfl)
    simp only [setSeq, update] at hseq ⊢
    split at hseq
    case isTrue hk =>
      subst hk
      simp only at hseq
      rw [if_pos rfl]
      have hrank : g.rank < u.pc.stored := by
        rw [pc]
        cases g <;> decide
      have heq : t = u.ticket := by omega
      rw [heq]
      exact hcell g hrank
    case isFalse hk =>
      rw [if_neg hk]
      exact h.committed k t hseq g

theorem move (hfree : u.pc = .storeSeq → SlotFree r subs u) : SlotInv r' (subs.set i u') where
  ticket := h.ticket_set hu hmove
  distinct := h.distinct_set hu hmove
  turn := h.turn_set hu hmove hfree
  owner := h.owner_set hu hmove hfree
  committed := h.committed_move hu hmove

end Move

end SlotInv

/-! ## Readers -/

/-- What a reader inside a matching slot knows. -/
def Show.Ok (r : Ring) (v : Show) : Prop :=
  ∀ f, v.pc = .load f → v.seq = 2 * v.ticket →
    (r.entry v.ticket).seq = 2 * v.ticket ∧
      ∀ g : Field, g.rank < f.rank → (v.got g).ticket = v.ticket

/-- Every word of the line was written for the submission it names. -/
def Line.Whole (l : Line) : Prop := ∀ f, (l.cell f).ticket = l.ticket

/-- The invariant of the timeline. -/
structure TimelineInv (s : St) : Prop where
  slots : SlotInv s.ring s.subs
  shows : ∀ v ∈ s.shows, v.Ok s.ring
  lines : ∀ l ∈ s.lines, l.Whole

/-- The reader loads the words in order. -/
theorem Show.rank_of_loadNext {f g : Field} (h : loadNext f = .load g) : g.rank = f.rank + 1 := by
  cases f <;> simp only [loadNext, ShowPc.load.injEq, reduceCtorEq] at h <;>
    subst h <;> rfl

/-- One step of a reader. -/
theorem Show.step_ok {v' : Show} {line : Option Line} (h : SlotInv r subs)
    (hok : v.Ok r) (hstep : v.step r = some (v', line)) :
    v'.Ok r ∧ ∀ l, line = some l → l.Whole := by
  unfold Show.step at hstep
  cases hpc : v.pc with
  | readHead =>
    rw [hpc] at hstep
    cases hstep
    exact ⟨fun f hf => absurd hf (by simp), by simp⟩
  | loadSeq =>
    rw [hpc] at hstep
    simp only at hstep
    split at hstep
    case isTrue =>
      cases hstep
      refine ⟨fun f hf hseq => ⟨hseq, fun g hg => ?_⟩, by simp⟩
      obtain rfl := ShowPc.load.inj hf
      exact absurd hg (Nat.not_lt_zero _)
    case isFalse =>
      cases hstep
      exact ⟨fun f hf => absurd hf (by simp), by simp⟩
  | load f =>
    rw [hpc] at hstep
    obtain hload := Option.some.inj hstep
    -- The word that is loaded belongs to the submission, if the slot matched.
    have hgot : v.seq = 2 * v.ticket → ∀ g : Field, g.rank < f.rank + 1 →
        (if g = f then (r.entry v.ticket).cell f else v.got g).ticket =
          v.ticket := by
      intro hseq g hg
      obtain ⟨hslot, hold⟩ := hok f hpc hseq
      split
      case isTrue => exact h.committed _ _ hslot f
      case isFalse hne =>
        refine hold g (Nat.lt_of_le_of_ne (Nat.le_of_lt_succ hg) ?_)
        intro heq
        cases f <;> cases g <;> simp_all [Field.rank]
    simp only [Show.loadStep] at hload
    split at hload
    case isTrue hlast =>
      cases hload
      subst hlast
      refine ⟨fun g hg => absurd hg (by simp [Show.loadNext]),
        fun l hl g => ?_⟩
      simp only [Show.line] at hl
      split at hl
      case isTrue => cases hl
      case isFalse hseq =>
        cases hl
        exact hgot (not_not.mp hseq) g (by cases g <;> decide)
    case isFalse hmore =>
      cases hload
      refine ⟨fun g hg hseq => ⟨(hok f hpc hseq).1, fun g' hg' => ?_⟩, by simp⟩
      have hrank : g.rank = f.rank + 1 := Show.rank_of_loadNext hg
      exact hgot hseq g' (by omega)
  | done => simp [hpc] at hstep

/-- A step of a submission leaves a slot alone that a reader is inside. -/
theorem Show.Ok.move {i : Nat} (h : SlotInv r subs) (hu : subs[i]? = some u)
    (hmove : SlotMove r u r' u')
    (hapart : u.pc = .storeSeq → v.inside → r.index v.ticket ≠ r.index u.ticket)
    (hok : v.Ok r) : v.Ok r' := by
  intro f hpc hseq
  obtain ⟨hslot, hgot⟩ := hok f hpc hseq
  refine ⟨?_, hgot⟩
  have hmu := mem_of_getElem? hu
  -- A writer has an odd sequence word in its slot.
  have hodd : u.pc.writing → r.index v.ticket ≠ r.index u.ticket := by
    intro hwriting hidx
    have hpos := (h.ticket u hmu).2 (by
      rintro htake
      simp [htake, Pc.writing] at hwriting)
    have howner := (h.owner u hmu hwriting).1
    rw [entry, ← hidx] at howner
    rw [entry] at hslot
    omega
  cases hmove with
  | take | quiet => exact hslot
  | seize ticket pc =>
    rw [setSeq, entry_update, if_neg (hapart pc ?_)]
    · exact hslot
    · simp [Show.inside, hpc, hseq]
  | word f val ticket writing =>
    rw [setCell, entry_update, if_neg (hodd writing)]
    exact hslot
  | commit ticket pc =>
    rw [setSeq, entry_update, if_neg (hodd (by rw [pc]; rfl))]
    exact hslot

/-! ## A run -/

namespace TimelineInv

variable {s s' : St} {a : Act} {i : Nat}

theorem sub (h : TimelineInv s) (hmeet : unlapped s (.sub i) = true)
    (hstep : s.step (.sub i) = some s') : TimelineInv s' := by
  obtain ⟨u, c, r, u', hu, hsub, rfl⟩ := step_sub hstep
  have hmove := step_slotMove hsub
  simp only [unlapped, hu, Bool.or_eq_true, Bool.and_eq_true,
    decide_eq_true_eq, all_eq_true, beq_iff_eq, bne_iff_ne, ne_eq,
    Bool.not_eq_true'] at hmeet
  refine ⟨h.slots.move hu hmove (fun hpc v hv hne hlt hidx => ?_), fun v hv => ?_, h.lines⟩
  · obtain ⟨hfree, -⟩ := hmeet.resolve_left (fun hno => hno hpc)
    obtain ((hzero | hle) | hidx') | hdone := hfree v hv
    · exact absurd hzero hne
    · omega
    · exact absurd hidx hidx'
    · exact hdone
  · refine Show.Ok.move h.slots hu hmove (fun hpc hin => ?_) (h.shows v hv)
    obtain ⟨-, hapart⟩ := hmeet.resolve_left (fun hno => hno hpc)
    obtain hout | hidx := hapart v hv
    · rw [hout] at hin
      exact absurd hin Bool.false_ne_true
    · exact hidx

theorem complete {endNs rc tmst : Nat} (h : TimelineInv s)
    (hstep : s.step (.complete i endNs rc tmst) = some s') :
    TimelineInv s' := by
  obtain ⟨u, hu, hpc, rfl⟩ := step_complete hstep
  have hmove : SlotMove s.ring u s.ring (u.complete endNs rc tmst) := by
    refine .quiet rfl (by simp [hpc]) ?_ (by simp [hpc]) ?_ ?_ <;>
      simp [Sub.complete, hpc, Pc.writing, Pc.stored]
  exact ⟨h.slots.move hu hmove (fun hpc' => absurd (hpc.symm.trans hpc')
    (by simp)), h.shows, h.lines⟩

theorem begin {submitNs tasks : Nat} (h : TimelineInv s)
    (hstep : s.step (.begin submitNs tasks) = some s') : TimelineInv s' := by
  cases hstep
  have hout : ∀ u ∈ s.subs ++ [Sub.begin submitNs tasks],
      u ∈ s.subs ∨ u = Sub.begin submitNs tasks := by
    simp
  refine ⟨⟨fun u hu => ?_, fun {j k u v} hu hv heq hne => ?_,
    fun u hu hwriting v hv hne hlt hidx => ?_, fun u hu hwriting => ?_,
    h.slots.committed⟩, h.shows, h.lines⟩
  · obtain hu | rfl := hout u hu
    · exact h.slots.ticket u hu
    · exact ⟨Nat.zero_le _, fun hpc => absurd rfl hpc⟩
  · obtain ⟨-, hu⟩ | ⟨-, rfl⟩ := getElem?_concat_cases hu
    · obtain ⟨-, hv⟩ | ⟨-, rfl⟩ := getElem?_concat_cases hv
      · exact h.slots.distinct hu hv heq hne
      · exact absurd heq hne
    · exact absurd rfl hne
  · obtain hu | rfl := hout u hu
    · obtain hv | rfl := hout v hv
      · exact h.slots.turn u hu hwriting v hv hne hlt hidx
      · exact absurd rfl hne
    · exact absurd hwriting Bool.false_ne_true
  · obtain hu | rfl := hout u hu
    · exact h.slots.owner u hu hwriting
    · exact absurd hwriting Bool.false_ne_true

theorem step (h : TimelineInv s) (hmeet : unlapped s a = true)
    (hstep : s.step a = some s') : TimelineInv s' := by
  cases a with
  | tick | snapshot =>
    cases hstep
    exact ⟨h.slots, h.shows, h.lines⟩
  | timeline =>
    cases hstep
    refine ⟨h.slots, fun v hv => ?_, h.lines⟩
    rw [mem_append, mem_singleton] at hv
    obtain hv | rfl := hv
    · exact h.shows v hv
    · exact fun f hf => absurd hf (by simp)
  | begin submitNs tasks => exact h.begin hstep
  | complete i endNs rc tmst => exact h.complete hstep
  | sub i => exact h.sub hmeet hstep
  | snap i =>
    obtain ⟨p, p', value, -, -, rfl⟩ := step_snap hstep
    exact ⟨h.slots, h.shows, h.lines⟩
  | print i =>
    obtain ⟨v, v', line, hv, hprint, rfl⟩ := step_print hstep
    obtain ⟨hok, hline⟩ := Show.step_ok h.slots (h.shows v (mem_of_getElem? hv)) hprint
    refine ⟨h.slots, fun w hw => ?_, fun l hl => ?_⟩
    · obtain rfl | hw := (mem_or_eq_of_mem_set hw).symm
      · exact hok
      · exact h.shows w hw
    · rw [mem_append, Option.mem_toList] at hl
      exact hl.elim (h.lines l) (hline l)

theorem init {shift : Nat} (h : (statsSystem shift).init s) : TimelineInv s := by
  obtain ⟨-, -, -, hslots, hsubs, -, -, hshows, hlines⟩ := h
  refine ⟨⟨by simp [hsubs], by simp [hsubs], by simp [hsubs],
    by simp [hsubs], fun k t hseq g => ?_⟩, by simp [hshows],
    by simp [hlines]⟩
  rw [hslots] at hseq ⊢
  simp only at hseq ⊢
  omega

end TimelineInv

/-- In every run whose steps meet `unlapped`, each line that is printed carries
words that were all written for the submission it names. -/
theorem lines_whole {shift : Nat} {s₀ s : St} {as : List Act} (hinit : (statsSystem shift).init s₀)
    (hrun : (statsSystem shift).run s₀ as = some s)
    (hmeet : (statsSystem shift).StepsMeet unlapped s₀ as) :
    ∀ l ∈ s.lines, l.Whole := by
  have hinv : TimelineInv s := by
    refine System.run_invariant (S := (statsSystem shift).restrict unlapped) ?_
      (TimelineInv.init hinit) (System.run_restrict_iff.mpr ⟨hrun, hmeet⟩)
    intro t a t' ht hstep
    obtain ⟨hok, hstep⟩ := System.restrict_step hstep
    exact ht.step hok hstep
  exact hinv.lines

/-- One submission, and then a read of the timeline. -/
def oneLine : List Act :=
  .begin 10 1 :: List.replicate 15 (.sub 0) ++
    .complete 0 20 0 0 :: List.replicate 13 (.sub 0) ++
    .timeline :: List.replicate 9 (.print 0)

theorem lines_whole_oneLine :
    ∃ s l, (statsSystem 8).run zeroed oneLine = some s ∧ s.lines = [l] ∧ l.Whole := by
  have hmap : (((statsSystem 8).restrict unlapped).run zeroed oneLine).map
      (fun s => s.lines.length) = some 1 := by
    decide +kernel
  obtain ⟨s, hs, hlines⟩ := Option.map_eq_some_iff.mp hmap
  obtain ⟨hrun, hmeet⟩ := System.run_restrict_iff.mp hs
  obtain ⟨l, hl⟩ := length_eq_one_iff.mp hlines
  refine ⟨s, l, hrun, hl, lines_whole zeroed_init hrun hmeet l ?_⟩
  rw [hl]
  exact mem_singleton_self l

/-- A reader loads the sequence word of the first submission.  Then 256 more
submissions take a ticket, and the last of them starts to write the slot. -/
def lapped : List Act :=
  .begin 10 1 :: List.replicate 15 (.sub 0) ++
    .complete 0 20 0 0 :: List.replicate 13 (.sub 0) ++
    .timeline :: List.replicate 2 (.print 0) ++
    (List.range 256).flatMap (fun k => [.begin 30 2, .sub (k + 1)]) ++
    List.replicate 8 (.sub 256) ++ List.replicate 6 (.print 0)

/-- The line of the first submission has the submit time of another one. -/
theorem lines_torn : ∃ s, (statsSystem 8).run zeroed lapped = some s ∧
      ∃ l ∈ s.lines, l.ticket = 1 ∧ l.cell .submitNs = ⟨30, 257⟩ ∧ ¬ l.Whole := by
  have hmap : ((statsSystem 8).run zeroed lapped).map (fun s =>
      s.lines.map (fun l => (l.ticket, l.cell .submitNs))) =
      some [(1, ⟨30, 257⟩)] := by
    decide +kernel
  obtain ⟨s, hs, hlines⟩ := Option.map_eq_some_iff.mp hmap
  obtain ⟨l, hl, heq⟩ := mem_map.mp
    (show (1, ⟨30, 257⟩) ∈ s.lines.map (fun l => (l.ticket,
      l.cell .submitNs)) by rw [hlines]; exact mem_singleton_self _)
  obtain ⟨hticket, hcell⟩ := Prod.mk.inj heq
  refine ⟨s, hs, l, hl, hticket, hcell, fun hwhole => ?_⟩
  have hbad := hwhole .submitNs
  rw [hticket, hcell] at hbad
  exact absurd hbad (by decide)

end OmarchyAne.Stats
