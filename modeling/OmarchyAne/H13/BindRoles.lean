import OmarchyAne.H13.BindWalk

/-!
# Which channel carries which role

`ane_bind_init` lists the destinations and the sources of a program.  A derived
list starts with the allocated channels that the task stream names, in ascending
order, and unused allocated channels fill it up to the count of the header
(`Roles`).  Where the stream does not give the counts of the header, the map is
the positional one (`bindInit_roles`).
-/

namespace OmarchyAne.H13

open Lib List

variable {anec : Anec} {stream : List UInt8} {m : Marks} {l : Lists}

/-! ## The two loops -/

/-- The channels of the first loop for the sources. -/
def Marks.srcOnly (m : Marks) (channel : Nat) : Bool :=
  !m.isDst channel && m.isSrc channel

/-- The channels that can fill up a list. -/
def Marks.free (anec : Anec) (m : Marks) (channel : Nat) : Bool :=
  !m.isDst channel && !m.isSrc channel && anec.tile channel != 0

/-- The first loop lists what the stream names.  There are fewer channels than
the lists have places. -/
theorem collect_eq (cs : List Nat) (l : Lists) (hdst : l.dst.length + cs.length < tileCount)
    (hsrc : l.src.length + cs.length < tileCount) :
    cs.foldlM (collectStep m) l = some {
      dst := l.dst ++ cs.filter m.isDst
      src := l.src ++ cs.filter m.srcOnly } := by
  induction cs generalizing l with
  | nil => simp
  | cons c cs ih =>
    rw [length_cons] at hdst hsrc
    rw [foldlM_cons, collectStep]
    cases hd : m.isDst c with
    | true =>
      rw [if_pos rfl, if_neg (by omega)]
      refine (ih _ ?_ ?_).trans ?_
      · rw [length_append, length_singleton]
        omega
      · exact Nat.lt_of_succ_lt hsrc
      · simp [hd, Marks.srcOnly]
    | false =>
      rw [if_neg Bool.false_ne_true]
      cases hs : m.isSrc c with
      | true =>
        rw [if_pos rfl, if_neg (by omega)]
        refine (ih _ ?_ ?_).trans ?_
        · exact Nat.lt_of_succ_lt hdst
        · rw [length_append, length_singleton]
          omega
        · simp [hd, hs, Marks.srcOnly]
      | false =>
        rw [if_neg Bool.false_ne_true]
        refine (ih _ ?_ ?_).trans ?_
        · exact Nat.lt_of_succ_lt hdst
        · exact Nat.lt_of_succ_lt hsrc
        · simp [hd, hs, Marks.srcOnly]

/-- The second loop fills up the destinations and then the sources. -/
theorem fill_eq (cs : List Nat) (l : Lists) : cs.foldl (fillStep anec m) l = {
      dst := l.dst ++ (cs.filter (m.free anec)).take (anec.dstCount.toNat - l.dst.length)
      src := l.src ++
        ((cs.filter (m.free anec)).drop
          (anec.dstCount.toNat - l.dst.length)).take
            (anec.srcCount.toNat - l.src.length) } := by
  induction cs generalizing l with
  | nil => simp
  | cons c cs ih =>
    rw [foldl_cons, ih, fillStep]
    by_cases hfull : anec.dstCount.toNat ≤ l.dst.length ∧ anec.srcCount.toNat ≤ l.src.length
    · simp only [if_pos hfull, Nat.sub_eq_zero_of_le hfull.1,
        Nat.sub_eq_zero_of_le hfull.2, take_zero, append_nil]
    rw [if_neg hfull]
    by_cases hused : m.isDst c ∨ m.isSrc c ∨ anec.tile c = 0
    · have hfree : m.free anec c = false := by
        rcases hused with h | h | h <;> simp [Marks.free, h]
      simp only [if_pos hused, filter_cons, hfree, Bool.false_eq_true, if_false]
    have hfree : m.free anec c = true := by
      simp only [not_or, Bool.not_eq_true] at hused
      simp [Marks.free, hused]
    simp only [if_neg hused, filter_cons, hfree, if_true]
    by_cases hdst : l.dst.length < anec.dstCount.toNat
    · obtain ⟨k, hk⟩ := Nat.exists_eq_add_of_lt hdst
      simp only [if_pos hdst, length_append, length_singleton]
      rw [show anec.dstCount.toNat - l.dst.length = k + 1 by omega,
        show anec.dstCount.toNat - (l.dst.length + 1) = k by omega]
      simp
    · have hsrc : l.src.length < anec.srcCount.toNat := by omega
      obtain ⟨k, hk⟩ := Nat.exists_eq_add_of_lt hsrc
      simp only [if_neg hdst, length_append, length_singleton]
      rw [show anec.dstCount.toNat - l.dst.length = 0 by omega,
        show anec.srcCount.toNat - l.src.length = k + 1 by omega,
        show anec.srcCount.toNat - (l.src.length + 1) = k by omega]
      simp

/-- What fills up the destinations. -/
def fillDst (anec : Anec) (m : Marks) : List Nat :=
  (surfaces.filter (m.free anec)).take
    (anec.dstCount.toNat - (surfaces.filter m.isDst).length)

/-- What fills up the sources. -/
def fillSrc (anec : Anec) (m : Marks) : List Nat :=
  ((surfaces.filter (m.free anec)).drop
    (anec.dstCount.toNat - (surfaces.filter m.isDst).length)).take
      (anec.srcCount.toNat - (surfaces.filter m.srcOnly).length)

theorem deriveLists_some (h : deriveLists anec m = some l) :
    l.dst = surfaces.filter m.isDst ++ fillDst anec m ∧
      l.src = surfaces.filter m.srcOnly ++ fillSrc anec m ∧
      l.dst.length = anec.dstCount.toNat ∧
      l.src.length = anec.srcCount.toNat := by
  rw [deriveLists, collect_eq surfaces ⟨[], []⟩ (by decide) (by decide)] at h
  simp only [Option.bind_eq_bind, Option.bind_some, nil_append, fill_eq] at h
  split at h
  · cases h
  next hlen =>
  rw [not_or, not_not, not_not] at hlen
  cases h
  exact ⟨rfl, rfl, hlen.2, hlen.1⟩

/-! ## The roles -/

/-- A channel with an allocated surface. -/
structure Allocated (anec : Anec) (channel : Nat) : Prop where
  ge : firstSurface ≤ channel
  lt : channel < tileCount
  tile : anec.tile channel ≠ 0

/-- The stream names the channel as a destination. -/
def NamedDst (anec : Anec) (stream : List UInt8) (channel : Nat) : Prop :=
  ∃ t ∈ walked anec stream, Names stream t .dst channel

/-- The stream names the channel as a source. -/
def NamedSrc (anec : Anec) (stream : List UInt8) (channel : Nat) : Prop :=
  ∃ t ∈ walked anec stream, ∃ slot, slot ≠ .dst ∧ Names stream t slot channel

/-- An allocated channel that the stream does not name. -/
structure Unused (anec : Anec) (stream : List UInt8) (channel : Nat) : Prop
    extends Allocated anec channel where
  dst : ¬ NamedDst anec stream channel
  src : ¬ NamedSrc anec stream channel

/-- The lists of a derived map.  Each one has the channels that the stream
names, and a fill.  A channel that is named as both is a destination. -/
structure Roles (anec : Anec) (stream : List UInt8)
    (dst src namedDst namedSrc fillDst fillSrc : List Nat) : Prop where
  dst_eq : dst = namedDst ++ fillDst
  src_eq : src = namedSrc ++ fillSrc
  dst_length : dst.length = anec.dstCount.toNat
  src_length : src.length = anec.srcCount.toNat
  distinct : (dst ++ src).Nodup
  allocated : ∀ channel ∈ dst ++ src, Allocated anec channel
  mem_dst : ∀ channel, channel ∈ namedDst ↔
    Allocated anec channel ∧ NamedDst anec stream channel
  mem_src : ∀ channel, channel ∈ namedSrc ↔ Allocated anec channel ∧
    NamedSrc anec stream channel ∧ ¬ NamedDst anec stream channel
  dst_ascending : namedDst.Pairwise (· < ·)
  src_ascending : namedSrc.Pairwise (· < ·)
  fill_ascending : (fillDst ++ fillSrc).Pairwise (· < ·)
  fill_unused : ∀ channel ∈ fillDst ++ fillSrc, Unused anec stream channel
  fill_first : ∀ channel ∈ fillDst ++ fillSrc, ∀ lower < channel,
    Unused anec stream lower → lower ∈ fillDst ++ fillSrc

theorem surfaces_ascending : surfaces.Pairwise (· < ·) :=
  pairwise_lt_range.sublist (drop_sublist _ _)

/-- The fill is the front of the free channels. -/
theorem fill_prefix (anec : Anec) (m : Marks) : ∃ rest, surfaces.filter (m.free anec) =
      fillDst anec m ++ fillSrc anec m ++ rest := by
  refine ⟨((surfaces.filter (m.free anec)).drop
    (anec.dstCount.toNat - (surfaces.filter m.isDst).length)).drop
      (anec.srcCount.toNat - (surfaces.filter m.srcOnly).length), ?_⟩
  rw [fillDst, fillSrc, append_assoc, take_append_drop, take_append_drop]

section Marked

variable (h : bindWalk anec stream = .ok m) {channel : Nat}

include h

theorem mem_namedDst (channel : Nat) : channel ∈ surfaces.filter m.isDst ↔
      Allocated anec channel ∧ NamedDst anec stream channel := by
  rw [mem_filter, mem_surfaces, bindWalk_isDst h]
  constructor
  · rintro ⟨⟨hge, hlt⟩, htile, hnamed⟩
    exact ⟨⟨hge, hlt, htile⟩, hnamed⟩
  · rintro ⟨⟨hge, hlt, htile⟩, hnamed⟩
    exact ⟨⟨hge, hlt⟩, htile, hnamed⟩

theorem isDst_eq_false (hc : anec.tile channel ≠ 0) :
    m.isDst channel = false ↔ ¬ NamedDst anec stream channel := by
  rw [← Bool.not_eq_true, bindWalk_isDst h, not_and]
  exact ⟨fun hn => hn hc, fun hn _ => hn⟩

theorem isSrc_eq_false (hc : anec.tile channel ≠ 0) :
    m.isSrc channel = false ↔ ¬ NamedSrc anec stream channel := by
  rw [← Bool.not_eq_true, bindWalk_isSrc h, not_and]
  exact ⟨fun hn => hn hc, fun hn _ => hn⟩

theorem mem_namedSrc (channel : Nat) :
    channel ∈ surfaces.filter m.srcOnly ↔ Allocated anec channel ∧
      NamedSrc anec stream channel ∧ ¬ NamedDst anec stream channel := by
  rw [mem_filter, mem_surfaces, Marks.srcOnly, Bool.and_eq_true,
    Bool.not_eq_true', bindWalk_isSrc h]
  constructor
  · rintro ⟨⟨hge, hlt⟩, hdst, htile, hnamed⟩
    exact ⟨⟨hge, hlt, htile⟩, hnamed, (isDst_eq_false h htile).1 hdst⟩
  · rintro ⟨⟨hge, hlt, htile⟩, hnamed, hdst⟩
    exact ⟨⟨hge, hlt⟩, (isDst_eq_false h htile).2 hdst, htile, hnamed⟩

theorem mem_free (channel : Nat) :
    channel ∈ surfaces.filter (m.free anec) ↔ Unused anec stream channel := by
  rw [mem_filter, mem_surfaces, Marks.free]
  simp only [Bool.and_eq_true, Bool.not_eq_true', bne_iff_ne, ne_eq]
  constructor
  · rintro ⟨⟨hge, hlt⟩, ⟨hdst, hsrc⟩, htile⟩
    exact ⟨⟨hge, hlt, htile⟩, (isDst_eq_false h htile).1 hdst, (isSrc_eq_false h htile).1 hsrc⟩
  · rintro ⟨⟨hge, hlt, htile⟩, hdst, hsrc⟩
    exact ⟨⟨hge, hlt⟩, ⟨(isDst_eq_false h htile).2 hdst, (isSrc_eq_false h htile).2 hsrc⟩, htile⟩

/-- The lists that are derived have the roles of the stream. -/
theorem deriveLists_roles (hl : deriveLists anec m = some l) :
    Roles anec stream l.dst l.src (surfaces.filter m.isDst)
      (surfaces.filter m.srcOnly) (fillDst anec m) (fillSrc anec m) := by
  obtain ⟨hdst, hsrc, hdlen, hslen⟩ := deriveLists_some hl
  obtain ⟨rest, hrest⟩ := fill_prefix anec m
  have hfree : (fillDst anec m ++ fillSrc anec m ++ rest).Pairwise (· < ·) := by
    rw [← hrest]
    exact surfaces_ascending.filter _
  have hfill := (pairwise_append.1 hfree).1
  have hunused : ∀ c ∈ fillDst anec m ++ fillSrc anec m, Unused anec stream c := by
    intro c hc
    apply (mem_free h c).1
    rw [hrest]
    exact mem_append_left _ hc
  have hd := surfaces_ascending.filter m.isDst
  have hs := surfaces_ascending.filter m.srcOnly
  exact {
    dst_eq := hdst
    src_eq := hsrc
    dst_length := hdlen
    src_length := hslen
    distinct := by
      rw [hdst, hsrc]
      obtain ⟨hfd, hfs, hff⟩ := pairwise_append.1 hfill
      have hfillDst : ∀ c ∈ fillDst anec m, Unused anec stream c :=
        fun c hc => hunused c (mem_append_left _ hc)
      have hfillSrc : ∀ c ∈ fillSrc anec m, Unused anec stream c :=
        fun c hc => hunused c (mem_append_right _ hc)
      refine nodup_append.2 ⟨nodup_append.2 ⟨hd.imp Nat.ne_of_lt,
        hfd.imp Nat.ne_of_lt, ?_⟩, nodup_append.2 ⟨hs.imp Nat.ne_of_lt,
        hfs.imp Nat.ne_of_lt, ?_⟩, ?_⟩
      · rintro c hc _ hf rfl
        exact (hfillDst c hf).dst ((mem_namedDst h c).1 hc).2
      · rintro c hc _ hf rfl
        exact (hfillSrc c hf).src ((mem_namedSrc h c).1 hc).2.1
      · rintro c hc _ hc' rfl
        rcases mem_append.1 hc with hc | hc
        · have hnamed := ((mem_namedDst h c).1 hc).2
          rcases mem_append.1 hc' with hc' | hc'
          · exact ((mem_namedSrc h c).1 hc').2.2 hnamed
          · exact (hfillSrc c hc').dst hnamed
        · rcases mem_append.1 hc' with hc' | hc'
          · exact (hfillDst c hc).src ((mem_namedSrc h c).1 hc').2.1
          · exact Nat.lt_irrefl c (hff c hc c hc')
    allocated := by
      intro c hc
      rw [hdst, hsrc, mem_append, mem_append, mem_append] at hc
      rcases hc with (hc | hc) | (hc | hc)
      · exact ((mem_namedDst h c).1 hc).1
      · exact (hunused c (mem_append_left _ hc)).toAllocated
      · exact ((mem_namedSrc h c).1 hc).1
      · exact (hunused c (mem_append_right _ hc)).toAllocated
    mem_dst := mem_namedDst h
    mem_src := mem_namedSrc h
    dst_ascending := hd
    src_ascending := hs
    fill_ascending := hfill
    fill_unused := hunused
    fill_first := by
      intro c hc lower hlt hlower
      have hmem := (mem_free h lower).2 hlower
      rw [hrest] at hmem
      rcases mem_append.1 hmem with hmem | hmem
      · exact hmem
      · have hgt := (pairwise_append.1 hfree).2.2 c hc lower hmem
        omega }

end Marked

theorem bindDerive_some (h : bindDerive anec stream = some l) :
    ∃ m, bindWalk anec stream = .ok m ∧ deriveLists anec m = some l := by
  rw [bindDerive] at h
  split at h
  · cases h
  split at h
  · cases h
  next m hwalk => exact ⟨m, hwalk, h⟩

/-- The first entries of a list that was laid over another one. -/
theorem overlay_take {l : List Nat} {positional : List UInt8} (h : ∀ c ∈ l, c < 256) :
    ((overlay l positional).take l.length).map UInt8.toNat = l := by
  rw [overlay, take_left' (length_map _), map_map]
  conv => rhs; rw [← map_id l]
  apply map_congr_left
  intro c hc
  exact Nat.mod_eq_of_lt (h c hc)

/-- The channels of the sources, as many as the header counts. -/
def Bind.sources (anec : Anec) (bind : Bind) : List Nat :=
  (bind.src.take anec.srcCount.toNat).map UInt8.toNat

/-- The channels of the destinations, as many as the header counts. -/
def Bind.destinations (anec : Anec) (bind : Bind) : List Nat :=
  (bind.dst.take anec.dstCount.toNat).map UInt8.toNat

/-- A derived map starts with the derived lists. -/
theorem bindInit_lists (h : bindDerive anec stream = some l) :
    (bindInit anec stream).2.sources anec = l.src ∧
      (bindInit anec stream).2.destinations anec = l.dst := by
  obtain ⟨m, hwalk, hl⟩ := bindDerive_some h
  have hroles := deriveLists_roles hwalk hl
  have hlt : ∀ c ∈ l.dst ++ l.src, c < 256 := by
    intro c hc
    have hc := (hroles.allocated c hc).lt
    rw [tileCount] at hc
    omega
  constructor
  · rw [bindInit, h, Bind.sources, ← hroles.src_length]
    exact overlay_take fun c hc => hlt c (mem_append_right _ hc)
  · rw [bindInit, h, Bind.destinations, ← hroles.dst_length]
    exact overlay_take fun c hc => hlt c (mem_append_left _ hc)

theorem bindInit_derived (h : (bindInit anec stream).1 = true) :
    ∃ namedDst namedSrc fillDst fillSrc, Roles anec stream
      ((bindInit anec stream).2.destinations anec)
      ((bindInit anec stream).2.sources anec)
      namedDst namedSrc fillDst fillSrc := by
  cases hderive : bindDerive anec stream with
  | none =>
    rw [bindInit, hderive] at h
    exact absurd h Bool.false_ne_true
  | some l =>
    obtain ⟨m, hwalk, hl⟩ := bindDerive_some hderive
    obtain ⟨hsrc, hdst⟩ := bindInit_lists hderive
    rw [hdst, hsrc]
    exact ⟨_, _, _, _, deriveLists_roles hwalk hl⟩

theorem bindInit_positional (h : (bindInit anec stream).1 = false) :
    (bindInit anec stream).2 = bindPositional anec := by
  cases hderive : bindDerive anec stream with
  | none => rw [bindInit, hderive]
  | some l =>
    rw [bindInit, hderive] at h
    exact absurd h.symm Bool.false_ne_true

/-- A derived map has the roles of the stream, and any other map is the
positional one. -/
theorem bindInit_roles (anec : Anec) (stream : List UInt8) :
    ((bindInit anec stream).1 = true → ∃ namedDst namedSrc fillDst fillSrc, Roles anec stream
        ((bindInit anec stream).2.destinations anec)
        ((bindInit anec stream).2.sources anec)
        namedDst namedSrc fillDst fillSrc) ∧
      ((bindInit anec stream).1 = false → (bindInit anec stream).2 = bindPositional anec) :=
  ⟨bindInit_derived, bindInit_positional⟩

/-- One task names channel 4, and channel 6 fills up the sources. -/
def fillAnec : Anec where
  size := 56
  tdSize := 56
  tdCount := 1
  srcCount := 1
  dstCount := 1
  tiles := fun channel => if channel = 4 ∨ channel = 6 then 1 else 0
  nchw := fun _ _ => 0

theorem bindInit_roles_fill : bindInit fillAnec oneTaskStream =
        (true, ⟨6 :: (bindPositional fillAnec).src.drop 1,
          4 :: (bindPositional fillAnec).dst.drop 1⟩) ∧
      ∃ namedDst namedSrc fillDst fillSrc, Roles fillAnec oneTaskStream
        [4] [6] namedDst namedSrc fillDst fillSrc := by
  have hinit : bindInit fillAnec oneTaskStream =
      (true, ⟨6 :: (bindPositional fillAnec).src.drop 1,
        4 :: (bindPositional fillAnec).dst.drop 1⟩) := by decide +kernel
  refine ⟨hinit, ?_⟩
  have hroles := (bindInit_roles fillAnec oneTaskStream).1 (by rw [hinit])
  rw [hinit] at hroles
  exact hroles

end OmarchyAne.H13
