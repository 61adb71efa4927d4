import OmarchyAne.T6021.FwImage

/-!
# The boot patches (src/ane/t6021/ane_fw_validate.h)

`ane_fw_apply_boot_patches` writes into a staged image what the boot loader
writes when it preloads the firmware: the base of the data segment, the values
of five patch records, and the block of the tunables.  It makes all its checks
before the first write.

The writes are a list (`bootWrites`).  They lie in the sites of the image
(`patchSites`), which are apart for the pinned images.  So all that is written
can be read back, and nothing else changes (`fwApplyBootPatches_effect`).
-/

namespace OmarchyAne.T6021

open Lib List

/-! ## Images and tables -/

/-- `ANE_FW_BUF_SIZE`. -/
def fwBufSize : Nat := 0x500000

/-- `ANE_FW_DATA_BASE_VM`. -/
def fwDataBaseVm : Nat := 0x423c

/-- `ANE_FW_TUNABLES_MAX`. -/
def fwTunablesMax : Nat := 0x24

/-- The tag and the length of each patch record. -/
def fwRecords : List (Nat × Nat) :=
  [(0x53544b47, 8), (0x534f435f, 4), (0x534f4352, 4), (0x43704164, 8), (0x57724164, 8)]

/-- Where the patches go, with `n` tunables. -/
def patchSites (rtkVm : List Nat) (tunablesVm n : Nat) : List (Nat × Nat) :=
  (fwDataBaseVm, 8) ::
    (List.zipWith (fun vm r => (vm + 8, r.2)) rtkVm fwRecords ++ [(tunablesVm, 8 + 20 * n)])

/-- `struct ane_fw_image` with the addresses of the patches. -/
structure FwBootImage extends FwImage where
  rtkVm : List Nat
  tunablesVm : Nat
  rtkVm_length : rtkVm.length = fwRecords.length
  /-- No site overlaps another one, whatever the number of tunables is. -/
  apart : (patchSites rtkVm tunablesVm fwTunablesMax).Pairwise Separate
  inside : ∀ s ∈ patchSites rtkVm tunablesVm fwTunablesMax,
    s.1 + s.2 ≤ fwBufSize

/-- The pinned images. -/
inductive FwPin where
  | selene
  | bia
  deriving DecidableEq, Repr

def FwPin.image : FwPin → FwBootImage
  | .selene => {
      fwSelene with
      rtkVm := [0xca848, 0xca9b3, 0xca9bf, 0xca9cb, 0xca9db]
      tunablesVm := 0xdcd78
      rtkVm_length := rfl
      apart := by decide
      inside := by decide }
  | .bia => {
      fwBia with
      rtkVm := [0xba688, 0xba7f3, 0xba7ff, 0xba80b, 0xba81b]
      tunablesVm := 0xccbb8
      rtkVm_length := rfl
      apart := by decide
      inside := by decide }

/-- `struct ane_asc_tunable`. -/
structure AscTunable where
  off : UInt32
  mask : UInt64
  val : UInt64
  deriving DecidableEq, Repr

/-- `struct ane_asc_tunables`.  The list of the keys has `nkeys` of them. -/
structure AscTunables where
  keys : List UInt8
  n : UInt8
  r : List AscTunable
  keys_length : keys.length ≤ 4
  r_length : r.length = fwTunablesMax

/-- `struct ane_fw_boot_patch`. -/
structure BootPatch where
  execBase : UInt64
  stackGuard : UInt64
  soc : UInt32
  socRevision : UInt32
  cpuPa : UInt64
  wrapperPa : UInt64
  deriving DecidableEq, Repr

/-- The values of the patch records. -/
def BootPatch.values (p : BootPatch) : List Nat :=
  [p.stackGuard.toNat, p.soc.toNat, p.socRevision.toNat, p.cpuPa.toNat, p.wrapperPa.toNat]

/-! ## The function -/

/-- `ane_fw_put_le`. -/
def fwPutLe (img : Mem) (off v n : Nat) : Mem := poke img off (leBytes n v)

/-- The loop over the keys: the first one that is not above the revision. -/
def chooseKey (rev : UInt32) : List UInt8 → Option UInt8
  | [] => none
  | key :: rest =>
    if rev.toNat < key.toNat then chooseKey rev rest else some key

/-- The check of the patch records. -/
def recordsPinned (img : Mem) (fw : FwBootImage) : Bool :=
  (fw.rtkVm.zip fwRecords).all fun (vm, tag, len) =>
    peekLe img vm 4 == tag && peekLe img (vm + 4) 4 == len

/-- `tunables_unset`. -/
def tunablesUnset : Bytes := [0x01, 0x03, 0x24, 0x00, 0xff, 0xff, 0xff, 0xff]

/-- The values of the patch records, with their places. -/
def recordValues (fw : FwBootImage) (p : BootPatch) : List (Nat × Nat × Nat) :=
  fw.rtkVm.zip (List.zipWith (fun r v => (r.2, v)) fwRecords p.values)

/-- The loop that writes them. -/
def putRecords (img : Mem) (fw : FwBootImage) (p : BootPatch) : Mem :=
  (recordValues fw p).foldl (fun img (vm, len, v) =>
    fwPutLe img (vm + 8) v len) img

/-- The loop over the tunables, at index `i`. -/
def putTunables (blk : Nat) : Nat → List AscTunable → Mem → Mem
  | _, [], img => img
  | i, r :: rs, img =>
    let img := fwPutLe img (blk + 8 + 20 * i) r.off.toNat 4
    let img := fwPutLe img (blk + 12 + 20 * i) r.mask.toNat 8
    let img := fwPutLe img (blk + 20 + 20 * i) r.val.toNat 8
    putTunables blk (i + 1) rs img

/-- The base of the data segment. -/
def dataBase (fw : FwBootImage) (p : BootPatch) : Nat :=
  (p.execBase.toNat + (fw.segs.map FwSeg.vmaddr).getD 1 0) % 2 ^ 64

/-- `ane_fw_apply_boot_patches`: the reason of a refusal, and the image
afterwards. -/
def fwApplyBootPatches (img : Mem) (fw : FwBootImage) (t : AscTunables)
    (p : BootPatch) : Option String × Mem :=
  match chooseKey p.socRevision t.keys with
  | none => (some "no ASC tunables for this chip revision", img)
  | some key =>
    if fwTunablesMax < t.n.toNat then
      (some "no ASC tunables for this chip revision", img)
    else if peekLe img fwDataBaseVm 8 ≠ 0 then
      (some "DATA base field is not the archive zero", img)
    else if !recordsPinned img fw then
      (some "__rtk_patch record != pinned image", img)
    else if peek img fw.tunablesVm 8 ≠ tunablesUnset then
      (some "tunables block header != pinned image", img)
    else
      let img := fwPutLe img fwDataBaseVm (dataBase fw p) 8
      let img := putRecords img fw p
      let img := poke img (fw.tunablesVm + 3) [t.n]
      let img := fwPutLe img (fw.tunablesVm + 4) key.toNat 4
      (none, putTunables fw.tunablesVm 0 (t.r.take t.n.toNat) img)

/-! ## The writes -/

def recordWrites (fw : FwBootImage) (p : BootPatch) : List (Nat × Bytes) :=
  (recordValues fw p).map fun (vm, len, v) => (vm + 8, leBytes len v)

def tunableListWrites (blk : Nat) : Nat → List AscTunable → List (Nat × Bytes)
  | _, [] => []
  | i, r :: rs =>
    (blk + 8 + 20 * i, leBytes 4 r.off.toNat) ::
      (blk + 12 + 20 * i, leBytes 8 r.mask.toNat) ::
      (blk + 20 + 20 * i, leBytes 8 r.val.toNat) ::
      tunableListWrites blk (i + 1) rs

/-- The writes to the block of the tunables. -/
def blockWrites (fw : FwBootImage) (t : AscTunables) (key : UInt8) :
    List (Nat × Bytes) :=
  (fw.tunablesVm + 3, [t.n]) :: (fw.tunablesVm + 4, leBytes 4 key.toNat) ::
    tunableListWrites fw.tunablesVm 0 (t.r.take t.n.toNat)

/-- All writes, in the order of the code. -/
def bootWrites (fw : FwBootImage) (t : AscTunables) (p : BootPatch)
    (key : UInt8) : List (Nat × Bytes) :=
  (fwDataBaseVm, leBytes 8 (dataBase fw p)) ::
    (recordWrites fw p ++ blockWrites fw t key)

theorem putRecords_eq (img : Mem) (fw : FwBootImage) (p : BootPatch) :
    putRecords img fw p = pokeAll img (recordWrites fw p) := by
  rw [putRecords, pokeAll, recordWrites, foldl_map]
  rfl

theorem putTunables_eq (blk i : Nat) (rs : List AscTunable) (img : Mem) :
    putTunables blk i rs img = pokeAll img (tunableListWrites blk i rs) := by
  induction rs generalizing i img with
  | nil => rfl
  | cons r rs ih =>
    rw [putTunables, ih]
    rfl

section Sites

variable (fw : FwBootImage) (t : AscTunables) (p : BootPatch) (key : UInt8) {w : Nat × Bytes}

theorem extent_recordWrites : (recordWrites fw p).map extent =
    List.zipWith (fun vm r => (vm + 8, r.2)) fw.rtkVm fwRecords := by
  have hlen := fw.rtkVm_length
  obtain ⟨a, b, c, d, e, hvm⟩ : ∃ a b c d e, fw.rtkVm = [a, b, c, d, e] := by
    match fw.rtkVm, hlen with
    | [a, b, c, d, e], _ => exact ⟨a, b, c, d, e, rfl⟩
  rw [recordWrites, recordValues, hvm]
  simp [extent, fwRecords, BootPatch.values]

theorem tunableListWrites_within {blk i : Nat} {rs : List AscTunable}
    (hw : w ∈ tunableListWrites blk i rs) :
    blk + 8 + 20 * i ≤ w.1 ∧ w.1 + w.2.length ≤ blk + 8 + 20 * (i + rs.length) := by
  induction rs generalizing i with
  | nil => cases hw
  | cons r rs ih =>
    rw [length_cons]
    simp only [tunableListWrites, mem_cons] at hw
    rcases hw with rfl | rfl | rfl | hrest
    · rw [leBytes_length]
      constructor <;> omega
    · rw [leBytes_length]
      constructor <;> omega
    · rw [leBytes_length]
      constructor <;> omega
    · have h := ih hrest
      omega

theorem tunableListWrites_separate (blk i : Nat) (rs : List AscTunable) :
    ((tunableListWrites blk i rs).map extent).Pairwise Separate := by
  induction rs generalizing i with
  | nil => exact List.Pairwise.nil
  | cons r rs ih =>
    have hrest : ∀ s ∈ (tunableListWrites blk (i + 1) rs).map extent, blk + 28 + 20 * i ≤ s.1 := by
      intro s hs
      obtain ⟨w, hw, rfl⟩ := mem_map.1 hs
      have h := (tunableListWrites_within hw).1
      rw [extent]
      omega
    simp only [tunableListWrites, map_cons, pairwise_cons, forall_mem_cons, extent, leBytes_length]
    refine ⟨⟨?_, ?_, fun s hs => ?_⟩, ⟨?_, fun s hs => ?_⟩, fun s hs => ?_, ih (i + 1)⟩
    · exact .inl (show blk + 8 + 20 * i + 4 ≤ blk + 12 + 20 * i by omega)
    · exact .inl (show blk + 8 + 20 * i + 4 ≤ blk + 20 + 20 * i by omega)
    · have h := hrest s hs
      exact .inl (show blk + 8 + 20 * i + 4 ≤ s.1 by omega)
    · exact .inl (show blk + 12 + 20 * i + 8 ≤ blk + 20 + 20 * i by omega)
    · have h := hrest s hs
      exact .inl (show blk + 12 + 20 * i + 8 ≤ s.1 by omega)
    · have h := hrest s hs
      exact .inl (show blk + 20 + 20 * i + 8 ≤ s.1 by omega)

theorem blockWrites_within (hw : w ∈ blockWrites fw t key) : fw.tunablesVm + 3 ≤ w.1 ∧
      w.1 + w.2.length ≤ fw.tunablesVm + (8 + 20 * t.n.toNat) := by
  simp only [blockWrites, mem_cons] at hw
  rcases hw with rfl | rfl | hrest
  · simp only [length_singleton]
    omega
  · rw [leBytes_length]
    constructor <;> omega
  · have h := tunableListWrites_within hrest
    have hlen : (t.r.take t.n.toNat).length ≤ t.n.toNat := length_take_le _ _
    omega

theorem blockWrites_separate : ((blockWrites fw t key).map extent).Pairwise Separate := by
  have hrest : ∀ s ∈ (tunableListWrites fw.tunablesVm 0
      (t.r.take t.n.toNat)).map extent, fw.tunablesVm + 8 ≤ s.1 := by
    intro s hs
    obtain ⟨w, hw, rfl⟩ := mem_map.1 hs
    exact (tunableListWrites_within hw).1
  simp only [blockWrites, map_cons, pairwise_cons,
    forall_mem_cons, extent, leBytes_length, length_singleton]
  refine ⟨⟨?_, fun s hs => ?_⟩, fun s hs => ?_, tunableListWrites_separate _ _ _⟩
  · exact .inl le_rfl
  · have h := hrest s hs
    exact .inl (show fw.tunablesVm + 3 + 1 ≤ s.1 by omega)
  · exact .inl (hrest s hs)

variable {t}

/-- With fewer tunables the sites are smaller. -/
theorem patchSites_separate (hn : t.n.toNat ≤ fwTunablesMax) :
    (patchSites fw.rtkVm fw.tunablesVm t.n.toNat).Pairwise Separate := by
  have h := fw.apart
  simp only [patchSites, pairwise_cons, pairwise_append, mem_append, mem_singleton] at h ⊢
  obtain ⟨hbase, hrecords, -, hblock⟩ := h
  have hshrink : ∀ s : Nat × Nat, Separate s (fw.tunablesVm, 8 + 20 * fwTunablesMax) →
      Separate s (fw.tunablesVm, 8 + 20 * t.n.toNat) := by
    rintro s (hs | hs)
    · exact .inl hs
    · refine .inr (Nat.le_trans ?_ hs)
      show fw.tunablesVm + (8 + 20 * t.n.toNat) ≤
        fw.tunablesVm + (8 + 20 * fwTunablesMax)
      omega
  refine ⟨?_, hrecords, ⟨fun _ h => (nomatch h), List.Pairwise.nil⟩, ?_⟩
  · rintro s (hs | rfl)
    · exact hbase s (.inl hs)
    · exact hshrink _ (hbase _ (.inr rfl))
  · rintro s hs _ rfl
    exact hshrink s (hblock s hs _ rfl)

theorem bootWrites_separate (hn : t.n.toNat ≤ fwTunablesMax) :
    ((bootWrites fw t p key).map extent).Pairwise Separate := by
  have hsites := patchSites_separate fw hn
  simp only [patchSites, pairwise_cons, pairwise_append, mem_append, mem_singleton] at hsites
  obtain ⟨hbase, hrecords, -, hblock⟩ := hsites
  -- A write to the block is apart from what the block is apart from.
  have hin : ∀ s, Separate s (fw.tunablesVm, 8 + 20 * t.n.toNat) →
      ∀ w ∈ (blockWrites fw t key).map extent, Separate s w := by
    rintro s hs _ hw
    obtain ⟨w, hmem, rfl⟩ := mem_map.1 hw
    obtain ⟨hlow, hhigh⟩ := blockWrites_within fw t key hmem
    rcases hs with hs | hs
    · exact .inl (show s.1 + s.2 ≤ w.1 from Nat.le_trans hs (by omega))
    · exact .inr (show w.1 + w.2.length ≤ s.1 from Nat.le_trans hhigh hs)
  rw [bootWrites, map_cons, map_append, extent_recordWrites, pairwise_cons, pairwise_append]
  refine ⟨fun s hs => ?_, hrecords, blockWrites_separate fw t key,
    fun s hs w hw => hin s (hblock s hs _ rfl) w hw⟩
  rw [extent, leBytes_length]
  rcases mem_append.1 hs with hrecord | hwrite
  · exact hbase s (.inl hrecord)
  · exact hin _ (hbase _ (.inr rfl)) s hwrite

/-- Every write is in a site. -/
theorem bootWrites_within (hw : w ∈ bootWrites fw t p key) :
    ∃ s ∈ patchSites fw.rtkVm fw.tunablesVm t.n.toNat,
      s.1 ≤ w.1 ∧ w.1 + w.2.length ≤ s.1 + s.2 := by
  rw [bootWrites, mem_cons, mem_append] at hw
  rw [patchSites]
  rcases hw with rfl | hrecord | hblock
  · exact ⟨(fwDataBaseVm, 8), mem_cons_self, le_rfl,
      by rw [leBytes_length]⟩
  · have hmem := mem_map_of_mem (f := extent) hrecord
    rw [extent_recordWrites] at hmem
    exact ⟨extent w, mem_cons_of_mem _ (mem_append_left _ hmem), le_rfl, le_rfl⟩
  · obtain ⟨hlow, hhigh⟩ := blockWrites_within fw t key hblock
    refine ⟨(fw.tunablesVm, 8 + 20 * t.n.toNat), mem_cons_of_mem _
      (mem_append_right _ mem_cons_self), ?_, hhigh⟩
    show fw.tunablesVm ≤ w.1
    omega

end Sites

/-! ## The effect -/

theorem mem_tunableListWrites {blk i j : Nat} {rs : List AscTunable}
    {r : AscTunable} (h : rs[j]? = some r) :
    (blk + 8 + 20 * (i + j), leBytes 4 r.off.toNat) ∈ tunableListWrites blk i rs ∧
      (blk + 12 + 20 * (i + j), leBytes 8 r.mask.toNat) ∈ tunableListWrites blk i rs ∧
      (blk + 20 + 20 * (i + j), leBytes 8 r.val.toNat) ∈ tunableListWrites blk i rs := by
  induction rs generalizing i j with
  | nil => cases h
  | cons r' rs ih =>
    simp only [tunableListWrites, mem_cons]
    cases j with
    | zero =>
      cases h
      exact ⟨.inl rfl, .inr (.inl rfl), .inr (.inr (.inl rfl))⟩
    | succ j =>
      obtain ⟨hoff, hmask, hval⟩ := @ih (i + 1) j h
      rw [show i + (j + 1) = i + 1 + j by omega]
      exact ⟨.inr (.inr (.inr hoff)), .inr (.inr (.inr hmask)), .inr (.inr (.inr hval))⟩

/-- The key that is chosen is the first that is not above the revision. -/
theorem chooseKey_some {rev : UInt32} {keys : List UInt8} {key : UInt8}
    (h : chooseKey rev keys = some key) :
    key ∈ keys ∧ key.toNat ≤ rev.toNat ∧
      (keys.Pairwise (fun a b => b ≤ a) → ∀ key' ∈ keys, key'.toNat ≤ rev.toNat → key' ≤ key) := by
  induction keys with
  | nil => cases h
  | cons first keys ih =>
    rw [chooseKey] at h
    split at h
    next habove =>
      obtain ⟨hmem, hle, hmax⟩ := ih h
      refine ⟨mem_cons_of_mem _ hmem, hle, fun hdesc key' hkey' hle' => ?_⟩
      rw [pairwise_cons] at hdesc
      rcases mem_cons.1 hkey' with rfl | hrest
      · omega
      · exact hmax hdesc.2 key' hrest hle'
    next hle =>
      cases h
      refine ⟨mem_cons_self, Nat.not_lt.1 hle, fun hdesc key' hkey' _ => ?_⟩
      rw [pairwise_cons] at hdesc
      rcases mem_cons.1 hkey' with rfl | hrest
      · exact UInt8.le_refl _
      · exact hdesc.1 key' hrest

/-- The image is refused and stays as it is, or the writes are made. -/
theorem fwApplyBootPatches_cases (img : Mem) (fw : FwBootImage) (t : AscTunables) (p : BootPatch) :
    (∃ reason, fwApplyBootPatches img fw t p = (some reason, img)) ∨
      ∃ key, chooseKey p.socRevision t.keys = some key ∧ t.n.toNat ≤ fwTunablesMax ∧
        fwApplyBootPatches img fw t p = (none, pokeAll img (bootWrites fw t p key)) := by
  rw [fwApplyBootPatches]
  split
  · exact .inl ⟨_, rfl⟩
  next key hkey =>
  split
  · exact .inl ⟨_, rfl⟩
  next hn =>
  split
  · exact .inl ⟨_, rfl⟩
  split
  · exact .inl ⟨_, rfl⟩
  split
  · exact .inl ⟨_, rfl⟩
  refine .inr ⟨key, hkey, Nat.not_lt.1 hn, ?_⟩
  simp only
  rw [putTunables_eq, putRecords_eq, bootWrites, pokeAll_cons, pokeAll_append]
  rfl

/-- What can be read of an image afterwards. -/
structure Patched (fw : FwBootImage) (t : AscTunables) (p : BootPatch)
    (key : UInt8) (img : Mem) : Prop where
  base : peekLe img fwDataBaseVm 8 = dataBase fw p
  records : ∀ vm len v, (vm, len, v) ∈ recordValues fw p →
    peekLe img (vm + 8) len = v
  count : img (fw.tunablesVm + 3) = t.n
  key : peekLe img (fw.tunablesVm + 4) 4 = key.toNat
  tunables : ∀ i r, (t.r.take t.n.toNat)[i]? = some r →
    peekLe img (fw.tunablesVm + 8 + 20 * i) 4 = r.off.toNat ∧
    peekLe img (fw.tunablesVm + 12 + 20 * i) 8 = r.mask.toNat ∧
    peekLe img (fw.tunablesVm + 20 + 20 * i) 8 = r.val.toNat

theorem recordValues_lt {fw : FwBootImage} {p : BootPatch} {vm len v : Nat}
    (h : (vm, len, v) ∈ recordValues fw p) : v < 256 ^ len := by
  have hmem := (of_mem_zip h).2
  simp only [fwRecords, BootPatch.values, zipWith_cons_cons,
    zipWith_nil_left, mem_cons, Prod.mk.injEq, not_mem_nil,
    or_false] at hmem
  rcases hmem with ⟨rfl, rfl⟩ | ⟨rfl, rfl⟩ | ⟨rfl, rfl⟩ | ⟨rfl, rfl⟩ | ⟨rfl, rfl⟩
  · exact p.stackGuard.toNat_lt
  · exact p.soc.toNat_lt
  · exact p.socRevision.toNat_lt
  · exact p.cpuPa.toNat_lt
  · exact p.wrapperPa.toNat_lt

theorem patched_bootWrites {fw : FwBootImage} {t : AscTunables}
    (p : BootPatch) (key : UInt8) (img : Mem)
    (hn : t.n.toNat ≤ fwTunablesMax) :
    Patched fw t p key (pokeAll img (bootWrites fw t p key)) := by
  have hsep := bootWrites_separate fw p key hn
  have hblock : ∀ w ∈ blockWrites fw t key, w ∈ bootWrites fw t p key :=
    fun w hw => mem_cons_of_mem _ (mem_append_right _ hw)
  have htunable : ∀ w ∈ tunableListWrites fw.tunablesVm 0 (t.r.take t.n.toNat),
      w ∈ bootWrites fw t p key :=
    fun w hw => hblock w (mem_cons_of_mem _ (mem_cons_of_mem _ hw))
  constructor
  · exact peekLe_pokeAll hsep mem_cons_self (Nat.mod_lt _ (by decide))
  · intro vm len v hmem
    refine peekLe_pokeAll hsep ?_ (recordValues_lt hmem)
    exact mem_cons_of_mem _ (mem_append_left _
      (mem_map_of_mem (f := fun (vm, len, v) => (vm + 8, leBytes len v)) hmem))
  · have hread := peek_pokeAll (m := img) hsep (hblock (fw.tunablesVm + 3, [t.n]) mem_cons_self)
    exact head_eq_of_cons_eq hread
  · refine peekLe_pokeAll hsep (hblock _ ?_) (Nat.lt_trans key.toNat_lt ?_)
    · exact mem_cons_of_mem _ mem_cons_self
    · decide
  · intro i r hr
    have hmem := @mem_tunableListWrites fw.tunablesVm 0 _ _ _ hr
    rw [Nat.zero_add] at hmem
    exact ⟨peekLe_pokeAll hsep (htunable _ hmem.1) r.off.toNat_lt,
      peekLe_pokeAll hsep (htunable _ hmem.2.1) r.mask.toNat_lt,
      peekLe_pokeAll hsep (htunable _ hmem.2.2) r.val.toNat_lt⟩

/-- A refusal changes nothing.  Otherwise only the sites change, they are apart
and in the buffer, what was asked for can be read back, and the key is the
largest that is not above the revision if the keys descend. -/
theorem fwApplyBootPatches_effect (pin : FwPin) (img : Mem) (t : AscTunables) (p : BootPatch) :
    (∃ reason, fwApplyBootPatches img pin.image t p = (some reason, img)) ∨
    ∃ key img', fwApplyBootPatches img pin.image t p = (none, img') ∧
      (∀ i, (∀ s ∈ patchSites pin.image.rtkVm pin.image.tunablesVm t.n.toNat,
        i < s.1 ∨ s.1 + s.2 ≤ i) → img' i = img i) ∧
      (patchSites pin.image.rtkVm pin.image.tunablesVm t.n.toNat).Pairwise Separate ∧
      (∀ s ∈ patchSites pin.image.rtkVm pin.image.tunablesVm t.n.toNat, s.1 + s.2 ≤ fwBufSize) ∧
      Patched pin.image t p key img' ∧
      key ∈ t.keys ∧ key.toNat ≤ p.socRevision.toNat ∧
      (t.keys.Pairwise (fun a b => b ≤ a) →
        ∀ key' ∈ t.keys, key'.toNat ≤ p.socRevision.toNat → key' ≤ key) := by
  obtain hrefused | ⟨key, hkey, hn, heq⟩ :=
    fwApplyBootPatches_cases img pin.image t p
  · exact .inl hrefused
  · refine .inr ⟨key, _, heq, ?_, patchSites_separate pin.image hn, ?_,
      patched_bootWrites p key img hn, chooseKey_some hkey⟩
    · intro i houtside
      refine pokeAll_of_outside fun w hw => ?_
      obtain ⟨s, hs, hlow, hhigh⟩ := bootWrites_within pin.image p key hw
      have hi := houtside s hs
      omega
    · intro s hs
      rw [patchSites, mem_cons, mem_append, mem_singleton] at hs
      have hinside := pin.image.inside
      simp only [patchSites, mem_cons, mem_append] at hinside
      rcases hs with rfl | hrecord | rfl
      · exact hinside _ (.inl rfl)
      · exact hinside s (.inr (.inl hrecord))
      · refine Nat.le_trans ?_ (hinside _ (.inr (.inr (.inl rfl))))
        show _ + (8 + 20 * t.n.toNat) ≤ _ + (8 + 20 * fwTunablesMax)
        omega

/-- An image with the records and the header of the block in place. -/
def pristine (fw : FwBootImage) : Mem :=
  pokeAll (fun _ => 0)
    ((fw.tunablesVm, tunablesUnset) ::
      List.zipWith (fun vm r => (vm, leBytes 4 r.1 ++ leBytes 4 r.2)) fw.rtkVm
        fwRecords)

example : (fwApplyBootPatches (pristine FwPin.bia.image) FwPin.bia.image
    { keys := [0x10, 0x00], n := 2, r := List.replicate 0x24 ⟨0x51c08, 1, 1⟩,
      keys_length := by decide, r_length := by decide }
    ⟨0x10000, 7, 0x8112, 0x11, 1, 2⟩).1 = none := by
  decide +kernel

end OmarchyAne.T6021
