import OmarchyAne.Lib.Bytes
import OmarchyAne.Lib.Checks
import OmarchyAne.Lib.Regex

/-!
# Installing the firmware and checking it

`omarchy-ane-firmware-fetch` installs the image that is pinned for the chip,
and with `--check` it says whether the copy that the kernel loads has the pin.
The kernel looks under its search path first, then in the vendor directory,
then in `usr/lib/firmware`.  `check` looks at the three places in that order;
`run` looks at the last two only.

A run that ends with 0 leaves a pinned copy in one of the last two places
(`run_ok`).  So the check behind it passes unless the search path has another
copy that the run did not write (`check_after_run_iff`).
-/

namespace OmarchyAne.Packaging

open Lib

/-- A row of `FETCH`: the member of the IPSW, the installed name, the size and
the SHA-256 of the payload, and the version of the IPSW. -/
structure Pin where
  member : Text
  name : Text
  size : Nat
  sha256 : Text
  version : Text

def selene : Pin where
  member := "Firmware/ane/t602x_ane0_fw_selene_rc4x.im4p".toList
  name := "apple/ane/t602x_ane0_fw_selene_rc4x.macho".toList
  size := 0x4C5B28
  sha256 :=
    "a9c4b771294a6b115624d9480a6248d0899a1681a575e865070b87a3248427bc".toList
  version := "13.5".toList

def bia : Pin where
  member := "Firmware/ane/h14_ane_fw_bia_j4xx.im4p".toList
  name := "apple/ane/h14_ane_fw_bia_j4xx.macho".toList
  size := 0x4B5B38
  sha256 :=
    "af587dfa96b1e01d2b2e0f9f776e5dbefebb44c7968b86fff7d2b19c4cbef0dd".toList
  version := "13.5".toList

def leto : Pin where
  member := "Firmware/ane/h16_ane_fw_leto_j7x.im4p".toList
  name := "apple/ane/h16_ane_fw_leto_j7x.macho".toList
  size := 0x17C000
  sha256 :=
    "4b330c5fd3548fb534ded5e7030c64b2ee3c3feb8ad859c23d87dcb82947abd2".toList
  version := "27.0".toList

def aether : Pin where
  member := "Firmware/ane/t604x_ane_fw_aether_brvx.im4p".toList
  name := "apple/ane/t604x_ane_fw_aether_brvx.macho".toList
  size := 0x17C000
  sha256 :=
    "8659271a3173ca1c816841b212ac406a6516f74f51d08f196327560cb1f6b925".toList
  version := "27.0".toList

/-- `FETCH`. -/
def pins : List (Text × Pin) :=
  [("apple,t6020".toList, selene), ("apple,t6021".toList, selene),
    ("apple,t6022".toList, selene), ("apple,t8112".toList, bia),
    ("apple,t8132".toList, leto), ("apple,t6040".toList, aether),
    ("apple,t6041".toList, aether)]

def h15Chips : List Text :=
  ["apple,t8122", "apple,t6030", "apple,t6031", "apple,t6034"].map (·.toList)

def noFetch : List Text :=
  ["apple,t8103", "apple,t6000", "apple,t6001", "apple,t6002"].map (·.toList)

def defaultOn : List Text :=
  ["apple,t6020", "apple,t6021", "apple,t6022"].map (·.toList)

/-- `IPSW`: the versions of the stub that have a download. -/
def ipsw : List (Text × Text) :=
  [("13.5".toList, ("https://updates.cdn-apple.com/2023SummerFCS/fullrestores/" ++
      "032-69606/D3E05CDF-E105-434C-A4A1-4E3DC7668DD0/" ++
      "UniversalMac_13.5_22G74_Restore.ipsw").toList),
    ("27.0".toList, ("https://updates.cdn-apple.com/2026FallFCS/" ++
      "afcfc88e-bbe6-44bf-a5da-07c56eebc06c/" ++
      "UniversalMac_27.0_26A428_Restore.ipsw").toList)]

/-! ## The system -/

/-- What the read of a file gives. -/
inductive FileRead where
  | missing
  | failed
  | bytes (data : Bytes)

/-- The kernel's `firmware_class.path`. -/
inductive Parameter where
  | unreadable
  | undecodable
  | text (t : Text)

/-- The parts of a path below the root. -/
abbrev Path := List Text

/-- The parts of a path, as `pathlib` keeps them. -/
def parts (t : Text) : Path :=
  (t.splitOn '/').filter fun c => c ≠ [] ∧ c ≠ ['.']

/-- What the tool sees of the Mac.  A read of `p` goes through the directory
entry of `q` when `via p q`: `p` is `q`, or a link leads there.  `cdn` is what
a member of an archive gives. -/
structure System where
  compatible : Option (List Text)
  osFwVersion : Option (List Text)
  die1 : Bool
  loaderPath : Parameter
  files : Path → FileRead
  via : Path → Path → Bool
  writable : Bool
  installs : Bool
  cdn : Text → Text → Option Bytes

inductive Stop where
  | noDeviceTree
  | h15
  | noPin
  | die1
  | mismatch
  | notWritable
  | badVersion
  | noImage
  | otherStub
  | noDownload
  | truncated
  | notIm4p
  | notInstalled
  | shadowed
  | missing
  | raised

/-! ## The image -/

/-- One DER header: the tag, the begin and the end of the content. -/
def der (buf : Bytes) (pos : Nat) : Except Stop (Nat × Nat × Nat) :=
  match buf[pos]?, buf[pos + 1]? with
  | some tag, some first =>
    let k := first.toNat % 128
    let (length, start) :=
      if 128 ≤ first.toNat then
        ((slice buf (pos + 2) k).foldl (fun n b => 256 * n + b.toNat) 0, pos + 2 + k)
      else (first.toNat, pos + 2)
    if buf.length < start + length then .error .truncated
    else .ok (tag.toNat, start, start + length)
  | _, _ => .error .truncated

/-- The fields of the sequence, at most `n` of them. -/
def derFields (blob : Bytes) (limit : Nat) :
    Nat → Nat → Except Stop (List (Nat × Nat × Nat))
  | 0, _ => .ok []
  | n + 1, pos =>
    if limit ≤ pos then .ok []
    else do
      let field ← der blob pos
      return field :: (← derFields blob limit n field.2.2)

def im4pPayload (blob : Bytes) : Except Stop Bytes := do
  let (tag, pos, limit) ← der blob 0
  match ← derFields blob limit (if tag = 0x30 then 4 else 0) pos with
  | [(_, a, b), _, _, (octets, c, d)] =>
    if slice blob a (b - a) = ascii "IM4P" ∧ octets = 0x04 then
      .ok (slice blob c (d - c))
    else .error .notIm4p
  | _ => .error .notIm4p

/-- The characters that `\s` takes of an ASCII text. -/
def isSpace (c : Char) : Bool :=
  c = ' ' || (9 ≤ c.toNat && c.toNat ≤ 13) || (28 ≤ c.toNat && c.toNat ≤ 31)

def stubVersion (t : Text) : Except Stop Text :=
  let number := Rx.plus Char.isDigit
  let tail := Rx.seq (Rx.lit ['.']) number
  let version := Rx.seqs [number, tail, .alt tail .eps]
  match (Rx.seqs [.many isSpace, .group 1 version]).matchStart t with
  | none => .error .badVersion
  | some e => .ok ((e.cap 1).getD [])

/-! ## The two commands -/

/-- What is at a place: a copy with the pin, none, or one that hides the
copies behind it. -/
inductive Copy where
  | pinned
  | absent
  | shadow

def vendorPath (p : Pin) : Path := parts ("usr/lib/firmware/vendor/".toList ++ p.name)

def destPath (p : Pin) : Path := parts ("usr/lib/firmware/".toList ++ p.name)

/-- The place under `firmware_class.path`, if there is one.  A path with a
null byte cannot be opened. -/
def loaderPlace (p : Pin) : Parameter → Except Stop (Option Path)
  | .unreadable => .ok none
  | .undecodable => .error .raised
  | .text t =>
    let ends := fun c => c == '\n' || c == '\x00'
    let base := trimEnd ends (t.dropWhile ends)
    if base = [] then .ok none
    else if '\x00' ∈ base then .error .raised
    else .ok (some (parts (base.dropWhile (· == '/')) ++ parts p.name))

/-- The system after `os.replace` of a new file at `q`. -/
def System.install (s : System) (q : Path) (data : Bytes) : System :=
  { s with
    files := fun p => if p = q ∨ s.via p q then .bytes data else s.files p }

section Commands

variable (sha : Bytes → Text)

/-- `verify` does not refuse. -/
def Pin.Fits (p : Pin) (data : Bytes) : Prop :=
  data.length = p.size ∧ sha data = p.sha256

instance (p : Pin) (data : Bytes) : Decidable (p.Fits sha data) :=
  inferInstanceAs (Decidable (_ ∧ _))

def copyOf (p : Pin) : FileRead → Copy
  | .missing => .absent
  | .failed => .shadow
  | .bytes data => if p.Fits sha data then .pinned else .shadow

def vendorCopy (s : System) (p : Pin) : Copy :=
  copyOf sha p (s.files (vendorPath p))

def loaderCopy (s : System) (p : Pin) : Except Stop Copy :=
  match loaderPlace p s.loaderPath with
  | .error e => .error e
  | .ok none => .ok .absent
  | .ok (some path) => .ok (copyOf sha p (s.files path))

/-- `soc`: the first string of the form `apple,t…`. -/
def soc (s : System) : Except Stop Text :=
  let isChip (c : Text) :=
    "apple,t".toList.isPrefixOf c && c.drop 7 != [] && (c.drop 7).all Char.isDigit
  match s.compatible with
  | none => .error .noDeviceTree
  | some cs => .ok ((cs.find? isChip).getD "unknown".toList)

def pinOf (chip : Text) : Except Stop Pin :=
  if chip ∈ h15Chips then .error .h15
  else match pins.lookup chip with
    | none => .error .noPin
    | some p => .ok p

/-- The image from the archive of the stub's own version. -/
def download (s : System) (p : Pin) : Except Stop Bytes := do
  stopIf (s.writable = false) .notWritable
  let strings ← s.osFwVersion.elim (.error .noDeviceTree) .ok
  let version ← stubVersion strings.flatten
  let url ← (ipsw.lookup version).elim (.error .noImage) .ok
  stopIf (version ≠ p.version) .otherStub
  let blob ← (s.cdn url p.member).elim (.error .noDownload) .ok
  let data ← im4pPayload blob
  stopIf (¬ p.Fits sha data) .mismatch
  stopIf (s.installs = false) .notInstalled
  return data

/-- The part of `run` that comes behind the vendor copy. -/
def runDest (s : System) (p : Pin) : Except Stop System :=
  match copyOf sha p (s.files (destPath p)) with
  | .pinned => .ok s
  | _ => do return s.install (destPath p) (← download sha s p)

/-- `run`: the system after it, and whether the vendor copy is a problem. -/
def run (s : System) (hook : Bool) : Except Stop (System × Bool) := do
  let chip ← soc s
  if chip ∈ noFetch then return (s, false)
  if hook ∧ chip ∉ defaultOn then return (s, false)
  let p ← pinOf chip
  stopIf (s.die1 = true) .die1
  match vendorCopy sha s p with
  | .pinned => return (s, false)
  | .absent => return (← runDest sha s p, false)
  | .shadow => return (← runDest sha s p, true)

/-- The last place that `check` looks at. -/
def checkDest (p : Pin) : FileRead → Except Stop Unit
  | .missing => .error .missing
  | .failed => .error .raised
  | .bytes data => stopIf (¬ p.Fits sha data) .mismatch

def check (s : System) : Except Stop Unit := do
  let chip ← soc s
  let p ← pinOf chip
  match ← loaderCopy sha s p with
  | .shadow => .error .shadowed
  | .pinned => return
  | .absent =>
    match vendorCopy sha s p with
    | .shadow => .error .shadowed
    | .pinned => return
    | .absent => checkDest sha p (s.files (destPath p))

/-- `main` without `--check`: the system after it and the exit status. -/
def fetchMain (s : System) (hook : Bool) : System × Nat :=
  match run sha s hook with
  | .ok (s', shadow) => (s', if shadow ∧ ¬ hook then 1 else 0)
  | .error _ => (s, if hook then 0 else 1)

/-- `main` with `--check`. -/
def checkMain (s : System) : Nat :=
  match check sha s with
  | .ok _ => 0
  | .error _ => 1

end Commands

/-! ## The check after a run -/

section After

variable {sha : Bytes → Text} {s s' : System} {p : Pin} {chip : Text} {data : Bytes}

/-- The copy under `firmware_class.path` is read through the place where a run
installs the file. -/
def LoaderIsDest (s : System) (p : Pin) : Prop :=
  ∃ path, loaderPlace p s.loaderPath = .ok (some path) ∧
    (path = destPath p ∨ s.via path (destPath p) = true)

theorem pinOf_ok (h : pinOf chip = .ok p) : chip ∉ noFetch := by
  have hpins : ∀ row ∈ pins, row.1 ∉ noFetch := by decide +kernel
  rw [pinOf] at h
  split at h
  · cases h
  · split at h
    · cases h
    · next hp =>
      obtain ⟨l, l', hl, -⟩ := List.lookup_eq_some_iff.mp hp
      exact hpins _ (hl ▸ List.mem_append_right l List.mem_cons_self)

/-- What `check` establishes. -/
theorem check_iff (hchip : soc s = .ok chip) (hp : pinOf chip = .ok p) :
    checkMain sha s = 0 ↔ loaderCopy sha s p = .ok .pinned ∨
      loaderCopy sha s p = .ok .absent ∧ (vendorCopy sha s p = .pinned ∨
        vendorCopy sha s p = .absent ∧ copyOf sha p (s.files (destPath p)) = .pinned) := by
  have hdest : ∀ r, checkDest sha p r = .ok () ↔ copyOf sha p r = .pinned := by
    intro r
    cases r <;> simp [checkDest, copyOf]
  have hmain : checkMain sha s = 0 ↔ check sha s = .ok () := by
    rw [checkMain]
    split <;> simp [*]
  rw [hmain, ← hdest, check, hchip]
  change (pinOf chip >>= _) = _ ↔ _
  rw [hp]
  change (loaderCopy sha s p >>= _) = _ ↔ _
  cases loaderCopy sha s p with
  | error e => simp [bind, Except.bind]
  | ok c =>
    cases c with
    | pinned => simp [bind, Except.bind, pure, Except.pure]
    | shadow => simp [bind, Except.bind]
    | absent =>
      cases vendorCopy sha s p <;> simp [bind, Except.bind, pure, Except.pure]

theorem copyOf_install {q r : Path} (h : p.Fits sha data) :
    copyOf sha p ((s.install q data).files r) =
      if r = q ∨ s.via r q then .pinned else copyOf sha p (s.files r) := by
  simp only [System.install]
  split
  · rw [copyOf, if_pos h]
  · rfl

theorem loaderCopy_install (h : p.Fits sha data) :
    (LoaderIsDest s p → loaderCopy sha (s.install (destPath p) data) p = .ok .pinned) ∧
    (¬ LoaderIsDest s p →
      loaderCopy sha (s.install (destPath p) data) p = loaderCopy sha s p) := by
  have hkept : (s.install (destPath p) data).loaderPath = s.loaderPath := rfl
  refine ⟨fun ⟨path, hplace, hvia⟩ => ?_, fun hother => ?_⟩
  · simp only [loaderCopy, hkept, hplace, copyOf_install h, if_pos hvia]
  · rw [loaderCopy, loaderCopy, hkept]
    split
    · rfl
    · rfl
    · next path hplace =>
      rw [copyOf_install h, if_neg fun hvia => hother ⟨path, hplace, hvia⟩]

theorem download_fits (h : download sha s p = .ok data) : p.Fits sha data := by
  simp only [download, bind_eq_ok, stopIf_eq_ok, pure_eq_ok] at h
  obtain ⟨-, -, -, -, -, -, -, -, -, -, -, -, d, -, -, hfits, -, -, rfl⟩ := h
  exact not_not.mp hfits

theorem runDest_ok (h : runDest sha s p = .ok s') :
    s' = s ∧ copyOf sha p (s.files (destPath p)) = .pinned ∨
    copyOf sha p (s.files (destPath p)) ≠ .pinned ∧
      ∃ data, p.Fits sha data ∧ s' = s.install (destPath p) data := by
  rw [runDest] at h
  split at h
  · next hcopy =>
    cases h
    exact .inl ⟨rfl, hcopy⟩
  · next hcopy =>
    simp only [bind_eq_ok, pure_eq_ok] at h
    obtain ⟨data, hdata, rfl⟩ := h
    exact .inr ⟨hcopy, data, download_fits hdata, rfl⟩

/-- What a run that ends with 0 has found or made. -/
theorem run_ok (hchip : soc s = .ok chip) (hp : pinOf chip = .ok p)
    (h : run sha s false = .ok (s', false)) :
    s' = s ∧ vendorCopy sha s p = .pinned ∨
    vendorCopy sha s p = .absent ∧ runDest sha s p = .ok s' := by
  simp only [run, hchip, hp, bind_eq_ok, Except.ok.injEq, exists_eq_left',
    if_neg (pinOf_ok hp), Bool.false_eq_true, false_and, if_false] at h
  obtain ⟨-, -, h⟩ := h
  cases hv : vendorCopy sha s p with
  | pinned =>
    rw [hv] at h
    cases pure_eq_ok.mp h
    exact .inl ⟨rfl, rfl⟩
  | absent =>
    simp only [hv, bind_eq_ok, pure_eq_ok] at h
    obtain ⟨s'', hs, heq⟩ := h
    cases heq
    exact .inr ⟨rfl, hs⟩
  | shadow =>
    simp only [hv, bind_eq_ok, pure_eq_ok] at h
    obtain ⟨s'', hs, heq⟩ := h
    cases heq

/-- For every content of the directories and every chip with a pin: after a
run that ends with 0 the check passes exactly when the copy under
`firmware_class.path` is missing or has the pin, or the run has written it. -/
theorem check_after_run_iff (sha : Bytes → Text) (s : System) (chip : Text)
    (p : Pin) (hchip : soc s = .ok chip) (hp : pinOf chip = .ok p)
    (h : (fetchMain sha s false).2 = 0) :
    checkMain sha (fetchMain sha s false).1 = 0 ↔
      loaderCopy sha s p = .ok .absent ∨ loaderCopy sha s p = .ok .pinned ∨
      LoaderIsDest s p ∧ vendorCopy sha s p = .absent ∧
        copyOf sha p (s.files (destPath p)) ≠ .pinned := by
  obtain ⟨s', hrun⟩ : ∃ s', run sha s false = .ok (s', false) := by
    rw [fetchMain] at h
    split at h
    · next s' b hrun => cases b <;> simp_all
    · cases h
  have hmain : (fetchMain sha s false).1 = s' := by rw [fetchMain, hrun]
  rw [hmain]
  obtain ⟨rfl, hv⟩ | ⟨hv, hdest⟩ := run_ok hchip hp hrun
  · rw [check_iff hchip hp, hv]
    simp [or_comm]
  obtain ⟨rfl, hcopy⟩ | ⟨hcopy, data, hfits, rfl⟩ := runDest_ok hdest
  · rw [check_iff hchip hp, hv, hcopy]
    simp [or_comm]
  · have hvendor : vendorCopy sha (s.install (destPath p) data) p = .pinned ∨
        vendorCopy sha (s.install (destPath p) data) p = .absent := by
      rw [vendorCopy, copyOf_install hfits]
      split
      · exact .inl rfl
      · exact .inr hv
    have hpinned : copyOf sha p ((s.install (destPath p) data).files (destPath p)) = .pinned := by
      rw [copyOf_install hfits, if_pos (.inl rfl)]
    rw [check_iff (s := s.install (destPath p) data) hchip hp, hpinned, hv]
    by_cases hloader : LoaderIsDest s p
    · rw [(loaderCopy_install hfits).1 hloader]
      simp [hloader, hcopy]
    · rw [(loaderCopy_install hfits).2 hloader]
      simp [hloader, hvendor, or_comm]

/-- A run that finds the pinned file changes nothing and ends with 0. -/
theorem fetchMain_installed (hchip : soc s = .ok chip) (hp : pinOf chip = .ok p)
    (hdie : s.die1 = false) (hv : vendorCopy sha s p = .absent)
    (hdest : copyOf sha p (s.files (destPath p)) = .pinned) :
    fetchMain sha s false = (s, 0) := by
  have hrun : run sha s false = .ok (s, false) := by
    simp [run, hchip, hp, bind, Except.bind, pinOf_ok hp, hdie, stopIf, hv,
      runDest, hdest, pure, Except.pure]
  rw [fetchMain, hrun]
  rfl

end After

/-- The pinned image. -/
def seleneImage : Bytes := List.replicate selene.size 0

/-- A hash that gives the digest of the pin to the pinned image alone. -/
def imageSha (data : Bytes) : Text := if data = seleneImage then selene.sha256 else []

/-- A T6020 with the pinned file installed, a search path, and a copy under
it. -/
def installedWith (loader : FileRead) : System where
  compatible := some ["apple,j474s".toList, "apple,t6020".toList]
  osFwVersion := none
  die1 := false
  loaderPath := .text "/opt/fw\n".toList
  files := fun q =>
    if q = destPath selene then .bytes seleneImage
    else if q = parts "opt/fw".toList ++ parts selene.name then loader
    else .missing
  via := fun _ _ => false
  writable := true
  installs := true
  cdn := fun _ _ => none

theorem fetchMain_installedWith (loader : FileRead) :
    fetchMain imageSha (installedWith loader) false = (installedWith loader, 0) := by
  have hfits : selene.Fits imageSha seleneImage := ⟨List.length_replicate, if_pos rfl⟩
  refine fetchMain_installed (p := selene) (rfl : soc _ = .ok "apple,t6020".toList) rfl rfl rfl ?_
  simp only [installedWith, if_true, copyOf, if_pos hfits]

theorem check_after_run_noLoader :
    checkMain imageSha (fetchMain imageSha (installedWith .missing) false).1 = 0 :=
  (check_after_run_iff _ _ "apple,t6020".toList selene rfl rfl
    (by rw [fetchMain_installedWith])).mpr (.inl rfl)

/-- An empty file under the search path: the run ends with 0 and the check
refuses. -/
theorem check_after_run_emptyLoader :
    (fetchMain imageSha (installedWith (.bytes [])) false).2 = 0 ∧
      checkMain imageSha (fetchMain imageSha (installedWith (.bytes [])) false).1 = 1 := by
  rw [fetchMain_installedWith]
  exact ⟨rfl, rfl⟩

end OmarchyAne.Packaging
