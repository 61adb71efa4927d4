import OmarchyAne.Lib.Kernel
import OmarchyAne.Lib.Radix
import OmarchyAne.Lib.Run

/-!
# The page tables of the t8110 DART

`dart8_map` builds the tables that the DART walks, and `dart8_translate` walks
them.  A table has 2048 entries of 64 bits.  The tables of a DART are a radix
tree in memory (`Cfg.radix`), with the bits of the address above the page as
the digits.

Memory is a function from a table and an index to an entry.  The allocator
answers the calls in turn, with 0 for a failure, and the state counts the
calls.  An address is a number, and the arguments of a call are 64-bit words.
-/

namespace OmarchyAne.Dart

open Lib

/-! ## Entries -/

/-- `GENMASK_ULL`. -/
def genmask (h l : Nat) : Nat := (2 ^ (h + 1 - l) - 1) <<< l

/-- `D8_PADDR_MASK`. -/
def d8PaddrMask : Nat := genmask 37 10

/-- `D8_PTE_SUBPAGE_END`. -/
def d8PteSubpageEnd : Nat := genmask 51 40

/-- `D8_PTE_VALID`. -/
def d8PteValid : Nat := 2 ^ 0

/-- `D8_PTE_NO_CACHE`. -/
def d8PteNoCache : Nat := 2 ^ 1

/-- `D8_PTE_NO_WRITE`. -/
def d8PteNoWrite : Nat := 2 ^ 2

/-- `D8_PTE_NO_READ`. -/
def d8PteNoRead : Nat := 2 ^ 3

/-- The bits of an entry that a caller can ask for. -/
def protMask : Nat := d8PteNoCache ||| d8PteNoWrite ||| d8PteNoRead

/-- `D8_GRANULE`. -/
def d8Granule : Nat := 0x4000

/-- `D8_ENTRIES`. -/
def d8Entries : Nat := 2048

/-- `dart8_leaf_pte`. -/
def dart8LeafPte (pa prot : Nat) : Nat :=
  (pa >>> 4 &&& d8PaddrMask) ||| d8PteSubpageEnd ||| (prot &&& protMask) |||
    d8PteValid

/-- `dart8_table_pte`. -/
def dart8TablePte (tablePa : Nat) : Nat :=
  (tablePa >>> 4 &&& d8PaddrMask) ||| d8PteValid

/-- `dart8_leaf_pa`. -/
def dart8LeafPa (pte : Nat) : Nat := (pte &&& d8PaddrMask) <<< 4

/-! ## The configuration -/

/-- `struct dart8_cfg`, without the streams.  `alloc n` is the answer to call
number `n` of the allocator. -/
structure Cfg where
  vmBase : UInt64
  vmSize : UInt64
  walkLevels : Nat
  alloc : Nat → Nat

/-- `dart8_cfg_init`.  The callbacks can be missing. -/
def dart8CfgInit (vmBase vmSize : UInt64) (alloc : Option (Nat → Nat))
    (hasFree : Bool) : Except Errno Cfg :=
  match alloc with
  | none => .error .EINVAL
  | some alloc =>
    if !hasFree || vmSize == 0 || vmSize.toNat % d8Granule != 0 ||
        vmBase.toNat % d8Granule != 0 then .error .EINVAL
    else
      let top := vmBase + vmSize - 1
      if top < vmBase then .error .ERANGE
      else
        let vaBits :=
          if top.toNat >>> 14 ≠ 0 then Nat.log2 top.toNat + 1 - 14 else 0
        let levels := max ((vaBits + 10) / 11) 2
        if 3 < levels then .error .ERANGE
        else
          .ok {
            vmBase := vmBase
            vmSize := vmSize
            walkLevels := levels
            alloc := alloc }

/-- `dart8_index`. -/
def dart8Index (c : Cfg) (iova l : Nat) : Nat :=
  iova >>> (14 + 11 * (c.walkLevels - l)) % d8Entries

/-- A fault code as it is returned. -/
def negated (code : Nat) : Int := -code

/-- `D8_FAULT_WRITE` or `D8_FAULT_READ`. -/
def accessFault (write : Bool) : Nat := if write then 2 ^ 4 else 2 ^ 5

/-- `dart8_fault_at`: the negated code of a walk that ends at level `l`. -/
def dart8FaultAt (c : Cfg) (l : Nat) (write : Bool) : Int :=
  let code : Nat :=
    if l < c.walkLevels then if l = 1 then 2 ^ 1 else 2 ^ 2 else 2 ^ 3
  negated (code ||| accessFault write)

/-! ## Mapping -/

/-- `struct dart8_pt`, the tables in memory, and how often the allocator was
called. -/
structure Pt where
  root : Nat
  mem : Nat → Nat → Nat
  allocs : Nat

/-- The inner loop of `dart8_map`: go down `left` levels from `table`, and
allocate the tables that are missing. -/
def descend (c : Cfg) (iova : Nat) : Nat → Nat → Nat → Pt → Option Nat × Pt
  | 0, _, table, pt => (some table, pt)
  | left + 1, l, table, pt =>
    let idx := dart8Index c iova l
    let pte := pt.mem table idx
    if pte &&& d8PteValid ≠ 0 then
      descend c iova left (l + 1) (dart8LeafPa pte) pt
    else
      let t := c.alloc pt.allocs
      if t = 0 then (none, { pt with allocs := pt.allocs + 1 })
      else
        let mem := Radix.hang pt.mem table idx t 0 (dart8TablePte t)
        descend c iova left (l + 1) (dart8LeafPa (mem table idx))
          { pt with mem := mem, allocs := pt.allocs + 1 }

/-- One turn of the outer loop: map one page. -/
def mapPage (c : Cfg) (pt : Pt) (iova pa prot : Nat) : Option Errno × Pt :=
  match descend c iova (c.walkLevels - 1) 1 pt.root pt with
  | (none, pt) => (some .ENOMEM, pt)
  | (some table, pt) =>
    let idx := dart8Index c iova c.walkLevels
    let pte := pt.mem table idx
    let want := dart8LeafPte pa prot
    if pte &&& d8PteValid ≠ 0 ∧ pte ≠ want then (some .EEXIST, pt)
    else (none, { pt with mem := Radix.setEntry pt.mem table idx want })

/-- The outer loop: `n` pages from `off` on. -/
def mapPages (c : Cfg) (iova pa prot : Nat) :
    Nat → Nat → Pt → Option Errno × Pt
  | 0, _, pt => (none, pt)
  | n + 1, off, pt =>
    match mapPage c pt (iova + off) ((pa + off) % 2 ^ 64) prot with
    | (some e, pt) => (some e, pt)
    | (none, pt) => mapPages c iova pa prot n (off + d8Granule) pt

/-- The arguments of a call of `dart8_map`. -/
structure Call where
  iova : UInt64
  pa : UInt64
  size : UInt64
  prot : UInt64

/-- `dart8_map`: the error code, if any, and the tables. -/
def dart8Map (c : Cfg) (pt : Pt) (a : Call) : Option Errno × Pt :=
  if pt.root = 0 ∨
      (a.iova ||| a.pa ||| a.size).toNat % d8Granule ≠ 0 ∨ a.size = 0 then
    (some .EINVAL, pt)
  else if a.iova < c.vmBase ∨ a.iova + a.size - 1 < a.iova ∨
      c.vmBase + c.vmSize ≤ a.iova + a.size - 1 then
    (some .ERANGE, pt)
  else
    mapPages c a.iova.toNat a.pa.toNat (a.prot.toNat &&& protMask)
      (a.size.toNat / d8Granule) 0 pt

/-! ## Translating -/

/-- The loop of `dart8_translate`: the entry at the last level. -/
def walk (c : Cfg) (pt : Pt) (iova : Nat) (write : Bool) :
    Nat → Nat → Nat → Except Int Nat
  | left, l, table =>
    let pte := pt.mem table (dart8Index c iova l)
    if pte &&& d8PteValid = 0 then .error (dart8FaultAt c l write)
    else
      match left with
      | 0 => .ok pte
      | left + 1 => walk c pt iova write left (l + 1) (dart8LeafPa pte)

/-- `dart8_translate`: a physical address, or a negated fault code. -/
def dart8Translate (c : Cfg) (pt : Pt) (iova : Nat) (write : Bool) :
    Except Int Nat :=
  if pt.root = 0 then
    .error (negated (2 ^ 0 ||| accessFault write))
  else
    match walk c pt iova write (c.walkLevels - 1) 1 pt.root with
    | .error e => .error e
    | .ok pte =>
      if (if write then pte &&& d8PteNoWrite else pte &&& d8PteNoRead) ≠ 0
      then .error (negated (accessFault write))
      else .ok (dart8LeafPa pte + iova % d8Granule)

/-! ## The system -/

/-- A run of `dart8_map` calls from an empty root table. -/
def mapSystem (c : Cfg) (root : Nat) : System Pt Call where
  init pt := pt.root = root ∧ root ≠ 0 ∧ (∀ i, pt.mem root i = 0) ∧
    pt.allocs = 0
  step pt a := some (dart8Map c pt a).2

/-- The tables as a radix tree. -/
def Cfg.radix (c : Cfg) : Radix Nat Nat where
  child pte := if pte &&& d8PteValid ≠ 0 then some (dart8LeafPa pte) else none
  fanout := d8Entries
  depth := c.walkLevels

/-- The place of the leaf entry of an address: a table and an index. -/
def leafEntry (c : Cfg) (pt : Pt) (iova : Nat) : Option (Nat × Nat) :=
  c.radix.place pt.mem pt.root (iova / d8Granule)

end OmarchyAne.Dart
