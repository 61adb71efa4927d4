import OmarchyAne.Lib.Kernel
import Mathlib.Data.List.Basic

/-!
# Buffer objects in the IOVA window (ane/src/ane_drv.c)

The M1 driver reserves a range of its IOVA window for each buffer object
(`drm_mm_insert_node_generic`), maps the pages of the object there, and gives
both back when the object goes.  The model follows the extents as the driver
computes them.

* The reservation is `npages << shift` of a `u32`, so it wraps at 4 GiB
  (`reserveSize`).
* `ane_iommu_map_batch` maps the whole size, computed as a `size_t`
  (`spanAddrs`).
* `ane_iommu_map_each` computes each address with a `u32` shift
  (`eachAddrs`).

An `-EEXIST` from the IOMMU makes both map paths clear the entry that is in
the way, for no node of the driver can own it.  The addresses that are cleared
are returned (`MapResult.cleared`).

The IOMMU calls are the interface of the kernel: a map fails with `-EEXIST` on
an entry that is there, and it may fail at any page for another reason, which
the environment chooses (`MapEnv`).  The place of a reservation is any that is
free.
-/

namespace OmarchyAne.M1

open Lib

/-- The address of a physical page. -/
abbrev Phys := Nat

/-- The page table: the physical page of each address that is mapped. -/
abbrev Domain := Nat → Option Phys

namespace Domain

/-- `iommu_map` of one page, when it succeeds. -/
def map (d : Domain) (x : Nat) (p : Phys) : Domain :=
  fun y => if y = x then some p else d y

/-- `iommu_unmap` of some pages. -/
def unmap (d : Domain) (addrs : List Nat) : Domain :=
  fun y => if y ∈ addrs then none else d y

/-- `iommu_iova_to_phys`, which is 0 for an address that is not mapped. -/
def toPhys (d : Domain) (x : Nat) : Phys := (d x).getD 0

end Domain

/-- A range that is reserved in the allocator. -/
structure Node where
  start : Nat
  size : Nat
  deriving DecidableEq, Repr

namespace Node

def Disjoint (a b : Node) : Prop :=
  a.start + a.size ≤ b.start ∨ b.start + b.size ≤ a.start

instance (a b : Node) : Decidable (a.Disjoint b) :=
  inferInstanceAs (Decidable (_ ∨ _))

end Node

section Extents

variable [PageShift]

/-- `round_up(size, PAGE_SIZE)` on a `u64`. -/
def roundUp (size : Nat) : Nat :=
  ((size - 1) / pageSize * pageSize + pageSize) % 2 ^ 64

/-- `bo->npages`, a `u32`. -/
def npagesOf (size : Nat) : Nat := roundUp size / pageSize % 2 ^ 32

/-- The size of the node: a shift of a `u32`. -/
def reserveSize (npages : Nat) : Nat := npages * pageSize % 2 ^ 32

/-- The pages of `(size_t)npages << shift` bytes from an address on. -/
def spanAddrs (iova : Nat) (npages : Nat) : List Nat :=
  (List.range npages).map fun i => iova + i * pageSize

/-- The addresses of the loop over the pages: `i << shift` is a `u32`. -/
def eachAddrs (iova : Nat) (npages : Nat) : List Nat :=
  (List.range npages).map fun i => iova + i * pageSize % 2 ^ 32

end Extents

/-! ## Mapping -/

inductive MapErr where
  | exist
  | other
  deriving DecidableEq

/-- What the environment decides during one map call. -/
structure MapEnv where
  /-- `READ_ONCE(map_batch)`. -/
  batch : Bool
  /-- `sg_alloc_table_from_pages` fails. -/
  noTable : Bool
  /-- The page at which the first map of the range fails for another reason. -/
  first : Option Nat
  /-- The page at which the map after the clearing fails. -/
  second : Option Nat
  /-- The map of the range comes back short. -/
  short : Bool
  /-- The pages at which `iommu_map` of one page fails for another reason. -/
  fails : Nat → Bool
  /-- The pages at which the map after the clearing of an entry fails. -/
  again : Nat → Bool

structure MapResult where
  ok : Bool
  domain : Domain
  cleared : List Nat

/-- `iommu_map_sgtable`: the pages in their order.  A map that fails has
unmapped what it mapped, so its caller keeps the domain it had. -/
def mapSg (fail : Option Nat) :
    Nat → List (Nat × Phys) → Domain → Except MapErr Domain
  | _, [], d => .ok d
  | i, (x, p) :: rest, d =>
    if fail = some i then .error .other
    else if (d x).isSome then .error .exist
    else mapSg fail (i + 1) rest (d.map x p)

/-- `ane_iommu_clear_range`: the addresses of the range that it unmaps. -/
def clearRange (d : Domain) (addrs : List Nat) : List Nat :=
  addrs.filter fun x => d.toPhys x != 0

section Map

variable [PageShift]

def mapBatch (env : MapEnv) (d : Domain) (iova : Nat) (pages : List Phys) :
    MapResult :=
  let addrs := spanAddrs iova pages.length
  let range := addrs.zip pages
  -- A short map is cleared page by page and fails.
  let finish := fun (d' : Domain) cleared =>
    if env.short then
      ⟨false, d'.unmap (clearRange d' addrs), cleared ++ clearRange d' addrs⟩
    else ⟨true, d', cleared⟩
  if env.noTable then ⟨false, d, []⟩
  else
    match mapSg env.first 0 range d with
    | .ok d' => finish d' []
    | .error .other => ⟨false, d, []⟩
    | .error .exist =>
      let strays := clearRange d addrs
      let d₁ := d.unmap strays
      if strays = [] then ⟨false, d, []⟩
      else
        match mapSg env.second 0 range d₁ with
        | .ok d' => finish d' strays
        | .error _ => ⟨false, d₁, strays⟩

/-- The loop of `ane_iommu_map_each`.  `done` holds the addresses of the pages
before, which a failure unmaps. -/
def mapEachFrom (env : MapEnv) :
    Nat → List (Nat × Phys) → List Nat → Domain → List Nat → MapResult
  | _, [], _, d, cleared => ⟨true, d, cleared⟩
  | i, (x, p) :: rest, done, d, cleared =>
    if env.fails i then ⟨false, d.unmap done, cleared⟩
    else if (d x).isSome then
      -- The stray entry is cleared once, and the map is tried again.  One that
      -- translates to 0 looks absent.
      if d.toPhys x = 0 then ⟨false, d.unmap done, cleared⟩
      else if env.again i then ⟨false, (d.unmap [x]).unmap done, x :: cleared⟩
      else
        mapEachFrom env (i + 1) rest (x :: done) ((d.unmap [x]).map x p)
          (x :: cleared)
    else mapEachFrom env (i + 1) rest (x :: done) (d.map x p) cleared

def mapEach (env : MapEnv) (d : Domain) (iova : Nat) (pages : List Phys) :
    MapResult :=
  mapEachFrom env 0 ((eachAddrs iova pages.length).zip pages) [] d []

end Map

/-! ## Buffer objects -/

/-- A buffer object with a mapping.  `addrs` are the addresses that its map
call wrote. -/
structure Bo where
  mm : Node
  pages : List Phys
  addrs : List Nat
  deriving DecidableEq

namespace Bo

/-- `bo->iova`. -/
def iova (b : Bo) : Nat := b.mm.start

/-- `bo->npages`. -/
def npages (b : Bo) : Nat := b.pages.length

end Bo

/-- The window and what is in it.  `held` are the nodes that no live object
owns. -/
structure Mem where
  lo : Nat
  hi : Nat
  domain : Domain
  bos : List Bo
  held : List Node
  /-- The addresses of live objects that a clearing unmapped. -/
  victims : List Nat

namespace Mem

def nodes (m : Mem) : List Node := m.bos.map Bo.mm ++ m.held

/-- The addresses among `cleared` that a live object has mapped. -/
def owned (m : Mem) (cleared : List Nat) : List Nat :=
  cleared.filter fun x => m.bos.any fun b => x ∈ b.addrs

section Calls

variable [PageShift]

/-- A place where `drm_mm_insert_node_generic` can put a node: it is aligned,
inside the window and free. -/
def Fits (m : Mem) (n : Node) : Prop :=
  0 < n.size ∧ pageSize ∣ n.start ∧ m.lo ≤ n.start ∧ n.start + n.size ≤ m.hi ∧
    ∀ n' ∈ m.nodes, n.Disjoint n'

instance (m : Mem) (n : Node) : Decidable (m.Fits n) :=
  inferInstanceAs (Decidable (_ ∧ _))

/-- The range of a mapping, as `ane_iommu_unmap_pages` and the reclaim give it
back: every page is tried, so none stays. -/
def unmapPages (d : Domain) (b : Bo) : Domain :=
  d.unmap (spanAddrs b.iova b.npages)

/-- `ane_iommu_map_pages` of an object with `pages` at the place `start`. -/
def mapPages (m : Mem) (env : MapEnv) (start : Nat) (pages : List Phys) :
    Option Bo × Mem :=
  let mm : Node := ⟨start, reserveSize pages.length⟩
  if m.Fits mm then
    let addrs :=
      if env.batch then spanAddrs start pages.length
      else eachAddrs start pages.length
    let r :=
      if env.batch then mapBatch env m.domain start pages
      else mapEach env m.domain start pages
    let m' := { m with
      domain := r.domain, victims := m.victims ++ m.owned r.cleared }
    if r.ok then
      (some ⟨mm, pages, addrs⟩,
        { m' with bos := m.bos ++ [⟨mm, pages, addrs⟩] })
    else (none, m')
  else (none, m)

/-- What the environment decides during `BO_INIT`. -/
structure InitEnv where
  /-- An allocation fails before the object is mapped. -/
  fails : Bool
  start : Nat
  /-- The physical pages of the object. -/
  phys : Nat → Phys
  map : MapEnv
  /-- `drm_gem_handle_create` succeeds. -/
  handle : Bool

/-- The last reference of a mapped object goes: `ane_iommu_unmap_pages`. -/
def free (m : Mem) (i : Nat) : Mem :=
  match m.bos[i]? with
  | none => m
  | some b => { m with
      domain := unmapPages m.domain b, bos := m.bos.eraseIdx i }

/-- `ane_bo_init` on an engine that is not wedged. -/
def boInit (m : Mem) (size : Nat) (env : InitEnv) : Mem :=
  if size = 0 ∨ env.fails then m
  else
    let pages := (List.range (npagesOf size)).map env.phys
    match m.mapPages env.map env.start pages with
    | (none, m') => m'
    | (some _, m') => if env.handle then m' else m'.free m.bos.length

end Calls

end Mem

end OmarchyAne.M1
