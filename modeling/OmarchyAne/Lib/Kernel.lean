import Mathlib.Algebra.Order.Ring.Int

/-!
# Kernel notions that every driver model reads

The page size is a constant of the kernel build, so it is a class: a model
states its functions for every page size, and a concrete run picks one.
`Errno` holds the error codes that the modelled functions return.  A C
function that returns `0` or a negative error code is modelled by
`Except Errno Unit`.
-/

namespace OmarchyAne.Lib

/-- The base-2 logarithm of the page size of the kernel build. -/
class PageShift where
  shift : Nat

/-- Pages of 16 KiB. -/
@[reducible] def page16K : PageShift := ⟨14⟩

/-- `PAGE_SIZE`. -/
def pageSize [PageShift] : Nat := 2 ^ PageShift.shift

/-- `PAGE_ALIGN` on a `size_t`: the sum wraps in 64 bits before the low bits
are cleared. -/
def pageAlign [PageShift] (size : Nat) : Nat :=
  (size + (pageSize - 1)) % 2 ^ 64 / pageSize * pageSize

/-- The error codes of the modelled functions. -/
inductive Errno where
  | EINVAL
  | ENOSPC
  | ENOMEM
  | ERANGE
  | EPROTO
  | ENODEV
  | ENOENT
  | ETIMEDOUT
  | EBUSY
  | E2BIG
  | EFAULT
  | EOPNOTSUPP
  | EEXIST
  | Eio
  deriving DecidableEq, Repr

end OmarchyAne.Lib
