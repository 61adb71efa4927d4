import OmarchyAne.Adt.Blob
import OmarchyAne.Lib.Traced

/-!
# The accesses of a reader

The readers again, with a trace.  An `Access` is a byte that is read, a test
that has passed on some bytes of a value, or a write to the stack of counts.
`Access.Safe` says that it stays where it belongs.
-/

namespace OmarchyAne.Adt

open Lib

variable {ε : Type} (b : Blob)

inductive Access where
  /-- The byte at an offset is read. -/
  | read (off : Nat)
  /-- A test has passed on the first `n` bytes of a value of `size` bytes. -/
  | matched (size n : Nat)
  /-- The entry `depth` of the stack is written. -/
  | push (depth : Nat)
  deriving DecidableEq, Repr

/-- The byte is in the blob, the bytes of the test are in the value, and the
entry is in the stack. -/
def Access.Safe (b : Blob) (depth : Nat) : Access → Prop
  | .read off => off < b.len
  | .matched size n => n ≤ size
  | .push d => d < depth

instance Access.decidableSafe (b : Blob) (depth : Nat) :
    DecidablePred (Access.Safe b depth) :=
  fun w =>
    match w with
    | .read off => inferInstanceAs (Decidable (off < b.len))
    | .matched size n => inferInstanceAs (Decidable (n ≤ size))
    | .push d => inferInstanceAs (Decidable (d < depth))

/-- Enough for the walk: a node of the tree takes eight bytes at least. -/
def walkFuel (b : Blob) : Nat := b.len / 8 + 1

theorem walkFuel_enough (b : Blob) : b.len < 8 * walkFuel b := by
  rw [walkFuel]
  omega

abbrev ReadM (ε : Type) := Traced ε Access

/-- `n` bytes from an offset on. -/
def readBytes (off n : Nat) : ReadM ε Unit :=
  ⟨(List.range n).map fun i => .read (off + i), .ok ()⟩

/-- A word of four bytes. -/
def read32 (off : Nat) : ReadM ε Nat := do
  readBytes off 4
  return b.le32 off

/-- `strncmp` or `strncasecmp`, which read up to the first difference or
NUL. -/
def readText (fold : UInt8 → UInt8) : Nat → Nat → Bytes → ReadM ε Bool
  | 0, _, _ => pure true
  | n + 1, off, name => do
    readBytes off 1
    if fold (b.byte off) == fold (name.headD 0) then
      if name.headD 0 == 0 then pure true
      else readText fold n (off + 1) name.tail
    else pure false

variable {b} {depth off n : Nat}

@[simp] theorem res_readBytes (off n : Nat) : (readBytes off n : ReadM ε Unit).res = .ok () := rfl

theorem all_readBytes (h : off + n ≤ b.len) :
    (readBytes off n : ReadM ε Unit).All (Access.Safe b depth) := by
  intro w hw
  obtain ⟨i, hi, rfl⟩ := List.mem_map.1 hw
  rw [List.mem_range] at hi
  show off + i < b.len
  omega

theorem all_readByte : (readBytes off 1 : ReadM ε Unit).All (Access.Safe b depth) ↔
      off < b.len := by
  simp [readBytes, Traced.All, Access.Safe]

@[simp] theorem res_read32 (off : Nat) : (read32 b off : ReadM ε Nat).res = .ok (b.le32 off) := rfl

theorem all_read32 (h : off + 4 ≤ b.len) :
    (read32 b off : ReadM ε Nat).All (Access.Safe b depth) := by
  rw [read32, Traced.all_bind]
  exact ⟨all_readBytes h, fun _ _ => Traced.all_pure _⟩

theorem res_readText (fold : UInt8 → UInt8) (n off : Nat) (name : Bytes) :
    (readText b fold n off name : ReadM ε Bool).res = .ok (sameText fold b.byte n off name) := by
  induction n generalizing off name with
  | zero => rfl
  | succ n ih =>
    rw [readText, Traced.res_bind, res_readBytes, sameText]
    change Traced.res (if _ then _ else _) = _
    cases hsame : fold (b.byte off) == fold (name.headD 0) with
    | false => rfl
    | true =>
      cases hzero : name.headD 0 == 0 with
      | true => rfl
      | false => exact ih (off + 1) name.tail

theorem all_readText (fold : UInt8 → UInt8) (name : Bytes) (h : off + n ≤ b.len) :
    (readText b fold n off name : ReadM ε Bool).All (Access.Safe b depth) := by
  induction n generalizing off name with
  | zero => exact Traced.all_pure _
  | succ n ih =>
    rw [readText, Traced.all_bind]
    refine ⟨all_readBytes (by omega), ?_⟩
    intro _ _
    split
    · split
      · exact Traced.all_pure _
      · exact ih name.tail (by omega)
    · exact Traced.all_pure _

end OmarchyAne.Adt
