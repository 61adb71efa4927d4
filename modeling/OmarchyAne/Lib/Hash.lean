import Mathlib.Data.List.Basic

/-!
# Hashing a stream piece by piece

The incremental interface of a hash.  Two users of it hash the same stream
when the pieces that they hand over have the same concatenation
(`Hasher.Streams.foldl_update`), however the stream is cut.

`Hasher.record` keeps the stream itself.  What is proved of every hash holds
of it, and then speaks of the streams and not of their digests.
-/

namespace OmarchyAne.Lib

variable {χ δ : Type}

/-- The incremental interface of a hash with state `χ` and digest `δ`. -/
structure Hasher (χ δ : Type) where
  init : χ
  update : χ → List UInt8 → χ
  final : χ → δ

namespace Hasher

/-- An update sees the bytes, not how they are cut into pieces. -/
structure Streams (H : Hasher χ δ) : Prop where
  update_nil : ∀ ctx, H.update ctx [] = ctx
  update_append : ∀ ctx xs ys,
    H.update (H.update ctx xs) ys = H.update ctx (xs ++ ys)

/-- The digest of a stream that is handed over in one piece. -/
def hash (H : Hasher χ δ) (bytes : List UInt8) : δ :=
  H.final (H.update H.init bytes)

/-- The hash that keeps its stream. -/
def record : Hasher (List UInt8) (List UInt8) where
  init := []
  update ctx bytes := ctx ++ bytes
  final ctx := ctx

theorem record_streams : record.Streams where
  update_nil ctx := List.append_nil ctx
  update_append ctx xs ys := List.append_assoc ctx xs ys

@[simp] theorem record_hash (bytes : List UInt8) : record.hash bytes = bytes :=
  List.nil_append bytes

/-- Steps that each hand over one piece hand over the concatenation. -/
theorem Streams.foldl_update {H : Hasher χ δ} (hH : H.Streams) {α : Type}
    {step : χ → α → χ} {piece : α → List UInt8}
    (hstep : ∀ ctx a, step ctx a = H.update ctx (piece a)) (ctx : χ)
    (l : List α) : l.foldl step ctx = H.update ctx (l.flatMap piece) := by
  induction l generalizing ctx with
  | nil => rw [List.foldl_nil, List.flatMap_nil, hH.update_nil]
  | cons a l ih =>
    rw [List.foldl_cons, ih, hstep, hH.update_append, List.flatMap_cons]

end Hasher

end OmarchyAne.Lib
