import OmarchyAne.Lib.Bytes

/-!
# The SHA-256 of libane (src/libane/ane_sha256.c)

The portable block function and the incremental interface around it.  A context
keeps the chaining value, the bytes of a block that is not full yet and the
number of bytes so far, which is a `uint64_t`.

The choice between the portable function and that of the crypto extension is
not part of the model: this is the path of a context for which the portable one
is chosen.
-/

namespace OmarchyAne.Libane

open Lib

/-- `K`. -/
def shaK : List UInt32 :=
  [0x428a2f98, 0x71374491, 0xb5c0fbcf, 0xe9b5dba5, 0x3956c25b, 0x59f111f1,
    0x923f82a4, 0xab1c5ed5, 0xd807aa98, 0x12835b01, 0x243185be, 0x550c7dc3,
    0x72be5d74, 0x80deb1fe, 0x9bdc06a7, 0xc19bf174, 0xe49b69c1, 0xefbe4786,
    0x0fc19dc6, 0x240ca1cc, 0x2de92c6f, 0x4a7484aa, 0x5cb0a9dc, 0x76f988da,
    0x983e5152, 0xa831c66d, 0xb00327c8, 0xbf597fc7, 0xc6e00bf3, 0xd5a79147,
    0x06ca6351, 0x14292967, 0x27b70a85, 0x2e1b2138, 0x4d2c6dfc, 0x53380d13,
    0x650a7354, 0x766a0abb, 0x81c2c92e, 0x92722c85, 0xa2bfe8a1, 0xa81a664b,
    0xc24b8b70, 0xc76c51a3, 0xd192e819, 0xd6990624, 0xf40e3585, 0x106aa070,
    0x19a4c116, 0x1e376c08, 0x2748774c, 0x34b0bcb5, 0x391c0cb3, 0x4ed8aa4a,
    0x5b9cca4f, 0x682e6ff3, 0x748f82ee, 0x78a5636f, 0x84c87814, 0x8cc70208,
    0x90befffa, 0xa4506ceb, 0xbef9a3f7, 0xc67178f2]

/-- `rotr`. -/
def rotr (x : UInt32) (n : Nat) : UInt32 :=
  (x >>> UInt32.ofNat n) ||| (x <<< UInt32.ofNat (32 - n))

/-- `uint32_t st[8]`, and the variables of the block function. -/
structure ShaRegs where
  a : UInt32
  b : UInt32
  c : UInt32
  d : UInt32
  e : UInt32
  f : UInt32
  g : UInt32
  h : UInt32
  deriving DecidableEq, Repr

/-- The first loop of `sha256_block_portable`. -/
def shaLoad (p : Bytes) : List UInt32 :=
  (List.range 16).map fun i =>
    ((p.getD (i * 4) 0).toUInt32 <<< 24) |||
      ((p.getD (i * 4 + 1) 0).toUInt32 <<< 16) |||
      ((p.getD (i * 4 + 2) 0).toUInt32 <<< 8) |||
      (p.getD (i * 4 + 3) 0).toUInt32

/-- `w[i]` in the second loop. -/
def shaExtend (w : List UInt32) (i : Nat) : UInt32 :=
  let w15 := w.getD (i - 15) 0
  let w2 := w.getD (i - 2) 0
  let s0 := rotr w15 7 ^^^ rotr w15 18 ^^^ (w15 >>> 3)
  let s1 := rotr w2 17 ^^^ rotr w2 19 ^^^ (w2 >>> 10)
  w.getD (i - 16) 0 + s0 + w.getD (i - 7) 0 + s1

/-- The array `w` after the second loop. -/
def shaSchedule (p : Bytes) : List UInt32 :=
  (List.range' 16 48).foldl (fun w i => w ++ [shaExtend w i]) (shaLoad p)

/-- A turn of the third loop. -/
def shaRound (k w : UInt32) (r : ShaRegs) : ShaRegs :=
  let S1 := rotr r.e 6 ^^^ rotr r.e 11 ^^^ rotr r.e 25
  let ch := (r.e &&& r.f) ^^^ (~~~r.e &&& r.g)
  let t1 := r.h + S1 + ch + k + w
  let S0 := rotr r.a 2 ^^^ rotr r.a 13 ^^^ rotr r.a 22
  let maj := (r.a &&& r.b) ^^^ (r.a &&& r.c) ^^^ (r.b &&& r.c)
  let t2 := S0 + maj
  { a := t1 + t2, b := r.a, c := r.b, d := r.c, e := r.d + t1, f := r.e,
    g := r.f, h := r.g }

/-- `sha256_block_portable`. -/
def sha256Block (st : ShaRegs) (p : Bytes) : ShaRegs :=
  let w := shaSchedule p
  let r := (List.range 64).foldl
    (fun r i => shaRound (shaK.getD i 0) (w.getD i 0) r) st
  { a := st.a + r.a, b := st.b + r.b, c := st.c + r.c, d := st.d + r.d,
    e := st.e + r.e, f := st.f + r.f, g := st.g + r.g, h := st.h + r.h }

/-- `struct ane_sha256_ctx`. -/
structure ShaCtx where
  st : ShaRegs
  buf : Bytes
  buflen : Nat
  total : Nat
  deriving DecidableEq, Repr

/-- The chaining value of `ane_sha256_init`. -/
def shaStart : ShaRegs where
  a := 0x6a09e667
  b := 0xbb67ae85
  c := 0x3c6ef372
  d := 0xa54ff53a
  e := 0x510e527f
  f := 0x9b05688c
  g := 0x1f83d9ab
  h := 0x5be0cd19

/-- `ane_sha256_init`.  The buffer keeps what is in it. -/
def sha256Init (c : ShaCtx) : ShaCtx :=
  { c with st := shaStart, buflen := 0, total := 0 }

/-- The loop over the full blocks: the chaining value and what is left. -/
def sha256Blocks (st : ShaRegs) (p : Bytes) : ShaRegs × Bytes :=
  if 64 ≤ p.length then sha256Blocks (sha256Block st (p.take 64)) (p.drop 64)
  else (st, p)
termination_by p.length
decreasing_by
  rw [List.length_drop]
  omega

/-- The part of `ane_sha256_update` with an empty buffer. -/
def sha256Rest (c : ShaCtx) (p : Bytes) : ShaCtx :=
  let r := sha256Blocks c.st p
  { c with st := r.1, buf := blit c.buf 0 r.2, buflen := r.2.length }

/-- `ane_sha256_update`. -/
def sha256Update (c : ShaCtx) (data : Bytes) : ShaCtx :=
  let c := { c with total := (c.total + data.length) % 2 ^ 64 }
  if c.buflen ≠ 0 then
    let take := 64 - c.buflen
    if data.length < take then
      { c with
        buf := blit c.buf c.buflen data
        buflen := c.buflen + data.length }
    else
      let buf := blit c.buf c.buflen (data.take take)
      sha256Rest { c with st := sha256Block c.st buf, buf := buf, buflen := 0 }
        (data.drop take)
  else sha256Rest c data

/-- The length that `ane_sha256_final` writes at the end of a block. -/
def putBits (tail : Bytes) (bits : Nat) : Bytes :=
  (List.range 8).foldl
    (fun tail i => tail.set (63 - i) (UInt8.ofNat (bits / 2 ^ (8 * i)))) tail

/-- The bytes of a word of the chaining value. -/
def stBytes (w : UInt32) : Bytes :=
  [(w >>> 24).toUInt8, (w >>> 16).toUInt8, (w >>> 8).toUInt8, w.toUInt8]

/-- `ane_sha256_final`. -/
def sha256Final (c : ShaCtx) : Bytes :=
  let bits := c.total * 2 ^ 3 % 2 ^ 64
  let rem := c.buflen
  let tail := (blit (List.replicate 64 0) 0 (c.buf.take rem)).set rem 0x80
  let st :=
    if 56 ≤ rem then
      sha256Block (sha256Block c.st tail) (putBits (List.replicate 64 0) bits)
    else sha256Block c.st (putBits tail bits)
  [st.a, st.b, st.c, st.d, st.e, st.f, st.g, st.h].flatMap stBytes

end OmarchyAne.Libane
