import Pyhdiff.Native.Bridge
import Pyhdiff.Native.WordCodec

/-! The HDiffPatch codec and its plugins in 64-bit arithmetic, against the same
over natural numbers. -/
namespace Pyhdiff.Native
open Streaming

def Delivers (n : Nat) (r : Option Bytes) : Prop := ∀ b, r = some b → b.length = n

/-- The numbers a patching client passes are 64-bit ones. -/
def Session.Words : {h : Handle} → Session h → Prop
  | _, .finish _ => True
  | _, .throws _ => True
  | _, .readOld pos n k => (pos < 2 ^ 64 ∧ n < 2 ^ 64) ∧ ∀ r, Delivers n r → (k r).Words
  | _, .readDelta pos n k => (pos < 2 ^ 64 ∧ n < 2 ^ 64) ∧ ∀ r, Delivers n r → (k r).Words
  | _, .write _ _ k => ∀ r, (k r).Words
  | _, .opens size b e k => (size < 2 ^ 64 ∧ b < 2 ^ 64 ∧ e < 2 ^ 64) ∧ k.Words
  | _, .part n k => n < 2 ^ 64 ∧ ∀ b, b.length = n → (k b).Words
  | _, .close k => ∀ r, (k r).Words

def Diffing.Words : Diffing → Prop
  | .finish => True
  | .throws _ => True
  | .readNew pos n k => (pos < 2 ^ 64 ∧ n < 2 ^ 64) ∧ ∀ r, Delivers n r → (k r).Words
  | .readOld pos n k => (pos < 2 ^ 64 ∧ n < 2 ^ 64) ∧ ∀ r, Delivers n r → (k r).Words
  | .write pos b k => (pos < 2 ^ 64 ∧ b.length < 2 ^ 64) ∧ k.Words
  | .compress input offset limit k => (input.size < 2 ^ 64 ∧ offset + limit < 2 ^ 64) ∧ ∀ r, (k r).Words

structure DiffInfo.Words (info : DiffInfo) : Prop where
  newDataSize : info.newDataSize < 2 ^ 64
  oldDataSize : info.oldDataSize < 2 ^ 64
  uncompressedSize : info.uncompressedSize < 2 ^ 64
  compressedSize : info.compressedSize < 2 ^ 64
  diffDataPos : info.diffDataPos < 2 ^ 64
  stepMemSize : info.stepMemSize < 2 ^ 64

/-- What HDiffPatch answers and asks for fits the types it uses. -/
structure HDiffPatch.Words (H : HDiffPatch) : Prop where
  cache : H.kStreamCacheSize * 3 + stepMax < 2 ^ 64
  fits : ∀ {b info}, H.getSingleCompressedDiffInfo b = some info → info.Words
  patches : ∀ {b info}, H.getSingleCompressedDiffInfo b = some info → info.Fits b.length →
    b.length < 2 ^ 64 → ∀ plugin, (H.patchSingleCompressedDiff info plugin).Words
  diffs : ∀ step fast score, (H.createSingleCompressedDiffBlock step fast score).Words

namespace Words

def stepMax : UInt64 := 256 * 1024

structure CompressState (Z : Zstd) where
  ctx : Z.CCtx
  read : UInt64
  chunk : Bytes
  pos : UInt64
  written : UInt64
  out : Mutable.Output

section
variable (Z : Zstd) (heap : Heap) (offset limit : Nat) (input : StreamInput)

def maxCompressedSize (n : UInt64) : UInt64 := n + n / 8 + 1024

def nextChunk (read : UInt64) : Cxx Bytes := do
  let n := min (UInt64.ofNat Z.cStreamInSize) (input.size - read)
  first (UInt64.ofNat Z.cStreamInSize) n
  input.fetch read n

def writeWithin (out : Mutable.Output) (pos : UInt64) (b : Bytes) : Cxx (Option Mutable.Output) := do
  if limit < pos.toNat + b.length then return none
  let (_, out) ← call (Mutable.Output.write heap (UInt64.ofNat (offset + pos.toNat)) b) out
  return some out

def compressPass (s : CompressState Z) : Cxx (Pass (CompressState Z) (UInt64 × Mutable.Output)) := do
  let last := decide (s.read = input.size)
  let r := Z.compressStream2 s.ctx (s.chunk.drop s.pos.toNat) Z.cStreamOutSize
    (if last then .eEnd else .eContinue)
  let remaining ← zcheck r.result
  first (UInt64.ofNat Z.cStreamOutSize) (size r.produced)
  let some out ← writeWithin heap offset limit s.out s.written r.produced | return .stop (0, s.out)
  let written := s.written + size r.produced
  let pos := s.pos + UInt64.ofNat r.consumed
  if (if last then remaining ≠ 0 else pos ≠ size s.chunk) then
    return .next ⟨r.ctx, s.read, s.chunk, pos, written, out⟩
  if last then return .stop (written, out)
  let chunk ← nextChunk Z input s.read
  return .next ⟨r.ctx, s.read + size chunk, chunk, 0, written, out⟩

def compress (passes : Nat) (o : Options) (out : Mutable.Output) : Cxx (UInt64 × Mutable.Output) := do
  let some ctx := Z.createCCtx | .error (.thrown .badAlloc)
  allocate heap Z.cStreamInSize
  allocate heap Z.cStreamOutSize
  let ctx ← (compressParameters o).foldlM (zset Z) ctx
  let ctx ← zcheck (Z.cctxSetPledgedSrcSize ctx input.size.toNat)
  let chunk ← nextChunk Z input 0
  run (compressPass Z heap offset limit input) (.halt .running) passes ⟨ctx, size chunk, chunk, 0, 0, out⟩

end

def diffing (Z : Zstd) (heap : Heap) (passes : Nat) (o : Options) (new old : StreamInput) :
    Diffing → Mutable.Output → Cxx Mutable.Output
  | .finish, out => .ok out
  | .throws t, _ => .error (.thrown t)
  | .readNew pos n k, out => do
    let r ← new.call (UInt64.ofNat pos) (UInt64.ofNat n)
    diffing Z heap passes o new old (k r) out
  | .readOld pos n k, out => do
    let r ← old.call (UInt64.ofNat pos) (UInt64.ofNat n)
    diffing Z heap passes o new old (k r) out
  | .write pos b k, out => do
    let (_, out) ← call (Mutable.Output.write heap (UInt64.ofNat pos) b) out
    diffing Z heap passes o new old k out
  | .compress input offset limit k, out => do
    let (n, out) ← compress Z heap offset limit (.ofNat input) passes o out
    diffing Z heap passes o new old (k n.toNat) out

def hdiffEncode (Z : Zstd) (H : HDiffPatch) (heap : Heap) (passes : Nat) (base target : Bytes)
    (hbase : base.length < 2 ^ 64) (htarget : target.length < 2 ^ 64) (o : Options) :
    Cxx Mutable.Growable := do
  require (size base ≤ rawMax ∧ size target ≤ rawMax) .limit
  let client := H.createSingleCompressedDiffBlock o.stepBytes o.fastBlockBytes o.matchScore
  let out ← diffing Z heap passes o (Input target htarget) (Input base hbase) client (.start payloadMax)
  return out.bytes

structure Decompress (Z : Zstd) where
  ctx : Z.DCtx
  source : StreamInput
  pos : UInt64
  stop : UInt64
  remaining : UInt64
  input : Bytes
  ipos : UInt64
  finished : Bool

namespace Decompress
variable {Z : Zstd}

def opens (Z : Zstd) (size : UInt64) (s : StreamInput) (b e : UInt64) : Cxx (Decompress Z) := do
  require (b ≤ e ∧ e ≤ s.size ∧ size ≤ payloadMax) .invalid
  let some ctx := Z.createDCtx | .error (.thrown .badAlloc)
  let ctx ← zcheck (Z.dctxSetWindowLogMax ctx hdiffWindowLogMax)
  return ⟨ctx, s, b, e, size, [], 0, false⟩

def refill (self : Decompress Z) : Cxx (Decompress Z) := do
  if self.ipos ≠ size self.input ∨ self.pos = self.stop then return self
  let n := min 65536 (self.stop - self.pos)
  first 65536 n
  let data ← self.source.fetch self.pos n
  return { self with pos := self.pos + n, input := data, ipos := 0 }

structure PartState (Z : Zstd) where
  self : Decompress Z
  written : UInt64
  dst : OutObject

def partPass (n : UInt64) (s : PartState Z) : Cxx (Pass (PartState Z) (PartState Z)) := do
  if ¬ s.written < n then return .stop s
  require (s.self.finished = false) .invalid
  let self ← s.self.refill
  let r := Z.decompressStream self.ctx (self.input.drop self.ipos.toNat) (n - s.written).toNat
  let k ← zcheck r.result
  let ipos := self.ipos + UInt64.ofNat r.consumed
  let written := s.written + size r.produced
  require (ipos ≠ self.ipos ∨ written ≠ s.written) .invalid
  return .next ⟨{ self with ctx := r.ctx, ipos := ipos, finished := decide (k = 0) }, written,
    s.dst.store s.written.toNat r.produced⟩

def unread (self : Decompress Z) : Nat :=
  (self.input.length - self.ipos.toNat) + (self.stop.toNat - self.pos.toNat)

def decompressPart (self : Decompress Z) (n : UInt64) : Cxx (Decompress Z × OutObject) := do
  require (n ≤ self.remaining) .invalid
  let s ← run (partPass n) (.halt .running) (self.unread + n.toNat + 1) ⟨self, 0, .fresh n.toNat⟩
  return ({ s.self with remaining := s.self.remaining - n }, s.dst)

def closePass (self : Decompress Z) : Cxx (Pass (Decompress Z) (Decompress Z)) := do
  if self.finished then return .stop self
  let self ← self.refill
  let r := Z.decompressStream self.ctx (self.input.drop self.ipos.toNat) 1
  let k ← zcheck r.result
  require (size r.produced = 0) .invalid
  let ipos := self.ipos + UInt64.ofNat r.consumed
  require (k = 0 ∨ ipos ≠ self.ipos) .invalid
  return .next { self with ctx := r.ctx, ipos := ipos, finished := decide (k = 0) }

def close (self : Decompress Z) : Cxx Bool := do
  if self.remaining ≠ 0 then return false
  let self ← run closePass (.halt .running) (self.unread + 2) self
  return self.pos = self.stop ∧ self.ipos = size self.input

end Decompress

def HandleState (Z : Zstd) : Handle → Type
  | .opened => Decompress Z
  | _ => Unit

def patching (Z : Zstd) (H : HDiffPatch) (old delta : StreamInput) :
    {h : Handle} → Session h → HandleState Z h → OutObject → Cxx (Bool × OutObject)
  | _, .finish verdict, _, dst => .ok (verdict, dst)
  | _, .throws t, _, _ => .error (.thrown t)
  | _, .readOld pos n k, st, dst => do
    let r ← old.call (UInt64.ofNat pos) (UInt64.ofNat n)
    patching Z H old delta (k r) st dst
  | _, .readDelta pos n k, st, dst => do
    let r ← delta.call (UInt64.ofNat pos) (UInt64.ofNat n)
    patching Z H old delta (k r) st dst
  | _, .write pos b k, st, dst =>
    match H.memAsHStreamOutput dst pos b with
    | none => patching Z H old delta (k false) st dst
    | some dst => patching Z H old delta (k true) st dst
  | .closed, .opens size b e k, _, dst => do
    let self ← Decompress.opens Z (UInt64.ofNat size) delta (UInt64.ofNat b) (UInt64.ofNat e)
    patching Z H old delta k self dst
  | .opened, .part n k, self, dst => do
    let (self, out) ← Decompress.decompressPart self (UInt64.ofNat n)
    patching Z H old delta (k (readCells (fun _ => 0) out.cells)) self dst
  | .opened, .close k, self, dst => do
    let verdict ← Decompress.close self
    patching Z H old delta (k verdict) () dst

def hdiffApply (Z : Zstd) (H : HDiffPatch) (heap : Heap) (base patch : Bytes)
    (hbase : base.length < 2 ^ 64) (hpatch : patch.length < 2 ^ 64) (dst : OutObject) :
    Cxx OutObject := do
  let bn := size base
  let pn := size patch
  let tn := size dst.cells
  require (bn ≤ rawMax ∧ tn ≤ rawMax ∧ pn ≤ payloadMax) .limit
  let some info := H.getSingleCompressedDiffInfo patch | fail .invalid
  require (UInt64.ofNat info.oldDataSize = bn ∧ UInt64.ofNat info.newDataSize = tn) .invalid
  require (UInt64.ofNat info.stepMemSize ≤ stepMax ∧ UInt64.ofNat info.uncompressedSize ≤ payloadMax)
    .limit
  require (info.compressType = "" ∨ isZstd info.compressType) .invalid
  let encoded := if UInt64.ofNat info.compressedSize ≠ 0 then UInt64.ofNat info.compressedSize
    else UInt64.ofNat info.uncompressedSize
  require (UInt64.ofNat info.diffDataPos ≤ pn ∧ encoded = pn - UInt64.ofNat info.diffDataPos) .invalid
  require (UInt64.ofNat info.compressedSize = 0 ∨ info.compressType ≠ "") .invalid
  allocate heap (UInt64.ofNat info.stepMemSize + UInt64.ofNat H.kStreamCacheSize * 3).toNat
  let (verdict, dst) ← (if UInt64.ofNat info.compressedSize ≠ 0 then
      patching Z H (Input base hbase) (Input patch hpatch) (H.patchSingleCompressedDiff info true) () dst
    else patching Z H (Input base hbase) (Input patch hpatch) (H.patchSingleCompressedDiff info false) () dst)
  require verdict .invalid
  return dst

section
variable {Z : Zstd} {heap : Heap} {offset limit : Nat} {input : StreamInput} {inp : Native.StreamInput}
variable {passes : Nat} {o : Options}

structure Streams (f : Mutable.Output) (m : Native.Output) : Prop where
  models : f.Models m
  small : m.limit ≤ 2 ^ 62
  capacity : m.bytes.capacity ≤ growthMax m.limit

theorem write_words (heap : Heap) {f : Mutable.Output} {m : Native.Output} (h : Streams f m) {pos : UInt64}
    {p : Nat} (hpos : pos.toNat = p) {b : Bytes} (hb : b.length < 2 ^ 64) :
    Corresponds (fun x m' => Streams x.2 m' ∧ m'.limit = m.limit ∧ p + b.length ≤ m.limit)
      (call (Mutable.Output.write heap pos b) f) (m.write heap p b) := by
  obtain ⟨⟨hf, rfl⟩, hsmall, hcapacity⟩ := h
  have hbytes : (f.model hf).bytes.capacity = f.bytes.capacity.toNat := hf.allocated
  have hle : f.bytes.capacity.toNat ≤ 2 ^ 63 := by
    unfold growthMax at hcapacity
    omega
  have hmodels := matches_call (Mutable.Output.write_models heap hf hle pos hb)
  rw [hpos] at hmodels
  have hkept : ∀ m', (f.model hf).write heap p b = .ok m' → m'.limit = (f.model hf).limit ∧
      m'.bytes.capacity ≤ growthMax (f.model hf).limit ∧ p + b.length ≤ (f.model hf).limit := by
    intro m' hwrite
    have hgrown := Mutable.write_capacity hwrite
    have hlimit := (Output.write_grows hwrite).1
    simp only [Output.write, bind_eq_ok, require_eq_ok] at hwrite
    obtain ⟨-, hfits, -⟩ := hwrite
    refine ⟨hlimit, ?_, by omega⟩
    unfold growthMax at hcapacity ⊢
    omega
  refine (hmodels.and_ok hkept).mono fun x m' hx => ?_
  obtain ⟨hx, hlimit, hgrown, hfits⟩ := hx
  exact ⟨⟨hx, hlimit ▸ hsmall, hlimit ▸ hgrown⟩, hlimit, hfits⟩

theorem writeWithin_words (heap : Heap) {f : Mutable.Output} {m : Native.Output} (h : Streams f m)
    (hoffset : offset + limit < 2 ^ 64) {pos : UInt64} {p : Nat} (hpos : pos.toNat = p) {b : Bytes}
    (hb : b.length < 2 ^ 64) :
    Corresponds (Option.Rel fun f' m' => Streams f' m' ∧ m'.limit = m.limit ∧ p + b.length ≤ m.limit)
      (writeWithin heap offset limit f pos b) (Native.writeWithin heap offset limit m p b) := by
  unfold writeWithin Native.writeWithin
  rw [hpos]
  by_cases hpast : limit < p + b.length
  · rw [if_pos hpast, if_pos hpast]
    exact .none
  · rw [if_neg hpast, if_neg hpast]
    have hstart : (UInt64.ofNat (offset + p)).toNat = offset + p := toNat_ofNat (by omega)
    refine (write_words heap h hstart hb).bind fun x m' _ hx => ?_
    obtain ⟨hx, hlimit, hfits⟩ := hx
    exact .some ⟨hx, hlimit, by omega⟩

theorem nextChunk_words (hwords : Z.Words) (hinput : input.Models inp) {read : UInt64} {p : Nat}
    (hread : read.toNat = p) (hp : p ≤ inp.size) : nextChunk Z input read = Native.nextChunk Z inp p := by
  have hn : (min (UInt64.ofNat Z.cStreamInSize) (input.size - read)).toNat =
      min Z.cStreamInSize (inp.size - p) := by
    rw [toNat_min, toNat_sub (by rw [hinput.size]; omega), toNat_ofNat hwords.buffers.1, hinput.size, hread]
  unfold nextChunk Native.nextChunk
  dsimp only
  rw [first_words, hinput.fetch, hn, toNat_ofNat hwords.buffers.1, hread]

theorem nextChunk_length {p : Nat} {chunk : Bytes} (h : Native.nextChunk Z inp p = .ok chunk) :
    chunk.length = min Z.cStreamInSize (inp.size - p) := by
  obtain ⟨-, -, h⟩ := bind_eq_ok.mp h
  have hsafe := inp.fetch_safe p (min Z.cStreamInSize (inp.size - p))
  rw [h] at hsafe
  exact hsafe

structure CompressState.Models (size limit : Nat) (s : CompressState Z)
    (t : Native.CompressState Z Native.Output) : Prop where
  ctx : s.ctx = t.ctx
  read : s.read.toNat = t.read
  chunk : s.chunk = t.chunk
  pos : s.pos.toNat = t.pos
  written : s.written.toNat = t.written
  out : Streams s.out t.out
  inInput : t.read ≤ size
  inChunk : t.pos ≤ t.chunk.length
  short : t.chunk.length < 2 ^ 64
  bound : t.out.limit = limit
  inLimit : t.written ≤ limit

theorem maxCompressedSize_words {n : UInt64} (hn : Native.maxCompressedSize n.toNat < 2 ^ 64) :
    (maxCompressedSize n).toNat = Native.maxCompressedSize n.toNat := by
  have hdiv : (n / 8).toNat = n.toNat / 8 := UInt64.toNat_div n 8
  unfold Native.maxCompressedSize at hn
  have hsum : (n + n / 8).toNat = n.toNat + n.toNat / 8 := by
    rw [toNat_add (by omega), hdiv]
  unfold maxCompressedSize
  rw [toNat_add (by rw [hsum]; exact hn), hsum]
  rfl

def Leaves (limit : Nat) (x : UInt64 × Mutable.Output) (y : Nat × Native.Output) : Prop :=
  x.1.toNat = y.1 ∧ Streams x.2 y.2 ∧ y.2.limit = limit

theorem compressPass_words (hwords : Z.Words) (hinput : input.Models inp) (hoffset : offset + limit < 2 ^ 64)
    {bound : Nat} {s : CompressState Z} {t : Native.CompressState Z Native.Output}
    (h : s.Models inp.size bound t) :
    Corresponds (Pass.Matches (CompressState.Models inp.size bound) (Leaves bound))
      (compressPass Z heap offset limit input s)
      (Native.compressPass Z (Native.writeWithin heap offset limit) inp t) := by
  obtain ⟨hctx, hread, hchunk, hpos, hwritten, hout, hinInput, hinChunk, hshort, hbound, hinLimit⟩ := h
  have hsmall := hout.small
  have hlast : s.read = input.size ↔ t.read = inp.size := by
    rw [eq_iff_toNat, hread, hinput.size]
  have hreply : Z.compressStream2 s.ctx (s.chunk.drop s.pos.toNat) Z.cStreamOutSize
      (if decide (s.read = input.size) = true then .eEnd else .eContinue) = t.reply inp := by
    simp only [hctx, hchunk, hpos, decide_eq_true_eq, hlast]
    rfl
  obtain ⟨hconsumed, hproduced⟩ := Z.compressStream2_within t.ctx (t.chunk.drop t.pos) Z.cStreamOutSize
    (directive (t.read = inp.size))
  rw [List.length_drop] at hconsumed
  change (t.reply inp).consumed ≤ _ at hconsumed
  change (t.reply inp).produced.length ≤ _ at hproduced
  have hroom := hwords.buffers.2
  rw [compressPass_eq]
  unfold compressPass
  simp only [hreply]
  generalize t.reply inp = r at *
  have hgiven : (size r.produced).toNat = r.produced.length := toNat_size (by omega)
  have hfirst : first (UInt64.ofNat Z.cStreamOutSize) (size r.produced) = .ok () := by
    rw [first_words, Native.first_ok]
    rw [toNat_ofNat hroom, hgiven]
    exact hproduced
  have hcursor : (s.pos + UInt64.ofNat r.consumed).toNat = t.pos + r.consumed := by
    have htaken : (UInt64.ofNat r.consumed).toNat = r.consumed := toNat_ofNat (by omega)
    rw [toNat_add (by omega), htaken, hpos]
  refine .step _ fun k _ => ?_
  rw [hfirst, ok_bind]
  refine (writeWithin_words heap hout hoffset hwritten (by omega)).bind fun x y _ hxy => ?_
  cases hxy with
  | none => exact ⟨rfl, hout, hbound⟩
  | @some f m hxy =>
    obtain ⟨hf, hlimit, hfits⟩ := hxy
    have hsum : (s.written + size r.produced).toNat = t.written + r.produced.length := by
      rw [toNat_add (by omega), hgiven, hwritten]
    have hchunkSize : (size s.chunk).toNat = t.chunk.length := by rw [hchunk, toNat_size hshort]
    have hdone : s.pos + UInt64.ofNat r.consumed ≠ size s.chunk ↔ t.pos + r.consumed ≠ t.chunk.length := by
      rw [Ne, eq_iff_toNat, hcursor, hchunkSize]
    simp only [hlast, hdone, decide_eq_true_eq, Native.CompressState.settle]
    by_cases hmore : if t.read = inp.size then k ≠ 0 else t.pos + r.consumed ≠ t.chunk.length
    · rw [if_pos hmore, if_pos hmore]
      have hinside : t.pos + r.consumed ≤ t.chunk.length := by omega
      exact ⟨rfl, hread, hchunk, hcursor, hsum, hf, hinInput, hinside, hshort, hlimit.trans hbound,
        by simp only; omega⟩
    · rw [if_neg hmore, if_neg hmore]
      by_cases hend : t.read = inp.size
      · rw [if_pos hend, if_pos hend]
        exact ⟨hsum, hf, hlimit.trans hbound⟩
      · rw [if_neg hend, if_neg hend, nextChunk_words hwords hinput hread hinInput]
        refine .step _ fun chunk hnext => ?_
        have hlen := nextChunk_length hnext
        have hin := hwords.buffers.1
        have hsize := input.size.toNat_lt
        rw [hinput.size] at hsize
        refine ⟨rfl, ?_, rfl, rfl, hsum, hf, ?_, Nat.zero_le _, ?_, hlimit.trans hbound, by simp only; omega⟩
        · rw [toNat_add (by rw [toNat_size (by omega)]; omega), toNat_size (by omega), hread]
        · simp only
          omega
        · simp only
          omega

theorem compress_words (hwords : Z.Words) (hinput : input.Models inp) (hoffset : offset + limit < 2 ^ 64)
    {f : Mutable.Output} {m : Native.Output} (h : Streams f m) :
    Corresponds (Leaves m.limit) (compress Z heap offset limit input passes o f)
      (Native.compress Z (Native.writeWithin heap offset limit) inp heap passes o m) := by
  unfold compress Native.compress
  cases Z.createCCtx with
  | none => rfl
  | some ctx =>
    rw [hinput.size, nextChunk_words hwords hinput rfl (Nat.zero_le _)]
    refine .step _ fun _ _ => .step _ fun _ _ => .step _ fun ctx₁ _ => .step _ fun ctx₂ _ => ?_
    refine .step _ fun chunk hnext => ?_
    have hlen := nextChunk_length hnext
    have hin := hwords.buffers.1
    refine run_corresponds (fun s t h => compressPass_words hwords hinput hoffset h) passes ?_
    refine ⟨rfl, toNat_size (by omega), rfl, rfl, rfl, h, ?_, Nat.zero_le _, ?_, rfl, Nat.zero_le _⟩
    · simp only
      omega
    · simp only
      omega

theorem call_delivers {s : Native.StreamInput} {pos n : Nat} {r : Option Bytes} (h : s.call pos n = .ok r) :
    Delivers n r := by
  rintro b rfl
  unfold Native.StreamInput.call at h
  cases hread : s.read pos n with
  | error t =>
    rw [hread] at h
    cases h
  | ok r =>
    rw [hread] at h
    obtain rfl := Except.ok.inj h
    exact s.read_length pos n b hread

theorem diffing_words (hwords : Z.Words) {new old : StreamInput} {new' old' : Native.StreamInput}
    (hnew : new.Models new') (hold : old.Models old') (c : Diffing) (hc : c.Words) {f : Mutable.Output}
    {m : Native.Output} (h : Streams f m) :
    Corresponds Streams (diffing Z heap passes o new old c f) (c.run Z heap passes o new' old' m) := by
  induction c generalizing f m with
  | finish => exact h
  | throws t => rfl
  | readNew pos n k ih =>
    obtain ⟨⟨hpos, hn⟩, hk⟩ := hc
    have hcall := hnew.call (UInt64.ofNat pos) (UInt64.ofNat n)
    rw [toNat_ofNat hpos, toNat_ofNat hn] at hcall
    unfold diffing Diffing.run
    rw [hcall]
    exact .step _ fun r hr => ih r (hk r (call_delivers hr)) h
  | readOld pos n k ih =>
    obtain ⟨⟨hpos, hn⟩, hk⟩ := hc
    have hcall := hold.call (UInt64.ofNat pos) (UInt64.ofNat n)
    rw [toNat_ofNat hpos, toNat_ofNat hn] at hcall
    unfold diffing Diffing.run
    rw [hcall]
    exact .step _ fun r hr => ih r (hk r (call_delivers hr)) h
  | write pos b k ih =>
    obtain ⟨⟨hpos, hb⟩, hk⟩ := hc
    exact (write_words heap h (toNat_ofNat hpos) hb).bind fun x m' _ hx => ih hk hx.1
  | compress inp offset limit k ih =>
    obtain ⟨⟨hsize, hoffset⟩, hk⟩ := hc
    refine (compress_words hwords (StreamInput.ofNat_models hsize) hoffset h).bind fun x y _ hx => ?_
    obtain ⟨hn, hout, -⟩ := hx
    rw [hn]
    exact ih y.1 (hk y.1) hout

theorem hdiffEncode_words (hwords : Z.Words) {H : HDiffPatch} (hH : H.Words) {base target : Bytes}
    (hbase : base.length < 2 ^ 64) (htarget : target.length < 2 ^ 64) :
    Corresponds (fun g out => g.Models out) (hdiffEncode Z H heap passes base target hbase htarget o)
      (Native.hdiffEncode Z H heap passes base target o) := by
  have hchecks : (size base ≤ rawMax ∧ size target ≤ rawMax) ↔
      (base.length ≤ Native.rawMax ∧ target.length ≤ Native.rawMax) := by
    rw [UInt64.le_iff_toNat_le, UInt64.le_iff_toNat_le, toNat_size hbase, toNat_size htarget]
    rfl
  unfold hdiffEncode Native.hdiffEncode
  rw [require_congr hchecks]
  refine .step _ fun _ _ => ?_
  have hstart : Streams (.start payloadMax) ⟨Native.payloadMax, .empty⟩ :=
    ⟨⟨Mutable.Growable.empty_sound, rfl⟩, by decide, Nat.zero_le _⟩
  refine (diffing_words hwords (Input_models htarget) (Input_models hbase) _ (hH.diffs _ _ _) hstart).bind
    fun f m _ h => ?_
  obtain ⟨⟨hf, rfl⟩, -, -⟩ := h
  exact ⟨hf, rfl⟩

end

namespace Decompress
variable {Z : Zstd}

/-- The plugin is where its model is, and no cursor has wrapped around. -/
structure Models (s : Decompress Z) (t : Native.Decompress Z) : Prop where
  ctx : s.ctx = t.ctx
  source : s.source.Models t.source
  pos : s.pos.toNat = t.pos
  stop : s.stop.toNat = t.stop
  remaining : s.remaining.toNat = t.remaining
  input : s.input = t.input
  ipos : s.ipos.toNat = t.ipos
  finished : s.finished = t.finished
  inRange : t.InRange
  short : t.input.length ≤ 65536

theorem opens_words {source : StreamInput} {source' : Native.StreamInput} (h : source.Models source')
    (size b e : UInt64) : Corresponds Models (opens Z size source b e)
      (Native.Decompress.opens Z size.toNat source' b.toNat e.toNat) := by
  have hchecks : (b ≤ e ∧ e ≤ source.size ∧ size ≤ payloadMax) ↔
      (b.toNat ≤ e.toNat ∧ e.toNat ≤ source'.size ∧ size.toNat ≤ Native.payloadMax) := by
    rw [UInt64.le_iff_toNat_le, UInt64.le_iff_toNat_le, UInt64.le_iff_toNat_le, h.size]
    rfl
  unfold opens Native.Decompress.opens
  rw [require_congr hchecks]
  refine .step _ fun _ hrange => ?_
  have hrange := require_eq_ok.mp hrange
  cases Z.createDCtx with
  | none => rfl
  | some ctx =>
    refine .step _ fun ctx₁ _ => ?_
    exact ⟨rfl, h, rfl, rfl, rfl, rfl, rfl, rfl, ⟨Nat.le_refl _, hrange.1⟩, Nat.zero_le _⟩

variable {s : Decompress Z} {t : Native.Decompress Z}

theorem Models.size_eq (h : s.Models t) : (size s.input).toNat = t.input.length := by
  have := h.short
  rw [h.input, toNat_size (by omega)]

theorem refill_words (h : s.Models t) : Corresponds Models (refill s) t.refill := by
  have hsize := h.size_eq
  obtain ⟨hctx, hsource, hpos, hstop, hremaining, hinput, hipos, hfinished, hrange, hshort⟩ := h
  have hle := hrange.pos
  have hlt := s.stop.toNat_lt
  have hneeded : (s.ipos ≠ size s.input ∨ s.pos = s.stop) ↔
      (t.ipos ≠ t.input.length ∨ t.pos = t.stop) := by
    rw [Ne, eq_iff_toNat, eq_iff_toNat, hipos, hsize, hpos, hstop]
  have hn : (min 65536 (s.stop - s.pos)).toNat = min Native.Decompress.bufferSize (t.stop - t.pos) := by
    rw [toNat_min, toNat_sub (by omega), hstop, hpos]
    rfl
  unfold refill Native.Decompress.refill
  by_cases hfull : t.ipos ≠ t.input.length ∨ t.pos = t.stop
  · rw [if_pos (hneeded.mpr hfull), if_pos hfull]
    exact ⟨hctx, hsource, hpos, hstop, hremaining, hinput, hipos, hfinished, hrange, hshort⟩
  · rw [if_neg (mt hneeded.mp hfull), if_neg hfull]
    dsimp only
    rw [first_words, hsource.fetch, hn, hpos]
    refine .step _ fun _ _ => .step _ fun data hdata => ?_
    have hfetched := t.source.fetch_safe t.pos (min Native.Decompress.bufferSize (t.stop - t.pos))
    rw [hdata] at hfetched
    have hlen : data.length = min Native.Decompress.bufferSize (t.stop - t.pos) := hfetched
    refine ⟨hctx, hsource, ?_, hstop, hremaining, rfl, rfl, hfinished, ⟨Nat.zero_le _, ?_⟩, ?_⟩
    · rw [toNat_add (by omega), hn, hpos]
    · simp only
      omega
    · simp only
      rw [hlen]
      exact Nat.min_le_left _ _

theorem Models.took (h : s.Models t) {k : Nat} {r : Reply Z.DCtx UInt8}
    (hconsumed : r.consumed ≤ t.input.length - t.ipos) :
    (s.ipos + UInt64.ofNat r.consumed).toNat = t.ipos + r.consumed ∧
      Models { s with ctx := r.ctx, ipos := s.ipos + UInt64.ofNat r.consumed, finished := decide (k = 0) }
        (t.took k r) := by
  obtain ⟨hctx, hsource, hpos, hstop, hremaining, hinput, hipos, hfinished, hrange, hshort⟩ := h
  have hle := hrange.ipos
  have htaken : (UInt64.ofNat r.consumed).toNat = r.consumed := toNat_ofNat (by omega)
  have hcursor : (s.ipos + UInt64.ofNat r.consumed).toNat = t.ipos + r.consumed := by
    rw [toNat_add (by omega), htaken, hipos]
  refine ⟨hcursor, rfl, hsource, hpos, hstop, hremaining, hinput, hcursor, rfl, ⟨?_, hrange.pos⟩, hshort⟩
  change t.ipos + r.consumed ≤ t.input.length
  omega

structure PartState.Models (n remaining : Nat) (s : PartState Z) (t : Native.Decompress.PartState Z) :
    Prop where
  self : s.self.Models t.self
  written : s.written.toNat = t.written
  dst : s.dst = t.dst
  inPart : t.written ≤ n
  kept : t.self.remaining = remaining

theorem partPass_words {n : UInt64} {remaining : Nat} {s : PartState Z} {t : Native.Decompress.PartState Z}
    (h : s.Models n.toNat remaining t) :
    Corresponds (Pass.Matches (PartState.Models n.toNat remaining) (PartState.Models n.toNat remaining))
      (partPass n s) (Native.Decompress.partPass n.toNat t) := by
  have hstate := h
  obtain ⟨hself, hwritten, hdst, hin, hkept⟩ := h
  have hlt := n.toNat_lt
  unfold partPass Native.Decompress.partPass
  by_cases hmore : t.written < n.toNat
  swap
  · rw [if_pos (by rw [UInt64.lt_iff_toNat_lt, hwritten]; exact hmore), if_pos hmore]
    exact hstate
  · rw [if_neg (by rw [UInt64.lt_iff_toNat_lt, hwritten]; exact not_not.mpr hmore),
      if_neg (not_not.mpr hmore), hself.finished]
    refine .step _ fun _ _ => (refill_words hself).bind fun d d' hrefill hd => ?_
    have hrefilled := Native.Decompress.refill_safe hself.inRange
    rw [hrefill] at hrefilled
    have hremaining : d'.remaining = remaining := hrefilled.2.2.1.trans hkept
    have hoffer : (n - s.written).toNat = n.toNat - t.written := by
      rw [toNat_sub (by omega), hwritten]
    have hreply : Z.decompressStream d.ctx (d.input.drop d.ipos.toNat) (n - s.written).toNat =
        Z.decompressStream d'.ctx (d'.input.drop d'.ipos) (n.toNat - t.written) := by
      rw [hoffer, hd.ctx, hd.input, hd.ipos]
    obtain ⟨hconsumed, hproduced⟩ := Z.decompressStream_within d'.ctx (d'.input.drop d'.ipos)
      (n.toNat - t.written)
    rw [List.length_drop] at hconsumed
    dsimp only
    rw [hreply]
    generalize Z.decompressStream d'.ctx (d'.input.drop d'.ipos) (n.toNat - t.written) = r at *
    have hgiven : (size r.produced).toNat = r.produced.length := toNat_size (by omega)
    have hsum : (s.written + size r.produced).toNat = t.written + r.produced.length := by
      rw [toNat_add (by omega), hgiven, hwritten]
    refine .step _ fun k _ => ?_
    obtain ⟨hcursor, htook⟩ := hd.took (k := k) hconsumed
    have hmoves : (d.ipos + UInt64.ofNat r.consumed ≠ d.ipos ∨ s.written + size r.produced ≠ s.written) ↔
        (r.consumed ≠ 0 ∨ r.produced.length ≠ 0) := by
      rw [Ne, Ne, eq_iff_toNat, eq_iff_toNat, hcursor, hd.ipos, hsum, hwritten]
      omega
    rw [require_congr hmoves]
    refine .step _ fun _ _ => ?_
    rw [hwritten, hdst]
    exact ⟨htook, hsum, rfl, by simp only; omega, hremaining⟩

theorem unread_words (h : s.Models t) : s.unread = t.unread := by
  rw [unread, Native.Decompress.unread, h.input, h.ipos, h.stop, h.pos]

theorem decompressPart_words (h : s.Models t) (n : UInt64) :
    Corresponds (fun x y => x.1.Models y.1 ∧ x.2 = y.2) (decompressPart s n)
      (t.decompressPart n.toNat) := by
  have hcheck : n ≤ s.remaining ↔ n.toNat ≤ t.remaining := by
    rw [UInt64.le_iff_toNat_le, h.remaining]
  unfold decompressPart Native.Decompress.decompressPart
  rw [require_congr hcheck, unread_words h]
  refine .step _ fun _ hle => ?_
  have hle := require_eq_ok.mp hle
  have hstart : PartState.Models n.toNat t.remaining (⟨s, 0, .fresh n.toNat⟩ : PartState Z)
      ⟨t, 0, .fresh n.toNat⟩ := ⟨h, rfl, rfl, Nat.zero_le _, rfl⟩
  refine (run_corresponds (fun s t h => partPass_words h) _ hstart).bind fun u v _ huv => ?_
  obtain ⟨hself, -, hdst, -, hkept⟩ := huv
  obtain ⟨hctx, hsource, hpos, hstop, hremaining, hinput, hipos, hfinished, hrange, hshort⟩ := hself
  refine ⟨⟨hctx, hsource, hpos, hstop, ?_, hinput, hipos, hfinished, ⟨hrange.ipos, hrange.pos⟩, hshort⟩, hdst⟩
  simp only
  rw [toNat_sub (by omega), hremaining]

theorem closePass_words (h : s.Models t) :
    Corresponds (Pass.Matches Models Models) (closePass s) t.closePass := by
  unfold closePass Native.Decompress.closePass
  rw [h.finished]
  by_cases hfinished : t.finished = true
  · rw [if_pos hfinished, if_pos hfinished]
    exact h
  · rw [if_neg hfinished, if_neg hfinished]
    refine (refill_words h).bind fun d d' _ hd => ?_
    have hreply : Z.decompressStream d.ctx (d.input.drop d.ipos.toNat) 1 =
        Z.decompressStream d'.ctx (d'.input.drop d'.ipos) 1 := by
      rw [hd.ctx, hd.input, hd.ipos]
    obtain ⟨hconsumed, hproduced⟩ := Z.decompressStream_within d'.ctx (d'.input.drop d'.ipos) 1
    rw [List.length_drop] at hconsumed
    dsimp only
    rw [hreply]
    generalize Z.decompressStream d'.ctx (d'.input.drop d'.ipos) 1 = r at *
    have hnone : size r.produced = 0 ↔ r.produced.length = 0 := by
      rw [eq_iff_toNat, toNat_size (by omega)]
      rfl
    refine .step _ fun k _ => ?_
    obtain ⟨hcursor, htook⟩ := hd.took (k := k) hconsumed
    have hmoves : (k = 0 ∨ d.ipos + UInt64.ofNat r.consumed ≠ d.ipos) ↔ (k = 0 ∨ r.consumed ≠ 0) := by
      rw [Ne, eq_iff_toNat, hcursor, hd.ipos]
      omega
    rw [require_congr hnone, require_congr hmoves]
    exact .step _ fun _ _ => .step _ fun _ _ => htook

theorem close_words (h : s.Models t) : close s = t.close := by
  have hnone : s.remaining ≠ 0 ↔ t.remaining ≠ 0 := by
    rw [Ne, eq_iff_toNat, h.remaining]
    rfl
  refine Corresponds.eq ?_
  unfold close Native.Decompress.close
  by_cases hleft : t.remaining ≠ 0
  · rw [if_pos (hnone.mpr hleft), if_pos hleft]
    rfl
  · rw [if_neg (mt hnone.mp hleft), if_neg hleft, unread_words h]
    refine (run_corresponds (fun s t h => closePass_words h) _ h).bind fun u v _ huv => ?_
    refine decide_eq_decide.mpr ?_
    rw [eq_iff_toNat, eq_iff_toNat, huv.pos, huv.stop, huv.ipos, huv.size_eq]

end Decompress

def HandleState.Models {Z : Zstd} : {h : Handle} → HandleState Z h → Native.HandleState Z h → Prop
  | .opened, s, t => Decompress.Models s t
  | _, _, _ => True

section
variable {Z : Zstd} {old delta : StreamInput} {old' delta' : Native.StreamInput}

/-- Whatever the client does, the two plugins and the two streams answer it the same. -/
theorem patching_words {H : HDiffPatch} (hold : old.Models old') (hdelta : delta.Models delta') {h : Handle} (c : Session h)
    (hc : c.Words) {st : HandleState Z h} {st' : Native.HandleState Z h} (hst : st.Models st')
    (dst : OutObject) : patching Z H old delta c st dst = c.run Z H old' delta' st' dst := by
  induction c generalizing dst with
  | finish verdict => rfl
  | throws t => rfl
  | readOld pos n k ih =>
    obtain ⟨⟨hpos, hn⟩, hk⟩ := hc
    unfold patching Session.run
    rw [hold.call, toNat_ofNat hpos, toNat_ofNat hn]
    exact bind_congr_ok fun r hr => ih r (hk r (call_delivers hr)) hst dst
  | readDelta pos n k ih =>
    obtain ⟨⟨hpos, hn⟩, hk⟩ := hc
    unfold patching Session.run
    rw [hdelta.call, toNat_ofNat hpos, toNat_ofNat hn]
    exact bind_congr_ok fun r hr => ih r (hk r (call_delivers hr)) hst dst
  | write pos b k ih =>
    unfold patching Session.run
    cases H.memAsHStreamOutput dst pos b with
    | none => exact ih false (hc false) hst dst
    | some dst' => exact ih true (hc true) hst dst'
  | opens size b e k ih =>
    obtain ⟨⟨hsize, hb, he⟩, hk⟩ := hc
    have hopens := Decompress.opens_words (Z := Z) hdelta (UInt64.ofNat size) (UInt64.ofNat b) (UInt64.ofNat e)
    rw [toNat_ofNat hsize, toNat_ofNat hb, toNat_ofNat he] at hopens
    exact (hopens.bind fun s t _ hself => .of_eq (ih hk hself dst)).eq
  | part n k ih =>
    obtain ⟨hn, hk⟩ := hc
    have hpart := Decompress.decompressPart_words hst (UInt64.ofNat n)
    rw [toNat_ofNat hn] at hpart
    have hsafe := Native.Decompress.decompressPart_safe (Decompress.Models.inRange hst) n
    refine (hpart.bind fun x y hy hxy => ?_).eq
    obtain ⟨hself, hout⟩ := hxy
    rw [hy] at hsafe
    obtain ⟨-, -, -, o, hwrote, -⟩ := hsafe
    rw [hout]
    exact .of_eq (ih _ (hk _ ((readCells_length _ _).trans hwrote.length)) hself dst)
  | close k ih =>
    unfold patching Session.run
    rw [Decompress.close_words hst]
    exact bind_congr_ok fun verdict _ => ih verdict (hc verdict) trivial dst

theorem encoded_words {info : DiffInfo} (h : info.Words) {patch : Bytes} (hpatch : patch.length < 2 ^ 64) :
    (UInt64.ofNat info.diffDataPos ≤ size patch ∧
      (if UInt64.ofNat info.compressedSize ≠ 0 then UInt64.ofNat info.compressedSize
        else UInt64.ofNat info.uncompressedSize) = size patch - UInt64.ofNat info.diffDataPos) ↔
      info.Fits patch.length := by
  have hpos := toNat_ofNat h.diffDataPos
  have hencoded : (if UInt64.ofNat info.compressedSize ≠ 0 then UInt64.ofNat info.compressedSize
      else UInt64.ofNat info.uncompressedSize).toNat = info.encoded := by
    have hcompressed : UInt64.ofNat info.compressedSize ≠ 0 ↔ info.compressedSize ≠ 0 := by
      rw [Ne, eq_iff_toNat, toNat_ofNat h.compressedSize]
      rfl
    unfold DiffInfo.encoded
    by_cases hplain : info.compressedSize ≠ 0
    · rw [if_pos (hcompressed.mpr hplain), if_pos hplain, toNat_ofNat h.compressedSize]
    · rw [if_neg (mt hcompressed.mp hplain), if_neg hplain, toNat_ofNat h.uncompressedSize]
  rw [UInt64.le_iff_toNat_le, eq_iff_toNat, hencoded, toNat_size hpatch, hpos]
  refine and_congr_right fun hle => ?_
  rw [toNat_sub (by rwa [toNat_size hpatch, hpos]), toNat_size hpatch, hpos]

theorem cache_words {step cache : Nat} (hcache : cache * 3 + Native.stepMax < 2 ^ 64)
    (hstep : step ≤ Native.stepMax) :
    (UInt64.ofNat step + UInt64.ofNat cache * 3).toNat = step + cache * 3 := by
  have hmul : (UInt64.ofNat cache * 3).toNat = cache * 3 := by
    rw [UInt64.toNat_mul, toNat_ofNat (by omega)]
    exact Nat.mod_eq_of_lt (by change cache * 3 < 2 ^ 64; omega)
  have hsmall : (UInt64.ofNat step).toNat = step := toNat_ofNat (by omega)
  rw [toNat_add (by omega), hmul, hsmall]

theorem hdiffApply_words {H : HDiffPatch} (hH : H.Words) {heap : Heap} {base patch : Bytes}
    (hbase : base.length < 2 ^ 64) (hpatch : patch.length < 2 ^ 64) {dst : OutObject}
    (hdst : dst.cells.length < 2 ^ 64) :
    hdiffApply Z H heap base patch hbase hpatch dst = Native.hdiffApply Z H heap base patch dst := by
  have hchecks : (size base ≤ rawMax ∧ size dst.cells ≤ rawMax ∧ size patch ≤ payloadMax) ↔
      (base.length ≤ Native.rawMax ∧ dst.cells.length ≤ Native.rawMax ∧
        patch.length ≤ Native.payloadMax) := by
    rw [UInt64.le_iff_toNat_le, UInt64.le_iff_toNat_le, UInt64.le_iff_toNat_le, toNat_size hbase,
      toNat_size hdst, toNat_size hpatch]
    rfl
  unfold hdiffApply Native.hdiffApply
  dsimp only
  rw [require_congr hchecks]
  refine bind_congr_ok fun _ _ => ?_
  cases hinfo : H.getSingleCompressedDiffInfo patch with
  | none => rfl
  | some info =>
    have hold := Input_models hbase
    have hdelta := Input_models hpatch
    have hfits := hH.fits hinfo
    have hsame : (UInt64.ofNat info.oldDataSize = size base ∧ UInt64.ofNat info.newDataSize = size dst.cells) ↔
        (info.oldDataSize = base.length ∧ info.newDataSize = dst.cells.length) := by
      rw [eq_iff_toNat, eq_iff_toNat, toNat_ofNat hfits.oldDataSize, toNat_ofNat hfits.newDataSize,
        toNat_size hbase, toNat_size hdst]
    have hlarge : (UInt64.ofNat info.stepMemSize ≤ stepMax ∧ UInt64.ofNat info.uncompressedSize ≤ payloadMax) ↔
        (info.stepMemSize ≤ Native.stepMax ∧ info.uncompressedSize ≤ Native.payloadMax) := by
      rw [UInt64.le_iff_toNat_le, UInt64.le_iff_toNat_le, toNat_ofNat hfits.stepMemSize,
        toNat_ofNat hfits.uncompressedSize]
      rfl
    have hcompressed : UInt64.ofNat info.compressedSize = 0 ↔ info.compressedSize = 0 := by
      rw [eq_iff_toNat, toNat_ofNat hfits.compressedSize]
      rfl
    dsimp only
    rw [require_congr hsame, require_congr hlarge]
    refine bind_congr_ok fun _ _ => bind_congr_ok fun _ hsmall => bind_congr_ok fun _ _ => ?_
    have hsmall := require_eq_ok.mp hsmall
    rw [require_congr (encoded_words hfits hpatch), require_congr (or_congr_left hcompressed)]
    refine bind_congr_ok fun _ hencoded => bind_congr_ok fun _ _ => ?_
    have hpatches := hH.patches hinfo (require_eq_ok.mp hencoded) hpatch
    have hcache : (UInt64.ofNat info.stepMemSize + UInt64.ofNat H.kStreamCacheSize * 3).toNat =
        info.stepMemSize + H.kStreamCacheSize * 3 := cache_words hH.cache hsmall.1
    rw [hcache]
    refine bind_congr_ok fun _ _ => ?_
    by_cases hplain : info.compressedSize = 0
    · rw [if_neg (not_not.mpr (hcompressed.mpr hplain)), if_neg (not_not.mpr hplain)]
      exact congrArg (· >>= fun x => require x.1 .invalid >>= fun _ => .ok x.2)
        (patching_words hold hdelta (h := .absent) (H.patchSingleCompressedDiff info false) (hpatches false)
          trivial dst)
    · rw [if_pos (mt hcompressed.mp hplain), if_pos hplain]
      exact congrArg (· >>= fun x => require x.1 .invalid >>= fun _ => .ok x.2)
        (patching_words hold hdelta (h := .closed) (H.patchSingleCompressedDiff info true) (hpatches true)
          trivial dst)

end

end Words
end Pyhdiff.Native
