import Pyhdiff.Native.Blocks
import Pyhdiff.Native.Encode
import Pyhdiff.Native.FrameDecompress
import Pyhdiff.Native.Gate

/-! The codecs at the level of addresses: contexts, vectors and blocks that live in
the arena for as long as their scopes do. Each function refines its model. -/
namespace Pyhdiff.Native.Owned
open Ownership Streaming

section
variable (Z : Zstd) (heap : Heap) (P : Placement Block)

structure EncodeCursor where
  ctx : Z.CCtx
  pos : Nat
  read : Nat

def encodePass (c : Nat) (target : Bytes) (limits : Limits) (s : EncodeCursor Z) :
    Method Growable (Pass (EncodeCursor Z) Unit) := do
  let tn := target.length
  let chunk ← lift (subspan target s.pos (min 65536 (tn - s.pos)))
  let last := decide (s.pos + chunk.length = tn)
  touch c Block.isCCtx
  let r := Z.compressStream2 s.ctx (chunk.drop s.read) 65536 (if last then .eEnd else .eContinue)
  let remaining ← lift (zcheck r.result)
  let encoded ← object
  lift (require (r.produced.length ≤ limits.output - encoded.size) .limit)
  Growable.append heap P r.produced
  let read := s.read + r.consumed
  let pos := s.pos + chunk.length
  return if (if last then remaining ≠ 0 else read ≠ chunk.length) then .next ⟨r.ctx, s.pos, read⟩
    else if pos ≠ tn then .next ⟨r.ctx, pos, 0⟩
    else .stop ()

def zstdEncode (passes : Nat) (base target : Bytes) (o : Options) (limits : Limits) :
    Method Unit Growable := do
  let bn := base.length
  let tn := target.length
  lift (require (bn ≤ rawMax ∧ tn ≤ limits.input) .limit)
  let some ctx := Z.createCCtx | lift (.error (.thrown .badAlloc))
  holding P .cctx fun c => do
    touch c Block.isCCtx
    let ctx ← lift ((zstdParameters Z o bn tn).foldlM (zset Z) ctx)
    let ctx ← lift (zcheck (Z.cctxSetPledgedSrcSize ctx tn))
    let ctx ← lift (zcheck (Z.cctxRefPrefix ctx base))
    Growable.making (loop (encodePass Z heap P c target limits) (.halt .running) passes ⟨ctx, 0, 0⟩)

structure FrameCursor where
  ctx : Z.DCtx
  pos : Nat

/-- One pass of the loop of `frame_decompress`, with the context at `d`. The
decoder stores into the span, also where it reports an error. -/
def framePass (d : Nat) (src : Bytes) (maxOutput : Nat) (s : FrameCursor Z) :
    Method Growable (Pass (FrameCursor Z) Unit) := do
  let out ← object
  if out.size = maxOutput then
    touch d Block.isDCtx
    let r := Z.decompressStream s.ctx (src.drop s.pos) 1
    let k ← lift (zcheck r.result)
    lift (require (r.produced.length = 0) .limit)
    if k = 0 ∧ s.pos + r.consumed = src.length then return .stop ()
    lift (require (r.consumed ≠ 0) .invalid)
    return .next ⟨r.ctx, s.pos + r.consumed⟩
  let dst ← Growable.spare heap P (min (maxOutput - out.size) 65536)
  let dst ← lift (dst.subspan 0 (min dst.length (maxOutput - out.size)))
  touch d Block.isDCtx
  let r := Z.decompressStream s.ctx (src.drop s.pos) dst.length
  dst.store r.produced
  let k ← lift (zcheck r.result)
  let out ← object
  Growable.resize heap P (out.size + r.produced.length)
  if k = 0 ∧ s.pos + r.consumed = src.length then return .stop ()
  lift (require (r.consumed ≠ 0 ∨ r.produced.length ≠ 0) .invalid)
  return .next ⟨r.ctx, s.pos + r.consumed⟩

def frameDecompress (src : Bytes) (maxOutput : Nat) : Method Unit Growable := do
  lift (require (src.length ≤ frameMax ∧ maxOutput ≤ frameMax) .limit)
  lift (require (src ≠ []) .invalid)
  let some ctx := Z.createDCtx | lift (.error (.thrown .badAlloc))
  holding P .dctx fun d => do
    touch d Block.isDCtx
    let ctx ← lift (zcheck (Z.dctxSetWindowLogMax ctx (frameWindowLog maxOutput)))
    let claimed := Z.getFrameContentSize src
    Growable.making do
      Growable.reserve heap P (if claimed ≤ maxOutput then claimed else min maxOutput 65536)
      loop (framePass Z heap P d src maxOutput) (.halt .running) (src.length + maxOutput + 1) ⟨ctx, 0⟩

end

section
variable {heap : Heap} {P : Placement Block} {rest t : Arena Block} {g : Growable}
variable {m : Native.Growable} {Z : Zstd}

theorem Growable.Models.destroyed {p : Nat} {b : Block} (h : g.Models m (rest.insert p b) t)
    (hp : p ∉ rest) : t.lookup p = some b ∧ g.Models m rest (t.erase p) := by
  obtain ⟨hsize, hcapacity, hnull, hholds⟩ := h
  obtain ⟨hlookup, hholds⟩ := hholds.destroy hp
  exact ⟨hlookup, hsize, hcapacity, hnull, hholds⟩

def EncodeCursor.Models (rest : Arena Block) (s : EncodeCursor Z) (s' : EncodeState Z)
    (u : Arena Block × Growable) : Prop :=
  s' = ⟨s.ctx, s.pos, s.read, s'.encoded⟩ ∧ u.2.Models s'.encoded rest u.1

theorem encodePass_refines {c : Nat} (hc : rest.lookup c = some .cctx) (target : Bytes)
    (limits : Limits) (s : EncodeCursor Z) (h : g.Models m rest t) :
    Refines (Pass.Related (EncodeCursor.Models rest) (fun _ m u => u.2.Models m rest u.1))
      (Growable.Owns rest) (encodePass Z heap P c target limits s (t, g))
      (Native.encodePass Z heap target limits ⟨s.ctx, s.pos, s.read, m⟩) := by
  unfold encodePass Native.encodePass
  refine Refines.step ⟨m, h⟩ fun chunk _ => ?_
  rw [touch_bind _ (h.holds.lookup_rest hc) rfl]
  refine Refines.step ⟨m, h⟩ fun remaining _ => ?_
  rw [object_bind]
  simp only [h.size]
  refine Refines.step ⟨m, h⟩ fun _ _ => ?_
  refine (h.append _).bind fun _ m' u hu => ?_
  apply refines_ok
  split_ifs
  · exact ⟨rfl, hu⟩
  · exact ⟨rfl, hu⟩
  · exact hu
  · exact ⟨rfl, hu⟩
  · exact ⟨rfl, hu⟩
  · exact hu

theorem holding_refines {b : Block} {body : Nat → Method Unit Growable} {x : Cxx Native.Growable}
    (h : ∀ p, (t.insert p b).lookup p = some b →
      Refines (fun g m u => g.Models m (t.insert p b) u.1) (fun u => u.1 = t.insert p b)
        (body p (t.insert p b, ())) x) :
    Refines (fun g m u => g.Models m t u.1) (fun u => u.1 = t) (holding P b body (t, ())) x := by
  refine Refines.holding (fun p _ => h p (Finmap.lookup_insert t)) ?_ ?_
  · intro p g m u hp hu
    exact hu.destroyed hp
  · intro p u hp hu
    simp only [hu, Finmap.lookup_insert, erase_insert hp, and_self]

theorem zstdEncode_refines (Z : Zstd) (heap : Heap) (P : Placement Block) (passes : Nat)
    (base target : Bytes) (o : Options) (limits : Limits) (t : Arena Block) :
    Refines (fun g m u => g.Models m t u.1) (fun u => u.1 = t)
      (zstdEncode Z heap P passes base target o limits (t, ()))
      (Native.zstdEncode Z heap passes base target o limits) := by
  unfold zstdEncode Native.zstdEncode
  refine Refines.step rfl fun _ _ => ?_
  cases Z.createCCtx with
  | none => exact ⟨rfl, fun _ => rfl⟩
  | some ctx =>
    refine holding_refines fun c hc => ?_
    rw [touch_bind _ hc rfl]
    refine Refines.step rfl fun ctx _ => Refines.step rfl fun ctx _ => Refines.step rfl fun ctx _ => ?_
    have hstart : EncodeCursor.Models (t.insert c .cctx) ⟨ctx, 0, 0⟩ ⟨ctx, 0, 0, .empty⟩
        (t.insert c .cctx, .empty) := ⟨rfl, Growable.models_empty _⟩
    refine Growable.making_refines (Refines.loop rfl (fun s s' u hu => ?_) passes hstart)
    obtain ⟨hs, hu⟩ := hu
    rw [hs]
    exact encodePass_refines hc target limits s hu

def FrameCursor.Models (rest : Arena Block) (s : FrameCursor Z) (s' : FrameState Z)
    (u : Arena Block × Growable) : Prop :=
  s' = ⟨s.ctx, s.pos, s'.out⟩ ∧ u.2.Models s'.out rest u.1

theorem spare_room (block : Native.Growable) (bound : Nat) : ∃ dst dst' : Cells,
    subspan block.cells block.size (block.capacity - block.size) = .ok dst ∧
    subspan dst 0 (min dst.length bound) = .ok dst' ∧
    dst'.length = min (block.capacity - block.size) bound := by
  have hsize : block.size ≤ block.cells.length := block.size_le
  have hspare : ((block.cells.drop block.size).take (block.capacity - block.size)).length =
      block.capacity - block.size := by
    simp only [List.length_take, List.length_drop, Native.Growable.capacity, Nat.min_self]
  refine ⟨_, _, subspan_ok hsize (Nat.le_refl _), subspan_ok (Nat.zero_le _) (by omega), ?_⟩
  rw [List.length_take, List.drop_zero, hspare]
  omega

theorem framePass_refines {d : Nat} (hd : rest.lookup d = some .dctx) (src : Bytes) (maxOutput : Nat)
    (s : FrameCursor Z) (h : g.Models m rest t) :
    Refines (Pass.Related (FrameCursor.Models rest) (fun _ m u => u.2.Models m rest u.1))
      (Growable.Owns rest) (framePass Z heap P d src maxOutput s (t, g))
      (Native.framePass Z heap .source src maxOutput ⟨s.ctx, s.pos, m⟩) := by
  unfold framePass Native.framePass
  rw [object_bind]
  simp only [h.size]
  by_cases hfull : m.size = maxOutput
  · simp only [if_pos hfull]
    rw [touch_bind _ (h.holds.lookup_rest hd) rfl]
    refine Refines.step ⟨m, h⟩ fun k _ => Refines.step ⟨m, h⟩ fun _ _ => ?_
    by_cases hdone : k = 0 ∧ s.pos + (Z.decompressStream s.ctx (src.drop s.pos) 1).consumed = src.length
    · simp only [if_pos hdone]
      exact h
    · simp only [if_neg hdone]
      exact Refines.step ⟨m, h⟩ fun _ _ => ⟨rfl, h⟩
  · simp only [if_neg hfull]
    refine (h.spare _).bind fun dst r u hu => ?_
    obtain ⟨hu, rfl⟩ := hu
    have hspan : (⟨u.2.data, r.block.size, r.block.capacity - r.block.size⟩ : Span).subspan 0
        (min (r.block.capacity - r.block.size) (maxOutput - m.size)) =
          .ok ⟨u.2.data, r.block.size, min (r.block.capacity - r.block.size) (maxOutput - m.size)⟩ := by
      rw [Span.subspan, if_pos ⟨Nat.zero_le _, by simp only; omega⟩, Nat.add_zero]
    obtain ⟨dst, dst', hdst, hdst', hlength⟩ := spare_room r.block (maxOutput - m.size)
    simp only [hspan, hdst, hdst', ok_bind, hlength]
    change Refines _ _ ((touch d Block.isDCtx >>= fun _ => _) u) _
    rw [touch_bind _ (hu.holds.lookup_rest hd) rfl]
    have hfits := (Z.decompressStream_within s.ctx (src.drop s.pos)
      (min (r.block.capacity - r.block.size) (maxOutput - m.size))).2
    obtain ⟨t', hstore, ht'⟩ := hu.store r.block.size u.2 hfits
      (by have : r.block.size ≤ r.block.capacity := r.block.size_le; omega)
    rw [bind_returns _ hstore]
    refine Refines.step ⟨_, ht'⟩ fun k _ => ?_
    rw [object_bind]
    simp only [hu.size]
    refine (ht'.resize _).bind fun _ out v hv => ?_
    split
    · exact hv
    · exact Refines.step ⟨out, hv⟩ fun _ _ => ⟨rfl, hv⟩

theorem frameDecompress_refines (Z : Zstd) (heap : Heap) (P : Placement Block) (src : Bytes)
    (maxOutput : Nat) (t : Arena Block) :
    Refines (fun g m u => g.Models m t u.1) (fun u => u.1 = t)
      (frameDecompress Z heap P src maxOutput (t, ())) (Native.frameDecompress Z heap src maxOutput) := by
  unfold frameDecompress Native.frameDecompress frameDecompressWith
  refine Refines.step rfl fun _ _ => Refines.step rfl fun _ _ => ?_
  cases Z.createDCtx with
  | none => exact ⟨rfl, fun _ => rfl⟩
  | some ctx =>
    refine holding_refines fun d hd => ?_
    rw [touch_bind _ hd rfl]
    refine Refines.step rfl fun ctx _ => Growable.making_refines ?_
    refine (Growable.reserve_refines _ _).bind fun _ out u hu => ?_
    have hstart : FrameCursor.Models (t.insert d .dctx) ⟨ctx, 0⟩ ⟨ctx, 0, out⟩ u := ⟨rfl, hu⟩
    refine Refines.loop rfl (fun s s' v hv => ?_) _ hstart
    obtain ⟨hs, hv⟩ := hv
    rw [hs]
    exact framePass_refines hd src maxOutput s hv

end

section
variable (Z : Zstd) (heap : Heap) (P : Placement Block)

/-- `std::vector<unsigned char>(n)`. -/
def vector {o α : Type} (n : Nat) (body : Nat → Method o α) : Method o α := do
  lift (allocate heap n)
  holding P .vector body

structure CompressCursor where
  ctx : Z.CCtx
  read : Nat
  chunk : Bytes
  pos : Nat
  written : Nat

def writeWithin (offset limit pos : Nat) (b : Bytes) : Method Growable Bool := do
  if limit < pos + b.length then return false
  Output.write heap P payloadMax (offset + pos) b
  return true

def nextChunk (v : Nat) (input : StreamInput) (read : Nat) : Method Growable Bytes := do
  touch v Block.isVector
  lift (Native.nextChunk Z input read)

def compressPass (c v w offset limit : Nat) (input : StreamInput) (s : CompressCursor Z) :
    Method Growable (Pass (CompressCursor Z) Nat) := do
  let last := decide (s.read = input.size)
  touch c Block.isCCtx
  touch v Block.isVector
  touch w Block.isVector
  let r := Z.compressStream2 s.ctx (s.chunk.drop s.pos) Z.cStreamOutSize
    (if last then .eEnd else .eContinue)
  let remaining ← lift (zcheck r.result)
  lift (first Z.cStreamOutSize r.produced.length)
  let stored ← writeWithin heap P offset limit s.written r.produced
  if ¬ stored then return .stop 0
  let written := s.written + r.produced.length
  let pos := s.pos + r.consumed
  if (if last then remaining ≠ 0 else pos ≠ s.chunk.length) then
    return .next ⟨r.ctx, s.read, s.chunk, pos, written⟩
  if last then return .stop written
  let chunk ← nextChunk Z v input s.read
  return .next ⟨r.ctx, s.read + chunk.length, chunk, 0, written⟩

/-- The context and both vectors are gone however the call ends. -/
def compress (passes : Nat) (o : Options) (offset limit : Nat) (input : StreamInput) :
    Method Growable Nat := do
  let some ctx := Z.createCCtx | lift (.error (.thrown .badAlloc))
  holding P .cctx fun c =>
    vector heap P Z.cStreamInSize fun v =>
      vector heap P Z.cStreamOutSize fun w => do
        touch c Block.isCCtx
        let ctx ← lift ((compressParameters o).foldlM (zset Z) ctx)
        let ctx ← lift (zcheck (Z.cctxSetPledgedSrcSize ctx input.size))
        let chunk ← nextChunk Z v input 0
        loop (compressPass Z heap P c v w offset limit input) (.halt .running) passes
          ⟨ctx, chunk.length, chunk, 0, 0⟩

def diffing (passes : Nat) (o : Options) (new old : StreamInput) : Diffing → Method Growable Unit
  | .finish => return ()
  | .throws t => lift (.error (.thrown t))
  | .readNew pos n k => do
    let r ← lift (new.call pos n)
    diffing passes o new old (k r)
  | .readOld pos n k => do
    let r ← lift (old.call pos n)
    diffing passes o new old (k r)
  | .write pos b k => do
    Output.write heap P payloadMax pos b
    diffing passes o new old k
  | .compress input offset limit k => do
    let n ← compress Z heap P passes o offset limit input
    diffing passes o new old (k n)

def hdiffEncode (H : HDiffPatch) (passes : Nat) (base target : Bytes) (o : Options) :
    Method Unit Growable := do
  lift (require (base.length ≤ rawMax ∧ target.length ≤ rawMax) .limit)
  let client := H.createSingleCompressedDiffBlock o.stepBytes o.fastBlockBytes o.matchScore
  Growable.making (diffing Z heap P passes o (Input target) (Input base) client)

end

section
variable {heap : Heap} {P : Placement Block} {rest t : Arena Block} {g : Growable}
variable {Z : Zstd} {out : Native.Output}

def Streams (rest : Arena Block) (out : Native.Output) (u : Arena Block × Growable) : Prop :=
  out.limit = payloadMax ∧ u.2.Models out.bytes rest u.1

theorem Streams.owns {u : Arena Block × Growable} (h : Streams rest out u) : Growable.Owns rest u :=
  ⟨out.bytes, h.2⟩

theorem Streams.write {u : Arena Block × Growable} (h : Streams rest out u) (pos : Nat) (b : Bytes) :
    Refines (fun _ out u => Streams rest out u) (Growable.Owns rest)
      (Output.write heap P payloadMax pos b u) (out.write heap pos b) := by
  obtain ⟨limit, m⟩ := out
  obtain ⟨rfl, hm⟩ := h
  exact hm.write payloadMax pos b

theorem Streams.writeWithin {u : Arena Block × Growable} (h : Streams rest out u)
    (offset limit pos : Nat) (b : Bytes) :
    Refines (fun stored answer u => if stored then ∃ out, answer = some out ∧ Streams rest out u
        else answer = none ∧ Streams rest out u) (Growable.Owns rest)
      (Owned.writeWithin heap P offset limit pos b u)
      (Native.writeWithin heap offset limit out pos b) := by
  unfold Owned.writeWithin Native.writeWithin
  by_cases hpast : limit < pos + b.length
  · simp only [if_pos hpast]
    exact ⟨rfl, h⟩
  · simp only [if_neg hpast]
    exact (h.write _ b).bind fun _ out u hu => ⟨out, rfl, hu⟩

theorem Streams.holding {α : Type} {b : Block} {body : Nat → Method Growable α}
    {x : Cxx (α × Native.Output)} {u : Arena Block × Growable} (h : Streams rest out u)
    (hbody : ∀ p v, (rest.insert p b).lookup p = some b →
      (∀ q c, rest.lookup q = some c → (rest.insert p b).lookup q = some c) →
      Streams (rest.insert p b) out v →
      Refines (fun a y w => a = y.1 ∧ Streams (rest.insert p b) y.2 w)
        (Growable.Owns (rest.insert p b)) (body p v) x) :
    Refines (fun a y w => a = y.1 ∧ Streams rest y.2 w) (Growable.Owns rest) (holding P b body u) x := by
  obtain ⟨hlimit, hsize, hcapacity, hnull, hholds⟩ := h
  have hfresh : ∀ p, p ∉ u.1 → p ∉ rest := fun p hp => hholds.fresh hp
  refine Refines.holding (fun p hp => hbody p _ (Finmap.lookup_insert rest) ?_ ?_) ?_ ?_
  · intro q c hq
    rw [Finmap.lookup_insert_of_ne, hq]
    rintro rfl
    exact hfresh q hp (Finmap.mem_of_lookup_eq_some hq)
  · exact ⟨hlimit, hsize, hcapacity, hnull, hholds.create hp⟩
  · intro p a y w hp hw
    obtain ⟨ha, hlimit, hm⟩ := hw
    obtain ⟨hlookup, hm⟩ := hm.destroyed (hfresh p hp)
    exact ⟨hlookup, ha, hlimit, hm⟩
  · intro p w hp hw
    obtain ⟨m, hm⟩ := hw
    obtain ⟨hlookup, hm⟩ := hm.destroyed (hfresh p hp)
    exact ⟨hlookup, m, hm⟩

def CompressCursor.Models (rest : Arena Block) (s : CompressCursor Z)
    (s' : CompressState Z Native.Output) (u : Arena Block × Growable) : Prop :=
  s' = ⟨s.ctx, s.read, s.chunk, s.pos, s.written, s'.out⟩ ∧ Streams rest s'.out u

theorem compressPass_refines {c v w : Nat} (hc : rest.lookup c = some .cctx)
    (hv : rest.lookup v = some .vector) (hw : rest.lookup w = some .vector) (offset limit : Nat)
    (input : StreamInput) (s : CompressCursor Z) {u : Arena Block × Growable}
    (h : Streams rest out u) :
    Refines (Pass.Related (CompressCursor.Models rest) (fun n y u => n = y.1 ∧ Streams rest y.2 u))
      (Growable.Owns rest) (compressPass Z heap P c v w offset limit input s u)
      (Native.compressPass Z (Native.writeWithin heap offset limit) input
        ⟨s.ctx, s.read, s.chunk, s.pos, s.written, out⟩) := by
  unfold compressPass Native.compressPass
  have hholds := h.2.holds
  rw [touch_bind _ (hholds.lookup_rest hc) rfl, touch_bind _ (hholds.lookup_rest hv) rfl,
    touch_bind _ (hholds.lookup_rest hw) rfl]
  refine Refines.step h.owns fun remaining _ => Refines.step h.owns fun _ _ => ?_
  refine (h.writeWithin offset limit s.written _).bind fun stored answer u hu => ?_
  cases stored with
  | false =>
    obtain ⟨rfl, hu⟩ := hu
    exact ⟨rfl, h.1, hu.2⟩
  | true =>
    obtain ⟨out, rfl, hu⟩ := hu
    simp only [not_true_eq_false, if_false]
    split_ifs
    · exact ⟨rfl, hu⟩
    · exact ⟨rfl, hu⟩
    · exact ⟨rfl, hu⟩
    · rw [nextChunk, bind_assoc, touch_bind _ (hu.2.holds.lookup_rest hv) rfl]
      exact Refines.step hu.owns fun chunk _ => ⟨rfl, hu⟩

theorem compress_refines (passes : Nat) (o : Options) (offset limit : Nat) (input : StreamInput)
    {u : Arena Block × Growable} (h : Streams rest out u) :
    Refines (fun n y u => n = y.1 ∧ Streams rest y.2 u) (Growable.Owns rest)
      (compress Z heap P passes o offset limit input u)
      (Native.compress Z (Native.writeWithin heap offset limit) input heap passes o out) := by
  unfold compress Native.compress
  cases Z.createCCtx with
  | none => exact ⟨rfl, fun _ => h.owns⟩
  | some ctx =>
    refine h.holding fun c u hc _ h => Refines.step h.owns fun _ _ => ?_
    refine h.holding fun v u hv hkeep h => Refines.step h.owns fun _ _ => ?_
    refine h.holding fun w u hw hkeep' h => ?_
    have hc := hkeep' c _ (hkeep c _ hc)
    have hv := hkeep' v _ hv
    rw [touch_bind _ (h.2.holds.lookup_rest hc) rfl]
    refine Refines.step h.owns fun ctx _ => Refines.step h.owns fun ctx _ => ?_
    rw [nextChunk, bind_assoc, touch_bind _ (h.2.holds.lookup_rest hv) rfl]
    refine Refines.step h.owns fun chunk _ => ?_
    have hstart : CompressCursor.Models _ ⟨ctx, chunk.length, chunk, 0, 0⟩
        ⟨ctx, chunk.length, chunk, 0, 0, out⟩ u := ⟨rfl, h⟩
    refine Refines.loop rfl (fun s s' u hu => ?_) passes hstart
    obtain ⟨hs, hu⟩ := hu
    rw [hs]
    exact compressPass_refines hc hv hw offset limit input s hu

theorem diffing_refines (passes : Nat) (o : Options) (new old : StreamInput) (client : Diffing)
    {u : Arena Block × Growable} (h : Streams rest out u) :
    Refines (fun _ out u => Streams rest out u) (Growable.Owns rest)
      (diffing Z heap P passes o new old client u) (client.run Z heap passes o new old out) := by
  induction client generalizing out u with
  | finish => exact h
  | throws e => exact ⟨rfl, fun _ => h.owns⟩
  | readNew pos n k ih => exact Refines.step h.owns fun r _ => ih r h
  | readOld pos n k ih => exact Refines.step h.owns fun r _ => ih r h
  | write pos b k ih => exact (h.write pos b).bind fun _ out u hu => ih hu
  | compress input offset limit k ih =>
    refine (compress_refines passes o offset limit input h).bind fun n y u hu => ?_
    obtain ⟨rfl, hu⟩ := hu
    exact ih y.1 hu

theorem hdiffEncode_refines (Z : Zstd) (H : HDiffPatch) (heap : Heap) (P : Placement Block)
    (passes : Nat) (base target : Bytes) (o : Options) (t : Arena Block) :
    Refines (fun g m u => g.Models m t u.1) (fun u => u.1 = t)
      (hdiffEncode Z heap P H passes base target o (t, ()))
      (Native.hdiffEncode Z H heap passes base target o) := by
  unfold hdiffEncode Native.hdiffEncode
  refine Refines.step rfl fun _ _ => Growable.making_refines ?_
  have hstart : Streams t ⟨payloadMax, .empty⟩ (t, .empty) := ⟨rfl, Growable.models_empty t⟩
  rw [← bind_pure (diffing Z heap P passes o _ _ _)]
  exact (diffing_refines passes o _ _ _ hstart).bind fun _ out u hu => hu.2

end

end Pyhdiff.Native.Owned
