import Pyhdiff.Native.Words

/-! The zstd codec and the frames in 64-bit arithmetic, against the same over
natural numbers: no counter wraps around. -/
namespace Pyhdiff.Native.Words
open Streaming

def rawMax : UInt64 := 256 * 1024 * 1024
def payloadMax : UInt64 := 512 * 1024 * 1024 - 96
def frameMax : UInt64 := 1024 * 1024 * 1024

structure Limits where
  input : UInt64
  output : UInt64

def kCodecLimits : Limits := ⟨rawMax, payloadMax⟩
def kFrameLimits : Limits := ⟨frameMax, frameMax⟩

structure Limits.Models (l : Limits) (m : Native.Limits) : Prop where
  input : l.input.toNat = m.input
  output : l.output.toNat = m.output
  small : m.output ≤ 2 ^ 62

theorem kCodecLimits_models : kCodecLimits.Models Native.kCodecLimits := ⟨rfl, rfl, by decide⟩
theorem kFrameLimits_models : kFrameLimits.Models Native.kFrameLimits := ⟨rfl, rfl, by decide⟩

structure EncodeState (Z : Zstd) where
  ctx : Z.CCtx
  pos : UInt64
  read : UInt64
  encoded : Mutable.Growable

section
variable (Z : Zstd) (heap : Heap)

def encodePass (target : Bytes) (limits : Limits) (s : EncodeState Z) :
    Cxx (Pass (EncodeState Z) Mutable.Growable) := do
  let tn := size target
  let chunk ← subspan target s.pos (min 65536 (tn - s.pos))
  let last := decide (s.pos + size chunk = tn)
  let r := Z.compressStream2 s.ctx (chunk.drop s.read.toNat) 65536 (if last then .eEnd else .eContinue)
  let remaining ← zcheck r.result
  require (size r.produced ≤ limits.output - s.encoded.size) .limit
  let (_, encoded) ← call (Mutable.Growable.append heap r.produced) s.encoded
  let read := s.read + UInt64.ofNat r.consumed
  let pos := s.pos + size chunk
  return if (if last then remaining ≠ 0 else read ≠ size chunk) then
      .next ⟨r.ctx, s.pos, read, encoded⟩
    else if pos ≠ tn then .next ⟨r.ctx, pos, 0, encoded⟩
    else .stop encoded

def zstdEncode (passes : Nat) (base target : Bytes) (o : Options) (limits : Limits) : Cxx Mutable.Growable := do
  let bn := size base
  let tn := size target
  require (bn ≤ rawMax ∧ tn ≤ limits.input) .limit
  let some ctx := Z.createCCtx | .error (.thrown .badAlloc)
  let ctx ← (zstdParameters Z o bn.toNat tn.toNat).foldlM (zset Z) ctx
  let ctx ← zcheck (Z.cctxSetPledgedSrcSize ctx tn.toNat)
  let ctx ← zcheck (Z.cctxRefPrefix ctx base)
  run (encodePass Z heap target limits) (.halt .running) passes ⟨ctx, 0, 0, .empty⟩

structure ApplyState where
  ctx : Z.DCtx
  read : UInt64
  written : UInt64
  dst : OutObject

def applyPass (src : Bytes) (tn : UInt64) (s : ApplyState Z) :
    Cxx (Pass (ApplyState Z) (ApplyState Z)) := do
  let chunk ← subspan src s.read (min 65536 (size src - s.read))
  let output ← subspan s.dst.cells s.written (min 65536 (tn - s.written))
  let r := Z.decompressStream s.ctx chunk (if output.isEmpty then 1 else (size output).toNat)
  let dst := if output.isEmpty then s.dst else s.dst.store s.written.toNat r.produced
  let remaining ← zcheck r.result
  require (size r.produced ≤ tn - s.written) .limit
  require (remaining = 0 ∨ UInt64.ofNat r.consumed ≠ 0 ∨ size r.produced ≠ 0) .invalid
  let s' := ⟨r.ctx, s.read + UInt64.ofNat r.consumed, s.written + size r.produced, dst⟩
  return if remaining ≠ 0 then .next s' else .stop s'

def zstdApply (base src : Bytes) (dst : OutObject) : Cxx OutObject := do
  let tn := size dst.cells
  require (size base ≤ rawMax ∧ tn ≤ rawMax ∧ size src ≤ payloadMax) .limit
  let _ ← zcheck (Z.getFrameHeader src)
  let (needed, header) ← zcheck (Z.getFrameHeader src)
  require (UInt64.ofNat needed = 0 ∧ header.skippable = false) .invalid
  require (UInt64.ofNat header.windowSize ≤ 1 <<< UInt64.ofNat zstdWindowLogMax) .limit
  let recorded := UInt64.ofNat header.frameContentSize
  require (recorded = UInt64.ofNat contentSizeUnknown ∨ recorded = tn) .invalid
  let some ctx := Z.createDCtx | .error (.thrown .badAlloc)
  let ctx ← zcheck (Z.dctxSetWindowLogMax ctx zstdWindowLogMax)
  let ctx ← zcheck (Z.dctxRefPrefix ctx base)
  let s ← run (applyPass Z src tn) (.halt .running) (src.length + dst.cells.length + 1) ⟨ctx, 0, 0, dst⟩
  require (s.read = size src ∧ s.written = tn) .invalid
  return s.dst

structure FrameState where
  ctx : Z.DCtx
  pos : UInt64
  out : Mutable.Growable

def framePass (src : Bytes) (maxOutput : UInt64) (s : FrameState Z) :
    Cxx (Pass (FrameState Z) Mutable.Growable) := do
  if s.out.size = maxOutput then
    let r := Z.decompressStream s.ctx (src.drop s.pos.toNat) 1
    let k ← zcheck r.result
    require (size r.produced = 0) .limit
    let pos := s.pos + UInt64.ofNat r.consumed
    if k = 0 ∧ pos = size src then return .stop s.out
    require (pos ≠ s.pos) .invalid
    return .next ⟨r.ctx, pos, s.out⟩
  let (room, out) ← call (Mutable.Growable.spare heap (min (maxOutput - s.out.size) 65536)) s.out
  let n := min room (maxOutput - out.size)
  first room n
  let r := Z.decompressStream s.ctx (src.drop s.pos.toNat) n.toNat
  let k ← zcheck r.result
  let out := out.fill r.produced
  let (_, out) ← call (Mutable.Growable.resize heap (out.size + size r.produced)) out
  let pos := s.pos + UInt64.ofNat r.consumed
  if k = 0 ∧ pos = size src then return .stop out
  require (pos ≠ s.pos ∨ size r.produced ≠ 0) .invalid
  return .next ⟨r.ctx, pos, out⟩

def frameWindowLog (maxOutput : UInt64) : Nat :=
  max (repeatWhile (fun w => decide (w < zstdWindowLogMax ∧ 1 <<< UInt64.ofNat w < maxOutput)) (· + 1)
    20 10) 23

def frameDecompress (src : Bytes) (maxOutput : UInt64) : Cxx Mutable.Growable := do
  require (size src ≤ frameMax ∧ maxOutput ≤ frameMax) .limit
  require (src ≠ []) .invalid
  let some ctx := Z.createDCtx | .error (.thrown .badAlloc)
  let ctx ← zcheck (Z.dctxSetWindowLogMax ctx (frameWindowLog maxOutput))
  let claimed := UInt64.ofNat (Z.getFrameContentSize src)
  let (_, out) ← call (Mutable.Growable.reserve heap (if claimed ≤ maxOutput then claimed else min maxOutput 65536))
    .empty
  run (framePass Z heap src maxOutput) (.halt .running) (src.length + maxOutput.toNat + 1) ⟨ctx, 0, out⟩

end

theorem require_congr {p q : Prop} [Decidable p] [Decidable q] (h : p ↔ q) (status : Status) :
    require p status = require q status := by
  unfold require
  by_cases hp : p
  · rw [if_pos hp, if_pos (h.mp hp)]
  · rw [if_neg hp, if_neg (mt h.mpr hp)]

section
variable {Z : Zstd} {heap : Heap} {base target : Bytes} {limits : Limits} {m : Native.Limits}

/-- The two loops are at one place, where no counter has wrapped around. -/
structure EncodeState.Models (target : Bytes) (m : Native.Limits) (s : EncodeState Z)
    (t : Native.EncodeState Z) : Prop where
  ctx : s.ctx = t.ctx
  pos : s.pos.toNat = t.pos
  read : s.read.toNat = t.read
  encoded : s.encoded.Models t.encoded
  inTarget : t.pos ≤ target.length
  inChunk : t.read ≤ (t.chunk target).length
  bound : t.encoded.size ≤ m.output
  capacity : t.encoded.capacity ≤ growthMax m.output

def Returns (m : Native.Limits) (g : Mutable.Growable) (out : Native.Growable) : Prop :=
  g.Models out ∧ out.size ≤ m.output ∧ out.capacity ≤ growthMax m.output

theorem encodePass_words (htarget : target.length < 2 ^ 64) (hlimits : limits.Models m)
    {s : EncodeState Z} {t : Native.EncodeState Z} (h : s.Models target m t) :
    Corresponds (Pass.Matches (EncodeState.Models target m) (Returns m))
      (encodePass Z heap target limits s) (Native.encodePass Z heap target m t) := by
  obtain ⟨hctx, hpos, hread, hencoded, htn, hrest, hbound, hcapacity⟩ := h
  have hsmall := hlimits.small
  have houtput := hlimits.output
  have hlen := EncodeState.chunk_length htn
  have hchunk : subspan target s.pos (min 65536 (size target - s.pos)) = .ok (t.chunk target) := by
    have hn : (min 65536 (size target - s.pos)).toNat = min 65536 (target.length - t.pos) := by
      rw [toNat_min, toNat_sub (by rw [toNat_size htarget]; omega), toNat_size htarget, hpos]
      rfl
    rw [subspan_words htarget, hn, hpos, subspan_ok htn (Nat.min_le_right _ _)]
    rfl
  have hsize : (size (t.chunk target)).toNat = (t.chunk target).length := toNat_size (by omega)
  have hnext : (s.pos + size (t.chunk target)).toNat = t.pos + (t.chunk target).length := by
    rw [toNat_add (by omega), hsize, hpos]
  have hlast : s.pos + size (t.chunk target) = size target ↔ t.Last target := by
    rw [eq_iff_toNat, hnext, toNat_size htarget]
  have hreply : Z.compressStream2 s.ctx ((t.chunk target).drop s.read.toNat) 65536
      (if decide (s.pos + size (t.chunk target) = size target) = true then .eEnd else .eContinue) =
        t.reply target := by
    simp only [hctx, hread, decide_eq_true_eq, hlast]
    rfl
  obtain ⟨hconsumed, hproduced⟩ := Z.compressStream2_within t.ctx ((t.chunk target).drop t.read) 65536
    (directive (t.Last target))
  rw [List.length_drop] at hconsumed
  change (t.reply target).consumed ≤ _ at hconsumed
  change (t.reply target).produced.length ≤ _ at hproduced
  rw [encodePass_eq heap m htn]
  unfold encodePass
  simp only [hchunk, ok_bind, hreply]
  generalize t.reply target = r at *
  have hgiven : (size r.produced).toNat = r.produced.length := toNat_size (by omega)
  have hcursor : (s.read + UInt64.ofNat r.consumed).toNat = t.read + r.consumed := by
    have hfits : r.consumed < 2 ^ 64 := by omega
    rw [toNat_add (by rw [toNat_ofNat hfits]; omega), toNat_ofNat hfits, hread]
  have hencodedSize := hencoded.size_eq
  have hfit : size r.produced ≤ limits.output - s.encoded.size ↔
      r.produced.length ≤ m.output - t.encoded.size := by
    rw [UInt64.le_iff_toNat_le, toNat_sub (by omega), hgiven, houtput, hencodedSize]
  refine .step _ fun k _ => ?_
  rw [require_congr hfit]
  refine .step _ fun _ hroom => ?_
  have hroom := require_eq_ok.mp hroom
  have hgrowth : growthMax m.output ≤ 2 ^ 63 := by
    unfold growthMax
    omega
  refine (Mutable.Growable.append_words heap hencoded (by omega) (by omega)).bind
    fun x encoded happend hx => ?_
  obtain ⟨happended, hgrown⟩ := Native.Growable.append_capacity happend
  have hmono : growthMax (t.encoded.size + r.produced.length) ≤ growthMax m.output :=
    growthMax_mono (by omega)
  have hreturns : Returns m x.2 encoded := ⟨hx, by omega, by omega⟩
  have hdone : s.read + UInt64.ofNat r.consumed ≠ size (t.chunk target) ↔
      t.read + r.consumed ≠ (t.chunk target).length := by
    rw [Ne, eq_iff_toNat, hcursor, hsize]
  simp only [hlast, hdone, decide_eq_true_eq, EncodeState.settle, pure_ok, ite_not, ne_eq]
  by_cases hmore : if t.Last target then ¬ k = 0 else ¬ t.read + r.consumed = (t.chunk target).length
  · rw [if_pos hmore, if_pos hmore]
    have hinside : t.read + r.consumed ≤ (t.chunk target).length := by omega
    exact ⟨rfl, hpos, hcursor, hx, htn, hinside, hreturns.2.1, hreturns.2.2⟩
  · rw [if_neg hmore, if_neg hmore]
    by_cases hend : t.Last target
    · rw [if_pos hend, if_pos hend]
      exact hreturns
    · rw [if_neg hend, if_neg hend]
      exact ⟨rfl, hnext, rfl, hx, by simp only; omega, Nat.zero_le _, hreturns.2.1, hreturns.2.2⟩

theorem zstdEncode_words (hbase : base.length < 2 ^ 64) (htarget : target.length < 2 ^ 64)
    (hlimits : limits.Models m) (passes : Nat) (o : Options) :
    Corresponds (Returns m) (zstdEncode Z heap passes base target o limits)
      (Native.zstdEncode Z heap passes base target o m) := by
  have hchecks : (size base ≤ rawMax ∧ size target ≤ limits.input) ↔
      (base.length ≤ Native.rawMax ∧ target.length ≤ m.input) := by
    rw [UInt64.le_iff_toNat_le, UInt64.le_iff_toNat_le, toNat_size hbase, toNat_size htarget, hlimits.input]
    rfl
  unfold zstdEncode Native.zstdEncode
  simp only [toNat_size hbase, toNat_size htarget]
  rw [require_congr hchecks]
  refine .step _ fun _ _ => ?_
  cases Z.createCCtx with
  | none => rfl
  | some ctx =>
    refine .step _ fun ctx₁ _ => .step _ fun ctx₂ _ => .step _ fun ctx₃ _ => ?_
    refine run_corresponds (fun s t h => encodePass_words htarget hlimits h) passes ?_
    exact ⟨rfl, rfl, rfl, Mutable.Growable.empty_models, Nat.zero_le _, Nat.zero_le _, Nat.zero_le _,
      Nat.zero_le _⟩

end

theorem subspan_length {α : Type} {l b : List α} {pos n : Nat} (h : Native.subspan l pos n = .ok b) :
    b.length = n := by
  unfold Native.subspan at h
  split at h
  · obtain rfl := Except.ok.inj h
    rw [List.length_take, List.length_drop]
    omega
  · cases h

theorem subspan_rest {α : Type} {l : List α} (hl : l.length < 2 ^ 64) {pos total : UInt64} {p n : Nat}
    (hpos : pos.toNat = p) (htotal : total.toNat = n) (hp : p ≤ n) :
    subspan l pos (min 65536 (total - pos)) = Native.subspan l p (min 65536 (n - p)) := by
  rw [subspan_words hl, toNat_min, toNat_sub (by omega), hpos, htotal]
  rfl

section
variable {Z : Zstd} {base src : Bytes} {dst : OutObject} {tn : UInt64} {n : Nat}

structure ApplyState.Models (src : Bytes) (n : Nat) (s : ApplyState Z) (t : Native.ApplyState Z) :
    Prop where
  ctx : s.ctx = t.ctx
  read : s.read.toNat = t.read
  written : s.written.toNat = t.written
  dst : s.dst = t.dst
  inRange : t.InRange src n

theorem applyPass_words (hsrc : src.length < 2 ^ 64) (htn : tn.toNat = n) {s : ApplyState Z}
    {t : Native.ApplyState Z} (h : s.Models src n t) :
    Corresponds (Pass.Matches (ApplyState.Models src n) (ApplyState.Models src n))
      (applyPass Z src tn s) (Native.applyPass Z 65536 65536 src n t) := by
  obtain ⟨hctx, hread, hwritten, hdst, hrange⟩ := h
  obtain ⟨hin, hout, hlength⟩ := hrange
  have hn := tn.toNat_lt
  unfold applyPass Native.applyPass
  rw [subspan_rest hsrc hread (toNat_size hsrc) hin, hdst,
    subspan_rest (by omega) hwritten htn hout]
  refine .step _ fun chunk hchunk => .step _ fun output houtput => ?_
  have hchunk := subspan_length hchunk
  have houtput := subspan_length houtput
  rw [toNat_size (by omega), hctx, hwritten]
  obtain ⟨hconsumed, hproduced⟩ := Z.decompressStream_within t.ctx chunk
    (if output.isEmpty then 1 else output.length)
  have hroom : (if output.isEmpty then 1 else output.length) ≤ 65536 := by
    split <;> omega
  generalize Z.decompressStream t.ctx chunk (if output.isEmpty then 1 else output.length) = r at *
  have hgiven : (size r.produced).toNat = r.produced.length := toNat_size (by omega)
  have htaken : (UInt64.ofNat r.consumed).toNat = r.consumed := toNat_ofNat (by omega)
  refine .step _ fun k _ => ?_
  have hfit : size r.produced ≤ tn - s.written ↔ r.produced.length ≤ n - t.written := by
    rw [UInt64.le_iff_toNat_le, toNat_sub (by omega), hgiven, htn, hwritten]
  have hmoves : (k = 0 ∨ UInt64.ofNat r.consumed ≠ 0 ∨ size r.produced ≠ 0) ↔
      (k = 0 ∨ r.consumed ≠ 0 ∨ r.produced.length ≠ 0) := by
    rw [Ne, Ne, eq_iff_toNat, eq_iff_toNat, hgiven, htaken]
    rfl
  rw [require_congr hfit, require_congr hmoves]
  refine .step _ fun _ hroomy => .step _ fun _ _ => ?_
  have hroomy := require_eq_ok.mp hroomy
  have hnext : ApplyState.Models src n
      ⟨r.ctx, s.read + UInt64.ofNat r.consumed, s.written + size r.produced,
        if output.isEmpty then t.dst else t.dst.store t.written r.produced⟩
      ⟨r.ctx, t.read + r.consumed, t.written + r.produced.length,
        if output.isEmpty then t.dst else t.dst.store t.written r.produced⟩ := by
    refine ⟨rfl, ?_, ?_, rfl, ?_, ?_, ?_⟩
    · simp only
      rw [toNat_add (by omega), htaken, hread]
    · simp only
      rw [toNat_add (by omega), hgiven, hwritten]
    · simp only
      omega
    · simp only
      omega
    · simp only
      split
      · exact hlength
      · exact (overwrite_length (by omega)).trans hlength
  dsimp only
  by_cases hk : k ≠ 0
  · rw [if_pos hk, if_pos hk]
    exact hnext
  · rw [if_neg hk, if_neg hk]
    exact hnext

theorem zstdApply_words (hwords : Z.Words) (hbase : base.length < 2 ^ 64) (hsrc : src.length < 2 ^ 64)
    (hdst : dst.cells.length < 2 ^ 64) : zstdApply Z base src dst = Native.zstdApply Z base src dst := by
  refine Corresponds.eq ?_
  have hchecks : (size base ≤ rawMax ∧ size dst.cells ≤ rawMax ∧ size src ≤ payloadMax) ↔
      (base.length ≤ Native.rawMax ∧ dst.cells.length ≤ Native.rawMax ∧ src.length ≤ Native.payloadMax) := by
    rw [UInt64.le_iff_toNat_le, UInt64.le_iff_toNat_le, UInt64.le_iff_toNat_le, toNat_size hbase,
      toNat_size hsrc, toNat_size hdst]
    rfl
  unfold zstdApply Native.zstdApply zstdApplyWith
  dsimp only
  rw [require_congr hchecks]
  refine .step _ fun _ _ => .step _ fun _ _ => .step _ fun x hheader => ?_
  obtain ⟨needed, header⟩ := x
  obtain ⟨hneeded, hrecorded, hwindow⟩ := hwords.header (zcheck_eq_ok.mp hheader)
  have hcomplete : (UInt64.ofNat needed = 0 ∧ header.skippable = false) ↔
      (needed = 0 ∧ header.skippable = false) := by
    rw [eq_iff_toNat, toNat_ofNat hneeded]
    rfl
  have hlarge : UInt64.ofNat header.windowSize ≤ 1 <<< UInt64.ofNat zstdWindowLogMax ↔
      header.windowSize ≤ 2 ^ zstdWindowLogMax := by
    rw [UInt64.le_iff_toNat_le, toNat_ofNat hwindow]
    rfl
  have hclaims : (UInt64.ofNat header.frameContentSize = UInt64.ofNat contentSizeUnknown ∨
      UInt64.ofNat header.frameContentSize = size dst.cells) ↔
        (header.frameContentSize = contentSizeUnknown ∨ header.frameContentSize = dst.cells.length) := by
    rw [eq_iff_toNat, eq_iff_toNat, toNat_ofNat hrecorded, toNat_size hdst]
    rfl
  dsimp only
  rw [require_congr hcomplete, require_congr hlarge, require_congr hclaims]
  refine .step _ fun _ _ => .step _ fun _ _ => .step _ fun _ _ => ?_
  cases Z.createDCtx with
  | none => rfl
  | some ctx =>
    refine .step _ fun ctx₁ _ => .step _ fun ctx₂ _ => ?_
    have hstart : ApplyState.Models src dst.cells.length (⟨ctx₂, 0, 0, dst⟩ : ApplyState Z) ⟨ctx₂, 0, 0, dst⟩ :=
      ⟨rfl, rfl, rfl, rfl, Nat.zero_le _, Nat.zero_le _, rfl⟩
    refine (run_corresponds (fun s t h => applyPass_words hsrc (toNat_size hdst) h) _ hstart).bind
      fun s t _ h => ?_
    have hends : (s.read = size src ∧ s.written = size dst.cells) ↔
        (t.read = src.length ∧ t.written = dst.cells.length) := by
      rw [eq_iff_toNat, eq_iff_toNat, h.read, h.written, toNat_size hsrc, toNat_size hdst]
    rw [require_congr hends]
    refine .step _ fun _ _ => h.dst

end

section
variable {Z : Zstd} {heap : Heap} {src : Bytes} {maxOutput : UInt64} {n : Nat}

structure FrameState.Models (src : Bytes) (n : Nat) (s : FrameState Z) (t : Native.FrameState Z) :
    Prop where
  ctx : s.ctx = t.ctx
  pos : s.pos.toNat = t.pos
  out : s.out.Models t.out
  inSource : t.pos ≤ src.length
  bound : t.out.size ≤ n
  capacity : t.out.capacity ≤ growthMax n

theorem FrameState.goes {k : Nat} {consumed : Nat} {ctx : Z.DCtx} {s : FrameState Z}
    {t : Native.FrameState Z} (hsrc : src.length < 2 ^ 64) (hpos : s.pos.toNat = t.pos)
    (hinside : t.pos + consumed ≤ src.length) {g : Mutable.Growable} {out : Native.Growable}
    (hout : g.Models out) (hbound : out.size ≤ n) (hcapacity : out.capacity ≤ growthMax n) {p q : Prop}
    [Decidable p] [Decidable q] (hmoves : p ↔ q) :
    Corresponds (Pass.Matches (FrameState.Models src n) fun g out => g.Models out)
      (if k = 0 ∧ s.pos + UInt64.ofNat consumed = size src then (.ok (.stop g) : Cxx (Pass (FrameState Z) _))
        else require p .invalid >>= fun _ => .ok (.next ⟨ctx, s.pos + UInt64.ofNat consumed, g⟩))
      (if k = 0 ∧ t.pos + consumed = src.length then (.ok (.stop out) : Cxx (Pass (Native.FrameState Z) _))
        else require q .invalid >>= fun _ => .ok (.next ⟨ctx, t.pos + consumed, out⟩)) := by
  have hcursor : (s.pos + UInt64.ofNat consumed).toNat = t.pos + consumed := by
    have htaken : (UInt64.ofNat consumed).toNat = consumed := toNat_ofNat (by omega)
    rw [toNat_add (by omega), htaken, hpos]
  have hend : (k = 0 ∧ s.pos + UInt64.ofNat consumed = size src) ↔
      (k = 0 ∧ t.pos + consumed = src.length) := by
    rw [eq_iff_toNat, hcursor, toNat_size hsrc]
  rw [require_congr hmoves]
  by_cases hdone : k = 0 ∧ t.pos + consumed = src.length
  · rw [if_pos (hend.mpr hdone), if_pos hdone]
    exact hout
  · rw [if_neg (mt hend.mp hdone), if_neg hdone]
    exact .step _ fun _ _ => ⟨rfl, hcursor, hout, hinside, hbound, hcapacity⟩

theorem framePass_words (hsrc : src.length < 2 ^ 64) (hmax : maxOutput.toNat = n) (hsmall : n ≤ 2 ^ 62)
    {s : FrameState Z} {t : Native.FrameState Z} (h : s.Models src n t) :
    Corresponds (Pass.Matches (FrameState.Models src n) fun g out => g.Models out)
      (framePass Z heap src maxOutput s) (Native.framePass Z heap .source src n t) := by
  obtain ⟨hctx, hpos, hout, hinside, hbound, hcapacity⟩ := h
  have hsize := hout.size_eq
  have hgrowth : growthMax n ≤ 2 ^ 63 := by
    unfold growthMax
    omega
  have hmoved : ∀ {consumed : Nat}, t.pos + consumed ≤ src.length →
      (s.pos + UInt64.ofNat consumed ≠ s.pos ↔ consumed ≠ 0) := by
    intro consumed hle
    have htaken : (UInt64.ofNat consumed).toNat = consumed := toNat_ofNat (by omega)
    rw [Ne, eq_iff_toNat, toNat_add (by omega), htaken]
    omega
  have hwithin : ∀ room, t.pos + (Z.decompressStream t.ctx (src.drop t.pos) room).consumed ≤ src.length := by
    intro room
    have hconsumed := (Z.decompressStream_within t.ctx (src.drop t.pos) room).1
    rw [List.length_drop] at hconsumed
    omega
  have hproduced := fun room => (Z.decompressStream_within t.ctx (src.drop t.pos) room).2
  have hfull : s.out.size = maxOutput ↔ t.out.size = n := by
    rw [eq_iff_toNat, hsize, hmax]
  unfold framePass Native.framePass
  by_cases hat : t.out.size = n
  · rw [if_pos (hfull.mpr hat), if_pos hat, hctx, hpos]
    have hle := hwithin 1
    have hgiven := hproduced 1
    dsimp only
    generalize Z.decompressStream t.ctx (src.drop t.pos) 1 = r at *
    have hnone : size r.produced = 0 ↔ r.produced.length = 0 := by
      rw [eq_iff_toNat, toNat_size (by omega)]
      rfl
    refine .step _ fun k _ => ?_
    rw [require_congr hnone]
    refine .step _ fun _ _ => ?_
    exact FrameState.goes hsrc hpos hle hout hbound hcapacity (hmoved hle)
  · rw [if_neg (mt hfull.mp hat), if_neg hat]
    have hroom : (min (maxOutput - s.out.size) 65536).toNat = min (n - t.out.size) 65536 := by
      rw [toNat_min, toNat_sub (by omega), hmax, hsize]
      rfl
    have hspare := Mutable.Growable.spare_models heap hout (by omega) (min (maxOutput - s.out.size) 65536)
      (by omega)
    rw [hroom] at hspare
    refine hspare.bind fun x roomy hgranted hx => ?_
    obtain ⟨room, out⟩ := x
    obtain ⟨hx, hblock⟩ := hx
    have hgrown := Native.Growable.spare_capacity hgranted
    have hmono : growthMax (t.out.size + min (n - t.out.size) 65536) ≤ growthMax n :=
      growthMax_mono (by omega)
    have hleft : room.toNat = roomy.block.capacity - roomy.block.size := hx
    have hblockSize : out.size.toNat = roomy.block.size := hblock.size_eq
    have hsame := roomy.size_eq
    have hle : roomy.block.size ≤ roomy.block.capacity := roomy.block.size_le
    generalize roomy.block = block at *
    have hoffer : (min room (maxOutput - out.size)).toNat =
        min (block.capacity - block.size) (n - t.out.size) := by
      rw [toNat_min, toNat_sub (by omega), hleft, hmax, hblockSize, hsame]
    have hfirst : first room (min room (maxOutput - out.size)) = .ok () := by
      rw [first_words, Native.first_ok]
      rw [hoffer, hleft]
      exact Nat.min_le_left _ _
    have hspan : ((block.cells.drop block.size).take (block.capacity - block.size)).length =
        block.capacity - block.size := by
      rw [List.length_take, List.length_drop]
      exact Nat.min_self _
    dsimp only
    rw [hfirst, ok_bind, subspan_ok (n := block.capacity - block.size) hle (Nat.le_refl _), ok_bind,
      subspan_ok (Nat.zero_le _) (by omega), ok_bind, List.drop_zero, List.length_take, hspan, hoffer]
    rw [Nat.min_eq_left (Nat.min_le_left (block.capacity - block.size) _), hctx, hpos]
    have hinside' := hwithin (min (block.capacity - block.size) (n - t.out.size))
    have hgiven := hproduced (min (block.capacity - block.size) (n - t.out.size))
    generalize Z.decompressStream t.ctx (src.drop t.pos)
      (min (block.capacity - block.size) (n - t.out.size)) = r at *
    have hlen : (size r.produced).toNat = r.produced.length := toNat_size (by omega)
    refine .step _ fun k _ => ?_
    have hfits : block.size + r.produced.length ≤ block.capacity := by omega
    have hfill := Native.Growable.fill_capacity hfits
    have hfilled : ((out.fill r.produced).size + size r.produced).toNat =
        block.size + r.produced.length := by
      change (out.size + size r.produced).toNat = _
      rw [toNat_add (by omega), hblockSize, hlen]
    have hresize := Mutable.Growable.resize_words heap (Mutable.Growable.fill_models hblock hfits) (by omega)
      ((out.fill r.produced).size + size r.produced)
    rw [hfilled] at hresize
    refine hresize.bind fun y out' hgave hy => ?_
    have hgrew := Mutable.resize_capacity hgave
    have hnew := Native.Growable.resize_size hgave
    have hhalf : block.size + r.produced.length + (block.size + r.produced.length) / 2 ≤ growthMax n := by
      unfold growthMax
      omega
    have hnone : size r.produced ≠ 0 ↔ r.produced.length ≠ 0 := by
      rw [Ne, eq_iff_toNat, hlen]
      rfl
    exact FrameState.goes hsrc hpos hinside' hy (by omega) (by omega) (or_congr (hmoved hinside') hnone)

theorem frameWindowLog_words (maxOutput : UInt64) :
    frameWindowLog maxOutput = Native.frameWindowLog maxOutput.toNat := by
  have hcond : (fun w => decide (w < zstdWindowLogMax ∧ 1 <<< UInt64.ofNat w < maxOutput)) =
      fun w => decide (w < zstdWindowLogMax ∧ 2 ^ w < maxOutput.toNat) := by
    funext w
    refine decide_eq_decide.mpr (and_congr_right fun hw => ?_)
    unfold zstdWindowLogMax at hw
    have hpow : 2 ^ w < 2 ^ 64 := Nat.pow_lt_pow_right (by decide) (by omega)
    have hshift : ((1 : UInt64) <<< UInt64.ofNat w).toNat = 2 ^ w := by
      rw [UInt64.toNat_shiftLeft, toNat_ofNat (by omega), Nat.mod_eq_of_lt (by omega : w < 64),
        Nat.shiftLeft_eq]
      change 1 * 2 ^ w % _ = _
      rw [Nat.one_mul, Nat.mod_eq_of_lt hpow]
    rw [UInt64.lt_iff_toNat_lt, hshift]
  unfold frameWindowLog Native.frameWindowLog
  rw [hcond]

theorem frameDecompress_words (hwords : Z.Words) (hsrc : src.length < 2 ^ 64) :
    Corresponds (fun g out => g.Models out) (frameDecompress Z heap src maxOutput)
      (Native.frameDecompress Z heap src maxOutput.toNat) := by
  have hchecks : (size src ≤ frameMax ∧ maxOutput ≤ frameMax) ↔
      (src.length ≤ Native.frameMax ∧ maxOutput.toNat ≤ Native.frameMax) := by
    rw [UInt64.le_iff_toNat_le, UInt64.le_iff_toNat_le, toNat_size hsrc]
    rfl
  unfold frameDecompress Native.frameDecompress frameDecompressWith
  rw [require_congr hchecks, frameWindowLog_words]
  refine .step _ fun _ hlimits => .step _ fun _ _ => ?_
  have hlimits := require_eq_ok.mp hlimits
  cases Z.createDCtx with
  | none => rfl
  | some ctx =>
    refine .step _ fun ctx₁ _ => ?_
    have hclaimed : (UInt64.ofNat (Z.getFrameContentSize src)).toNat = Z.getFrameContentSize src :=
      toNat_ofNat (hwords.contentSize src)
    have hreserve : (if UInt64.ofNat (Z.getFrameContentSize src) ≤ maxOutput then
        UInt64.ofNat (Z.getFrameContentSize src) else min maxOutput 65536).toNat =
          frameReserve Z src maxOutput.toNat := by
      unfold frameReserve
      by_cases hle : Z.getFrameContentSize src ≤ maxOutput.toNat
      · rw [if_pos (by rwa [UInt64.le_iff_toNat_le, hclaimed]), if_pos hle, hclaimed]
      · rw [if_neg (by rwa [UInt64.le_iff_toNat_le, hclaimed]), if_neg hle, toNat_min]
        rfl
    have hreserved := Mutable.Growable.reserve_words heap
      (if UInt64.ofNat (Z.getFrameContentSize src) ≤ maxOutput then
        UInt64.ofNat (Z.getFrameContentSize src) else min maxOutput 65536)
    rw [hreserve] at hreserved
    refine hreserved.bind fun x out hgave hx => ?_
    have hle := frameReserve_le Z src maxOutput.toNat
    have hsmall : maxOutput.toNat ≤ 2 ^ 62 := hlimits.2.trans (by decide)
    obtain ⟨hempty, hcapacity⟩ := Native.Growable.reserve_capacity hgave
    refine run_corresponds (fun s t h => framePass_words hsrc rfl hsmall h) _ ?_
    refine ⟨rfl, rfl, hx, Nat.zero_le _, ?_, ?_⟩
    · rw [hempty]
      exact Nat.zero_le _
    · rw [hcapacity]
      unfold growthMax
      omega

end
end Pyhdiff.Native.Words
