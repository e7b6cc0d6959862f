import Pyhdiff.Native.Failure
import Pyhdiff.Streaming.Encoder
import Mathlib.Data.Nat.Log

/-! The zstd entry points the bridge calls, and what it may rely on when the
library behaves as documented. -/
namespace Pyhdiff.Native
open Streaming

inductive CParameter where
  | compressionLevel | windowLog | nbWorkers | contentSizeFlag | checksumFlag
  | enableLongDistanceMatching | ldmHashLog | ldmMinMatch | ldmBucketSizeLog | ldmHashRateLog
  deriving DecidableEq

def CParameter.Allows : CParameter → Int → Prop
  | .compressionLevel, v => 1 ≤ v ∧ v ≤ 22
  | .windowLog, v => 10 ≤ v ∧ v ≤ 31
  | .nbWorkers, v => v = 0
  | .contentSizeFlag, v => v = 0 ∨ v = 1
  | .checksumFlag, v => v = 0 ∨ v = 1
  | _, _ => False

/-- The fields of `ZSTD_compressionParameters` the bridge reads or sets. -/
structure CParams where
  windowLog : Nat
  chainLog : Nat
  strategy : Nat

structure FrameHeader where
  frameContentSize : Nat
  windowSize : Nat
  skippable : Bool

def contentSizeUnknown : Nat := 2 ^ 64 - 1

/-- An arbitrary zstd, except that the cursors of a streaming call stay inside
the buffers it is given and do not move back. -/
structure Zstd where
  DCtx : Type
  createDCtx : Option DCtx
  dctxSetWindowLogMax : DCtx → Nat → Except Nat DCtx
  dctxRefPrefix : DCtx → Bytes → Except Nat DCtx
  decompressStream : DCtx → Bytes → Nat → Reply DCtx UInt8
  decompressStream_within : ∀ ctx input room,
    (decompressStream ctx input room).Within input room
  getFrameHeader : Bytes → Except Nat (Nat × FrameHeader)
  getFrameContentSize : Bytes → Nat
  CCtx : Type
  createCCtx : Option CCtx
  cctxSetParameter : CCtx → CParameter → Int → Except Nat CCtx
  cctxSetPledgedSrcSize : CCtx → Nat → Except Nat CCtx
  cctxRefPrefix : CCtx → Bytes → Except Nat CCtx
  compressStream2 : CCtx → Bytes → Nat → EndDirective → Reply CCtx UInt8
  compressStream2_within : ∀ ctx input room op,
    (compressStream2 ctx input room op).Within input room
  cStreamInSize : Nat
  cStreamOutSize : Nat
  getCParams : Int → Nat → Nat → CParams
  adjustCParams : CParams → Nat → Nat → CParams

/-- A zstd that decodes a format as documented. A new context has no prefix,
its window limit and prefix can be set before it is used, and the header of a
complete frame reads as the frame. -/
structure DecodingLaws (Z : Zstd) (F : Format UInt8) where
  dec : LawfulDecoder F Z.decompressStream
  created : ∀ {ctx}, Z.createDCtx = some ctx → dec.At ctx ⟨[], 27⟩ [] []
  windowSet : ∀ {ctx cfg w}, dec.At ctx cfg [] [] → 10 ≤ w → w ≤ 31 →
    ∃ ctx', Z.dctxSetWindowLogMax ctx w = .ok ctx' ∧ dec.At ctx' { cfg with windowLog := w } [] []
  prefixSet : ∀ {ctx cfg} (b : Bytes), dec.At ctx cfg [] [] →
    ∃ ctx', Z.dctxRefPrefix ctx b = .ok ctx' ∧ dec.At ctx' { cfg with history := b } [] []
  header : ∀ {p s f}, F.frame p s = some f → ∀ t, ∃ h, Z.getFrameHeader (s ++ t) = .ok (0, h) ∧
    h.skippable = f.skippable ∧ h.windowSize = f.window ∧
    (f.skippable = false → h.frameContentSize = f.recorded.getD contentSizeUnknown)

/-- A frame the decoder does not accept, and could not give out whole into the
room it has, is refused with the error for a window above the limit, after at
most a part of it and without any output. -/
def DecodingLaws.Refuses {Z : Zstd} {F : Format UInt8} (D : DecodingLaws Z F) : Prop :=
  ∀ {ctx cfg c o rest f input room}, D.dec.At ctx cfg c o →
    F.frame cfg.history (c ++ rest) = some f → ¬ D.dec.accepts cfg f →
    0 < room → room < f.content.length → input ≠ [] →
    (input <+: rest ∨ rest <+: input) →
    (Z.decompressStream ctx input room).result = .error 16 ∨
    ∃ k, (Z.decompressStream ctx input room).result = .ok (k+1) ∧
      0 < (Z.decompressStream ctx input room).consumed ∧
      (Z.decompressStream ctx input room).consumed < rest.length ∧
      (Z.decompressStream ctx input room).produced = []

structure Setup where
  params : CParameter → Int
  history : Bytes
  pledged : Option Nat

def Setup.set (s : Setup) (p : CParameter) (v : Int) : Setup :=
  { s with params := fun q => if q = p then v else s.params q }

def Setup.setAll (s : Setup) (l : List (CParameter × Int)) : Setup :=
  l.foldl (fun s p => s.set p.1 p.2) s

theorem Setup.setAll_params {P : Int → Prop} (l : List (CParameter × Int)) (s : Setup)
    (q : CParameter) (hs : P (s.params q)) (hl : ∀ v, (q, v) ∈ l → P v) :
    P ((s.setAll l).params q) := by
  induction l generalizing s with
  | nil => exact hs
  | cons p l ih =>
    refine ih (s.set p.1 p.2) ?_ fun v hv => hl v (List.mem_cons_of_mem p hv)
    by_cases hq : q = p.1
    · simpa [Setup.set, hq] using hl p.2 (hq ▸ List.mem_cons_self)
    · simpa [Setup.set, hq] using hs

/-- The most that comes out for a promised length: a little over the length itself. -/
def compressBound (job : Job (CParameter → Int) UInt8) : Nat :=
  job.pledged + job.pledged / 128 + 1024

structure EncodingLaws (Z : Zstd) (F : Format UInt8) where
  enc : LawfulEncoder F (CParameter → Int) Z.compressStream2
  defaults : CParameter → Int
  automaticWindow : defaults .windowLog = 0
  Idle : Z.CCtx → Setup → Prop
  created : ∀ {ctx}, Z.createCCtx = some ctx → Idle ctx ⟨defaults, [], none⟩
  parameterSet : ∀ {ctx ctx' s p v}, Idle ctx s → Z.cctxSetParameter ctx p v = .ok ctx' →
    Idle ctx' (s.set p v)
  pledgedSet : ∀ {ctx ctx' s n}, Idle ctx s → Z.cctxSetPledgedSrcSize ctx n = .ok ctx' →
    Idle ctx' { s with pledged := some n }
  prefixSet : ∀ {ctx ctx' s b}, Idle ctx s → Z.cctxRefPrefix ctx b = .ok ctx' →
    Idle ctx' { s with history := b }
  begins : ∀ {ctx s n}, Idle ctx s → s.pledged = some n →
    enc.Fed ctx ⟨s.params, s.history, n⟩ [] [] none

namespace EncodingLaws
variable {Z : Zstd} {F : Format UInt8} (E : EncodingLaws Z F)

/-- No frame needs a window beyond the largest the bridge decodes. -/
def CapsWindow : Prop := ∀ {job f}, E.enc.emits job f →
  job.params .windowLog ≤ zstdWindowLogMax → f.window ≤ 2 ^ zstdWindowLogMax

def HonorsWindowLog : Prop := ∀ {job f} {w : Nat}, E.enc.emits job f →
  job.params .windowLog = w → 10 ≤ w → f.window ≤ 2 ^ w

/-- Without a prefix the window is never much larger than the source: at most
the source length rounded up to a power of two, or the smallest window. -/
def FitsWindow : Prop := ∀ {job f}, E.enc.emits job f → job.history = [] →
  f.window ≤ max (2 ^ 10) (2 ^ Nat.clog 2 job.pledged)

/-- Contexts are created and take parameters in their documented ranges. -/
structure Ready : Prop where
  creates : Z.createCCtx ≠ none
  sets : ∀ {ctx s p v}, E.Idle ctx s → p.Allows v → ∃ ctx', Z.cctxSetParameter ctx p v = .ok ctx'
  pledges : ∀ {ctx s n}, E.Idle ctx s → n < 2 ^ 64 → ∃ ctx', Z.cctxSetPledgedSrcSize ctx n = .ok ctx'
  buffers : 0 < Z.cStreamInSize ∧ 0 < Z.cStreamOutSize

def TakesEmptyPrefix : Prop := ∀ {ctx s}, E.Idle ctx s → ∃ ctx', Z.cctxRefPrefix ctx [] = .ok ctx'

end EncodingLaws

def zset (Z : Zstd) (ctx : Z.CCtx) (p : CParameter × Int) : Cxx Z.CCtx :=
  zcheck (Z.cctxSetParameter ctx p.1 p.2)

section
variable {Z : Zstd} {F : Format UInt8} (E : EncodingLaws Z F)
include E

theorem zset_idle {l : List (CParameter × Int)} {ctx ctx' : Z.CCtx} {s : Setup}
    (hidle : E.Idle ctx s) (h : l.foldlM (zset Z) ctx = .ok ctx') : E.Idle ctx' (s.setAll l) := by
  induction l generalizing ctx s with
  | nil =>
    obtain rfl := Except.ok.inj h
    exact hidle
  | cons p l ih =>
    rw [List.foldlM_cons, bind_eq_ok] at h
    obtain ⟨ctx₁, h₁, h⟩ := h
    exact ih (E.parameterSet hidle (zcheck_eq_ok.mp h₁)) h

end

theorem zset_ready {Z : Zstd} {F : Format UInt8} {E : EncodingLaws Z F} (hready : E.Ready)
    {l : List (CParameter × Int)} (hl : ∀ p ∈ l, p.1.Allows p.2) {ctx : Z.CCtx} {s : Setup}
    (hidle : E.Idle ctx s) :
    ∃ ctx', l.foldlM (zset Z) ctx = .ok ctx' ∧ E.Idle ctx' (s.setAll l) := by
  induction l generalizing ctx s with
  | nil => exact ⟨ctx, rfl, hidle⟩
  | cons p l ih =>
    obtain ⟨ctx₁, h₁⟩ := hready.sets hidle (hl p List.mem_cons_self)
    obtain ⟨ctx₂, h₂, hidle₂⟩ := ih (fun q hq => hl q (List.mem_cons_of_mem p hq))
      (E.parameterSet hidle h₁)
    refine ⟨ctx₂, ?_, hidle₂⟩
    rw [List.foldlM_cons, zset, h₁, zcheck_ok, ok_bind]
    exact h₂

end Pyhdiff.Native
