import Pyhdiff.Native.Bridge
import Pyhdiff.Streaming.Guarded

/-! The cancel callback of the zstd loops, which only the test entry points pass. -/
namespace Pyhdiff.Native
open Streaming

/-- A callback over what its data points to: it answers whether to stop, or throws. -/
abbrev Cancel (κ : Type) := Option (κ → Except Thrown (Bool × κ))

section
variable {κ : Type} (cancel : Cancel κ)

/-- `require(!cancel || !cancel(data), PHD_CANCELLED)`. -/
def Cancel.poll (data : κ) : Cxx κ :=
  match cancel with
  | none => .ok data
  | some ask => match ask data with
    | .error t => .error (.thrown t)
    | .ok (stop, data) => do
      require (stop = false) .cancelled
      return data

def encodeSetup (Z : Zstd) (base target : Bytes) (o : Options) (limits : Limits) : Cxx Z.CCtx := do
  require (base.length ≤ rawMax ∧ target.length ≤ limits.input) .limit
  let some ctx := Z.createCCtx | .error (.thrown .badAlloc)
  let ctx ← (zstdParameters Z o base.length target.length).foldlM (zset Z) ctx
  let ctx ← zcheck (Z.cctxSetPledgedSrcSize ctx target.length)
  zcheck (Z.cctxRefPrefix ctx base)

def zstdEncodeCancel (Z : Zstd) (heap : Heap) (passes : Nat) (base target : Bytes) (o : Options)
    (limits : Limits) (data : κ) : Cxx Growable := do
  let ctx ← encodeSetup Z base target o limits
  run (guarded cancel.poll (encodePass Z heap target limits)) (.halt .running) passes
    (⟨ctx, 0, 0, .empty⟩, data)

def applySetup (Z : Zstd) (base src : Bytes) (tn : Nat) : Cxx Z.DCtx := do
  require (base.length ≤ rawMax ∧ tn ≤ rawMax ∧ src.length ≤ payloadMax) .limit
  let _ ← zcheck (Z.getFrameHeader src)
  let (needed, header) ← zcheck (Z.getFrameHeader src)
  require (needed = 0 ∧ header.skippable = false) .invalid
  require (header.windowSize ≤ 2 ^ zstdWindowLogMax) .limit
  require (header.frameContentSize = contentSizeUnknown ∨ header.frameContentSize = tn) .invalid
  let some ctx := Z.createDCtx | .error (.thrown .badAlloc)
  let ctx ← zcheck (Z.dctxSetWindowLogMax ctx zstdWindowLogMax)
  zcheck (Z.dctxRefPrefix ctx base)

def zstdApplyCancel (Z : Zstd) (base src : Bytes) (dst : OutObject) (data : κ) : Cxx OutObject := do
  let tn := dst.cells.length
  let ctx ← applySetup Z base src tn
  let s ← run (guarded cancel.poll (applyPass Z 65536 65536 src tn)) (.halt .running)
    (src.length + tn + 1) (⟨ctx, 0, 0, dst⟩, data)
  require (s.read = src.length ∧ s.written = tn) .invalid
  return s.dst

namespace Host
variable (C : Host)

def phdTestZstdEncode (base target : Bytes) (o : ZstdOptions) (data : κ) :
    Except Halt (Except Status Cells) :=
  boundary do
    let options ← zstdOptions o
    let encoded ← zstdEncodeCancel cancel C.zstd C.heap C.passes base target options kCodecLimits data
    encoded.release C.heap

def phdTestZstdApply (base payload : Bytes) (out : OutObject) (data : κ) :
    Except Halt (Except Status OutObject) :=
  boundary do
    let tn := out.cells.length
    require (tn ≤ rawMax) .limit
    zstdApplyCancel cancel C.zstd base payload out data

end Host

end

/-- An encoding that has made `k` calls of the library and goes on from `s`. -/
def Encoding (Z : Zstd) (heap : Heap) (base target : Bytes) (o : Options) (limits : Limits) (k : Nat)
    (s : EncodeState Z) : Prop :=
  ∃ ctx, encodeSetup Z base target o limits = .ok ctx ∧
    After (encodePass Z heap target limits) k ⟨ctx, 0, 0, .empty⟩ s

def Decoding (Z : Zstd) (base src : Bytes) (dst : OutObject) (k : Nat) (s : ApplyState Z) : Prop :=
  ∃ ctx, applySetup Z base src dst.cells.length = .ok ctx ∧
    After (applyPass Z 65536 65536 src dst.cells.length) k ⟨ctx, 0, 0, dst⟩ s

section
variable {κ : Type} {cancel : Cancel κ} {data : κ} {Z : Zstd} {heap : Heap} {passes : Nat}
variable {base target : Bytes} {o : Options} {limits : Limits}

theorem zstdEncode_eq (Z : Zstd) (heap : Heap) (passes : Nat) (base target : Bytes) (o : Options)
    (limits : Limits) : zstdEncode Z heap passes base target o limits =
      encodeSetup Z base target o limits >>= fun ctx =>
        run (encodePass Z heap target limits) (.halt .running) passes ⟨ctx, 0, 0, .empty⟩ := by
  unfold zstdEncode encodeSetup
  simp only [bind_assoc]
  refine bind_congr fun _ => ?_
  cases Z.createCCtx with
  | none => rfl
  | some ctx => simp only [bind_assoc]

theorem zstdEncodeCancel_granted (h : Granted cancel.poll passes data) :
    zstdEncodeCancel cancel Z heap passes base target o limits data =
      zstdEncode Z heap passes base target o limits := by
  rw [zstdEncode_eq]
  unfold zstdEncodeCancel
  simp only [run_guarded_granted h]

theorem zstdEncodeCancel_refused {e : Fault} {k : Nat} (h : RefusedAt cancel.poll e k data)
    (hk : k < passes) :
    ((∃ s, Encoding Z heap base target o limits k s) →
      zstdEncodeCancel cancel Z heap passes base target o limits data = .error e) ∧
    ((¬ ∃ s, Encoding Z heap base target o limits k s) →
      zstdEncodeCancel cancel Z heap passes base target o limits data =
        zstdEncode Z heap passes base target o limits) := by
  rw [zstdEncode_eq]
  unfold zstdEncodeCancel Encoding
  cases hsetup : encodeSetup Z base target o limits with
  | error f =>
    refine ⟨?_, fun _ => rfl⟩
    rintro ⟨s, ctx, hctx, -⟩
    cases hctx
  | ok ctx =>
    simp only [ok_bind, run_guarded_refused h hk]
    cases run_fewer (encodePass Z heap target limits) (.halt .running) e ⟨ctx, 0, 0, .empty⟩
      (Nat.le_of_lt hk) with
    | inl hgoing =>
      obtain ⟨s, hafter, hrun⟩ := hgoing
      exact ⟨fun _ => hrun, fun hno => absurd ⟨s, ctx, rfl, hafter⟩ hno⟩
    | inr hended =>
      obtain ⟨hno, hrun⟩ := hended
      refine ⟨?_, fun _ => hrun⟩
      rintro ⟨s, ctx', hctx, hafter⟩
      obtain rfl := Except.ok.inj hctx
      exact absurd ⟨s, hafter⟩ hno

theorem zstdApply_eq (Z : Zstd) (base src : Bytes) (dst : OutObject) :
    zstdApply Z base src dst = applySetup Z base src dst.cells.length >>= fun ctx => do
      let s ← run (applyPass Z 65536 65536 src dst.cells.length) (.halt .running)
        (src.length + dst.cells.length + 1) ⟨ctx, 0, 0, dst⟩
      require (s.read = src.length ∧ s.written = dst.cells.length) .invalid
      return s.dst := by
  unfold zstdApply zstdApplyWith applySetup
  simp only [bind_assoc]
  refine bind_congr fun _ => bind_congr fun _ => bind_congr fun _ => bind_congr fun _ => ?_
  refine bind_congr fun _ => bind_congr fun _ => ?_
  cases Z.createDCtx with
  | none => rfl
  | some ctx => simp only [bind_assoc]

theorem zstdApplyCancel_granted {src : Bytes} {dst : OutObject}
    (h : Granted cancel.poll (src.length + dst.cells.length + 1) data) :
    zstdApplyCancel cancel Z base src dst data = zstdApply Z base src dst := by
  rw [zstdApply_eq]
  unfold zstdApplyCancel
  simp only [run_guarded_granted h]

/-- The loop ends by itself within its passes, so a refusal after them is none. -/
theorem zstdApplyCancel_refused {src : Bytes} {tn : Nat} {e : Fault} {k : Nat}
    (h : RefusedAt cancel.poll e k data) :
    ((∃ s, Decoding Z base src (.fresh tn) k s) →
      zstdApplyCancel cancel Z base src (.fresh tn) data = .error e) ∧
    ((¬ ∃ s, Decoding Z base src (.fresh tn) k s) →
      zstdApplyCancel cancel Z base src (.fresh tn) data = zstdApply Z base src (.fresh tn)) := by
  have hfresh : (OutObject.fresh tn).cells.length = tn := (OutObject.fresh_wrote tn).length
  by_cases hk : k < src.length + tn + 1
  · rw [zstdApply_eq]
    unfold zstdApplyCancel Decoding
    dsimp only
    rw [hfresh]
    cases hsetup : applySetup Z base src tn with
    | error f =>
      refine ⟨?_, fun _ => rfl⟩
      rintro ⟨s, ctx, hctx, -⟩
      cases hctx
    | ok ctx =>
      simp only [ok_bind, run_guarded_refused h hk]
      cases run_fewer (applyPass Z 65536 65536 src tn) (.halt .running) e
        ⟨ctx, 0, 0, .fresh tn⟩ (Nat.le_of_lt hk) with
      | inl hgoing =>
        obtain ⟨s, hafter, hrun⟩ := hgoing
        exact ⟨fun _ => by rw [hrun]; rfl, fun hno => absurd ⟨s, ctx, rfl, hafter⟩ hno⟩
      | inr hended =>
        obtain ⟨hno, hrun⟩ := hended
        refine ⟨?_, fun _ => by rw [hrun]⟩
        rintro ⟨s, ctx', hctx, hafter⟩
        obtain rfl := Except.ok.inj hctx
        exact absurd ⟨s, hafter⟩ hno
  · have hplain : zstdApplyCancel cancel Z base src (.fresh tn) data =
        zstdApply Z base src (.fresh tn) :=
      zstdApplyCancel_granted (h.granted.mono (by rw [hfresh]; omega))
    refine ⟨?_, fun _ => hplain⟩
    rintro ⟨s, ctx, -, hafter⟩
    rw [hfresh] at hafter
    have hsafe := applyLoop_safe 65536 src tn (by decide : 0 < 65536) ctx k (by omega)
    rw [hafter.run_spent] at hsafe
    exact hsafe.elim

def ApplyState.Stands {F : Format UInt8} (L : LawfulDecoder F Z.decompressStream)
    (cfg : DecoderConfig UInt8) (src : Bytes) (tn : Nat) (s : ApplyState Z) : Prop :=
  s.InRange src tn ∧ ∃ o, s.dst.Wrote tn o ∧ o.length = s.written ∧
    L.At s.ctx cfg (src.take s.read) o

theorem applyPass_stands {F : Format UInt8} {L : LawfulDecoder F Z.decompressStream}
    {cfg : DecoderConfig UInt8} {src : Bytes} {tn : Nat} {s : ApplyState Z}
    (hs : s.Stands L cfg src tn) :
    Pass.Ends (ApplyState.Stands L cfg src tn) (fun _ => True) (applyPass Z 65536 65536 src tn s) := by
  obtain ⟨hs, o, ho, hlen, hat⟩ := hs
  have hw := (Z.decompressStream_within s.ctx (s.input 65536 src) (s.room 65536 tn)).1
  rcases applyPass_cases 65536 (by decide : 0 < 65536) hs with ⟨e, -, h⟩ | ⟨k, -, -, h⟩ | ⟨k, -, -, -, h⟩ |
    ⟨k, hres, hfit, -, h⟩ | ⟨-, -, h⟩
  · rw [h]
    trivial
  · rw [h]
    trivial
  · rw [h]
    trivial
  · obtain ⟨hs', ho', hlen'⟩ := hs.advance ho hlen hw hfit
    rw [h]
    refine ⟨hs', _, ho', hlen', ?_⟩
    rw [ApplyState.take_advance hw]
    exact L.continued hat hres
  · rw [h]
    trivial

/-- What a decoding has written at the head of its loop: a beginning of the
content, from the start of the object and without a gap. -/
theorem Decoding.written {F : Format UInt8} (D : DecodingLaws Z F) {src : Bytes} {tn k : Nat}
    {s : ApplyState Z} (h : Decoding Z base src (.fresh tn) k s) {f : Frame UInt8}
    (hf : F.frame base src = some f) (hwindow : f.window ≤ 2 ^ zstdWindowLogMax) :
    ∃ o, o <+: f.content ∧ o.length = s.written ∧ s.dst.Wrote tn o := by
  have hfresh : (OutObject.fresh tn).cells.length = tn := (OutObject.fresh_wrote tn).length
  obtain ⟨ctx, hsetup, hafter⟩ := h
  rw [hfresh] at hsetup hafter
  simp only [applySetup, bind_eq_ok, zcheck_eq_ok] at hsetup
  obtain ⟨-, -, header, -, header', -, -, -, -, -, -, -, hsetup⟩ := hsetup
  cases hctx : Z.createDCtx with
  | none => simp [hctx] at hsetup
  | some ctx₀ =>
    simp only [hctx, bind_eq_ok, zcheck_eq_ok] at hsetup
    obtain ⟨ctx₁, h₁, h₂⟩ := hsetup
    obtain ⟨ctx₁', h₁', hat₁⟩ := D.windowSet (D.created hctx) (w := zstdWindowLogMax)
      (by decide) (by decide)
    obtain rfl := Except.ok.inj (h₁.symm.trans h₁')
    obtain ⟨ctx₂, h₂', hat₂⟩ := D.prefixSet base hat₁
    obtain rfl := Except.ok.inj (h₂.symm.trans h₂')
    have hstart : (⟨ctx, 0, 0, .fresh tn⟩ : ApplyState Z).Stands D.dec ⟨base, zstdWindowLogMax⟩
        src tn :=
      ⟨⟨Nat.zero_le _, Nat.zero_le _, (OutObject.fresh_wrote tn).length⟩, [],
        OutObject.fresh_wrote tn, rfl, hat₂⟩
    obtain ⟨-, o, ho, hlen, hat⟩ := hafter.invariant (fun _ => applyPass_stands) hstart
    have hrest : F.frame base (src.take s.read ++ src.drop s.read) = some f := by
      rw [List.take_append_drop]
      exact hf
    obtain ⟨-, -, -, hgiven, -⟩ := D.dec.decodes hat hrest (D.dec.accepts_window hwindow)
      Nat.one_pos (.inl (List.nil_prefix : [] <+: src.drop s.read))
    exact ⟨o, (List.prefix_append _ _).trans hgiven, hlen, ho⟩

end

end Pyhdiff.Native
