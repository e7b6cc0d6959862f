import Pyhdiff.Native.Cancel
import Pyhdiff.Streaming.Pair

/-! What the bridge asks the allocator for. An allocator that answers the small
requests as another does gives the same results, so long as no larger ones are
made. -/
namespace Pyhdiff.Native
open Streaming

/-- The allocators answer alike for blocks of at most `block` bytes, and for
vectors of at most `vector` bytes. -/
structure Heap.Agrees (heap heap' : Heap) (block vector : Nat) : Prop where
  realloc : ∀ capacity n, n ≤ block → heap.realloc capacity n = heap'.realloc capacity n
  new : ∀ n, n ≤ vector → heap.new n = heap'.new n

def growthMax (n : Nat) : Nat := n + n / 2

theorem growthMax_mono {m n : Nat} (h : m ≤ n) : growthMax m ≤ growthMax n := by
  unfold growthMax
  omega

section
variable {heap heap' : Heap} {block vector bound : Nat}

theorem allocate_agrees (h : heap.Agrees heap' block vector) {n : Nat} (hn : n ≤ vector) :
    allocate heap n = allocate heap' n := by
  unfold allocate
  rw [h.new n hn]

namespace Growable
variable {g : Growable}

theorem growTo_agrees (h : heap.Agrees heap' block vector) {minimum n : Nat}
    (hn : g.size + minimum ≤ n) (hle : n ≤ block) :
    g.growTo heap minimum n hn = g.growTo heap' minimum n hn := by
  unfold growTo
  rw [h.realloc _ _ hle]

theorem reserve_agrees (h : heap.Agrees heap' block vector) {n : Nat} (hn : n ≤ block) :
    reserve heap n = reserve heap' n := by
  unfold reserve
  split
  · rw [growTo_agrees h _ hn]
  · rfl

theorem spare_agrees (h : heap.Agrees heap' block vector) {minimum : Nat}
    (hfits : g.size + minimum ≤ bound) (hbound : growthMax bound ≤ block) :
    g.spare heap .source minimum = g.spare heap' .source minimum := by
  unfold spare
  split
  · rename_i hshort
    refine growTo_agrees h _ ?_
    unfold growthMax at hbound
    simp only [Growth.source]
    omega
  · rfl

theorem resize_agrees (h : heap.Agrees heap' block vector) {n : Nat} (hfits : n ≤ bound)
    (hbound : growthMax bound ≤ block) : g.resize heap .source n = g.resize heap' .source n := by
  unfold resize
  split
  · have hgrown : g.size + (n - g.size) ≤ bound := by omega
    rw [spare_agrees h hgrown hbound]
  · rfl

theorem append_agrees (h : heap.Agrees heap' block vector) {b : Bytes}
    (hfits : g.size + b.length ≤ bound) (hbound : growthMax bound ≤ block) :
    g.append heap .source b = g.append heap' .source b := by
  unfold append
  rw [spare_agrees h hfits hbound]

theorem release_agrees (h : heap.Agrees heap' block vector) (hblock : 1 ≤ block) :
    g.release heap = g.release heap' := by
  unfold release
  split
  · rw [growTo_agrees h _ hblock]
  · rfl

end Growable

theorem Output.write_agrees (h : heap.Agrees heap' block vector) {out : Output} {pos : Nat} {b : Bytes}
    (hfits : pos ≤ out.limit → b.length ≤ out.limit - pos → pos ≤ out.bytes.size →
      pos + b.length ≤ bound) (hbound : growthMax bound ≤ block) :
    out.write heap pos b = out.write heap' pos b := by
  unfold write
  refine bind_congr_ok fun _ hlimit => bind_congr_ok fun _ hpos => ?_
  obtain ⟨hstart, hend⟩ := require_eq_ok.mp hlimit
  have hgrown := hfits hstart hend (require_eq_ok.mp hpos)
  dsimp only
  split
  · rw [Growable.resize_agrees h hgrown hbound]
  · rfl

end

section
variable {Z : Zstd} {heap heap' : Heap} {block vector bound passes : Nat} {base target : Bytes}
variable {o : Options} {limits : Limits}

theorem encodePass_eq (heap : Heap) (limits : Limits) {s : EncodeState Z} (hs : s.pos ≤ target.length) :
    encodePass Z heap target limits s = (do
      let remaining ← zcheck (s.reply target).result
      require ((s.reply target).produced.length ≤ limits.output - s.encoded.size) .limit
      let encoded ← s.encoded.append heap .source (s.reply target).produced
      return s.settle target remaining (s.reply target) encoded) := by
  unfold encodePass
  simp only [subspan_ok hs (Nat.min_le_right _ _), ok_bind, decide_eq_true_eq, ne_eq, ite_not]
  rfl

theorem encodePass_agrees (h : heap.Agrees heap' block vector) {s : EncodeState Z}
    (hs : s.pos ≤ target.length)
    (hfits : (s.reply target).produced.length ≤ limits.output - s.encoded.size →
      s.encoded.size + (s.reply target).produced.length ≤ bound) (hbound : growthMax bound ≤ block) :
    encodePass Z heap target limits s = encodePass Z heap' target limits s := by
  rw [encodePass_eq heap limits hs, encodePass_eq heap' limits hs]
  refine bind_congr_ok fun k _ => bind_congr_ok fun _ hfit => ?_
  rw [Growable.append_agrees h (hfits (require_eq_ok.mp hfit)) hbound]

theorem EncodeState.settle_cases {s : EncodeState Z} (hs : s.pos ≤ target.length) (k : Nat)
    (r : Reply Z.CCtx UInt8) (encoded : Growable) : s.settle target k r encoded = .stop encoded ∨
      ∃ t, s.settle target k r encoded = .next t ∧ t.pos ≤ target.length ∧ t.encoded = encoded := by
  have hchunk := EncodeState.chunk_length hs
  unfold settle
  by_cases hmore : if s.Last target then k ≠ 0 else s.read + r.consumed ≠ (s.chunk target).length
  · rw [if_pos hmore]
    exact .inr ⟨_, rfl, hs, rfl⟩
  · rw [if_neg hmore]
    by_cases hlast : s.Last target
    · exact .inl (if_pos hlast)
    · rw [if_neg hlast]
      exact .inr ⟨_, rfl, by simp only; omega, rfl⟩

theorem encodePass_grows {s : EncodeState Z} (hs : s.pos ≤ target.length) :
    Pass.Ends (fun t => t.pos ≤ target.length ∧ s.encoded.size ≤ t.encoded.size)
      (fun r => ∀ a, r = .ok a → s.encoded.size ≤ a.size) (encodePass Z heap target limits s) := by
  rcases encodePass_cases heap limits hs with ⟨e, -, h⟩ | ⟨-, h⟩ | ⟨h, -⟩ |
    ⟨k, encoded, -, -, hsize, -, h⟩
  · simp [h, zcheck_error, fail, Pass.Ends]
  · simp [h, fail, Pass.Ends]
  · simp [h, Pass.Ends]
  rw [h]
  cases EncodeState.settle_cases hs k (s.reply target) encoded with
  | inl hstop =>
    rw [hstop]
    rintro a ⟨⟩
    omega
  | inr hnext =>
    obtain ⟨t, hnext, hpos, rfl⟩ := hnext
    rw [hnext]
    exact ⟨hpos, by omega⟩

theorem zstdEncode_agrees (h : heap.Agrees heap' block vector)
    (hbound : growthMax limits.output ≤ block) :
    zstdEncode Z heap passes base target o limits = zstdEncode Z heap' passes base target o limits := by
  rw [zstdEncode_eq, zstdEncode_eq]
  refine bind_congr_ok fun ctx _ => ?_
  refine run_congr (I := fun s => s.pos ≤ target.length ∧ s.encoded.size ≤ limits.output)
    (fun _ => encodePass_bounded) (fun s hs => encodePass_agrees h hs.1 (fun hfit => ?_) hbound) passes
    ⟨Nat.zero_le _, Nat.zero_le _⟩
  exact Nat.add_le_of_le_sub' hs.2 hfit

theorem zstdEncode_agrees_ok {out : Growable} (h : heap.Agrees heap' block vector)
    (hrun : zstdEncode Z heap passes base target o limits = .ok out)
    (hbound : growthMax out.size ≤ block) :
    zstdEncode Z heap' passes base target o limits = .ok out := by
  rw [zstdEncode_eq, bind_eq_ok] at hrun
  obtain ⟨ctx, hsetup, hrun⟩ := hrun
  rw [zstdEncode_eq, hsetup, ok_bind]
  refine (run_until (I := fun s => s.pos ≤ target.length) (μ := fun s => s.encoded.size)
    (ν := Growable.size) (fun s hs => encodePass_grows hs) (fun s p hs hp hsize hpsize => ?_)
    (Nat.zero_le _) hrun (Nat.le_refl _)).1
  rw [← hp]
  refine (encodePass_agrees h hs (fun hfit => ?_) hbound).symm
  rcases encodePass_cases heap limits hs with ⟨e, -, herr⟩ | ⟨-, herr⟩ | ⟨herr, -⟩ |
    ⟨k, encoded, -, -, hencoded, -, hnext⟩
  · rw [hp] at herr
    cases herr
  · rw [hp] at herr
    cases herr
  · rw [hp] at herr
    cases herr
  · obtain rfl := Except.ok.inj (hp.symm.trans hnext)
    rw [← hencoded]
    cases EncodeState.settle_cases hs k (s.reply target) encoded with
    | inl hstop => rwa [hstop] at hpsize
    | inr hmore =>
      obtain ⟨t, hmore, -, rfl⟩ := hmore
      rwa [hmore] at hpsize

end

section
variable {Z : Zstd} {heap heap' : Heap} {block vector bound maxOutput : Nat} {src : Bytes}

theorem subspan_length {α : Type} {b c : List α} {pos n : Nat} (h : subspan b pos n = .ok c) :
    c.length = n := by
  unfold subspan at h
  split at h
  · obtain rfl := Except.ok.inj h
    rw [List.length_take, List.length_drop]
    omega
  · cases h

theorem framePass_agrees (h : heap.Agrees heap' block vector) {s : FrameState Z}
    (hfits : s.out.size + min (maxOutput - s.out.size) 65536 ≤ bound)
    (hbound : growthMax bound ≤ block) :
    framePass Z heap .source src maxOutput s = framePass Z heap' .source src maxOutput s := by
  unfold framePass
  split
  · rfl
  rw [Growable.spare_agrees h hfits hbound]
  refine bind_congr_ok fun roomy _ => bind_congr_ok fun dst hdst => bind_congr_ok fun dst' hdst' => ?_
  have hdst := subspan_length hdst
  have hdst' := subspan_length hdst'
  refine bind_congr_ok fun k _ => ?_
  have hw := (Z.decompressStream_within s.ctx (src.drop s.pos) dst'.length).2
  have hle := roomy.block.size_le
  -- what was just stored fits the block as it is
  have hroom : roomy.block.size +
      (Z.decompressStream s.ctx (src.drop s.pos) dst'.length).produced.length ≤
      roomy.block.capacity := by
    unfold Growable.capacity at *
    omega
  have hfilled := Growable.fill_capacity hroom
  rw [Growable.resize_in_place heap .source (hfilled ▸ hroom),
    Growable.resize_in_place heap' .source (hfilled ▸ hroom)]

theorem framePass_grows {s : FrameState Z} (hs : s.out.size ≤ maxOutput) :
    Pass.Ends (fun t => t.out.size ≤ maxOutput ∧ s.out.size ≤ t.out.size)
      (fun r => ∀ a, r = .ok a → s.out.size ≤ a.size) (framePass Z heap .source src maxOutput s) := by
  rcases framePass_cases heap .source src hs with ⟨h, -⟩ | ⟨room, -, -, ⟨e, -, h⟩ |
    ⟨k, -, -, -, h⟩ | ⟨k, out, -, hle, hsize, -, h⟩⟩
  · simp [h, Pass.Ends]
  · simp [h, zcheck_error, fail, Pass.Ends]
  · simp [h, fail, Pass.Ends]
  rw [h]
  unfold FrameState.settle
  split
  · rintro a ⟨⟩
    omega
  · split
    · exact ⟨hle, by simp only; omega⟩
    · simp [fail, Pass.Ends]

def frameReserve (Z : Zstd) (src : Bytes) (maxOutput : Nat) : Nat :=
  if Z.getFrameContentSize src ≤ maxOutput then Z.getFrameContentSize src else min maxOutput 65536

theorem frameReserve_le (Z : Zstd) (src : Bytes) (maxOutput : Nat) :
    frameReserve Z src maxOutput ≤ maxOutput := by
  unfold frameReserve
  split
  · assumption
  · exact Nat.min_le_left _ _

def frameSetup (Z : Zstd) (src : Bytes) (maxOutput : Nat) : Cxx Z.DCtx := do
  require (src.length ≤ frameMax ∧ maxOutput ≤ frameMax) .limit
  require (src ≠ []) .invalid
  let some ctx := Z.createDCtx | .error (.thrown .badAlloc)
  zcheck (Z.dctxSetWindowLogMax ctx (frameWindowLog maxOutput))

theorem frameDecompress_eq (Z : Zstd) (heap : Heap) (src : Bytes) (maxOutput : Nat) :
    frameDecompress Z heap src maxOutput = (do
      let ctx ← frameSetup Z src maxOutput
      let out ← Growable.reserve heap (frameReserve Z src maxOutput)
      run (framePass Z heap .source src maxOutput) (.halt .running) (src.length + maxOutput + 1)
        ⟨ctx, 0, out⟩) := by
  unfold frameDecompress frameDecompressWith frameSetup
  simp only [bind_assoc]
  refine bind_congr fun _ => bind_congr fun _ => ?_
  cases Z.createDCtx with
  | none => rfl
  | some ctx => rfl

theorem frameDecompress_agrees (h : heap.Agrees heap' block vector)
    (hbound : growthMax maxOutput ≤ block) :
    frameDecompress Z heap src maxOutput = frameDecompress Z heap' src maxOutput := by
  have hreserve : frameReserve Z src maxOutput ≤ block := by
    have := frameReserve_le Z src maxOutput
    unfold growthMax at hbound
    omega
  rw [frameDecompress_eq, frameDecompress_eq, Growable.reserve_agrees h hreserve]
  refine bind_congr_ok fun ctx _ => bind_congr_ok fun out hout => ?_
  have hempty := Growable.safe_reserve heap' (frameReserve Z src maxOutput)
  rw [hout] at hempty
  refine run_congr (I := fun s => s.out.size ≤ maxOutput) (P := fun _ => True) (fun s hs => ?_)
    (fun s hs => ?_) _ (hempty.1.trans_le (Nat.zero_le maxOutput))
  · exact (framePass_grows hs).mono (fun t ht => ht.1) fun _ _ => trivial
  · exact framePass_agrees h (Nat.add_le_of_le_sub' hs (Nat.min_le_left _ _)) hbound

/-- A decoding that ends asks for no more than its output and the room of a pass,
besides what it reserves. -/
theorem frameDecompress_agrees_ok {out : Growable} (h : heap.Agrees heap' block vector)
    (hrun : frameDecompress Z heap src maxOutput = .ok out)
    (hreserve : frameReserve Z src maxOutput ≤ block) (hbound : growthMax (out.size + 65536) ≤ block) :
    frameDecompress Z heap' src maxOutput = .ok out := by
  simp only [frameDecompress_eq, bind_eq_ok] at hrun
  obtain ⟨ctx, hsetup, start, hstart, hrun⟩ := hrun
  have hempty := Growable.safe_reserve heap (frameReserve Z src maxOutput)
  rw [hstart] at hempty
  rw [frameDecompress_eq, hsetup, ok_bind, ← Growable.reserve_agrees h hreserve, hstart, ok_bind]
  refine (run_until (I := fun s => s.out.size ≤ maxOutput) (μ := fun s => s.out.size)
    (ν := Growable.size) (fun s hs => framePass_grows hs) (fun s p hs hp hsize _ => ?_)
    (hempty.1.trans_le (Nat.zero_le _)) hrun (Nat.le_refl _)).1
  rw [← hp]
  exact (framePass_agrees h (Nat.add_le_add hsize (Nat.min_le_right _ _)) hbound).symm

end

section
variable {heap heap' : Heap} {block vector bound : Nat} {out out' : Output} {pos : Nat} {b : Bytes}

theorem Output.write_grows (h : out.write heap pos b = .ok out') :
    out'.limit = out.limit ∧ out.bytes.size ≤ out'.bytes.size ∧ pos + b.length ≤ out'.bytes.size := by
  have hchecks := h
  simp only [Output.write, bind_eq_ok, require_eq_ok] at hchecks
  obtain ⟨-, hlimit, -, hpos, -⟩ := hchecks
  cases Output.write_cases heap out pos b (by omega) hpos with
  | inl hdone =>
    obtain ⟨out₁, hwrite, hsame, hcontents⟩ := hdone
    obtain rfl := Except.ok.inj (h.symm.trans hwrite)
    have hlen := congrArg List.length hcontents
    have hsize := out.bytes.contents_length
    simp only [Growable.contents_length, List.length_append, List.length_take, List.length_map,
      List.length_drop] at hlen
    exact ⟨hsame, by omega, by omega⟩
  | inr hfailed =>
    rw [h] at hfailed
    cases hfailed.1

theorem Output.write_agrees_ok (h : heap.Agrees heap' block vector) (hwrite : out.write heap pos b = .ok out')
    (hsize : out'.bytes.size ≤ bound) (hbound : growthMax bound ≤ block) :
    out.write heap' pos b = .ok out' := by
  rw [← hwrite]
  exact (Output.write_agrees h (fun _ _ _ => (Output.write_grows hwrite).2.2.trans hsize) hbound).symm

theorem writeWithin_grows {offset limit : Nat} (h : writeWithin heap offset limit out pos b = .ok (some out')) :
    out'.limit = out.limit ∧ out.bytes.size ≤ out'.bytes.size := by
  unfold writeWithin at h
  split at h
  · cases h
  · obtain ⟨out₁, hwrite, h⟩ := bind_eq_ok.mp h
    obtain rfl := Option.some.inj (Except.ok.inj h)
    obtain ⟨hlimit, hsize, -⟩ := Output.write_grows hwrite
    exact ⟨hlimit, hsize⟩

theorem writeWithin_agrees (h : heap.Agrees heap' block vector) {offset limit : Nat}
    (hbound : growthMax out.limit ≤ block) :
    writeWithin heap offset limit out pos b = writeWithin heap' offset limit out pos b := by
  have hfits : offset + pos ≤ out.limit → b.length ≤ out.limit - (offset + pos) →
      offset + pos ≤ out.bytes.size → offset + pos + b.length ≤ out.limit := by omega
  rw [writeWithin, Output.write_agrees h hfits hbound, writeWithin]

theorem writeWithin_agrees_ok (h : heap.Agrees heap' block vector) {offset limit : Nat} {r : Option Output}
    (hwrite : writeWithin heap offset limit out pos b = .ok r)
    (hsize : ∀ out', r = some out' → out'.bytes.size ≤ bound) (hbound : growthMax bound ≤ block) :
    writeWithin heap' offset limit out pos b = .ok r := by
  unfold writeWithin at hwrite ⊢
  split at hwrite
  · rename_i hpast
    rw [if_pos hpast]
    exact hwrite
  · rename_i hpast
    obtain ⟨out₁, hwrite₁, hr⟩ := bind_eq_ok.mp hwrite
    obtain rfl := Except.ok.inj hr
    rw [if_neg hpast, Output.write_agrees_ok h hwrite₁ (hsize out₁ rfl) hbound]
    rfl

end

section
variable {Z : Zstd} {ω : Type} {write write' : ω → Nat → Bytes → Cxx (Option ω)} {input : StreamInput}
variable {heap heap' : Heap} {block vector bound passes : Nat} {o : Options} {ν : ω → Nat}

theorem compressPass_ok {s : CompressState Z ω} {p : Pass (CompressState Z ω) (Nat × ω)}
    (h : compressPass Z write input s = .ok p) :
    ∃ r, write s.out s.written (s.reply input).produced = .ok r ∧
      p.value CompressState.out Prod.snd = r.getD s.out := by
  rw [compressPass_eq] at h
  obtain ⟨k, -, h⟩ := bind_eq_ok.mp h
  obtain ⟨r, hwrite, h⟩ := bind_eq_ok.mp h
  refine ⟨r, hwrite, ?_⟩
  cases r with
  | none =>
    obtain rfl := Except.ok.inj h
    rfl
  | some out =>
    dsimp only at h
    rw [CompressState.settle] at h
    by_cases hlast : s.read = input.size
    · simp only [if_pos hlast] at h
      split at h
      · obtain rfl := Except.ok.inj h
        rfl
      · obtain rfl := Except.ok.inj h
        rfl
    · simp only [if_neg hlast] at h
      split at h
      · obtain rfl := Except.ok.inj h
        rfl
      · obtain ⟨chunk, -, h⟩ := bind_eq_ok.mp h
        obtain rfl := Except.ok.inj h
        rfl

theorem compressPass_congr {s : CompressState Z ω} (h : write s.out s.written (s.reply input).produced =
    write' s.out s.written (s.reply input).produced) :
    compressPass Z write input s = compressPass Z write' input s := by
  rw [compressPass_eq, compressPass_eq, h]

def compressSetup (Z : Zstd) (input : StreamInput) (o : Options) (ctx : Z.CCtx) :
    Cxx (Z.CCtx × Bytes) := do
  let ctx ← (compressParameters o).foldlM (zset Z) ctx
  let ctx ← zcheck (Z.cctxSetPledgedSrcSize ctx input.size)
  let chunk ← nextChunk Z input 0
  return (ctx, chunk)

theorem compress_eq_setup (heap : Heap) (passes : Nat) (o : Options) (out : ω) :
    compress Z write input heap passes o out = (do
      let some ctx := Z.createCCtx | .error (.thrown .badAlloc)
      allocate heap Z.cStreamInSize
      allocate heap Z.cStreamOutSize
      let x ← compressSetup Z input o ctx
      run (compressPass Z write input) (.halt .running) passes ⟨x.1, x.2.length, x.2, 0, 0, out⟩) := by
  unfold compress compressSetup
  cases Z.createCCtx with
  | none => rfl
  | some ctx => simp only [bind_assoc, pure_ok, ok_bind]

theorem compressPass_keeps {P : ω → Prop} {s : CompressState Z ω} (hs : P s.out)
    (hkeep : ∀ {pos b out'}, write s.out pos b = .ok (some out') → P out') :
    Pass.Ends (fun t => P t.out) (fun r => ∀ y, r = .ok y → P y.2) (compressPass Z write input s) := by
  have hvalue : ∀ p, compressPass Z write input s = .ok p → P (p.value CompressState.out Prod.snd) := by
    intro p hp
    obtain ⟨r, hwrite, hp⟩ := compressPass_ok hp
    rw [hp]
    cases r with
    | none => exact hs
    | some out' => exact hkeep hwrite
  exact Pass.Ends.of_ok (fun t ht => hvalue _ ht) fun y hy => hvalue _ hy

theorem compress_agrees (h : heap.Agrees heap' block vector) {P : ω → Prop}
    (hkeep : ∀ {out pos b out'}, P out → write out pos b = .ok (some out') → P out')
    (hsame : ∀ {out} pos b, P out → write out pos b = write' out pos b)
    (hin : Z.cStreamInSize ≤ vector) (hout : Z.cStreamOutSize ≤ vector) {out : ω} (hP : P out) :
    compress Z write input heap passes o out = compress Z write' input heap' passes o out := by
  rw [compress_eq_setup, compress_eq_setup]
  cases Z.createCCtx with
  | none => rfl
  | some ctx =>
    dsimp only
    rw [allocate_agrees h hin, allocate_agrees h hout]
    refine bind_congr_ok fun _ _ => bind_congr_ok fun _ _ => bind_congr_ok fun x _ => ?_
    exact run_congr (fun s hs => compressPass_keeps hs (hkeep hs))
      (fun s hs => compressPass_congr (hsame _ _ hs)) passes hP

theorem compress_agrees_ok (h : heap.Agrees heap' block vector) {ν : ω → Nat}
    (hgrows : ∀ {out pos b out'}, write out pos b = .ok (some out') → ν out ≤ ν out')
    (hsame : ∀ {out pos b r}, write out pos b = .ok r → (∀ out', r = some out' → ν out' ≤ bound) →
      write' out pos b = .ok r) (hin : Z.cStreamInSize ≤ vector) (hout : Z.cStreamOutSize ≤ vector)
    {out : ω} {y : Nat × ω} (hrun : compress Z write input heap passes o out = .ok y)
    (hy : ν y.2 ≤ bound) :
    compress Z write' input heap' passes o out = .ok y ∧ ν out ≤ ν y.2 := by
  rw [compress_eq_setup] at hrun ⊢
  cases hctx : Z.createCCtx with
  | none =>
    rw [hctx] at hrun
    cases hrun
  | some ctx =>
    simp only [hctx, bind_eq_ok] at hrun ⊢
    obtain ⟨_, hallocated, _, hallocated', x, hsetup, hrun⟩ := hrun
    rw [allocate_agrees h hin] at hallocated
    rw [allocate_agrees h hout] at hallocated'
    have hbody : ∀ s p, True → compressPass Z write input s = .ok p → ν s.out ≤ bound →
        p.value (fun s => ν s.out) (fun y => ν y.2) ≤ bound →
        compressPass Z write' input s = .ok p := by
      intro s p _ hp _ hsize
      obtain ⟨r, hwrite, hvalue⟩ := compressPass_ok hp
      have hleft : ν (r.getD s.out) ≤ bound := by
        rw [← hvalue]
        cases p with
        | next t => exact hsize
        | stop y => exact hsize
      rw [← hp]
      refine (compressPass_congr (hwrite.trans (hsame hwrite fun out' hr => ?_).symm)).symm
      rwa [hr] at hleft
    have hpass : ∀ s : CompressState Z ω, True → Pass.Ends (fun t => True ∧ ν s.out ≤ ν t.out)
        (fun r => ∀ y : Nat × ω, r = .ok y → ν s.out ≤ ν y.2) (compressPass Z write input s) :=
      fun s _ => (compressPass_keeps (P := fun out => ν s.out ≤ ν out) (Nat.le_refl _) hgrows).mono
        (fun t ht => ⟨trivial, ht⟩) fun r hr => hr
    obtain ⟨hrun', hle⟩ := run_until hpass hbody trivial hrun hy
    exact ⟨⟨_, hallocated, _, hallocated', x, hsetup, hrun'⟩, hle⟩

end

section
variable {Z : Zstd} {H : HDiffPatch} {heap heap' : Heap} {block vector bound passes : Nat}
variable {o : Options} {new old : StreamInput} {base target : Bytes}

theorem Diffing.run_agrees (h : heap.Agrees heap' block vector) (hin : Z.cStreamInSize ≤ vector)
    (hout : Z.cStreamOutSize ≤ vector) (c : Diffing) {out : Output}
    (hbound : growthMax out.limit ≤ block) :
    c.run Z heap passes o new old out = c.run Z heap' passes o new old out := by
  induction c generalizing out with
  | finish => rfl
  | throws t => rfl
  | readNew pos n k ih => exact bind_congr_ok fun r _ => ih r hbound
  | readOld pos n k ih => exact bind_congr_ok fun r _ => ih r hbound
  | write pos b k ih =>
    have hfits : pos ≤ out.limit → b.length ≤ out.limit - pos → pos ≤ out.bytes.size →
        pos + b.length ≤ out.limit := by omega
    have hsame : out.write heap pos b = out.write heap' pos b := Output.write_agrees h hfits hbound
    unfold run
    rw [← hsame]
    refine bind_congr_ok fun out' hwrite => ih ?_
    rwa [(Output.write_grows hwrite).1]
  | compress input offset limit k ih =>
    have hsame : Native.compress Z (writeWithin heap offset limit) input heap passes o out =
        Native.compress Z (writeWithin heap' offset limit) input heap' passes o out := by
      refine compress_agrees h (P := fun out' => out'.limit = out.limit)
        (fun hP hwrite => (writeWithin_grows hwrite).1.trans hP)
        (fun pos b hP => writeWithin_agrees h ?_) hin hout rfl
      rwa [hP]
    unfold run
    rw [← hsame]
    refine bind_congr_ok fun y hy => ih y.1 ?_
    have hlimit := compress_preserves (P := fun out' : Output => out'.limit = out.limit)
      (fun hP hwrite => (writeWithin_grows hwrite).1.trans hP) rfl hy
    rwa [hlimit]

theorem Diffing.run_agrees_ok (h : heap.Agrees heap' block vector) (hin : Z.cStreamInSize ≤ vector)
    (hout : Z.cStreamOutSize ≤ vector) (hbound : growthMax bound ≤ block) (c : Diffing)
    {out out' : Output} (hrun : c.run Z heap passes o new old out = .ok out')
    (hsize : out'.bytes.size ≤ bound) :
    c.run Z heap' passes o new old out = .ok out' ∧ out.bytes.size ≤ out'.bytes.size := by
  induction c generalizing out with
  | finish =>
    obtain rfl := Except.ok.inj hrun
    exact ⟨rfl, Nat.le_refl _⟩
  | throws t => cases hrun
  | readNew pos n k ih =>
    obtain ⟨r, hread, hrun⟩ := bind_eq_ok.mp hrun
    obtain ⟨hrun', hle⟩ := ih r hrun
    exact ⟨bind_eq_ok.mpr ⟨r, hread, hrun'⟩, hle⟩
  | readOld pos n k ih =>
    obtain ⟨r, hread, hrun⟩ := bind_eq_ok.mp hrun
    obtain ⟨hrun', hle⟩ := ih r hrun
    exact ⟨bind_eq_ok.mpr ⟨r, hread, hrun'⟩, hle⟩
  | write pos b k ih =>
    obtain ⟨out₁, hwrite, hrun⟩ := bind_eq_ok.mp hrun
    obtain ⟨hrun', hle⟩ := ih hrun
    have hgrows := (Output.write_grows hwrite).2.1
    exact ⟨bind_eq_ok.mpr ⟨out₁, Output.write_agrees_ok h hwrite (hle.trans hsize) hbound, hrun'⟩,
      hgrows.trans hle⟩
  | compress input offset limit k ih =>
    obtain ⟨y, hcompress, hrun⟩ := bind_eq_ok.mp hrun
    obtain ⟨hrun', hle⟩ := ih y.1 hrun
    obtain ⟨hcompress', hgrows⟩ := compress_agrees_ok h (ν := fun out : Output => out.bytes.size)
      (fun hwrite => (writeWithin_grows hwrite).2)
      (fun hwrite hsize => writeWithin_agrees_ok h hwrite hsize hbound) hin hout hcompress
      (hle.trans hsize)
    exact ⟨bind_eq_ok.mpr ⟨y, hcompress', hrun'⟩, hgrows.trans hle⟩

theorem hdiffEncode_agrees (h : heap.Agrees heap' block vector) (hin : Z.cStreamInSize ≤ vector)
    (hout : Z.cStreamOutSize ≤ vector) (hbound : growthMax payloadMax ≤ block) :
    hdiffEncode Z H heap passes base target o = hdiffEncode Z H heap' passes base target o := by
  unfold hdiffEncode
  refine bind_congr_ok fun _ _ => ?_
  dsimp only
  rw [Diffing.run_agrees h hin hout _ hbound]

theorem hdiffEncode_agrees_ok {out : Growable} (h : heap.Agrees heap' block vector)
    (hin : Z.cStreamInSize ≤ vector) (hout : Z.cStreamOutSize ≤ vector)
    (hrun : hdiffEncode Z H heap passes base target o = .ok out)
    (hbound : growthMax out.size ≤ block) :
    hdiffEncode Z H heap' passes base target o = .ok out := by
  simp only [hdiffEncode, bind_eq_ok] at hrun ⊢
  obtain ⟨_, hlimits, out', hrun, hout'⟩ := hrun
  obtain rfl := Except.ok.inj hout'
  exact ⟨_, hlimits, out', (Diffing.run_agrees_ok h hin hout hbound _ hrun (Nat.le_refl _)).1, rfl⟩

theorem hdiffApply_agrees (h : heap.Agrees heap' block vector)
    (hcache : stepMax + H.kStreamCacheSize * 3 ≤ vector) (dst : OutObject) :
    hdiffApply Z H heap base target dst = hdiffApply Z H heap' base target dst := by
  unfold hdiffApply
  refine bind_congr_ok fun _ _ => ?_
  cases H.getSingleCompressedDiffInfo target with
  | none => rfl
  | some info =>
    refine bind_congr_ok fun _ _ => bind_congr_ok fun _ hstep => ?_
    have hstep := (require_eq_ok.mp hstep).1
    rw [allocate_agrees h (by omega)]

end
end Pyhdiff.Native
