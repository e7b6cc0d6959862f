import Pyhdiff.Native.Memory
import Pyhdiff.Native.Zstd
import Pyhdiff.Streaming.Loop

/-! `frame_decompress`: decoding concatenated frames under an output bound. -/
namespace Pyhdiff.Native
open Streaming

structure FrameState (Z : Zstd) where
  ctx : Z.DCtx
  pos : Nat
  out : Growable

/-- One pass of the decode loop. With the output at the bound the decoder is
offered one scratch byte, and any use of it exceeds the bound. -/
def framePass (Z : Zstd) (heap : Heap) (G : Growth) (src : Bytes) (maxOutput : Nat)
    (s : FrameState Z) : Cxx (Pass (FrameState Z) Growable) := do
  if s.out.size = maxOutput then
    let r := Z.decompressStream s.ctx (src.drop s.pos) 1
    let k ← zcheck r.result
    require (r.produced.length = 0) .limit
    if k = 0 ∧ s.pos + r.consumed = src.length then return .stop s.out
    require (r.consumed ≠ 0) .invalid
    return .next ⟨r.ctx, s.pos + r.consumed, s.out⟩
  let roomy ← s.out.spare heap G (min (maxOutput - s.out.size) 65536)
  let block := roomy.block
  let dst ← subspan block.cells block.size (block.capacity - block.size)
  let dst ← subspan dst 0 (min dst.length (maxOutput - s.out.size))
  let r := Z.decompressStream s.ctx (src.drop s.pos) dst.length
  let k ← zcheck r.result
  let out ← (block.fill r.produced).resize heap G (block.size + r.produced.length)
  if k = 0 ∧ s.pos + r.consumed = src.length then return .stop out
  require (r.consumed ≠ 0 ∨ r.produced.length ≠ 0) .invalid
  return .next ⟨r.ctx, s.pos + r.consumed, out⟩

/-- Windows beyond what the output bound needs are refused, except for the
8 MiB windows that ordinary streaming compressors choose. -/
def frameWindowLog (maxOutput : Nat) : Nat :=
  max (repeatWhile (fun w => decide (w < zstdWindowLogMax ∧ 2 ^ w < maxOutput)) (· + 1) 20 10) 23

def frameDecompressWith (Z : Zstd) (heap : Heap) (G : Growth) (src : Bytes) (maxOutput : Nat) :
    Cxx Growable := do
  require (src.length ≤ frameMax ∧ maxOutput ≤ frameMax) .limit
  require (src ≠ []) .invalid
  let some ctx := Z.createDCtx | .error (.thrown .badAlloc)
  let ctx ← zcheck (Z.dctxSetWindowLogMax ctx (frameWindowLog maxOutput))
  let claimed := Z.getFrameContentSize src
  let out ← Growable.reserve heap (if claimed ≤ maxOutput then claimed else min maxOutput 65536)
  run (framePass Z heap G src maxOutput) (.halt .running) (src.length + maxOutput + 1) ⟨ctx, 0, out⟩

def frameDecompress (Z : Zstd) (heap : Heap) : Bytes → Nat → Cxx Growable :=
  frameDecompressWith Z heap .source

section
variable {Z : Zstd} {heap : Heap} {G : Growth} {src : Bytes} {maxOutput : Nat} {s : FrameState Z}

def FrameState.settle (s : FrameState Z) (src : Bytes) (k : Nat) (r : Reply Z.DCtx UInt8)
    (out : Growable) : Cxx (Pass (FrameState Z) Growable) :=
  if k = 0 ∧ s.pos + r.consumed = src.length then .ok (.stop out)
  else if r.consumed ≠ 0 ∨ r.produced ≠ [] then .ok (.next ⟨r.ctx, s.pos + r.consumed, out⟩)
  else fail .invalid

theorem framePass_full (heap : Heap) (G : Growth) (src : Bytes) (hs : s.out.size = maxOutput) :
    let r := Z.decompressStream s.ctx (src.drop s.pos) 1
    framePass Z heap G src maxOutput s = (zcheck r.result >>= fun k =>
      if r.produced = [] then s.settle src k r s.out else fail .limit) := by
  intro r
  have hpass : framePass Z heap G src maxOutput s = (do
      let k ← zcheck r.result
      require (r.produced.length = 0) .limit
      if k = 0 ∧ s.pos + r.consumed = src.length then return .stop s.out
      require (r.consumed ≠ 0) .invalid
      return .next ⟨r.ctx, s.pos + r.consumed, s.out⟩) := if_pos hs
  rw [hpass]
  congr 1
  funext k
  simp only [require_bind, List.length_eq_zero_iff]
  split
  · rename_i hnone
    simp [FrameState.settle, hnone]
  · rfl

/-- Below the bound a pass asks the heap for its spare room and for nothing
else: what the decoder stored there is taken over in place. -/
theorem framePass_roomy {G : Growth} (src : Bytes) (hs : s.out.size < maxOutput)
    (roomy : s.out.Roomy (min (maxOutput - s.out.size) 65536)) :
    let room := min (roomy.block.capacity - s.out.size) (maxOutput - s.out.size)
    let r := Z.decompressStream s.ctx (src.drop s.pos) room
    ∃ out : Growable, out.size = s.out.size + r.produced.length ∧
      out.contents = s.out.contents ++ r.produced.map some ∧ out.capacity = roomy.block.capacity ∧
      ∀ heap, s.out.spare heap G (min (maxOutput - s.out.size) 65536) = .ok roomy →
        framePass Z heap G src maxOutput s = (zcheck r.result >>= fun k => s.settle src k r out) := by
  intro room r
  obtain ⟨block, hsize, hcontents, hroom⟩ := roomy
  have hlen : ((block.cells.drop block.size).take (block.capacity - block.size)).length =
      block.capacity - s.out.size := by
    simp only [List.length_take, List.length_drop, hsize, Growable.capacity, Nat.min_self]
  have hfirst : ∀ cells : Cells, cells.length = block.capacity - s.out.size →
      ((cells.drop 0).take (min cells.length (maxOutput - s.out.size))).length = room := by
    intro cells hcells
    simp only [List.drop_zero, List.length_take, hcells, room]
    omega
  have hw : r.produced.length ≤ min (block.capacity - s.out.size) (maxOutput - s.out.size) :=
    (Z.decompressStream_within _ _ _).2
  have hle : block.size ≤ block.capacity := block.size_le
  obtain ⟨out, hresize, hosize, hocontents, hocapacity⟩ :=
    Growable.fill_resize (g := block) (b := r.produced) (by omega)
  refine ⟨out, by omega, by rw [hocontents, hcontents], hocapacity, fun heap hspare => ?_⟩
  have hpass : framePass Z heap G src maxOutput s = (do
      let roomy ← s.out.spare heap G (min (maxOutput - s.out.size) 65536)
      let block := roomy.block
      let dst ← subspan block.cells block.size (block.capacity - block.size)
      let dst ← subspan dst 0 (min dst.length (maxOutput - s.out.size))
      let r := Z.decompressStream s.ctx (src.drop s.pos) dst.length
      let k ← zcheck r.result
      let out ← (block.fill r.produced).resize heap G (block.size + r.produced.length)
      if k = 0 ∧ s.pos + r.consumed = src.length then return .stop out
      require (r.consumed ≠ 0 ∨ r.produced.length ≠ 0) .invalid
      return .next ⟨r.ctx, s.pos + r.consumed, out⟩) := if_neg (Nat.ne_of_lt hs)
  rw [hpass, hspare]
  simp only [ok_bind]
  rw [subspan_ok (n := block.capacity - block.size) block.size_le (Nat.le_refl _)]
  simp only [ok_bind]
  rw [subspan_ok (Nat.zero_le _) (by omega)]
  simp only [ok_bind]
  rw [hfirst _ hlen, hresize]
  simp [FrameState.settle, r]

theorem framePass_below (heap : Heap) (G : Growth) (src : Bytes) (hs : s.out.size < maxOutput) :
    (framePass Z heap G src maxOutput s = .error (.thrown .badAlloc) ∧ ¬ heap.Grants) ∨
    ∃ room, 0 < room ∧ s.out.size + room ≤ maxOutput ∧
      let r := Z.decompressStream s.ctx (src.drop s.pos) room
      ∃ out : Growable, out.size = s.out.size + r.produced.length ∧
        out.contents = s.out.contents ++ r.produced.map some ∧
        framePass Z heap G src maxOutput s =
          (zcheck r.result >>= fun k => s.settle src k r out) := by
  rcases s.out.spare_cases heap G (min (maxOutput - s.out.size) 65536) with ⟨roomy, h⟩ | ⟨h, hno⟩
  · obtain ⟨out, hsize, hcontents, -, hpass⟩ := framePass_roomy (Z := Z) (G := G) src hs roomy
    have hroom := roomy.room
    exact .inr ⟨_, by omega, by omega, out, hsize, hcontents, hpass heap h⟩
  · refine .inl ⟨?_, hno⟩
    unfold framePass
    rw [if_neg (Nat.ne_of_lt hs), h, error_bind]

theorem framePass_asks {heap heap' : Heap} {G : Growth} (src : Bytes)
    (h : s.out.spare heap' G (min (maxOutput - s.out.size) 65536) =
      s.out.spare heap G (min (maxOutput - s.out.size) 65536)) (hs : s.out.size ≤ maxOutput) :
    framePass Z heap' G src maxOutput s = framePass Z heap G src maxOutput s := by
  by_cases hfull : s.out.size = maxOutput
  · rw [framePass_full heap' G src hfull, framePass_full heap G src hfull]
  have hlt : s.out.size < maxOutput := Nat.lt_of_le_of_ne hs hfull
  cases hroomy : s.out.spare heap G (min (maxOutput - s.out.size) 65536) with
  | error e =>
    rw [hroomy] at h
    unfold framePass
    rw [if_neg hfull, if_neg hfull, h, hroomy]
    rfl
  | ok roomy =>
    rw [hroomy] at h
    obtain ⟨out, -, -, -, hpass⟩ := framePass_roomy (Z := Z) (G := G) src hlt roomy
    rw [hpass heap' h, hpass heap hroomy]

theorem framePass_capacity {heap : Heap} {G : Growth} (src : Bytes) (hs : s.out.size ≤ maxOutput)
    {roomy : s.out.Roomy (min (maxOutput - s.out.size) 65536)}
    (h : s.out.spare heap G (min (maxOutput - s.out.size) 65536) = .ok roomy) :
    Pass.Ends (fun t => t.out.capacity = roomy.block.capacity)
      (fun x => ∀ out, x = .ok out → out.capacity = roomy.block.capacity)
      (framePass Z heap G src maxOutput s) := by
  have hsettle : ∀ k (r : Reply Z.DCtx UInt8) (out : Growable), out.capacity = roomy.block.capacity →
      Pass.Ends (fun t : FrameState Z => t.out.capacity = roomy.block.capacity)
        (fun x => ∀ out, x = .ok out → out.capacity = roomy.block.capacity) (s.settle src k r out) := by
    intro k r out hout
    unfold FrameState.settle
    split
    · rintro _ ⟨⟩
      exact hout
    · split
      · exact hout
      · nofun
  by_cases hfull : s.out.size = maxOutput
  · have hkept : roomy.block = s.out := by
      unfold Growable.spare at h
      rw [dif_neg (by omega)] at h
      rw [← Except.ok.inj h]
    rw [framePass_full heap G src hfull]
    cases (Z.decompressStream s.ctx (src.drop s.pos) 1).result with
    | error e => nofun
    | ok k =>
      rw [zcheck_ok, ok_bind]
      split
      · exact hsettle k _ _ (by rw [hkept])
      · nofun
  · obtain ⟨out, -, -, hcapacity, hpass⟩ :=
      framePass_roomy (Z := Z) (G := G) src (Nat.lt_of_le_of_ne hs hfull) roomy
    rw [hpass heap h]
    generalize Z.decompressStream s.ctx (src.drop s.pos) _ = r at *
    cases r.result with
    | error e => nofun
    | ok k => exact hsettle k _ _ hcapacity

theorem framePass_cases (heap : Heap) (G : Growth) (src : Bytes) (hs : s.out.size ≤ maxOutput) :
    (framePass Z heap G src maxOutput s = .error (.thrown .badAlloc) ∧ ¬ heap.Grants) ∨
    ∃ room, 0 < room ∧ room ≤ max 1 maxOutput ∧
      let r := Z.decompressStream s.ctx (src.drop s.pos) room
      (∃ e, r.result = .error e ∧ framePass Z heap G src maxOutput s = zcheck (.error e)) ∨
      (∃ k, r.result = .ok k ∧ s.out.size = maxOutput ∧ r.produced ≠ [] ∧
        framePass Z heap G src maxOutput s = fail .limit) ∨
      (∃ k out, r.result = .ok k ∧ out.size ≤ maxOutput ∧
        out.size = s.out.size + r.produced.length ∧
        out.contents = s.out.contents ++ r.produced.map some ∧
        framePass Z heap G src maxOutput s = s.settle src k r out) := by
  by_cases hfull : s.out.size = maxOutput
  · refine .inr ⟨1, Nat.one_pos, Nat.le_max_left _ _, ?_⟩
    intro r
    have hpass : framePass Z heap G src maxOutput s = (zcheck r.result >>= fun k =>
      if r.produced = [] then s.settle src k r s.out else fail .limit) := framePass_full heap G src hfull
    cases hres : r.result with
    | error e => exact .inl ⟨e, rfl, by rw [hpass, hres]; rfl⟩
    | ok k =>
      rw [hres, zcheck_ok, ok_bind] at hpass
      by_cases hnone : r.produced = []
      · rw [if_pos hnone] at hpass
        exact .inr (.inr ⟨k, s.out, rfl, hs, by simp [hnone], by simp [hnone], hpass⟩)
      · rw [if_neg hnone] at hpass
        exact .inr (.inl ⟨k, rfl, hfull, hnone, hpass⟩)
  · rcases framePass_below (Z := Z) heap G src (Nat.lt_of_le_of_ne hs hfull) with
      h | ⟨room, hroom, hle, out, hsize, hcontents, hpass⟩
    · exact .inl h
    · refine .inr ⟨room, hroom, by omega, ?_⟩
      have hw := (Z.decompressStream_within s.ctx (src.drop s.pos) room).2
      intro r
      cases hres : r.result with
      | error e => exact .inl ⟨e, rfl, by rw [hpass, hres]; rfl⟩
      | ok k =>
        rw [hres, zcheck_ok, ok_bind] at hpass
        exact .inr (.inr ⟨k, out, rfl, by omega, hsize, hcontents, hpass⟩)

end

section
variable {Z : Zstd} {heap : Heap} {G : Growth} {src : Bytes} {maxOutput : Nat}

/-- What the loop keeps true of any decoder: the bound holds, and the output is
what the decoder gave out for the source it was shown. -/
structure FrameState.Sound (src : Bytes) (maxOutput : Nat) (ctx : Z.DCtx) (s : FrameState Z) : Prop where
  pos : s.pos ≤ src.length
  bound : s.out.size ≤ maxOutput
  drawn : ∃ o, Draws Z.decompressStream src ctx s.ctx s.pos o ∧ s.out.contents = o.map some

def FrameState.ahead (src : Bytes) (maxOutput : Nat) (s : FrameState Z) : Nat :=
  (src.length - s.pos) + (maxOutput - s.out.size)

def FrameState.Drained (src : Bytes) (maxOutput : Nat) (ctx : Z.DCtx) (out : Growable) : Prop :=
  out.size ≤ maxOutput ∧ ∃ ctx' o, Draws Z.decompressStream src ctx ctx' src.length o ∧
    out.contents = o.map some

theorem FrameState.Sound.settle {s : FrameState Z} {ctx : Z.DCtx} (hs : s.Sound src maxOutput ctx)
    {k room : Nat} {r : Reply Z.DCtx UInt8} (hr : r = Z.decompressStream s.ctx (src.drop s.pos) room)
    (hres : r.result = .ok k) {out : Growable} (hle : out.size ≤ maxOutput)
    (hsize : out.size = s.out.size + r.produced.length)
    (hcontents : out.contents = s.out.contents ++ r.produced.map some) :
    Pass.Ends (fun t => t.Sound src maxOutput ctx ∧ t.ahead src maxOutput < s.ahead src maxOutput)
      (Safe (Drained src maxOutput ctx)) (s.settle src k r out) := by
  obtain ⟨hpos, -, o, hdraws, ho⟩ := hs
  subst hr
  have hw := (Z.decompressStream_within s.ctx (src.drop s.pos) room).1
  have hdraws' := hdraws.call (List.prefix_refl _) hres
  rw [ho, ← List.map_append] at hcontents
  generalize Z.decompressStream s.ctx (src.drop s.pos) room = r at *
  rw [List.length_drop] at hw
  unfold FrameState.settle
  split
  · rename_i hend
    rw [hend.2] at hdraws'
    exact ⟨hle, _, _, hdraws', hcontents⟩
  · split
    · rename_i hmove
      refine ⟨⟨by simp only; omega, hle, _, hdraws', hcontents⟩, ?_⟩
      simp only [ahead]
      cases hmove with
      | inl h => omega
      | inr h =>
        have := List.length_pos_iff.mpr h
        omega
    · trivial

theorem framePass_safe (heap : Heap) (G : Growth) {ctx : Z.DCtx} {s : FrameState Z}
    (hs : s.Sound src maxOutput ctx) :
    Pass.Ends (fun t => t.Sound src maxOutput ctx ∧ t.ahead src maxOutput < s.ahead src maxOutput)
      (Safe (FrameState.Drained src maxOutput ctx)) (framePass Z heap G src maxOutput s) := by
  rcases framePass_cases heap G src hs.bound with ⟨h, -⟩ | ⟨room, -, -, ⟨e, -, h⟩ |
    ⟨k, -, -, -, h⟩ | ⟨k, out, hres, hle, hsize, hcontents, h⟩⟩
  · rw [h]
    trivial
  · rw [h]
    trivial
  · rw [h]
    trivial
  · rw [h]
    exact hs.settle rfl hres hle hsize hcontents

/-- Whatever the decoder does, the loop ends within one pass for each byte of
source and bound, with no span out of range. -/
theorem frameLoop_safe (heap : Heap) (G : Growth) {ctx : Z.DCtx} {s : FrameState Z}
    (hs : s.Sound src maxOutput ctx) {n : Nat} (hn : s.ahead src maxOutput < n) :
    Safe (FrameState.Drained src maxOutput ctx)
      (run (framePass Z heap G src maxOutput) (.halt .running) n s) :=
  run_ends _ _ (FrameState.Sound src maxOutput ctx) (FrameState.ahead src maxOutput) _
    (fun _ => framePass_safe heap G) n s hs hn

theorem FrameState.sound_start (src : Bytes) (maxOutput : Nat) (ctx : Z.DCtx) {out : Growable}
    (hsize : out.size = 0) : FrameState.Sound src maxOutput ctx ⟨ctx, 0, out⟩ :=
  ⟨Nat.zero_le _, by simp [hsize], [], .start, by
    apply List.eq_nil_of_length_eq_zero
    rw [Growable.contents_length, hsize]⟩

theorem frameDecompressWith_safe (Z : Zstd) (heap : Heap) (G : Growth) (src : Bytes)
    (maxOutput : Nat) :
    Safe (fun out => ∃ ctx, FrameState.Drained (Z := Z) src maxOutput ctx out)
      (frameDecompressWith Z heap G src maxOutput) := by
  unfold frameDecompressWith
  refine (safe_require _ _).bind fun _ _ => (safe_require _ _).bind fun _ _ => ?_
  cases Z.createDCtx with
  | none => trivial
  | some ctx =>
    refine (safe_zcheck _).bind fun ctx _ => ?_
    refine (Growable.safe_reserve heap _).bind fun out hout => ?_
    refine (frameLoop_safe heap G (FrameState.sound_start src maxOutput ctx hout.1) ?_).mono
      fun out hout => ⟨ctx, hout⟩
    simp [FrameState.ahead, hout.1]

end

theorem le_frameWindowLog (maxOutput : Nat) : 23 ≤ frameWindowLog maxOutput := Nat.le_max_right _ _

theorem frameWindowLog_spec (maxOutput : Nat) :
    frameWindowLog maxOutput ≤ zstdWindowLogMax ∧
    (maxOutput ≤ frameMax → maxOutput ≤ 2 ^ frameWindowLog maxOutput) := by
  obtain ⟨⟨-, hle⟩, hstop⟩ := repeatWhile_ends
    (fun w => decide (w < zstdWindowLogMax ∧ 2 ^ w < maxOutput)) (· + 1)
    (fun w => 10 ≤ w ∧ w ≤ zstdWindowLogMax) (fun w => zstdWindowLogMax - w)
    (by
      intro w hw hc
      have hlt : w < zstdWindowLogMax := (of_decide_eq_true hc).1
      exact ⟨⟨by omega, by omega⟩, by omega⟩)
    20 10 (by decide) (by decide)
  unfold frameWindowLog
  generalize repeatWhile _ _ 20 10 = w at hle hstop
  refine ⟨Nat.max_le.mpr ⟨hle, by decide⟩, fun hmax => ?_⟩
  have hcover : maxOutput ≤ 2 ^ w := by
    by_contra hn
    have hw : ¬ w < zstdWindowLogMax := fun hlt =>
      Bool.eq_false_iff.mp hstop (decide_eq_true ⟨hlt, by omega⟩)
    obtain rfl : w = zstdWindowLogMax := by omega
    exact hn hmax
  exact hcover.trans (Nat.pow_le_pow_right (by decide) (Nat.le_max_left w 23))

theorem frameDecompressWith_ok {Z : Zstd} {heap : Heap} {G : Growth} {src : Bytes}
    {maxOutput : Nat} {out : Growable} (h : frameDecompressWith Z heap G src maxOutput = .ok out) :
    src ≠ [] ∧ ∃ ctx ctx₁ start, Z.createDCtx = some ctx ∧
      Z.dctxSetWindowLogMax ctx (frameWindowLog maxOutput) = .ok ctx₁ ∧
      (∃ n, Growable.reserve heap n = .ok start) ∧
      run (framePass Z heap G src maxOutput) (.halt .running) (src.length + maxOutput + 1)
        ⟨ctx₁, 0, start⟩ = .ok out := by
  unfold frameDecompressWith at h
  simp only [bind_eq_ok, require_eq_ok] at h
  obtain ⟨-, -, -, hne, h⟩ := h
  refine ⟨hne, ?_⟩
  cases hctx : Z.createDCtx with
  | none => simp [hctx] at h
  | some ctx =>
    simp only [hctx, bind_eq_ok, zcheck_eq_ok] at h
    obtain ⟨ctx₁, hset, start, hstart, hrun⟩ := h
    exact ⟨ctx, ctx₁, start, rfl, hset, ⟨_, hstart⟩, hrun⟩

section
variable {Z : Zstd} {F : Format UInt8} {heap : Heap} {G : Growth} {src : Bytes} {maxOutput : Nat}

/-- Frames with `P` have been decoded, and of the next one `c` has been read and
`o` given out. -/
def FrameState.Between (L : LawfulDecoder F Z.decompressStream) (P : Frame UInt8 → Prop) (w : Nat)
    (src : Bytes) (s : FrameState Z) : Prop :=
  ∃ a fs c o, src.take s.pos = a ++ c ∧ F.Spells a fs ∧ (∀ f ∈ fs, P f) ∧
    L.At s.ctx ⟨[], w⟩ c o ∧ s.out.contents = (contents fs ++ o).map some

/-- The output is the content of the frames the source spells, all of them with `P`. -/
def Decodes (F : Format UInt8) (P : Frame UInt8 → Prop) (src : Bytes) (out : Growable) : Prop :=
  ∃ fs, fs ≠ [] ∧ F.Spells src fs ∧ (∀ f ∈ fs, P f) ∧ out.contents = (contents fs).map some

theorem framePass_between {L : LawfulDecoder F Z.decompressStream} {P : Frame UInt8 → Prop}
    {w : Nat} (hP : L.EndsOnly ⟨[], w⟩ P) {s : FrameState Z} (hs : s.out.size ≤ maxOutput)
    (hbetween : s.Between L P w src) :
    Pass.Ends (FrameState.Between L P w src)
      (fun x => ∀ out, x = .ok out → Decodes F P src out)
      (framePass Z heap G src maxOutput s) := by
  obtain ⟨a, fs, c, o, htake, ha, hall, hat, ho⟩ := hbetween
  rcases framePass_cases (Z := Z) heap G src hs with ⟨h, -⟩ | ⟨room, -, -, ⟨e, -, h⟩ |
    ⟨k, -, -, -, h⟩ | ⟨k, out, hres, -, -, hcontents, h⟩⟩
  · simp [h, Pass.Ends]
  · simp [h, zcheck_error, fail, Pass.Ends]
  · simp [h, fail, Pass.Ends]
  rw [h]
  generalize hr : Z.decompressStream s.ctx (src.drop s.pos) room = r at *
  have hread : src.take (s.pos + r.consumed) = a ++ (c ++ (src.drop s.pos).take r.consumed) := by
    rw [List.take_add, htake, List.append_assoc]
  rw [ho, ← List.map_append, List.append_assoc] at hcontents
  unfold FrameState.settle
  cases k with
  | zero =>
    obtain ⟨⟨f, hf, hfc⟩, hnext⟩ := L.ended hat (hr ▸ hres)
    have hp := hP hat (hr ▸ hres) hf
    rw [hr] at hf hfc hnext
    have hspells := ha.snoc hf
    have hall' : ∀ g ∈ fs ++ [f], P g := by
      simpa [or_imp, forall_and] using ⟨hall, hp⟩
    rw [← hread] at hspells
    have hjoin : contents fs ++ (o ++ r.produced) = contents (fs ++ [f]) := by
      rw [contents_append, contents_cons, contents_nil, List.append_nil, hfc]
    rw [hjoin] at hcontents
    split
    · rename_i hend
      rintro out' ⟨⟩
      rw [hend.2, List.take_length] at hspells
      exact ⟨fs ++ [f], by simp, hspells, hall', hcontents⟩
    · split
      · exact ⟨_, fs ++ [f], [], [], (List.append_nil _).symm, hspells, hall', hnext,
          by simpa using hcontents⟩
      · simp [fail, Pass.Ends]
  | succ k =>
    rw [if_neg (by simp)]
    split
    · have hcont := L.continued hat (hr ▸ hres)
      rw [hr] at hcont
      exact ⟨a, fs, _, _, hread, ha, hall, hcont, hcontents⟩
    · simp [fail, Pass.Ends]

/-- Soundness of the loop: it ends only where the source ends, at the end of a frame. -/
theorem frameLoop_sound {L : LawfulDecoder F Z.decompressStream} {P : Frame UInt8 → Prop}
    {w : Nat} (hP : L.EndsOnly ⟨[], w⟩ P) {ctx : Z.DCtx} (hat : L.At ctx ⟨[], w⟩ [] [])
    {start : Growable} (hsize : start.size = 0)
    (hstart : start.contents = []) {n : Nat} {out : Growable}
    (hrun : run (framePass Z heap G src maxOutput) (.halt .running) n ⟨ctx, 0, start⟩ = .ok out) :
    Decodes F P src out := by
  refine run_partial (framePass Z heap G src maxOutput) (.halt .running)
    (fun s => s.Sound src maxOutput ctx ∧ s.Between L P w src)
    (fun x => ∀ out, x = .ok out → Decodes F P src out)
    (by simp) ?_ n _ ⟨FrameState.sound_start src maxOutput ctx hsize, ?_⟩ out hrun
  · rintro s ⟨hs, hbetween⟩
    exact ((framePass_safe heap G hs).and (framePass_between hP hs.bound hbetween)).mono
      (fun _ ht => ⟨ht.1.1, ht.2⟩) fun _ hx => hx.2
  · exact ⟨[], [], [], [], by simp, .nil, by simp, hat, by simpa using hstart⟩

theorem frameDecompressWith_sound (D : DecodingLaws Z F) {P : Frame UInt8 → Prop}
    (hP : D.dec.EndsOnly ⟨[], frameWindowLog maxOutput⟩ P) {out : Growable}
    (h : frameDecompressWith Z heap G src maxOutput = .ok out) :
    Decodes F P src out ∧ out.size ≤ maxOutput := by
  obtain ⟨-, ctx, ctx₁, start, hctx, hset, ⟨n, hreserve⟩, hrun⟩ := frameDecompressWith_ok h
  have hempty := Growable.safe_reserve heap n
  rw [hreserve] at hempty
  obtain ⟨hsize, hstart⟩ := hempty
  obtain ⟨ctx₁', hset', hat⟩ := D.windowSet (D.created hctx) (w := frameWindowLog maxOutput)
    ((by decide : 10 ≤ 23).trans (le_frameWindowLog _))
    ((frameWindowLog_spec maxOutput).1.trans (by decide))
  obtain rfl := Except.ok.inj (hset.symm.trans hset')
  have hbound := frameDecompressWith_safe Z heap G src maxOutput
  rw [h] at hbound
  obtain ⟨-, hle, -⟩ := hbound
  exact ⟨frameLoop_sound hP hat hsize hstart hrun, hle⟩

/-- Inside an accepted frame: `o` has been given out, `left` and the contents of
the frames `gs` are still to come. -/
def FrameState.Inside (D : DecodingLaws Z F) (w : Nat) (src : Bytes) (fs : List (Frame UInt8))
    (s : FrameState Z) : Prop :=
  ∃ o rest left t gs, s.out.contents = o.map some ∧ D.dec.Midway s.ctx ⟨[], w⟩ rest left ∧
    src.drop s.pos = rest ++ t ∧ F.Spells t gs ∧ gs ⊆ fs ∧ contents fs = o ++ left ++ contents gs

def FrameState.Refused (D : DecodingLaws Z F) (w : Nat) (src : Bytes) (maxOutput : Nat)
    (fs : List (Frame UInt8)) (s : FrameState Z) : Prop :=
  maxOutput < (contents fs).length ∧ ∃ c o rest f t, f ∈ fs ∧ max 1 maxOutput < f.content.length ∧
    D.dec.At s.ctx ⟨[], w⟩ c o ∧ F.frame [] (c ++ rest) = some f ∧ ¬ D.dec.accepts ⟨[], w⟩ f ∧ rest ≠ [] ∧
    src.drop s.pos = rest ++ t

def Verdict (D : DecodingLaws Z F) (w maxOutput : Nat) (fs : List (Frame UInt8))
    (x : Cxx Growable) : Prop :=
  if (contents fs).length ≤ maxOutput then ∃ out, x = .ok out ∧ out.contents = (contents fs).map some
  else x = fail .limit ∨ (x = fail (.zstdError 16) ∧ ∃ f ∈ fs, ¬ D.dec.accepts ⟨[], w⟩ f)

theorem Verdict.returns {D : DecodingLaws Z F} {w : Nat} {fs : List (Frame UInt8)} {out : Growable}
    (hle : out.size ≤ maxOutput) (h : out.contents = (contents fs).map some) :
    Verdict D w maxOutput fs (.ok out) := by
  have hlen := congrArg List.length h
  rw [Growable.contents_length, List.length_map] at hlen
  rw [Verdict, if_pos (by omega)]
  exact ⟨out, rfl, h⟩

theorem Verdict.limit {D : DecodingLaws Z F} {w : Nat} {fs : List (Frame UInt8)}
    (h : maxOutput < (contents fs).length) : Verdict D w maxOutput fs (fail .limit) := by
  rw [Verdict, if_neg (Nat.not_le_of_lt h)]
  exact .inl rfl

theorem Verdict.window {D : DecodingLaws Z F} {w : Nat} {fs : List (Frame UInt8)} {f : Frame UInt8}
    (h : maxOutput < (contents fs).length) (hf : f ∈ fs) (hno : ¬ D.dec.accepts ⟨[], w⟩ f) :
    Verdict D w maxOutput fs (fail (.zstdError 16)) := by
  rw [Verdict, if_neg (Nat.not_le_of_lt h)]
  exact .inr ⟨rfl, f, hf, hno⟩

theorem FrameState.enters (D : DecodingLaws Z F) {w : Nat} {fs gs : List (Frame UInt8)}
    (haccepts : ∀ f ∈ fs, f.content.length ≤ max 1 maxOutput → D.dec.accepts ⟨[], w⟩ f)
    {s : FrameState Z} {o : Bytes} (ho : s.out.contents = o.map some)
    (hat : D.dec.At s.ctx ⟨[], w⟩ [] []) (hspells : F.Spells (src.drop s.pos) gs) (hgs : gs ≠ [])
    (hsub : gs ⊆ fs) (hjoin : contents fs = o ++ contents gs) :
    s.Inside D w src fs ∨ s.Refused D w src maxOutput fs := by
  generalize hrest : src.drop s.pos = rest at hspells
  cases hspells with
  | nil => exact absurd rfl hgs
  | @cons u t f gs hf ht =>
    have hmem : f ∈ fs := hsub List.mem_cons_self
    by_cases haccept : D.dec.accepts ⟨[], w⟩ f
    · refine .inl ⟨o, u, f.content, t, gs, ho, D.dec.midway_start hat hf haccept, hrest, ht,
        fun g hg => hsub (List.mem_cons_of_mem f hg), ?_⟩
      rw [hjoin, contents_cons, List.append_assoc]
    · have hbig : ¬ f.content.length ≤ max 1 maxOutput := fun h => haccept (haccepts f hmem h)
      refine .inr ⟨?_, [], [], u, f, t, hmem, by omega, hat, hf, haccept, F.ne_nil hf, hrest⟩
      rw [hjoin, contents_cons, List.length_append, List.length_append]
      omega

theorem FrameState.settle_ended (D : DecodingLaws Z F) {w : Nat} {fs gs : List (Frame UInt8)}
    (haccepts : ∀ f ∈ fs, f.content.length ≤ max 1 maxOutput → D.dec.accepts ⟨[], w⟩ f)
    {s : FrameState Z} {o rest t : Bytes} {r : Reply Z.DCtx UInt8} {out : Growable}
    (hpos : s.pos ≤ src.length) (hdrop : src.drop s.pos = rest ++ t) (ht : F.Spells t gs)
    (hsub : gs ⊆ fs) (hjoin : contents fs = o ++ contents gs) (hle : out.size ≤ maxOutput)
    (ho : out.contents = o.map some) (hcons : r.consumed = rest.length)
    (hmove : r.consumed ≠ 0 ∨ r.produced ≠ []) (hnext : D.dec.At r.ctx ⟨[], w⟩ [] []) :
    Pass.Ends (fun t => t.Inside D w src fs ∨ t.Refused D w src maxOutput fs)
      (Verdict D w maxOutput fs) (s.settle src 0 r out) := by
  have hrest : src.drop (s.pos + r.consumed) = t := by
    rw [← List.drop_drop, hdrop, hcons, List.drop_left]
  have htlen := congrArg List.length hrest
  rw [List.length_drop] at htlen
  have hdroplen := congrArg List.length hdrop
  rw [List.length_drop, List.length_append] at hdroplen
  unfold FrameState.settle
  by_cases hend : s.pos + r.consumed = src.length
  · rw [if_pos ⟨rfl, hend⟩]
    have htnil : t = [] := List.eq_nil_of_length_eq_zero (by omega)
    have hgs : gs = [] := ht.eq_nil_iff.mp htnil
    rw [hgs, contents_nil, List.append_nil] at hjoin
    exact Verdict.returns hle (hjoin ▸ ho)
  · rw [if_neg (fun hc => hend hc.2), if_pos hmove]
    have hspells : F.Spells (src.drop (s.pos + r.consumed)) gs := by
      rw [hrest]
      exact ht
    refine FrameState.enters D haccepts ho hnext hspells ?_ hsub hjoin
    intro hgs
    have htnil := ht.eq_nil_iff.mpr hgs
    rw [htnil, List.length_nil] at htlen
    omega

theorem framePass_inside (D : DecodingLaws Z F) (hheap : heap.Grants) {w : Nat}
    {fs : List (Frame UInt8)}
    (haccepts : ∀ f ∈ fs, f.content.length ≤ max 1 maxOutput → D.dec.accepts ⟨[], w⟩ f)
    {ctx₀ : Z.DCtx} {s : FrameState Z} (hs : s.Sound src maxOutput ctx₀) (hin : s.Inside D w src fs) :
    Pass.Ends (fun t => t.Inside D w src fs ∨ t.Refused D w src maxOutput fs)
      (Verdict D w maxOutput fs) (framePass Z heap G src maxOutput s) := by
  obtain ⟨o, rest, left, t, gs, ho, hmid, hdrop, ht, hsub, hjoin⟩ := hin
  have holen : o.length = s.out.size := by
    rw [← Growable.contents_length, ho, List.length_map]
  rcases framePass_cases (Z := Z) heap G src hs.bound with ⟨-, hno⟩ | ⟨room, hroom, -, hpass⟩
  · exact absurd hheap hno
  generalize hr : Z.decompressStream s.ctx (src.drop s.pos) room = r at hpass
  have hstep := hmid.step hroom (.inr (hdrop ▸ List.prefix_append rest t)) hr.symm
  rcases hpass with ⟨e, hres, -⟩ | ⟨k, hres, hfull, hsurplus, h⟩ | ⟨k, out, hres, hle, -,
    hcontents, h⟩
  · cases hstep with
    | inl h =>
      obtain ⟨hres', -⟩ := h
      simp [hres] at hres'
    | inr h =>
      obtain ⟨k, left', hres', -⟩ := h
      simp [hres] at hres'
  -- at the bound the frame goes on giving out
  · rw [h]
    refine Verdict.limit ?_
    have hpos := List.length_pos_iff.mpr hsurplus
    rw [hjoin, List.length_append, List.length_append]
    cases hstep with
    | inl h =>
      obtain ⟨-, -, hprod, -⟩ := h
      rw [hprod] at hpos
      omega
    | inr h =>
      obtain ⟨-, left', -, -, hsplit, -⟩ := h
      rw [hsplit, List.length_append]
      omega
  · rw [h]
    rw [ho, ← List.map_append] at hcontents
    cases hstep with
    | inl h =>
      obtain ⟨hres', hcons, hprod, hnext⟩ := h
      obtain rfl : k = 0 := Except.ok.inj (hres.symm.trans hres')
      have hmoved : r.consumed ≠ 0 ∨ r.produced ≠ [] := by
        cases hmid.not_done with
        | inl hne =>
          have := List.length_pos_iff.mpr hne
          left
          omega
        | inr hne => exact .inr (hprod ▸ hne)
      rw [hprod] at hcontents
      exact FrameState.settle_ended D haccepts hs.pos hdrop ht hsub hjoin hle hcontents hcons hmoved
        hnext
    | inr h =>
      obtain ⟨k', left', hres', hcons, hsplit, hmid', hmove⟩ := h
      obtain rfl : k = k'+1 := Except.ok.inj (hres.symm.trans hres')
      have hmoved : r.consumed ≠ 0 ∨ r.produced ≠ [] := by
        refine (hmove ?_).imp_left Nat.pos_iff_ne_zero.mp
        by_cases hnil : rest = []
        · exact .inr hnil
        · left
          rw [hdrop]
          exact List.append_ne_nil_of_left_ne_nil hnil t
      rw [FrameState.settle, if_neg (by simp), if_pos hmoved]
      refine .inl ⟨_, rest.drop r.consumed, left', t, gs, hcontents, hmid', ?_, ht, hsub, ?_⟩
      · rw [← List.drop_drop, hdrop, List.drop_append_of_le_length hcons]
      · rw [hjoin, hsplit]
        simp only [List.append_assoc]

theorem framePass_refused (D : DecodingLaws Z F) (hrefuses : D.Refuses) (hheap : heap.Grants)
    {w : Nat} {fs : List (Frame UInt8)} {ctx₀ : Z.DCtx} {s : FrameState Z} (hs : s.Sound src maxOutput ctx₀)
    (href : s.Refused D w src maxOutput fs) :
    Pass.Ends (FrameState.Refused D w src maxOutput fs) (Verdict D w maxOutput fs)
      (framePass Z heap G src maxOutput s) := by
  obtain ⟨hlonger, c, o, rest, f, t, hmem, hbig, hat, hf, hno, hne, hdrop⟩ := href
  have hne' : src.drop s.pos ≠ [] := hdrop ▸ List.append_ne_nil_of_left_ne_nil hne t
  have hpre : rest <+: src.drop s.pos := hdrop ▸ List.prefix_append rest t
  rcases framePass_cases (Z := Z) heap G src hs.bound with ⟨-, hno⟩ | ⟨room, hroom, hle, hpass⟩
  · exact absurd hheap hno
  have hreply := hrefuses hat hf hno hroom (Nat.lt_of_le_of_lt hle hbig) hne' (.inr hpre)
  have hkeeps : ∀ k, (Z.decompressStream s.ctx (src.drop s.pos) room).result = .ok (k+1) → _ :=
    fun k => D.dec.continued hat
  generalize Z.decompressStream s.ctx (src.drop s.pos) room = r at hpass hreply hkeeps
  cases hreply with
  | inl hres =>
    rcases hpass with ⟨e, hres', h⟩ | ⟨k, hres', -⟩ | ⟨k, out, hres', -⟩
    · obtain rfl : 16 = e := Except.error.inj (hres.symm.trans hres')
      rw [h]
      exact Verdict.window hlonger hmem hno
    · simp [hres] at hres'
    · simp [hres] at hres'
  | inr h =>
    obtain ⟨k, hres, hpos, hlt, hnone⟩ := h
    rcases hpass with ⟨e, hres', -⟩ | ⟨k', -, -, hsurplus, -⟩ | ⟨k', out, hres', -, -, -, h⟩
    · simp [hres] at hres'
    · exact absurd hnone hsurplus
    · obtain rfl : k+1 = k' := Except.ok.inj (hres.symm.trans hres')
      rw [h, FrameState.settle, if_neg (by simp), if_pos (.inl (Nat.pos_iff_ne_zero.mp hpos))]
      have htake : (src.drop s.pos).take r.consumed = rest.take r.consumed := by
        rw [hdrop, List.take_append_of_le_length (by omega)]
      refine ⟨hlonger, _, _, rest.drop r.consumed, f, t, hmem, hbig, hkeeps k hres, ?_, hno, ?_, ?_⟩
      · rw [htake, List.append_assoc, List.take_append_drop]
        exact hf
      · exact List.ne_nil_of_length_pos (by rw [List.length_drop]; omega)
      · rw [← List.drop_drop, hdrop, List.drop_append_of_le_length (by omega)]

/-- Completeness: on frames of which every one whose content could fit the
bound is accepted, the call returns their contents, unless these pass the bound. -/
theorem frameDecompressWith_complete (D : DecodingLaws Z F) (hheap : heap.Grants)
    (hctx : Z.createDCtx ≠ none) (hsrc : src ≠ []) (hlen : src.length ≤ frameMax)
    (hmax : maxOutput ≤ frameMax) {fs : List (Frame UInt8)} (hspells : F.Spells src fs)
    (haccepts : ∀ f ∈ fs, f.content.length ≤ max 1 maxOutput →
      D.dec.accepts ⟨[], frameWindowLog maxOutput⟩ f)
    (hrefuses : (∃ f ∈ fs, ¬ D.dec.accepts ⟨[], frameWindowLog maxOutput⟩ f) → D.Refuses) :
    Verdict D (frameWindowLog maxOutput) maxOutput fs (frameDecompressWith Z heap G src maxOutput) := by
  obtain ⟨ctx, hctx⟩ := Option.ne_none_iff_exists'.mp hctx
  obtain ⟨ctx₁, hset, hat⟩ := D.windowSet (D.created hctx) (w := frameWindowLog maxOutput)
    ((by decide : 10 ≤ 23).trans (le_frameWindowLog _))
    ((frameWindowLog_spec maxOutput).1.trans (by decide))
  rcases Growable.reserve_cases heap (if Z.getFrameContentSize src ≤ maxOutput then
      Z.getFrameContentSize src else min maxOutput 65536) with
    ⟨start, hstart, hsize, hcontents⟩ | ⟨-, hno⟩
  · have hcall : frameDecompressWith Z heap G src maxOutput =
        run (framePass Z heap G src maxOutput) (.halt .running) (src.length + maxOutput + 1)
          ⟨ctx₁, 0, start⟩ := by
      unfold frameDecompressWith
      simp only [require_bind, hlen, hmax, hsrc, hctx, hset, zcheck_ok, ok_bind, hstart, ne_eq,
        and_self, not_false_eq_true, if_true]
    rw [hcall]
    refine run_ends (framePass Z heap G src maxOutput) (.halt .running)
      (fun s => s.Sound src maxOutput ctx₁ ∧ (s.Inside D (frameWindowLog maxOutput) src fs ∨
        s.Refused D (frameWindowLog maxOutput) src maxOutput fs))
      (FrameState.ahead src maxOutput) (Verdict D (frameWindowLog maxOutput) maxOutput fs)
      ?_ _ _ ⟨FrameState.sound_start src maxOutput ctx₁ hsize, ?_⟩
      (by simp [FrameState.ahead, hsize])
    · rintro s ⟨hs, hin | href⟩
      · exact ((framePass_safe heap G hs).and (framePass_inside D hheap haccepts hs hin)).mono
          (fun _ ht => ⟨⟨ht.1.1, ht.2⟩, ht.1.2⟩) fun _ hx => hx.2
      · have ⟨_, _, _, _, f, _, hmem, _, _, _, hno, _⟩ := href
        exact ((framePass_safe heap G hs).and
          (framePass_refused D (hrefuses ⟨f, hmem, hno⟩) hheap hs href)).mono
          (fun _ ht => ⟨⟨ht.1.1, .inr ht.2⟩, ht.1.2⟩) fun _ hx => hx.2
    · exact FrameState.enters D haccepts (o := []) (by simpa using hcontents) hat hspells
        (fun h => hsrc (hspells.eq_nil_iff.mpr h)) (fun _ h => h) rfl
  · exact absurd hheap hno

end
end Pyhdiff.Native
