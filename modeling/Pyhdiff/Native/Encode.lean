import Pyhdiff.Native.Memory
import Pyhdiff.Native.Options
import Pyhdiff.Native.Zstd
import Pyhdiff.Streaming.Loop

/-! `zstd_encode`: one frame of a target, with a nonempty base as its prefix. -/
namespace Pyhdiff.Native
open Streaming

structure Limits where
  input : Nat
  output : Nat

def kCodecLimits : Limits := ⟨rawMax, payloadMax⟩
def kFrameLimits : Limits := ⟨frameMax, frameMax⟩

/-- `for (n = tn; n; n >>= 1) ++log`, for a 64-bit size. -/
def bitLength (tn : Nat) : Nat :=
  (repeatWhile (fun s : Nat × Nat => s.1 ≠ 0) (fun s => (s.1 / 2, s.2 + 1)) 64 (tn, 0)).2

def clamp (v low high : Int) : Int := if v < low then low else if high < v then high else v

def toInt (n : Nat) : Int := (n : Int).bmod (2 ^ 32)

def btlazy2 : Nat := 6

/-- `p.chainLog - (p.strategy >= ZSTD_btlazy2)`, in unsigned arithmetic. -/
def ldmThreshold (p : CParams) : Nat :=
  (p.chainLog + 2 ^ 32 - if btlazy2 ≤ p.strategy then 1 else 0) % 2 ^ 32

/-- The window log and the LDM mode in force, zero for automatic. -/
def resolveWindow (Z : Zstd) (o : Options) (bn tn : Nat) : Int × Int :=
  if bn ≠ 0 ∧ o.windowLog = 0 then
    let p := Z.getCParams o.level tn bn
    let log := bitLength tn
    (clamp log 10 30, if o.ldm = 0 ∧ ldmThreshold p < log then 1 else o.ldm)
  else if bn ≠ 0 ∧ o.ldm = 0 then (o.windowLog, 1)
  else (o.windowLog, o.ldm)

/-- An explicit bucket size is honored even for very small sources: zstd
otherwise silently reduces it to the automatic hash log. -/
def resolveHashLog (Z : Zstd) (o : Options) (window : Int) (bn tn : Nat) : Int :=
  if o.ldmHashLog = 0 ∧ (o.ldmBucketLog ≠ 0 ∨ o.ldmRateLog ≠ 0) then
    let p := { Z.getCParams o.level tn bn with
      windowLog := if window ≠ 0 then (window % 2 ^ 32).toNat else 27 }
    let p := Z.adjustCParams p (max tn 1) bn
    let rate := if o.ldmRateLog ≠ 0 then o.ldmRateLog else 7 - toInt p.strategy / 3
    max o.ldmBucketLog (clamp (toInt p.windowLog - rate) 6 30)
  else o.ldmHashLog

def zstdParameters (Z : Zstd) (o : Options) (bn tn : Nat) : List (CParameter × Int) :=
  let (window, ldm) := resolveWindow Z o bn tn
  let hashLog := resolveHashLog Z o window bn tn
  [(.compressionLevel, o.level), (.nbWorkers, o.workers), (.contentSizeFlag, o.contentSize),
    (.checksumFlag, o.checksum)] ++
  (if window ≠ 0 then [(.windowLog, window)] else []) ++
  (if ldm ≠ 0 then [(.enableLongDistanceMatching, ldm)] else []) ++
  (if hashLog ≠ 0 then [(.ldmHashLog, hashLog)] else []) ++
  (if o.ldmMinMatch ≠ 0 then [(.ldmMinMatch, o.ldmMinMatch)] else []) ++
  (if o.ldmBucketLog ≠ 0 then [(.ldmBucketSizeLog, o.ldmBucketLog)] else []) ++
  (if o.ldmRateLog ≠ 0 then [(.ldmHashRateLog, o.ldmRateLog)] else [])

structure EncodeState (Z : Zstd) where
  ctx : Z.CCtx
  pos : Nat
  read : Nat
  encoded : Growable

/-- One pass of the inner loop, which moves on to the next chunk where that
loop ends. `read` is the input cursor inside the chunk at `pos`. -/
def encodePass (Z : Zstd) (heap : Heap) (target : Bytes) (limits : Limits) (s : EncodeState Z) :
    Cxx (Pass (EncodeState Z) Growable) := do
  let tn := target.length
  let chunk ← subspan target s.pos (min 65536 (tn - s.pos))
  let last := decide (s.pos + chunk.length = tn)
  let r := Z.compressStream2 s.ctx (chunk.drop s.read) 65536 (if last then .eEnd else .eContinue)
  let remaining ← zcheck r.result
  require (r.produced.length ≤ limits.output - s.encoded.size) .limit
  let encoded ← s.encoded.append heap .source r.produced
  let read := s.read + r.consumed
  let pos := s.pos + chunk.length
  return if (if last then remaining ≠ 0 else read ≠ chunk.length) then
      .next ⟨r.ctx, s.pos, read, encoded⟩
    else if pos ≠ tn then .next ⟨r.ctx, pos, 0, encoded⟩
    else .stop encoded

/-- The encoder is run for at most `passes` calls of the library. No exported
entry point passes a cancel callback. -/
def zstdEncode (Z : Zstd) (heap : Heap) (passes : Nat) (base target : Bytes) (o : Options)
    (limits : Limits) : Cxx Growable := do
  let bn := base.length
  let tn := target.length
  require (bn ≤ rawMax ∧ tn ≤ limits.input) .limit
  let some ctx := Z.createCCtx | .error (.thrown .badAlloc)
  let ctx ← (zstdParameters Z o bn tn).foldlM (zset Z) ctx
  let ctx ← zcheck (Z.cctxSetPledgedSrcSize ctx tn)
  let ctx ← zcheck (Z.cctxRefPrefix ctx base)
  run (encodePass Z heap target limits) (.halt .running) passes ⟨ctx, 0, 0, .empty⟩

theorem clamp_le (v : Int) : clamp v 10 30 ≤ 30 := by
  unfold clamp
  split
  · decide
  · split <;> omega

theorem zstdParameters_window (Z : Zstd) {o : Options} {bn tn : Nat} (s : Setup)
    (ho : o.windowLog ≤ zstdWindowLogMax) (hs : s.params .windowLog ≤ zstdWindowLogMax) :
    (s.setAll (zstdParameters Z o bn tn)).params .windowLog ≤ zstdWindowLogMax := by
  refine Setup.setAll_params (P := (· ≤ (zstdWindowLogMax : Int))) _ s .windowLog hs ?_
  intro v hv
  have hresolve : (resolveWindow Z o bn tn).1 ≤ zstdWindowLogMax := by
    unfold resolveWindow
    split
    · exact clamp_le _
    · split
      · exact ho
      · exact ho
  simp only [zstdParameters, List.mem_append, List.mem_cons, Prod.mk.injEq, List.not_mem_nil,
    reduceCtorEq, false_and, false_or, or_false, List.mem_ite_nil_right] at hv
  rcases hv with ((((hv | hv) | hv) | hv) | hv) | hv
  · rw [hv.2.2]
    exact hresolve
  all_goals exact absurd hv.2 (by simp)

namespace EncodeState
variable {Z : Zstd} (s : EncodeState Z) (target : Bytes)

def chunk : Bytes := (target.drop s.pos).take (min 65536 (target.length - s.pos))

abbrev Last : Prop := s.pos + (s.chunk target).length = target.length

abbrev reply : Reply Z.CCtx UInt8 :=
  Z.compressStream2 s.ctx ((s.chunk target).drop s.read) 65536 (directive (s.Last target))

def settle (k : Nat) (r : Reply Z.CCtx UInt8) (encoded : Growable) :
    Pass (EncodeState Z) Growable :=
  if (if s.Last target then k ≠ 0 else s.read + r.consumed ≠ (s.chunk target).length) then
    .next ⟨r.ctx, s.pos, s.read + r.consumed, encoded⟩
  else if s.Last target then .stop encoded
  else .next ⟨r.ctx, s.pos + (s.chunk target).length, 0, encoded⟩

variable {s target}

theorem chunk_length (h : s.pos ≤ target.length) :
    (s.chunk target).length = min 65536 (target.length - s.pos) := by
  simp only [chunk, List.length_take, List.length_drop]
  omega

theorem take_chunk {k : Nat} (hk : k ≤ (s.chunk target).length) :
    target.take (s.pos + k) = target.take s.pos ++ (s.chunk target).take k := by
  simp only [chunk, List.length_take] at hk
  rw [List.take_add, chunk, List.take_take, Nat.min_eq_left (by omega)]

end EncodeState

/-- Everything a pass can do: report the library's error, refuse output past
the limit, fail to store it, or store it and go on. -/
theorem encodePass_cases {Z : Zstd} (heap : Heap) {target : Bytes} (limits : Limits)
    {s : EncodeState Z} (hs : s.pos ≤ target.length) :
    let r := s.reply target
    (∃ e, r.result = .error e ∧ encodePass Z heap target limits s = zcheck (.error e)) ∨
    (limits.output - s.encoded.size < r.produced.length ∧
      encodePass Z heap target limits s = fail .limit) ∨
    (encodePass Z heap target limits s = .error (.thrown .badAlloc) ∧ ¬ heap.Grants) ∨
    (∃ k encoded, r.result = .ok k ∧ r.produced.length ≤ limits.output - s.encoded.size ∧
      encoded.size = s.encoded.size + r.produced.length ∧
      encoded.contents = s.encoded.contents ++ r.produced.map some ∧
      encodePass Z heap target limits s = .ok (s.settle target k r encoded)) := by
  intro r
  have hpass : encodePass Z heap target limits s = (do
      let remaining ← zcheck r.result
      require (r.produced.length ≤ limits.output - s.encoded.size) .limit
      let encoded ← s.encoded.append heap .source r.produced
      return s.settle target remaining r encoded) := by
    unfold encodePass
    simp only [subspan_ok hs (Nat.min_le_right _ _), ok_bind, decide_eq_true_eq, ne_eq, ite_not]
    rfl
  cases hres : r.result with
  | error e => exact .inl ⟨e, rfl, by rw [hpass, hres]; rfl⟩
  | ok k =>
    right
    rw [hres] at hpass
    simp only [zcheck_ok, ok_bind, require_bind] at hpass
    by_cases hfit : r.produced.length ≤ limits.output - s.encoded.size
    · rw [if_pos hfit] at hpass
      rcases Growable.append_cases heap .source s.encoded r.produced with
        ⟨encoded, h, hsize, hcontents⟩ | ⟨h, hno⟩
      · exact .inr (.inr ⟨k, encoded, rfl, hfit, hsize, hcontents, by rw [hpass, h]; rfl⟩)
      · exact .inr (.inl ⟨by rw [hpass, h]; rfl, hno⟩)
    · rw [if_neg hfit] at hpass
      exact .inl ⟨by omega, hpass⟩

theorem encodePass_bounded {Z : Zstd} {heap : Heap} {target : Bytes} {limits : Limits}
    {s : EncodeState Z} (hs : s.pos ≤ target.length ∧ s.encoded.size ≤ limits.output) :
    Pass.Ends (fun t => t.pos ≤ target.length ∧ t.encoded.size ≤ limits.output)
      (fun x => ∀ out, x = .ok out → out.size ≤ limits.output)
      (encodePass Z heap target limits s) := by
  obtain ⟨hpos, hbound⟩ := hs
  rcases encodePass_cases heap limits hpos with ⟨e, -, h⟩ | ⟨-, h⟩ | ⟨h, -⟩ |
    ⟨k, encoded, -, hfit, hsize, -, h⟩
  · simp [h, zcheck_error, fail, Pass.Ends]
  · simp [h, fail, Pass.Ends]
  · simp [h, Pass.Ends]
  rw [h]
  have hfits : encoded.size ≤ limits.output := by omega
  unfold EncodeState.settle
  by_cases hmore : if s.Last target then k ≠ 0
      else s.read + (s.reply target).consumed ≠ (s.chunk target).length
  · rw [if_pos hmore]
    exact ⟨hpos, hfits⟩
  · rw [if_neg hmore]
    split
    · rintro out ⟨⟩
      exact hfits
    · have := EncodeState.chunk_length hpos
      exact ⟨by simp only; omega, hfits⟩

theorem zstdEncode_bounded {Z : Zstd} {heap : Heap} {passes : Nat} {base target : Bytes}
    {o : Options} {limits : Limits} {out : Growable}
    (h : zstdEncode Z heap passes base target o limits = .ok out) : out.size ≤ limits.output := by
  simp only [zstdEncode, bind_eq_ok] at h
  obtain ⟨-, -, h⟩ := h
  cases hctx : Z.createCCtx with
  | none => simp [hctx] at h
  | some ctx =>
    simp only [hctx, bind_eq_ok] at h
    obtain ⟨ctx₁, -, ctx₂, -, ctx₃, -, hrun⟩ := h
    exact run_partial (encodePass Z heap target limits) (.halt .running)
      (fun s => s.pos ≤ target.length ∧ s.encoded.size ≤ limits.output)
      (fun x => ∀ out, x = .ok out → out.size ≤ limits.output) (by simp)
      (fun _ => encodePass_bounded) passes _ ⟨Nat.zero_le _, Nat.zero_le _⟩ out hrun

section
variable {Z : Zstd} {F : Format UInt8} (E : EncodingLaws Z F)
variable {heap : Heap} {target : Bytes} {limits : Limits}

/-- The job has been fed the target up to both cursors, and what it gave out is
what has been collected. Once it is being closed the last chunk stays. -/
structure EncodeState.Sound (job : Job (CParameter → Int) UInt8) (target : Bytes)
    (limits : Limits) (s : EncodeState Z) : Prop where
  pos : s.pos ≤ target.length
  bound : s.encoded.size ≤ limits.output
  fed : ∃ out closing, E.enc.Fed s.ctx job (target.take s.pos ++ (s.chunk target).take s.read)
      out closing ∧ s.encoded.contents = out.map some ∧
    (closing = none ∨ (closing = some ((s.chunk target).drop s.read) ∧ s.Last target))

/-- A finished encoding is one standard frame of the whole target. -/
structure Encoded (job : Job (CParameter → Int) UInt8) (target : Bytes) (limits : Limits)
    (out : Growable) (b : Bytes) (f : Frame UInt8) : Prop where
  contents : out.contents = b.map some
  bound : b.length ≤ limits.output
  frame : F.frame job.history b = some f
  emits : E.enc.emits job f
  standard : f.skippable = false
  content : f.content = target

variable {E}

theorem EncodeState.Sound.completed {job : Job (CParameter → Int) UInt8}
    (hpledged : job.pledged = target.length) {s : EncodeState Z} (hs : s.Sound E job target limits)
    (hlast : s.Last target) (hres : (s.reply target).result = .ok 0) {encoded : Growable}
    (hcontents : encoded.contents = s.encoded.contents ++ (s.reply target).produced.map some)
    (hfits : encoded.size ≤ limits.output) : ∃ b f, Encoded E job target limits encoded b f := by
  obtain ⟨-, -, out, closing, hfed, hout, hclosing⟩ := hs
  rw [hout, ← List.map_append] at hcontents
  have hwhole : target.take s.pos ++ (s.chunk target).take s.read ++
      (s.chunk target).drop s.read = target := by
    have hall : target.take (s.pos + (s.chunk target).length) =
        target.take s.pos ++ (s.chunk target).take (s.chunk target).length :=
      EncodeState.take_chunk (Nat.le_refl _)
    rw [hlast, List.take_length, List.take_length] at hall
    rw [List.append_assoc, List.take_append_drop, ← hall]
  have hlen := congrArg List.length hcontents
  rw [Growable.contents_length, List.length_map] at hlen
  obtain ⟨f, hf, hemits, hstandard, hcontent⟩ := LawfulEncoder.ends hfed hclosing hlast rfl hres
    (by rw [hpledged, ← List.length_append, hwhole])
  exact ⟨_, f, hcontents, hlen ▸ hfits, hf, hemits, hstandard, hcontent.trans hwhole⟩

theorem encodePass_sound {job : Job (CParameter → Int) UInt8}
    (hpledged : job.pledged = target.length) {s : EncodeState Z}
    (hs : s.Sound E job target limits) :
    Pass.Ends (EncodeState.Sound E job target limits)
      (fun x => ∀ out, x = .ok out → ∃ b f, Encoded E job target limits out b f)
      (encodePass Z heap target limits s) := by
  have ⟨hpos, hbound, out, closing, hfed, hout, hclosing⟩ := hs
  rcases encodePass_cases heap limits hpos with ⟨e, -, h⟩ | ⟨-, h⟩ | ⟨h, -⟩ |
    ⟨k, encoded, hres, hfit, hsize, hcontents, h⟩
  · simp [h, zcheck_error, fail, Pass.Ends]
  · simp [h, fail, Pass.Ends]
  · simp [h, Pass.Ends]
  rw [h]
  have hfits : encoded.size ≤ limits.output := by omega
  by_cases hend : s.Last target ∧ k = 0
  · obtain ⟨hlast, rfl⟩ := hend
    rw [EncodeState.settle, if_neg (by rw [if_pos hlast]; exact not_not.mpr rfl), if_pos hlast]
    rintro out' ⟨⟩
    exact hs.completed hpledged hlast hres hcontents hfits
  have hgoing : s.Last target → k ≠ 0 := fun hlast hk => hend ⟨hlast, hk⟩
  have hfed' := LawfulEncoder.feeds (r := s.reply target) hfed hclosing rfl hres hgoing
  rw [List.append_assoc, ← List.take_add, List.drop_drop] at hfed'
  rw [hout, ← List.map_append] at hcontents
  generalize s.reply target = r at *
  unfold EncodeState.settle
  by_cases hlast : s.Last target
  · rw [if_pos (by rw [if_pos hlast]; exact hgoing hlast)]
    rw [if_pos hlast] at hfed'
    exact ⟨hpos, hfits, _, _, hfed', hcontents, .inr ⟨rfl, hlast⟩⟩
  rw [if_neg hlast] at hfed'
  by_cases hread : s.read + r.consumed = (s.chunk target).length
  · rw [if_neg (by rw [if_neg hlast]; exact not_not.mpr hread), if_neg hlast]
    have hle : s.pos + (s.chunk target).length ≤ target.length := by
      rw [EncodeState.chunk_length hpos]
      omega
    refine ⟨hle, hfits, _, none, ?_, hcontents, .inl rfl⟩
    rw [List.take_zero, List.append_nil]
    change E.enc.Fed r.ctx job (target.take (s.pos + (s.chunk target).length)) _ none
    rw [EncodeState.take_chunk (Nat.le_refl _), ← hread]
    exact hfed'
  · rw [if_pos (by rw [if_neg hlast]; exact hread)]
    exact ⟨hpos, hfits, _, none, hfed', hcontents, .inl rfl⟩

theorem EncodeState.start_sound {job : Job (CParameter → Int) UInt8} {ctx : Z.CCtx}
    (hfed : E.enc.Fed ctx job [] [] none) :
    EncodeState.Sound E job target limits ⟨ctx, 0, 0, .empty⟩ :=
  ⟨Nat.zero_le _, Nat.zero_le _, [], none, by simpa using hfed, rfl, .inl rfl⟩

theorem encodeLoop_sound {job : Job (CParameter → Int) UInt8}
    (hpledged : job.pledged = target.length) {ctx : Z.CCtx}
    (hfed : E.enc.Fed ctx job [] [] none) {n : Nat} {out : Growable}
    (hrun : run (encodePass Z heap target limits) (.halt .running) n ⟨ctx, 0, 0, .empty⟩ = .ok out) :
    ∃ b f, Encoded E job target limits out b f := by
  exact run_partial (encodePass Z heap target limits) (.halt .running)
    (EncodeState.Sound E job target limits)
    (fun x => ∀ out, x = .ok out → ∃ b f, Encoded E job target limits out b f)
    (by simp) (fun _ => encodePass_sound hpledged) n _ (EncodeState.start_sound hfed) out hrun

def encodeJob (E : EncodingLaws Z F) (base target : Bytes) (o : Options) :
    Job (CParameter → Int) UInt8 :=
  ⟨((⟨E.defaults, [], none⟩ : Setup).setAll
    (zstdParameters Z o base.length target.length)).params, base, target.length⟩

/-- An encoding that ends is one standard frame of the target under the base. -/
theorem zstdEncode_ok {passes : Nat} {base : Bytes} {o : Options} {out : Growable}
    (h : zstdEncode Z heap passes base target o limits = .ok out) :
    base.length ≤ rawMax ∧ target.length ≤ limits.input ∧
      ∃ b f, Encoded E (encodeJob E base target o) target limits out b f := by
  simp only [zstdEncode, bind_eq_ok, require_eq_ok] at h
  obtain ⟨-, ⟨hbase, htarget⟩, h⟩ := h
  refine ⟨hbase, htarget, ?_⟩
  cases hctx : Z.createCCtx with
  | none => simp [hctx] at h
  | some ctx =>
    simp only [hctx, bind_eq_ok, zcheck_eq_ok] at h
    obtain ⟨ctx₁, hset, ctx₂, hpledge, ctx₃, hpre, hrun⟩ := h
    have hidle := E.prefixSet (E.pledgedSet (zset_idle E (E.created hctx) hset) hpledge) hpre
    exact encodeLoop_sound rfl (E.begins hidle rfl) hrun

theorem encodeJob_window {base : Bytes} {o : Options}
    (ho : automaticOr o.windowLog 10 zstdWindowLogMax) :
    (encodeJob E base target o).params .windowLog ≤ zstdWindowLogMax := by
  refine zstdParameters_window Z _ ?_ ?_
  · cases ho with
    | inl h =>
      rw [h]
      decide
    | inr h => exact h.2
  · change E.defaults .windowLog ≤ (zstdWindowLogMax : Int)
    rw [E.automaticWindow]
    decide

def EncodeState.More (target : Bytes) (s : EncodeState Z) : Prop :=
  ¬ s.Last target → s.read < (s.chunk target).length

def EncodeState.ahead (target : Bytes) (bound : Nat) (s : EncodeState Z) : Nat :=
  (target.length - (s.pos + s.read)) + (bound - s.encoded.size)

theorem EncodeState.Sound.answers {bound : Job (CParameter → Int) UInt8 → Nat}
    (hflush : E.enc.Flushes bound) (hcompact : E.enc.Compact bound)
    {job : Job (CParameter → Int) UInt8} (hpledged : job.pledged = target.length)
    {s : EncodeState Z} (hs : s.Sound E job target limits) (hmore : s.More target) :
    ∃ k, (s.reply target).result = .ok k ∧
      s.encoded.size + (s.reply target).produced.length ≤ bound job ∧
      ((s.Last target ∧ k = 0) ∨ 0 < (s.reply target).consumed ∨
        (s.reply target).produced ≠ []) := by
  obtain ⟨hpos, -, out, closing, hfed, hout, hclosing⟩ := hs
  have hchunk := EncodeState.chunk_length hpos
  have hsize : s.encoded.size = out.length := by
    rw [← Growable.contents_length, hout, List.length_map]
  have hsrc : (target.take s.pos ++ (s.chunk target).take s.read).length +
      ((s.chunk target).drop s.read).length = s.pos + (s.chunk target).length := by
    simp only [List.length_append, List.length_take, List.length_drop]
    omega
  have hrest : ¬ s.Last target → (s.chunk target).drop s.read ≠ [] ∧
      (target.take s.pos ++ (s.chunk target).take s.read).length +
        ((s.chunk target).drop s.read).length ≤ job.pledged := by
    intro hlast
    have := hmore hlast
    refine ⟨List.ne_nil_of_length_pos (by rw [List.length_drop]; omega), ?_⟩
    rw [hsrc, hpledged]
    omega
  have hall : s.Last target → (target.take s.pos ++ (s.chunk target).take s.read).length +
      ((s.chunk target).drop s.read).length = job.pledged := by
    intro hlast
    rw [hsrc, hlast, hpledged]
  obtain ⟨k, hres, hmove⟩ := hflush.call_moves hfed hclosing (by decide : 0 < 65536) hrest hall
  exact ⟨k, hres, hsize ▸ hcompact.call_le hflush hfed hclosing hall hres, hmove⟩

theorem EncodeState.settle_ends {bound k : Nat} {s : EncodeState Z} {encoded : Growable}
    (hpos : s.pos ≤ target.length) (hmore : s.More target)
    (hsize : encoded.size = s.encoded.size + (s.reply target).produced.length)
    (hbound : encoded.size ≤ bound)
    (hmove : (s.Last target ∧ k = 0) ∨ 0 < (s.reply target).consumed ∨
      (s.reply target).produced ≠ []) :
    Pass.Ends (ε := Fault)
      (fun t => t.More target ∧ t.ahead target bound < s.ahead target bound)
      (fun x => ∃ out, x = .ok out) (.ok (s.settle target k (s.reply target) encoded)) := by
  have hchunk := EncodeState.chunk_length hpos
  have hconsumed := (Z.compressStream2_within s.ctx ((s.chunk target).drop s.read) 65536
    (directive (s.Last target))).1
  rw [List.length_drop] at hconsumed
  change (s.reply target).consumed ≤ _ at hconsumed
  have hahead : ¬ (s.Last target ∧ k = 0) →
      target.length - (s.pos + (s.read + (s.reply target).consumed)) + (bound - encoded.size) <
        s.ahead target bound := by
    intro hgoing
    unfold EncodeState.ahead
    cases hmove.resolve_left hgoing with
    | inl hmoved => omega
    | inr hmoved =>
      have := List.length_pos_iff.mpr hmoved
      omega
  unfold EncodeState.settle
  by_cases hlast : s.Last target
  · simp only [if_pos hlast]
    by_cases hk : k = 0
    · rw [if_neg (not_not.mpr hk)]
      exact ⟨encoded, rfl⟩
    · rw [if_pos hk]
      exact ⟨fun hno => absurd hlast hno, hahead fun hend => hk hend.2⟩
  · have hgoing := hahead fun hend => hlast hend.1
    have hread := hmore hlast
    simp only [if_neg hlast]
    by_cases hdone : s.read + (s.reply target).consumed = (s.chunk target).length
    · rw [if_neg (not_not.mpr hdone)]
      rw [hdone] at hgoing
      refine ⟨fun hnext => ?_, hgoing⟩
      -- not the last chunk, so another one follows it
      have hfollowing : (EncodeState.chunk (Z := Z)
          ⟨(s.reply target).ctx, s.pos + (s.chunk target).length, 0, encoded⟩ target).length =
            min 65536 (target.length - (s.pos + (s.chunk target).length)) :=
        EncodeState.chunk_length (by simp only; omega)
      simp only [EncodeState.Last, hfollowing] at hnext ⊢
      omega
    · rw [if_pos hdone]
      have hrest : s.read + (s.reply target).consumed ≤ (s.chunk target).length := by omega
      exact ⟨fun _ => Nat.lt_of_le_of_ne hrest hdone, hgoing⟩

theorem encodePass_ends {bound : Job (CParameter → Int) UInt8 → Nat} (hflush : E.enc.Flushes bound)
    (hcompact : E.enc.Compact bound) (hheap : heap.Grants) {job : Job (CParameter → Int) UInt8}
    (hpledged : job.pledged = target.length) (hbound : bound job ≤ limits.output)
    {s : EncodeState Z} (hs : s.Sound E job target limits) (hmore : s.More target) :
    Pass.Ends (fun t => (t.Sound E job target limits ∧ t.More target) ∧
        t.ahead target (bound job) < s.ahead target (bound job))
      (fun x => ∃ out, x = .ok out) (encodePass Z heap target limits s) := by
  have hsound : Pass.Ends (EncodeState.Sound E job target limits)
      (fun x => ∀ out, x = .ok out → ∃ b f, Encoded E job target limits out b f)
      (encodePass Z heap target limits s) := encodePass_sound hpledged hs
  obtain ⟨k, hres, hwithin, hmove⟩ := hs.answers hflush hcompact hpledged hmore
  rcases encodePass_cases heap limits hs.pos with ⟨e, herr, -⟩ | ⟨hover, -⟩ | ⟨-, hno⟩ |
    ⟨k', encoded, hres', -, hencoded, -, h⟩
  · exact absurd (hres.symm.trans herr) (by simp)
  · exact absurd (Nat.le_sub_of_add_le' (hwithin.trans hbound)) (Nat.not_le_of_lt hover)
  · exact absurd hheap hno
  obtain rfl : k = k' := Except.ok.inj (hres.symm.trans hres')
  rw [h] at hsound ⊢
  have hsettle := EncodeState.settle_ends hs.pos hmore hencoded (hencoded ▸ hwithin) hmove
  exact (hsound.and hsettle).mono (fun _ ht => ⟨⟨ht.1, ht.2.1⟩, ht.2.2⟩) fun _ hx => hx.2

/-- An encoding of documented parameters without a base ends, when the library
flushes and its output stays within the limit. -/
theorem zstdEncode_ends (hready : E.Ready) (htakes : E.TakesEmptyPrefix)
    {bound : Job (CParameter → Int) UInt8 → Nat} (hflush : E.enc.Flushes bound)
    (hcompact : E.enc.Compact bound) (hheap : heap.Grants) {o : Options}
    (hparams : ∀ p ∈ zstdParameters Z o 0 target.length, p.1.Allows p.2)
    (htarget : target.length ≤ limits.input) (hlt : target.length < 2 ^ 64)
    (hbound : bound (encodeJob E [] target o) ≤ limits.output) {passes : Nat}
    (hpasses : target.length + bound (encodeJob E [] target o) < passes) :
    ∃ out, zstdEncode Z heap passes [] target o limits = .ok out := by
  obtain ⟨ctx, hctx⟩ := Option.ne_none_iff_exists'.mp hready.creates
  obtain ⟨ctx₁, hset, hidle₁⟩ := zset_ready hready hparams (E.created hctx)
  obtain ⟨ctx₂, hpledge⟩ := hready.pledges hidle₁ hlt
  have hidle₂ := E.pledgedSet hidle₁ hpledge
  obtain ⟨ctx₃, hempty⟩ := htakes hidle₂
  have hsound : EncodeState.Sound E (encodeJob E [] target o) target limits
      ⟨ctx₃, 0, 0, .empty⟩ :=
    EncodeState.start_sound (E.begins (E.prefixSet hidle₂ hempty) rfl)
  have hrun : ∃ out, run (encodePass Z heap target limits) (.halt .running) passes
      ⟨ctx₃, 0, 0, .empty⟩ = .ok out := by
    refine run_ends (encodePass Z heap target limits) (.halt .running)
      (fun s => s.Sound E (encodeJob E [] target o) target limits ∧ s.More target)
      (EncodeState.ahead target (bound (encodeJob E [] target o))) (fun x => ∃ out, x = .ok out)
      (fun _ hs => encodePass_ends hflush hcompact hheap rfl hbound hs.1 hs.2) passes _
      ⟨hsound, fun hmore => ?_⟩ ?_
    · have hchunk := EncodeState.chunk_length hsound.pos
      simp only [EncodeState.Last, hchunk] at hmore ⊢
      omega
    · simp only [EncodeState.ahead]
      omega
  obtain ⟨out, hrun⟩ := hrun
  refine ⟨out, ?_⟩
  unfold zstdEncode
  rw [require_bind, if_pos ⟨Nat.zero_le _, htarget⟩]
  simp only [hctx, List.length_nil, hset, ok_bind, hpledge, hempty, zcheck_ok]
  exact hrun

end

theorem encodePass_mono {Z : Zstd} {heap : Heap} {target : Bytes} {limits limits' : Limits}
    (hle : limits.output ≤ limits'.output) {s : EncodeState Z} {p : Pass (EncodeState Z) Growable}
    (h : encodePass Z heap target limits s = .ok p) : encodePass Z heap target limits' s = .ok p := by
  simp only [encodePass, bind_eq_ok, require_eq_ok] at h ⊢
  obtain ⟨chunk, hchunk, k, hres, -, hfit, h⟩ := h
  exact ⟨chunk, hchunk, k, hres, (), by omega, h⟩

theorem zstdEncode_mono {Z : Zstd} {heap : Heap} {passes : Nat} {base target : Bytes} {o : Options}
    {limits limits' : Limits} (hinput : limits.input ≤ limits'.input)
    (houtput : limits.output ≤ limits'.output) {out : Growable}
    (h : zstdEncode Z heap passes base target o limits = .ok out) :
    zstdEncode Z heap passes base target o limits' = .ok out := by
  simp only [zstdEncode, bind_eq_ok, require_eq_ok] at h ⊢
  obtain ⟨-, ⟨hbase, htarget⟩, h⟩ := h
  refine ⟨(), ⟨hbase, htarget.trans hinput⟩, ?_⟩
  cases hctx : Z.createCCtx with
  | none =>
    rw [hctx] at h
    cases h
  | some ctx =>
    simp only [hctx, bind_eq_ok] at h ⊢
    obtain ⟨ctx₁, hset, ctx₂, hpledge, ctx₃, hpre, hrun⟩ := h
    exact ⟨ctx₁, hset, ctx₂, hpledge, ctx₃, hpre,
      run_mono (fun _ _ hpass => encodePass_mono houtput hpass) hrun⟩

end Pyhdiff.Native
