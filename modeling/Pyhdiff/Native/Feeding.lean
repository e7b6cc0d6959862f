import Pyhdiff.Native.Cancel
import Pyhdiff.Native.HDiff
import Pyhdiff.Native.Requests
import Pyhdiff.Streaming.Feeding

/-! The encode loops against an encoder that may do anything inside its buffers. -/
namespace Pyhdiff.Native
open Streaming

theorem directive_congr {p q : Prop} [Decidable p] [Decidable q] (h : p ↔ q) :
    directive p = directive q := by
  unfold directive
  by_cases hp : p
  · rw [if_pos hp, if_pos (h.mp hp)]
  · rw [if_neg hp, if_neg fun hq => hp (h.mpr hq)]

/-- Every way an encoding can end that has been set up. -/
inductive EncodeOutcome (Z : Zstd) (heap : Heap) (target : Bytes) (limits : Limits) (ctx : Z.CCtx)
    (passes : Nat) : Cxx Growable → Prop
  | encoded {w : Bytes} {out : Growable} : Encodes Z.compressStream2 target 65536 ctx w →
    out.contents = w.map some → w.length ≤ limits.output →
    EncodeOutcome Z heap target limits ctx passes (.ok out)
  | failed {n fed m e : Nat} {c : Z.CCtx} {w : Bytes} {closing : Option Bytes} :
    Feeds Z.compressStream2 target 65536 ctx n c fed w closing → Offers target fed closing m →
    (offered Z.compressStream2 target 65536 c fed m).result = .error e →
    EncodeOutcome Z heap target limits ctx passes (zcheck (.error e))
  | limit {n fed m : Nat} {c : Z.CCtx} {w : Bytes} {closing : Option Bytes} :
    Feeds Z.compressStream2 target 65536 ctx n c fed w closing → Offers target fed closing m →
    limits.output < w.length + (offered Z.compressStream2 target 65536 c fed m).produced.length →
    EncodeOutcome Z heap target limits ctx passes (fail .limit)
  | memory : ¬ heap.Grants → EncodeOutcome Z heap target limits ctx passes (.error (.thrown .badAlloc))
  | running {fed : Nat} {c : Z.CCtx} {w : Bytes} {closing : Option Bytes} :
    Feeds Z.compressStream2 target 65536 ctx passes c fed w closing → w.length ≤ limits.output →
    EncodeOutcome Z heap target limits ctx passes (.error (.halt .running))

section
variable {Z : Zstd} {heap : Heap} {target : Bytes} {limits : Limits} {ctx : Z.CCtx} {passes k : Nat}

/-- The loop after `k` calls is a client that has fed the target up to both cursors. -/
structure EncodeState.Feeding (target : Bytes) (limits : Limits) (ctx : Z.CCtx) (k : Nat)
    (s : EncodeState Z) : Prop where
  pos : s.pos ≤ target.length
  read : s.read ≤ (s.chunk target).length
  more : ¬ s.Last target → s.read < (s.chunk target).length
  bound : s.encoded.size ≤ limits.output
  feeds : ∃ w closing, Feeds Z.compressStream2 target 65536 ctx k s.ctx (s.pos + s.read) w closing ∧
    s.encoded.contents = w.map some ∧
    (closing = none ∨ (closing = some ((s.chunk target).drop s.read) ∧ s.Last target))

namespace EncodeState
variable {s : EncodeState Z}

theorem chunk_rest (hpos : s.pos ≤ target.length) :
    (target.drop (s.pos + s.read)).take ((s.chunk target).length - s.read) =
      (s.chunk target).drop s.read := by
  rw [chunk_length hpos, chunk, List.drop_take, List.drop_drop]

theorem offers (hpos : s.pos ≤ target.length) (hread : s.read ≤ (s.chunk target).length)
    (hmore : ¬ s.Last target → s.read < (s.chunk target).length) {closing : Option Bytes}
    (hclosing : closing = none ∨ (closing = some ((s.chunk target).drop s.read) ∧ s.Last target)) :
    Offers target (s.pos + s.read) closing ((s.chunk target).length - s.read) ∧
    (s.pos + s.read + ((s.chunk target).length - s.read) = target.length ↔ s.Last target) ∧
    offered Z.compressStream2 target 65536 s.ctx (s.pos + s.read) ((s.chunk target).length - s.read) =
      s.reply target := by
  have hchunk := chunk_length hpos
  have hlast : s.pos + s.read + ((s.chunk target).length - s.read) = target.length ↔ s.Last target := by
    unfold Last
    omega
  refine ⟨⟨by omega, fun hno => ?_, ?_⟩, hlast, ?_⟩
  · have := hmore (mt hlast.mpr hno)
    omega
  · rw [chunk_rest hpos, directive_congr hlast]
    exact directive_admissible hclosing
  · rw [offered, chunk_rest hpos, directive_congr hlast]

theorem Feeding.settle (hs : s.Feeding target limits ctx k) {hint : Nat} {encoded : Growable}
    (hres : (s.reply target).result = .ok hint)
    (hcontents : encoded.contents = s.encoded.contents ++ (s.reply target).produced.map some)
    (hfits : encoded.size ≤ limits.output) :
    Pass.Ends (ε := Fault) (Feeding target limits ctx (k+1))
      (EncodeOutcome Z heap target limits ctx passes)
      (.ok (s.settle target hint (s.reply target) encoded)) := by
  obtain ⟨hpos, hread, hmore, -, w, closing, hfeeds, hout, hclosing⟩ := hs
  obtain ⟨hoffers, hlast, hreply⟩ := offers hpos hread hmore hclosing
  have hconsumed := (Z.compressStream2_within s.ctx ((s.chunk target).drop s.read) 65536
    (directive (s.Last target))).1
  rw [List.length_drop] at hconsumed
  change (s.reply target).consumed ≤ _ at hconsumed
  rw [hout, ← List.map_append] at hcontents
  unfold EncodeState.settle
  by_cases hend : s.Last target ∧ hint = 0
  · obtain ⟨hlast', rfl⟩ := hend
    rw [if_neg (by simp [hlast']), if_pos hlast']
    refine .encoded ⟨k, s.ctx, _, w, closing, _, hfeeds, hoffers, hlast.mpr hlast', ?_, rfl⟩ ?_ ?_
    · rwa [hreply]
    · rwa [hreply]
    · rw [hreply]
      have := congrArg List.length hcontents
      rw [Growable.contents_length, List.length_map] at this
      omega
  have hnext := hfeeds.call hoffers (by rwa [hreply]) fun h => hend ⟨hlast.mp h.1, h.2⟩
  rw [hreply, chunk_rest hpos, List.drop_drop] at hnext
  by_cases hlast' : s.Last target
  · rw [if_pos (hlast.mpr hlast')] at hnext
    rw [if_pos (by rw [if_pos hlast']; exact fun h => hend ⟨hlast', h⟩)]
    refine ⟨hpos, ?_, fun hno => absurd hlast' hno, hfits, _, _, ?_, hcontents, .inr ⟨rfl, hlast'⟩⟩
    · change s.read + (s.reply target).consumed ≤ (s.chunk target).length
      omega
    · simp only [← Nat.add_assoc]
      exact hnext
  rw [if_neg (mt hlast.mp hlast')] at hnext
  by_cases hdone : s.read + (s.reply target).consumed = (s.chunk target).length
  · rw [if_neg (by simp [hlast', hdone]), if_neg hlast']
    have hchunk := chunk_length hpos
    have hpos' : s.pos + (s.chunk target).length ≤ target.length := by omega
    refine ⟨hpos', Nat.zero_le _, fun hno => ?_, hfits, _, none, ?_, hcontents, .inl rfl⟩
    · have hfollowing : (EncodeState.chunk (Z := Z)
          ⟨(s.reply target).ctx, s.pos + (s.chunk target).length, 0, encoded⟩ target).length =
            min 65536 (target.length - (s.pos + (s.chunk target).length)) := chunk_length hpos'
      simp only [Last, hfollowing] at hno ⊢
      omega
    · rw [Nat.add_zero, ← hdone, ← Nat.add_assoc]
      exact hnext
  · rw [if_pos (by simpa [hlast'] using hdone)]
    have hrest : s.read + (s.reply target).consumed ≤ (s.chunk target).length := by omega
    refine ⟨hpos, hrest, fun _ => Nat.lt_of_le_of_ne hrest hdone, hfits, _, none, ?_, hcontents,
      .inl rfl⟩
    · simp only [← Nat.add_assoc]
      exact hnext

end EncodeState

theorem encodePass_feeds {s : EncodeState Z} (hs : s.Feeding target limits ctx k) :
    Pass.Ends (EncodeState.Feeding target limits ctx (k+1))
      (EncodeOutcome Z heap target limits ctx passes) (encodePass Z heap target limits s) := by
  have hsize := s.encoded.contents_length
  obtain ⟨w, closing, hfeeds, hout, hclosing⟩ := hs.feeds
  obtain ⟨hoffers, -, hreply⟩ := EncodeState.offers hs.pos hs.read hs.more hclosing
  rw [hout, List.length_map] at hsize
  rcases encodePass_cases heap limits hs.pos with ⟨e, hres, h⟩ | ⟨hpast, h⟩ | ⟨h, hno⟩ |
    ⟨hint, encoded, hres, hfit, hencoded, hcontents, h⟩
  · rw [h]
    exact .failed hfeeds hoffers (by rwa [hreply])
  · rw [h]
    refine .limit hfeeds hoffers ?_
    rw [hreply]
    omega
  · rw [h]
    exact .memory hno
  · rw [h]
    have := hs.bound
    exact hs.settle hres hcontents (by omega)

theorem safe_foldlM {α β : Type} {f : β → α → Cxx β} (hf : ∀ b a, Safe (fun _ => True) (f b a))
    (l : List α) (b : β) : Safe (fun _ => True) (l.foldlM f b) := by
  induction l generalizing b with
  | nil => trivial
  | cons a l ih => exact (hf b a).bind fun b' _ => ih b'

theorem encodeSetup_safe (Z : Zstd) (base target : Bytes) (o : Options) (limits : Limits) :
    Safe (fun _ => True) (encodeSetup Z base target o limits) := by
  unfold encodeSetup
  refine (safe_require _ _).bind fun _ _ => ?_
  cases Z.createCCtx with
  | none => trivial
  | some ctx =>
    refine (safe_foldlM (fun _ _ => safe_zcheck _) _ ctx).bind fun ctx₁ _ => ?_
    exact (safe_zcheck _).bind fun ctx₂ _ => safe_zcheck _

/-- An encoding that is set up is a client that feeds the target. -/
theorem zstdEncode_outcome {base : Bytes} {o : Options}
    (hsetup : encodeSetup Z base target o limits = .ok ctx) :
    EncodeOutcome Z heap target limits ctx passes
      (zstdEncode Z heap passes base target o limits) := by
  rw [zstdEncode_eq, hsetup, ok_bind]
  have hstart : EncodeState.Feeding target limits ctx 0 ⟨ctx, 0, 0, .empty⟩ := by
    have hchunk := EncodeState.chunk_length (Z := Z) (s := ⟨ctx, 0, 0, .empty⟩) (Nat.zero_le target.length)
    refine ⟨Nat.zero_le _, Nat.zero_le _, fun hlast => ?_, Nat.zero_le _, [], none, .start, rfl, .inl rfl⟩
    simp only [EncodeState.Last, hchunk] at hlast ⊢
    omega
  refine run_counted (fun k s hs => encodePass_feeds hs) hstart fun s hs => ?_
  rw [Nat.zero_add] at hs
  obtain ⟨-, -, -, hbound, w, closing, hfeeds, hout, -⟩ := hs
  have hsize := s.encoded.contents_length
  rw [hout, List.length_map] at hsize
  exact .running hfeeds (hsize ▸ hbound)

/-- An encoder that never stalls ends within one call more than there are bytes
to feed and to give out. -/
theorem EncodeOutcome.safe (hprogress : Progresses Z.compressStream2) {x : Cxx Growable}
    (hpasses : target.length + limits.output < passes)
    (h : EncodeOutcome Z heap target limits ctx passes x) :
    Safe (fun out => ∃ w, Encodes Z.compressStream2 target 65536 ctx w ∧ out.contents = w.map some ∧
      w.length ≤ limits.output) x := by
  cases h with
  | encoded hw hout hbound => exact ⟨_, hw, hout, hbound⟩
  | failed => trivial
  | limit => trivial
  | memory => trivial
  | running hfeeds hbound =>
    have hcalls := hfeeds.calls_le hprogress (by decide)
    have hfed := hfeeds.fed_le Z.compressStream2_within
    omega

end

/-- What `compress` does before its loop. -/
def pluginSetup (Z : Zstd) (heap : Heap) (input : StreamInput) (o : Options) : Cxx (Z.CCtx × Bytes) := do
  let some ctx := Z.createCCtx | .error (.thrown .badAlloc)
  allocate heap Z.cStreamInSize
  allocate heap Z.cStreamOutSize
  compressSetup Z input o ctx

theorem compress_eq_plugin (Z : Zstd) {ω : Type} (write : ω → Nat → Bytes → Cxx (Option ω))
    (input : StreamInput) (heap : Heap) (passes : Nat) (o : Options) (out : ω) :
    compress Z write input heap passes o out = (do
      let x ← pluginSetup Z heap input o
      run (compressPass Z write input) (.halt .running) passes ⟨x.1, x.2.length, x.2, 0, 0, out⟩) := by
  rw [compress_eq_setup]
  unfold pluginSetup
  cases Z.createCCtx with
  | none => rfl
  | some ctx => simp only [bind_assoc]

theorem pluginSetup_safe {Z : Zstd} {heap : Heap} {input : StreamInput} {src : Bytes} {o : Options}
    (hserves : input.Serves 0 src) (hsize : input.size = src.length) :
    Safe (fun _ => True) (pluginSetup Z heap input o) := by
  unfold pluginSetup
  cases Z.createCCtx with
  | none => trivial
  | some c =>
    refine (safe_allocate heap _).bind fun _ _ => (safe_allocate heap _).bind fun _ _ => ?_
    unfold compressSetup
    refine (safe_foldlM (fun _ _ => safe_zcheck _) _ c).bind fun c₁ _ => ?_
    refine (safe_zcheck _).bind fun c₂ _ => ?_
    rw [nextChunk_serves hserves hsize (Nat.zero_le _)]
    trivial

inductive Appended {ω : Type} (write : ω → Nat → Bytes → Cxx (Option ω)) (out₀ : ω) : Bytes → ω → Prop
  | start : Appended write out₀ [] out₀
  | write {w b : Bytes} {out out' : ω} : Appended write out₀ w out →
    write out w.length b = .ok (some out') → Appended write out₀ (w ++ b) out'

theorem Appended.invariant {ω : Type} {write : ω → Nat → Bytes → Cxx (Option ω)} {out₀ out : ω}
    {w : Bytes} {P : ω → Prop} (h : Appended write out₀ w out)
    (hwrite : ∀ {out pos b out'}, P out → write out pos b = .ok (some out') → P out') (hstart : P out₀) :
    P out := by
  induction h with
  | start => exact hstart
  | write _ hw ih => exact hwrite ih hw

inductive CompressOutcome (Z : Zstd) {ω : Type} (write : ω → Nat → Bytes → Cxx (Option ω)) (src : Bytes)
    (out₀ : ω) (ctx : Z.CCtx) (passes : Nat) : Cxx (Nat × ω) → Prop
  | compressed {w : Bytes} {out : ω} : Encodes Z.compressStream2 src Z.cStreamOutSize ctx w →
    Appended write out₀ w out → CompressOutcome Z write src out₀ ctx passes (.ok (w.length, out))
  | abandoned {n fed m : Nat} {c : Z.CCtx} {w : Bytes} {closing : Option Bytes} {out : ω} :
    Feeds Z.compressStream2 src Z.cStreamOutSize ctx n c fed w closing → Offers src fed closing m →
    Appended write out₀ w out →
    write out w.length (offered Z.compressStream2 src Z.cStreamOutSize c fed m).produced = .ok none →
    CompressOutcome Z write src out₀ ctx passes (.ok (0, out))
  | failed {n fed m e : Nat} {c : Z.CCtx} {w : Bytes} {closing : Option Bytes} :
    Feeds Z.compressStream2 src Z.cStreamOutSize ctx n c fed w closing → Offers src fed closing m →
    (offered Z.compressStream2 src Z.cStreamOutSize c fed m).result = .error e →
    CompressOutcome Z write src out₀ ctx passes (zcheck (.error e))
  | broken {n fed m : Nat} {c : Z.CCtx} {w : Bytes} {closing : Option Bytes} {out : ω} {e : Fault} :
    Feeds Z.compressStream2 src Z.cStreamOutSize ctx n c fed w closing → Offers src fed closing m →
    Appended write out₀ w out →
    write out w.length (offered Z.compressStream2 src Z.cStreamOutSize c fed m).produced = .error e →
    CompressOutcome Z write src out₀ ctx passes (.error e)
  | running {fed : Nat} {c : Z.CCtx} {w : Bytes} {closing : Option Bytes} {out : ω} :
    Feeds Z.compressStream2 src Z.cStreamOutSize ctx passes c fed w closing →
    Appended write out₀ w out → CompressOutcome Z write src out₀ ctx passes (.error (.halt .running))

section
variable {Z : Zstd} {ω : Type} {write : ω → Nat → Bytes → Cxx (Option ω)} {input : StreamInput}
variable {src : Bytes} {out₀ : ω} {ctx : Z.CCtx} {heap : Heap} {passes k : Nat} {o : Options}

namespace CompressState

structure Feeding (write : ω → Nat → Bytes → Cxx (Option ω)) (src : Bytes) (out₀ : ω) (ctx : Z.CCtx)
    (k : Nat) (s : CompressState Z ω) : Prop where
  read : s.read ≤ src.length
  chunk : s.chunk.length ≤ s.read
  taken : (src.drop (s.read - s.chunk.length)).take s.chunk.length = s.chunk
  pos : s.pos ≤ s.chunk.length
  more : s.read ≠ src.length → s.pos < s.chunk.length
  feeds : ∃ w closing, Feeds Z.compressStream2 src Z.cStreamOutSize ctx k s.ctx s.fed w closing ∧
    Appended write out₀ w s.out ∧ w.length = s.written ∧
    (closing = none ∨ (closing = some (s.chunk.drop s.pos) ∧ s.read = src.length))

variable {s : CompressState Z ω}

theorem Feeding.rest (hs : s.Feeding write src out₀ ctx k) :
    (src.drop s.fed).take (s.chunk.length - s.pos) = s.chunk.drop s.pos := by
  have htaken := congrArg (List.drop s.pos) hs.taken
  rwa [List.drop_take, List.drop_drop] at htaken

theorem Feeding.offers (hsize : input.size = src.length) (hs : s.Feeding write src out₀ ctx k)
    {closing : Option Bytes}
    (hclosing : closing = none ∨ (closing = some (s.chunk.drop s.pos) ∧ s.read = src.length)) :
    Offers src s.fed closing (s.chunk.length - s.pos) ∧
    (s.fed + (s.chunk.length - s.pos) = src.length ↔ s.read = src.length) ∧
    offered Z.compressStream2 src Z.cStreamOutSize s.ctx s.fed (s.chunk.length - s.pos) =
      s.reply input := by
  have hread := hs.read
  have hchunk := hs.chunk
  have hpos := hs.pos
  have hfed : s.fed + (s.chunk.length - s.pos) = s.read := by
    unfold fed
    omega
  refine ⟨⟨by omega, fun hno => ?_, ?_⟩, by rw [hfed], ?_⟩
  · have := hs.more (hfed ▸ hno)
    omega
  · rw [hs.rest]
    refine directive_admissible ?_
    rwa [hfed]
  · rw [offered, hs.rest, reply]
    congr 1
    exact directive_congr (by rw [hfed, hsize])

theorem Feeding.settle (hserves : input.Serves 0 src) (hsize : input.size = src.length)
    (hin : 0 < Z.cStreamInSize) (hs : s.Feeding write src out₀ ctx k) {hint : Nat} {out : ω}
    (hres : (s.reply input).result = .ok hint)
    (hout : write s.out s.written (s.reply input).produced = .ok (some out)) :
    Pass.Ends (Feeding write src out₀ ctx (k+1)) (CompressOutcome Z write src out₀ ctx passes)
      (s.settle input hint (s.reply input) out) := by
  obtain ⟨w, closing, hfeeds, happended, hwritten, hclosing⟩ := hs.feeds
  obtain ⟨hoffers, hlast, hreply⟩ := hs.offers hsize hclosing
  have hrest := hs.rest
  obtain ⟨hread, hchunk, htaken, hpos, hmore, -⟩ := hs
  have hcursor : s.pos + (s.reply input).consumed ≤ s.chunk.length := reply_le hpos
  rw [← hwritten] at hout
  have happended' := happended.write hout
  have hlen : (w ++ (s.reply input).produced).length = s.written + (s.reply input).produced.length := by
    rw [List.length_append, hwritten]
  have hfed : s.fed + (s.reply input).consumed =
      s.read - s.chunk.length + (s.pos + (s.reply input).consumed) := Nat.add_assoc _ _ _
  unfold CompressState.settle
  by_cases hend : s.read = src.length ∧ hint = 0
  · obtain ⟨hlast', rfl⟩ := hend
    rw [if_neg (by simp [hsize, hlast']), if_pos (hlast'.trans hsize.symm), ← hlen]
    refine .compressed ⟨k, s.ctx, _, w, closing, _, hfeeds, hoffers, hlast.mpr hlast', ?_, ?_⟩ happended'
    · rwa [hreply]
    · rw [hreply]
  have hnext := hfeeds.call hoffers (by rwa [hreply]) fun h => hend ⟨hlast.mp h.1, h.2⟩
  rw [hreply, hrest, List.drop_drop, hfed] at hnext
  by_cases hlast' : s.read = src.length
  · rw [if_pos (hlast.mpr hlast')] at hnext
    rw [if_pos (by rw [if_pos (hlast'.trans hsize.symm)]; exact fun h => hend ⟨hlast', h⟩)]
    exact ⟨hread, hchunk, htaken, hcursor, fun hno => absurd hlast' hno, _, _, hnext, happended', hlen,
      .inr ⟨rfl, hlast'⟩⟩
  rw [if_neg (mt hlast.mp hlast')] at hnext
  have hno : ¬ s.read = input.size := hsize ▸ hlast'
  by_cases hdone : s.pos + (s.reply input).consumed = s.chunk.length
  · rw [if_neg (by simp [hno, hdone]), if_neg hno, nextChunk_serves hserves hsize hread, ok_bind]
    have htook : ((src.drop s.read).take (min Z.cStreamInSize (src.length - s.read))).length =
        min Z.cStreamInSize (src.length - s.read) := by
      rw [List.length_take, List.length_drop]
      omega
    refine ⟨?_, ?_, ?_, Nat.zero_le _, fun _ => ?_, _, none, ?_, happended', hlen, .inl rfl⟩
    · simp only [htook]
      omega
    · exact Nat.le_add_left _ _
    · simp only [Nat.add_sub_cancel, htook]
    · simp only [htook]
      omega
    · have hfed' : s.read - s.chunk.length + (s.pos + (s.reply input).consumed) =
          s.read + 0 := by omega
      simpa only [fed, Nat.add_sub_cancel, hfed'] using hnext
  · rw [if_pos (by rw [if_neg hno]; exact hdone)]
    exact ⟨hread, hchunk, htaken, hcursor, fun _ => Nat.lt_of_le_of_ne hcursor hdone, _, none, hnext,
      happended', hlen, .inl rfl⟩

end CompressState

theorem compressPass_feeds (hserves : input.Serves 0 src) (hsize : input.size = src.length)
    (hin : 0 < Z.cStreamInSize) {s : CompressState Z ω}
    (hs : s.Feeding write src out₀ ctx k) :
    Pass.Ends (CompressState.Feeding write src out₀ ctx (k+1))
      (CompressOutcome Z write src out₀ ctx passes) (compressPass Z write input s) := by
  obtain ⟨w, closing, hfeeds, happended, hwritten, hclosing⟩ := hs.feeds
  obtain ⟨hoffers, -, hreply⟩ := hs.offers hsize hclosing
  rw [compressPass_eq]
  cases hres : (s.reply input).result with
  | error e => exact .failed hfeeds hoffers (by rwa [hreply])
  | ok hint =>
    rw [zcheck_ok, ok_bind]
    cases hout : write s.out s.written (s.reply input).produced with
    | error e => exact .broken hfeeds hoffers happended (by rwa [hreply, hwritten])
    | ok answer =>
      rw [ok_bind]
      cases answer with
      | none => exact .abandoned hfeeds hoffers happended (by rwa [hreply, hwritten])
      | some out => exact hs.settle hserves hsize hin hres hout

theorem compress_outcome (hserves : input.Serves 0 src) (hsize : input.size = src.length)
    (hin : 0 < Z.cStreamInSize) {chunk : Bytes} (hsetup : pluginSetup Z heap input o = .ok (ctx, chunk)) :
    CompressOutcome Z write src out₀ ctx passes (compress Z write input heap passes o out₀) := by
  have hchunk : chunk = src.take (min Z.cStreamInSize src.length) := by
    have hopened := hsetup
    unfold pluginSetup at hopened
    cases hctx : Z.createCCtx with
    | none =>
      rw [hctx] at hopened
      cases hopened
    | some c =>
      rw [hctx] at hopened
      obtain ⟨-, -, hopened⟩ := bind_eq_ok.mp hopened
      obtain ⟨-, -, hopened⟩ := bind_eq_ok.mp hopened
      obtain ⟨c₁, -, hopened⟩ := bind_eq_ok.mp hopened
      obtain ⟨c₂, -, hopened⟩ := bind_eq_ok.mp hopened
      rw [nextChunk_serves hserves hsize (Nat.zero_le _), ok_bind] at hopened
      exact (Prod.mk.inj (Except.ok.inj hopened)).2.symm
  have hlen : chunk.length = min Z.cStreamInSize src.length := by
    rw [hchunk, List.length_take]
    omega
  rw [compress_eq_plugin, hsetup, ok_bind]
  have hstart : CompressState.Feeding write src out₀ ctx 0 ⟨ctx, chunk.length, chunk, 0, 0, out₀⟩ := by
    refine ⟨?_, Nat.le_refl _, ?_, Nat.zero_le _, fun hmore => ?_, [], none, ?_, .start, rfl, .inl rfl⟩
    · simp only [hlen]
      omega
    · simp only [Nat.sub_self, List.drop_zero, hlen]
      exact hchunk.symm
    · simp only [hlen] at hmore ⊢
      omega
    · simp only [CompressState.fed, Nat.sub_self]
      exact .start
  refine run_counted (fun k s hs => compressPass_feeds hserves hsize hin hs) hstart fun s hs => ?_
  rw [Nat.zero_add] at hs
  obtain ⟨w, closing, hfeeds, happended, -, -⟩ := hs.feeds
  exact .running hfeeds happended

end

theorem Safe.of_ok {α : Type} {P : α → Prop} {x : Cxx α} (h : Safe (fun _ => True) x)
    (hP : ∀ a, x = .ok a → P a) : Safe P x := by
  cases x with
  | error e =>
    cases e with
    | thrown t => trivial
    | halt h' => exact h
  | ok a => exact hP a rfl

theorem Safe.of_error {α β : Type} {P : α → Prop} {Q : β → Prop} {e : Fault}
    (h : Safe P (.error e)) : Safe Q (.error e) := by
  cases e with
  | thrown t => trivial
  | halt h' => exact h

theorem Output.write_safe (heap : Heap) (out : Output) (pos : Nat) (b : Bytes) :
    Safe (fun _ => True) (out.write heap pos b) := by
  by_cases hfits : (pos ≤ out.limit ∧ b.length ≤ out.limit - pos) ∧ pos ≤ out.bytes.size
  · obtain ⟨hlimit, hpos⟩ := hfits
    cases Output.write_cases heap out pos b (by omega) hpos with
    | inl h =>
      obtain ⟨out', h, -⟩ := h
      rw [h]
      trivial
    | inr h =>
      rw [h.1]
      trivial
  · unfold Output.write
    refine (safe_require _ _).bind fun _ hlimit => (safe_require _ _).bind fun _ hpos => ?_
    exact absurd ⟨hlimit, hpos⟩ hfits

theorem writeWithin_safe (heap : Heap) (offset limit : Nat) (out : Output) (pos : Nat) (b : Bytes) :
    Safe (fun _ => True) (writeWithin heap offset limit out pos b) := by
  unfold writeWithin
  split
  · trivial
  · exact (Output.write_safe heap out _ b).bind fun _ _ => trivial

theorem Appended.writeWithin_le {heap : Heap} {offset limit : Nat} {out₀ out : Output} {w : Bytes}
    (h : Appended (writeWithin heap offset limit) out₀ w out) :
    out.limit = out₀.limit ∧ w.length ≤ out₀.limit := by
  induction h with
  | start => exact ⟨rfl, Nat.zero_le _⟩
  | @write w b out out' _ hwrite ih =>
    obtain ⟨hlimit, -⟩ := ih
    have hgrows := (writeWithin_grows hwrite).1
    unfold writeWithin at hwrite
    split at hwrite
    · cases hwrite
    · obtain ⟨out₁, hwrite, -⟩ := bind_eq_ok.mp hwrite
      simp only [Output.write, bind_eq_ok, require_eq_ok] at hwrite
      obtain ⟨-, hfits, -⟩ := hwrite
      refine ⟨hgrows.trans hlimit, ?_⟩
      rw [List.length_append]
      omega

section
variable {Z : Zstd} {heap : Heap} {passes n : Nat} {o : Options}

theorem CompressOutcome.safe {ω : Type} {write : ω → Nat → Bytes → Cxx (Option ω)} {src : Bytes}
    {out₀ : ω} {ctx : Z.CCtx} {bound : Nat} (hprogress : Progresses Z.compressStream2)
    (hroom : 0 < Z.cStreamOutSize) (hwrite : ∀ out pos b, Safe (fun _ => True) (write out pos b))
    (hbound : ∀ w out, Appended write out₀ w out → w.length ≤ bound)
    (hpasses : src.length + bound < passes) {x : Cxx (Nat × ω)}
    (h : CompressOutcome Z write src out₀ ctx passes x) :
    Safe (fun y => ∃ w, Appended write out₀ w y.2 ∧ (y.1 = 0 ∨
      (y.1 = w.length ∧ Encodes Z.compressStream2 src Z.cStreamOutSize ctx w))) x := by
  cases h with
  | compressed hw happended => exact ⟨_, happended, .inr ⟨rfl, hw⟩⟩
  | abandoned _ _ happended _ => exact ⟨_, happended, .inl rfl⟩
  | failed => trivial
  | @broken n fed m c w closing out e _ _ _ he =>
    have hsafe := hwrite out w.length (offered Z.compressStream2 src Z.cStreamOutSize c fed m).produced
    rw [he] at hsafe
    exact hsafe.of_error
  | running hfeeds happended =>
    have hcalls := hfeeds.calls_le hprogress hroom
    have hfed := hfeeds.fed_le Z.compressStream2_within
    have hlen := hbound _ _ happended
    omega

theorem compress_safe {ω : Type} {write : ω → Nat → Bytes → Cxx (Option ω)} {input : StreamInput}
    {src : Bytes} {out₀ : ω} {bound : Nat} (hprogress : Progresses Z.compressStream2)
    (hin : 0 < Z.cStreamInSize) (hroom : 0 < Z.cStreamOutSize)
    (hserves : input.Serves 0 src) (hsize : input.size = src.length)
    (hwrite : ∀ out pos b, Safe (fun _ => True) (write out pos b))
    (hbound : ∀ w out, Appended write out₀ w out → w.length ≤ bound)
    (hpasses : src.length + bound < passes) :
    Safe (fun y => ∃ w, Appended write out₀ w y.2) (compress Z write input heap passes o out₀) := by
  have hsetup : Safe (fun _ => True) (pluginSetup Z heap input o) := pluginSetup_safe hserves hsize
  cases hcall : pluginSetup Z heap input o with
  | error e =>
    rw [compress_eq_plugin, hcall, error_bind]
    rw [hcall] at hsetup
    exact hsetup.of_error
  | ok x =>
    have houtcome : CompressOutcome Z write src out₀ x.1 passes
        (compress Z write input heap passes o out₀) := compress_outcome hserves hsize hin hcall
    refine (houtcome.safe hprogress hroom hwrite hbound hpasses).mono fun y hy => ?_
    obtain ⟨w, happended, -⟩ := hy
    exact ⟨w, happended⟩

def Diffing.Sources (n : Nat) : Diffing → Prop
  | .finish => True
  | .throws _ => True
  | .readNew _ _ k => ∀ r, (k r).Sources n
  | .readOld _ _ k => ∀ r, (k r).Sources n
  | .write _ _ k => k.Sources n
  | .compress input _ _ k =>
    (∃ src, input.Serves 0 src ∧ input.size = src.length ∧ src.length ≤ n) ∧ ∀ r, (k r).Sources n

/-- A diffing client comes to an end of its own, whatever it writes and wherever. -/
theorem Diffing.run_safe (hprogress : Progresses Z.compressStream2) (hin : 0 < Z.cStreamInSize)
    (hroom : 0 < Z.cStreamOutSize) {new old : StreamInput} {limit : Nat}
    (hpasses : n + limit < passes) (c : Diffing) (hc : c.Sources n) {out : Output}
    (hout : out.Bounded limit) :
    Safe (Output.Bounded limit) (c.run Z heap passes o new old out) := by
  induction c generalizing out with
  | finish => exact hout
  | throws t => trivial
  | readNew pos m k ih => exact (new.call_safe pos m).bind fun r _ => ih r (hc r) hout
  | readOld pos m k ih => exact (old.call_safe pos m).bind fun r _ => ih r (hc r) hout
  | write pos b k ih =>
    exact ((Output.write_safe heap out pos b).of_ok fun _ => Output.write_bounded hout).bind
      fun out' hout' => ih hc hout'
  | compress input offset bound k ih =>
    obtain ⟨⟨src, hserves, hsize, hlen⟩, hk⟩ := hc
    have hlimit := hout.1
    have hsafe : Safe (fun y => ∃ w, Appended (writeWithin heap offset bound) out w y.2)
        (Native.compress Z (writeWithin heap offset bound) input heap passes o out) :=
      compress_safe hprogress hin hroom hserves hsize (writeWithin_safe heap offset bound)
        (fun w out' h => h.writeWithin_le.2) (by omega)
    refine hsafe.bind fun y hy => ih y.1 (hk y.1) ?_
    obtain ⟨w, happended⟩ := hy
    exact happended.invariant writeWithin_bounded hout

theorem hdiffEncode_safe (H : HDiffPatch) {base target : Bytes} (hprogress : Progresses Z.compressStream2)
    (hin : 0 < Z.cStreamInSize) (hroom : 0 < Z.cStreamOutSize) (hpasses : n + payloadMax < passes)
    (hsources : (H.createSingleCompressedDiffBlock o.stepBytes o.fastBlockBytes o.matchScore).Sources n) :
    Safe (fun out => out.size ≤ payloadMax) (hdiffEncode Z H heap passes base target o) := by
  unfold hdiffEncode
  refine (safe_require _ _).bind fun _ _ => ?_
  exact (Diffing.run_safe hprogress hin hroom hpasses _ hsources ⟨rfl, Nat.zero_le _⟩).bind
    fun out hout => hout.2

end

end Pyhdiff.Native
