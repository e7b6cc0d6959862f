import Pyhdiff.Native.Streams
import Pyhdiff.Native.Zstd
import Pyhdiff.Streaming.Loop

/-! The decompression plugin: a decoder pulled by requests of any lengths. -/
namespace Pyhdiff.Native
open Streaming

/-- The plugin between `open` and `close`. `input` is the buffered part of the
source and `ipos` its cursor. -/
structure Decompress (Z : Zstd) where
  ctx : Z.DCtx
  source : StreamInput
  pos : Nat
  stop : Nat
  remaining : Nat
  input : Bytes
  ipos : Nat
  finished : Bool

namespace Decompress
variable {Z : Zstd}

def bufferSize : Nat := 65536

def opens (Z : Zstd) (size : Nat) (s : StreamInput) (b e : Nat) : Cxx (Decompress Z) := do
  require (b ≤ e ∧ e ≤ s.size ∧ size ≤ payloadMax) .invalid
  let some ctx := Z.createDCtx | .error (.thrown .badAlloc)
  let ctx ← zcheck (Z.dctxSetWindowLogMax ctx hdiffWindowLogMax)
  return ⟨ctx, s, b, e, size, [], 0, false⟩

def refill (self : Decompress Z) : Cxx (Decompress Z) := do
  if self.ipos ≠ self.input.length ∨ self.pos = self.stop then return self
  let n := min bufferSize (self.stop - self.pos)
  first bufferSize n
  let data ← self.source.fetch self.pos n
  return { self with pos := self.pos + n, input := data, ipos := 0 }

structure PartState (Z : Zstd) where
  self : Decompress Z
  written : Nat
  dst : OutObject

def took (self : Decompress Z) (k : Nat) (r : Reply Z.DCtx UInt8) : Decompress Z :=
  { self with ctx := r.ctx, ipos := self.ipos + r.consumed, finished := decide (k = 0) }

def partPass (n : Nat) (s : PartState Z) : Cxx (Pass (PartState Z) (PartState Z)) := do
  if ¬ s.written < n then return .stop s
  require (s.self.finished = false) .invalid
  let self ← s.self.refill
  let r := Z.decompressStream self.ctx (self.input.drop self.ipos) (n - s.written)
  let k ← zcheck r.result
  require (r.consumed ≠ 0 ∨ r.produced.length ≠ 0) .invalid
  return .next ⟨self.took k r, s.written + r.produced.length, s.dst.store s.written r.produced⟩

def unread (self : Decompress Z) : Nat :=
  (self.input.length - self.ipos) + (self.stop - self.pos)

/-- The call returns `hpatch_TRUE` or throws. -/
def decompressPart (self : Decompress Z) (n : Nat) : Cxx (Decompress Z × OutObject) := do
  require (n ≤ self.remaining) .invalid
  let s ← run (partPass n) (.halt .running) (self.unread + n + 1) ⟨self, 0, .fresh n⟩
  return ({ s.self with remaining := s.self.remaining - n }, s.dst)

/-- Consume the frame trailer without accepting additional output. -/
def closePass (self : Decompress Z) : Cxx (Pass (Decompress Z) (Decompress Z)) := do
  if self.finished then return .stop self
  let self ← self.refill
  let r := Z.decompressStream self.ctx (self.input.drop self.ipos) 1
  let k ← zcheck r.result
  require (r.produced.length = 0) .invalid
  require (k = 0 ∨ r.consumed ≠ 0) .invalid
  return .next (self.took k r)

def close (self : Decompress Z) : Cxx Bool := do
  if self.remaining ≠ 0 then return false
  let self ← run closePass (.halt .running) (self.unread + 2) self
  return self.pos = self.stop ∧ self.ipos = self.input.length

structure InRange (d : Decompress Z) : Prop where
  ipos : d.ipos ≤ d.input.length
  pos : d.pos ≤ d.stop

theorem InRange.took {self : Decompress Z} (h : self.InRange) {k : Nat} {r : Reply Z.DCtx UInt8}
    (hw : r.consumed ≤ (self.input.drop self.ipos).length) :
    (self.took k r).InRange ∧ (self.took k r).unread + r.consumed = self.unread := by
  obtain ⟨hipos, hpos⟩ := h
  simp only [List.length_drop] at hw
  refine ⟨⟨?_, hpos⟩, ?_⟩
  · simp only [Decompress.took]
    omega
  · simp only [Decompress.took, unread]
    omega

theorem refill_safe {self : Decompress Z} (h : self.InRange) :
    Safe (fun t => t.InRange ∧ t.unread = self.unread ∧ t.remaining = self.remaining ∧
      t.finished = self.finished) self.refill := by
  obtain ⟨hipos, hpos⟩ := h
  unfold refill
  split
  · exact ⟨⟨hipos, hpos⟩, rfl, rfl, rfl⟩
  · rename_i hempty
    simp only [not_or, not_not] at hempty
    dsimp only
    rw [first_ok (Nat.min_le_left _ _), ok_bind]
    refine (self.source.fetch_safe _ _).bind fun data hdata => ?_
    refine ⟨⟨Nat.zero_le _, ?_⟩, ?_, rfl, rfl⟩
    · simp only
      omega
    · simp only [unread, hdata]
      omega

structure PartState.Sound (n remaining : Nat) (s : PartState Z) : Prop where
  inRange : s.self.InRange
  wrote : ∃ o, s.dst.Wrote n o ∧ o.length = s.written
  remaining : s.self.remaining = remaining

def PartState.ahead (n : Nat) (s : PartState Z) : Nat := s.self.unread + (n - s.written)

theorem PartState.Sound.written {n remaining : Nat} {s : PartState Z} (h : s.Sound n remaining) :
    s.written ≤ n := by
  obtain ⟨o, ho, hlen⟩ := h.wrote
  have := ho.le
  omega

theorem partPass_safe {n remaining : Nat} {s : PartState Z} (hs : s.Sound n remaining) :
    Pass.Ends (fun t => t.Sound n remaining ∧ t.ahead n < s.ahead n)
      (Safe fun t => t.Sound n remaining ∧ t.written = n) (partPass n s) := by
  have hwritten := hs.written
  have ⟨hrange, ⟨o, ho, hlen⟩, hremaining⟩ := hs
  unfold partPass
  by_cases hmore : s.written < n
  · rw [if_neg (not_not.mpr hmore)]
    simp only [require_bind]
    split
    · refine (refill_safe hrange).ends fun self hself => ?_
      obtain ⟨hrange', hunread, hremaining', -⟩ := hself
      have hw := Z.decompressStream_within self.ctx (self.input.drop self.ipos) (n - s.written)
      generalize Z.decompressStream self.ctx (self.input.drop self.ipos) (n - s.written) = r at hw
      refine (safe_zcheck r.result).ends fun k _ => ?_
      obtain ⟨hrange'', hmoved⟩ := hrange'.took (k := k) hw.1
      split
      · rename_i hmove
        have hroom : o.length + r.produced.length ≤ n := by
          have := hw.2
          omega
        refine ⟨⟨hrange'', ⟨o ++ r.produced, ?_, ?_⟩, ?_⟩, ?_⟩
        · simp only
          rw [← hlen]
          exact ho.store hroom
        · simp only [List.length_append, hlen]
        · exact hremaining'.trans hremaining
        · simp only [PartState.ahead]
          omega
      · trivial
    · trivial
  · rw [if_pos hmore]
    exact ⟨hs, by omega⟩

/-- Whatever decoder and source do, a request ends, and returns only with its
whole destination written, each byte once and in order. -/
theorem decompressPart_safe {self : Decompress Z} (h : self.InRange) (n : Nat) :
    Safe (fun x => n ≤ self.remaining ∧ x.1.InRange ∧ x.1.remaining = self.remaining - n ∧
      ∃ o, x.2.Wrote n o ∧ o.length = n) (self.decompressPart n) := by
  unfold decompressPart
  refine (safe_require _ _).bind fun _ hle => ?_
  have hloop : Safe (fun t : PartState Z => t.Sound n self.remaining ∧ t.written = n)
      (run (partPass n) (.halt .running) (self.unread + n + 1) ⟨self, 0, .fresh n⟩) :=
    run_ends _ _ (PartState.Sound n self.remaining) (PartState.ahead n) _
      (fun _ => partPass_safe) _ _ ⟨h, ⟨[], OutObject.fresh_wrote n, rfl⟩, rfl⟩
      (Nat.lt_succ_self _)
  refine hloop.bind fun s ⟨hs, hfull⟩ => ?_
  obtain ⟨o, ho, hlen⟩ := hs.wrote
  exact ⟨hle, ⟨hs.inRange.ipos, hs.inRange.pos⟩, by simp only [hs.remaining], o, ho,
    hlen.trans hfull⟩

def trailer (self : Decompress Z) : Nat := self.unread + if self.finished then 0 else 1

theorem closePass_safe {self : Decompress Z} (h : self.InRange) :
    Pass.Ends (fun t => t.InRange ∧ t.trailer < self.trailer)
      (Safe fun t => t.InRange ∧ t.finished = true) self.closePass := by
  unfold closePass
  by_cases hfinished : self.finished = true
  · rw [if_pos hfinished]
    exact ⟨h, hfinished⟩
  · rw [if_neg hfinished]
    refine (refill_safe h).ends fun t ⟨hrange, hunread, _, _⟩ => ?_
    have hw := Z.decompressStream_within t.ctx (t.input.drop t.ipos) 1
    generalize Z.decompressStream t.ctx (t.input.drop t.ipos) 1 = r at hw
    refine (safe_zcheck r.result).ends fun k _ => ?_
    obtain ⟨hrange', hmoved⟩ := hrange.took (k := k) hw.1
    simp only [require_bind]
    split
    · split
      · rename_i hmove
        refine ⟨hrange', ?_⟩
        have hk : (t.took k r).finished = decide (k = 0) := rfl
        simp only [trailer, hk, if_neg hfinished, decide_eq_true_eq]
        split
        · omega
        · omega
      · trivial
    · trivial

theorem close_safe {self : Decompress Z} (h : self.InRange) :
    Safe (fun verdict => verdict = true → self.remaining = 0) self.close := by
  unfold close
  split
  · intro h
    cases h
  · rename_i hnone
    have hloop : Safe (fun t : Decompress Z => t.InRange ∧ t.finished = true)
        (run closePass (.halt .running) (self.unread + 2) self) :=
      run_ends _ _ InRange trailer _ (fun _ => closePass_safe) _ _ h (by
        unfold trailer
        split <;> omega)
    exact hloop.bind fun t _ _ => not_not.mp hnone

theorem opens_safe (Z : Zstd) (size : Nat) (s : StreamInput) (b e : Nat) :
    Safe (fun self : Decompress Z => self.InRange) (opens Z size s b e) := by
  unfold opens
  refine (safe_require _ _).bind fun _ hrange => ?_
  cases Z.createDCtx with
  | none => trivial
  | some ctx => exact (safe_zcheck _).bind fun ctx _ => ⟨Nat.le_refl _, hrange.1⟩

/-- The plugin works through the range of its source from `b` to `e`: what it
fetched is in part behind the decoder, which gave out `out` for it, and the rest
is in the buffer. -/
structure Drawing (d : Decompress Z) (source : StreamInput) (b e : Nat) (ctx : Z.DCtx) (out : Bytes) :
    Prop where
  source_eq : d.source = source
  stop_eq : d.stop = e
  drawn : ∃ w read, source.Fetched b d.pos w ∧ Draws Z.decompressStream w ctx d.ctx read out ∧
    read ≤ w.length ∧ w.drop read = d.input.drop d.ipos

section
variable {source : StreamInput} {b e : Nat} {ctx : Z.DCtx} {out : Bytes} {d : Decompress Z}

theorem opens_drawing {size : Nat} (h : opens Z size source b e = .ok d) :
    d.Drawing source b e d.ctx [] := by
  simp only [opens, bind_eq_ok] at h
  obtain ⟨-, -, h⟩ := h
  cases hctx : Z.createDCtx with
  | none => simp [hctx] at h
  | some ctx =>
    simp only [hctx, bind_eq_ok] at h
    obtain ⟨ctx₁, -, h⟩ := h
    obtain rfl := Except.ok.inj h
    exact ⟨rfl, rfl, [], 0, .start, .start, Nat.le_refl _, rfl⟩

theorem Drawing.refill (h : d.Drawing source b e ctx out) {t : Decompress Z} (hrefill : d.refill = .ok t) :
    t.Drawing source b e ctx out := by
  unfold Decompress.refill at hrefill
  split at hrefill
  · obtain rfl := Except.ok.inj hrefill
    exact h
  · rename_i hempty
    simp only [ne_eq, not_or, not_not] at hempty
    simp only [bind_eq_ok] at hrefill
    obtain ⟨-, -, data, hdata, hrefill⟩ := hrefill
    obtain rfl := Except.ok.inj hrefill
    obtain ⟨hsource, hstop, w, read, hfetched, hdraws, hread, hrest⟩ := h
    -- the buffer is used up, so all that was fetched is behind the decoder
    rw [List.drop_eq_nil_of_le (Nat.le_of_eq hempty.1.symm)] at hrest
    have hall : read = w.length := Nat.le_antisymm hread (List.drop_eq_nil_iff.mp hrest)
    rw [hsource] at hdata
    refine ⟨hsource, hstop, w ++ data, read, hfetched.piece hdata, hdraws.append data, ?_, ?_⟩
    · rw [List.length_append]
      omega
    · rw [hall, List.drop_left, List.drop_zero]

theorem Drawing.took (h : d.Drawing source b e ctx out) {room k : Nat} {r : Reply Z.DCtx UInt8}
    (hr : r = Z.decompressStream d.ctx (d.input.drop d.ipos) room) (hres : r.result = .ok k) :
    (d.took k r).Drawing source b e ctx (out ++ r.produced) := by
  obtain ⟨hsource, hstop, w, read, hfetched, hdraws, hread, hrest⟩ := h
  have hw : r.consumed ≤ (d.input.drop d.ipos).length := by
    rw [hr]
    exact (Z.decompressStream_within _ _ _).1
  rw [← hrest] at hw hr
  subst hr
  refine ⟨hsource, hstop, w, _, hfetched, hdraws.call (List.prefix_refl _) hres, ?_, ?_⟩
  · rw [List.length_drop] at hw
    omega
  · simp only [Decompress.took]
    rw [← List.drop_drop, hrest, List.drop_drop]

theorem partPass_drawing {n : Nat} {s : PartState Z}
    (h : ∃ o, s.self.Drawing source b e ctx (out ++ o) ∧ s.dst.Wrote n o ∧ o.length = s.written) :
    Pass.Ends (fun t => ∃ o, t.self.Drawing source b e ctx (out ++ o) ∧ t.dst.Wrote n o ∧
        o.length = t.written)
      (fun x => ∀ t, x = .ok t → ∃ o, t.self.Drawing source b e ctx (out ++ o) ∧ t.dst.Wrote n o ∧
        o.length = n) (partPass n s) := by
  obtain ⟨o, hdrawing, ho, hlen⟩ := h
  unfold partPass
  by_cases hmore : s.written < n
  · rw [if_neg (not_not.mpr hmore)]
    refine .of_ok (fun t ht => ?_) fun t ht => ?_
    · simp only [bind_eq_ok, zcheck_eq_ok] at ht
      obtain ⟨-, -, self, hrefill, k, hres, -, -, ht⟩ := ht
      obtain rfl := Pass.next.inj (Except.ok.inj ht)
      have hw := (Z.decompressStream_within self.ctx (self.input.drop self.ipos) (n - s.written)).2
      have htook := (hdrawing.refill hrefill).took rfl hres
      rw [List.append_assoc] at htook
      generalize Z.decompressStream self.ctx (self.input.drop self.ipos) (n - s.written) = r at *
      refine ⟨_, htook, ?_, ?_⟩
      · simp only
        rw [← hlen]
        exact ho.store (by omega)
      · rw [List.length_append, hlen]
    · simp only [bind_eq_ok] at ht
      obtain ⟨-, -, self, -, k, -, -, -, ht⟩ := ht
      cases ht
  · rw [if_pos hmore]
    rintro t ⟨⟩
    have := ho.le
    exact ⟨o, hdrawing, ho, by omega⟩

theorem decompressPart_drawing (h : d.Drawing source b e ctx out) {n : Nat} {d' : Decompress Z}
    {dst : OutObject} (hpart : d.decompressPart n = .ok (d', dst)) :
    ∃ o, d'.Drawing source b e ctx (out ++ o) ∧ dst.Wrote n o ∧ o.length = n := by
  simp only [decompressPart, bind_eq_ok] at hpart
  obtain ⟨-, -, s, hrun, hpart⟩ := hpart
  obtain ⟨rfl, rfl⟩ := Prod.mk.inj (Except.ok.inj hpart)
  have hloop := run_partial (partPass n) (.halt .running) _ _ (fun _ h => by cases h)
    (fun s => partPass_drawing) _ _ ⟨[], by rwa [List.append_nil], OutObject.fresh_wrote n, rfl⟩ s hrun
  obtain ⟨o, ⟨hsource, hstop, hdrawn⟩, ho, hlen⟩ := hloop
  exact ⟨o, ⟨hsource, hstop, hdrawn⟩, ho, hlen⟩

theorem close_drawing (h : d.Drawing source b e ctx out) (hclose : d.close = .ok true) :
    ∃ w ctx', source.Fetched b e w ∧ Draws Z.decompressStream w ctx ctx' w.length out := by
  unfold close at hclose
  split at hclose
  · cases hclose
  rw [bind_eq_ok] at hclose
  obtain ⟨t, hrun, hverdict⟩ := hclose
  have hloop : t.Drawing source b e ctx out := by
    refine run_partial closePass (.halt .running) (fun d => d.Drawing source b e ctx out)
      (fun x => ∀ t, x = .ok t → t.Drawing source b e ctx out) nofun (fun d hd => ?_) _ _ h t hrun
    unfold closePass
    by_cases hfinished : d.finished = true
    · rw [if_pos hfinished]
      rintro t ⟨⟩
      exact hd
    rw [if_neg hfinished]
    refine .of_ok (fun t ht => ?_) fun t ht => ?_
    · simp only [bind_eq_ok, zcheck_eq_ok, require_eq_ok, List.length_eq_zero_iff] at ht
      obtain ⟨self, hrefill, k, hres, -, hnone, -, -, ht⟩ := ht
      obtain rfl := Pass.next.inj (Except.ok.inj ht)
      have htook := (hd.refill hrefill).took rfl hres
      rwa [hnone, List.append_nil] at htook
    · simp only [bind_eq_ok] at ht
      obtain ⟨self, -, k, -, -, -, -, -, ht⟩ := ht
      cases ht
  obtain ⟨hpos, hipos⟩ : t.pos = t.stop ∧ t.ipos = t.input.length := by
    simpa using Except.ok.inj hverdict
  obtain ⟨-, rfl, w, read, hfetched, hdraws, hread, hrest⟩ := hloop
  rw [List.drop_eq_nil_of_le (Nat.le_of_eq hipos.symm)] at hrest
  obtain rfl : read = w.length := Nat.le_antisymm hread (List.drop_eq_nil_iff.mp hrest)
  exact ⟨w, t.ctx, hpos ▸ hfetched, hdraws⟩

end

def rest (self : Decompress Z) (b : Nat) (w : Bytes) : Bytes :=
  self.input.drop self.ipos ++ w.drop (self.pos - b)

/-- The plugin works through the range `w` from offset `b` of its source and has
shown the decoder `seen` of it. -/
structure Tracks (d : Decompress Z) (b : Nat) (w seen : Bytes) : Prop where
  ipos : d.ipos ≤ d.input.length
  start : b ≤ d.pos
  pos : d.pos ≤ d.stop
  stop : d.stop = b + w.length
  serves : d.source.Serves b w
  split : w = seen ++ d.rest b w

theorem refill_tracks {d : Decompress Z} {b : Nat} {w seen : Bytes} (h : d.Tracks b w seen) :
    ∃ t, d.refill = .ok t ∧ t.Tracks b w seen ∧ t.rest b w = d.rest b w ∧ t.ctx = d.ctx ∧
      t.remaining = d.remaining ∧ (t.input.drop t.ipos = [] → t.rest b w = []) := by
  obtain ⟨hipos, hstart, hpos, hstop, hserves, hsplit⟩ := h
  unfold refill
  by_cases hkeep : d.ipos ≠ d.input.length ∨ d.pos = d.stop
  · rw [if_pos hkeep]
    refine ⟨d, rfl, ⟨hipos, hstart, hpos, hstop, hserves, hsplit⟩, rfl, rfl, rfl, fun hnil => ?_⟩
    cases hkeep with
    | inl hkeep =>
      have := List.drop_eq_nil_iff.mp hnil
      omega
    | inr hend =>
      rw [rest, hnil, List.nil_append]
      exact List.drop_eq_nil_of_le (by omega)
  · rw [if_neg hkeep]
    simp only [ne_eq, not_or, not_not] at hkeep
    dsimp only
    have hfetch : d.source.fetch d.pos (min bufferSize (d.stop - d.pos)) =
        .ok ((w.drop (d.pos - b)).take (min bufferSize (d.stop - d.pos))) := by
      have := hserves.fetch (d.pos - b) (min bufferSize (d.stop - d.pos)) (by omega)
      rwa [Nat.add_sub_cancel' hstart] at this
    rw [first_ok (Nat.min_le_left _ _), ok_bind, hfetch, ok_bind]
    have hempty : d.input.drop d.ipos = [] := List.drop_eq_nil_of_le (Nat.le_of_eq hkeep.1.symm)
    have hrest : ((w.drop (d.pos - b)).take (min bufferSize (d.stop - d.pos))).drop 0 ++
        w.drop (d.pos + min bufferSize (d.stop - d.pos) - b) = d.rest b w := by
      rw [rest, hempty, List.nil_append, List.drop_zero,
        Nat.sub_add_comm hstart, ← List.drop_drop, List.take_append_drop]
    refine ⟨_, rfl, ⟨Nat.zero_le _, ?_, ?_, hstop, hserves, ?_⟩, hrest, rfl, rfl, fun hnil => ?_⟩
    · simp only
      omega
    · simp only
      omega
    · rw [rest, hrest]
      exact hsplit
    · have hlen := congrArg List.length hnil
      simp only [List.drop_zero, List.length_take, List.length_drop, List.length_nil] at hlen
      unfold bufferSize at hlen
      omega

theorem Tracks.took {d : Decompress Z} {b : Nat} {w seen : Bytes} (h : d.Tracks b w seen) {k : Nat}
    {r : Reply Z.DCtx UInt8} (hw : r.consumed ≤ (d.input.drop d.ipos).length) :
    (d.took k r).Tracks b w (seen ++ (d.input.drop d.ipos).take r.consumed) ∧
      (d.took k r).rest b w = (d.rest b w).drop r.consumed := by
  have hrest : (d.took k r).rest b w = (d.rest b w).drop r.consumed := by
    simp only [rest, Decompress.took]
    rw [List.drop_append_of_le_length hw, List.drop_drop]
  have hipos : d.ipos + r.consumed ≤ d.input.length := by
    have := h.ipos
    rw [List.length_drop] at hw
    omega
  refine ⟨⟨hipos, h.start, h.pos, h.stop, h.serves, ?_⟩, hrest⟩
  have htake : (d.input.drop d.ipos).take r.consumed = (d.rest b w).take r.consumed := by
    rw [rest, List.take_append_of_le_length hw]
  rw [hrest, htake, List.append_assoc, List.take_append_drop]
  exact h.split

def PartState.advance (s : PartState Z) (t : Decompress Z) (k : Nat) (r : Reply Z.DCtx UInt8) :
    PartState Z :=
  ⟨t.took k r, s.written + r.produced.length, s.dst.store s.written r.produced⟩

/-- Everything a pass can do on a range that is served: refill, then report the
decoder's error, refuse a stall, or advance. -/
theorem partPass_cases {n b : Nat} {w seen : Bytes} {s : PartState Z} (h : s.self.Tracks b w seen)
    (hmore : s.written < n) (hgoing : s.self.finished = false) :
    ∃ t : Decompress Z, t.Tracks b w seen ∧ t.rest b w = s.self.rest b w ∧ t.ctx = s.self.ctx ∧
      t.remaining = s.self.remaining ∧ (t.input.drop t.ipos = [] → t.rest b w = []) ∧
      let r := Z.decompressStream t.ctx (t.input.drop t.ipos) (n - s.written)
      (∃ e, r.result = .error e ∧ partPass n s = zcheck (.error e)) ∨
      (r.consumed = 0 ∧ r.produced = [] ∧ partPass n s = fail .invalid) ∨
      (∃ k, r.result = .ok k ∧ (r.consumed ≠ 0 ∨ r.produced ≠ []) ∧
        partPass n s = .ok (.next (s.advance t k r))) := by
  obtain ⟨t, hrefill, ht, hrest, hctx, hremaining, hshown⟩ := refill_tracks h
  refine ⟨t, ht, hrest, hctx, hremaining, hshown, ?_⟩
  intro r
  have hpass : partPass n s = (do
      let k ← zcheck r.result
      require (r.consumed ≠ 0 ∨ r.produced.length ≠ 0) .invalid
      return .next (s.advance t k r)) := by
    unfold partPass
    rw [if_neg (not_not.mpr hmore)]
    simp only [require_bind, if_pos hgoing, hrefill, ok_bind]
    rfl
  cases hres : r.result with
  | error e => exact .inl ⟨e, rfl, by rw [hpass, hres]; rfl⟩
  | ok k =>
    right
    rw [hres] at hpass
    simp only [zcheck_ok, ok_bind, require_bind] at hpass
    by_cases hmove : r.consumed ≠ 0 ∨ r.produced ≠ []
    · rw [if_pos (by simpa using hmove)] at hpass
      exact .inr ⟨k, rfl, hmove, hpass⟩
    · rw [if_neg (by simpa using hmove)] at hpass
      simp only [ne_eq, not_or, not_not] at hmove
      exact .inl ⟨hmove.1, hmove.2, hpass⟩

theorem closePass_cases {b : Nat} {w seen : Bytes} {d : Decompress Z} (h : d.Tracks b w seen)
    (hgoing : d.finished = false) :
    ∃ t : Decompress Z, t.Tracks b w seen ∧ t.rest b w = d.rest b w ∧ t.ctx = d.ctx ∧
      (t.input.drop t.ipos = [] → t.rest b w = []) ∧
      let r := Z.decompressStream t.ctx (t.input.drop t.ipos) 1
      (∃ e, r.result = .error e ∧ d.closePass = zcheck (.error e)) ∨
      ((r.produced ≠ [] ∨ ∃ k, r.result = .ok (k+1) ∧ r.consumed = 0) ∧
        d.closePass = fail .invalid) ∨
      (∃ k, r.result = .ok k ∧ r.produced = [] ∧ (k = 0 ∨ r.consumed ≠ 0) ∧
        d.closePass = .ok (.next (t.took k r))) := by
  obtain ⟨t, hrefill, ht, hrest, hctx, -, hshown⟩ := refill_tracks h
  refine ⟨t, ht, hrest, hctx, hshown, ?_⟩
  intro r
  have hpass : d.closePass = (do
      let k ← zcheck r.result
      require (r.produced.length = 0) .invalid
      require (k = 0 ∨ r.consumed ≠ 0) .invalid
      return .next (t.took k r)) := by
    unfold closePass
    rw [if_neg (by simp [hgoing]), hrefill]
    rfl
  cases hres : r.result with
  | error e => exact .inl ⟨e, rfl, by rw [hpass, hres]; rfl⟩
  | ok k =>
    right
    rw [hres] at hpass
    simp only [zcheck_ok, ok_bind, require_bind] at hpass
    by_cases hnone : r.produced = []
    · rw [if_pos (by simpa using hnone)] at hpass
      by_cases hmove : k = 0 ∨ r.consumed ≠ 0
      · rw [if_pos hmove] at hpass
        exact .inr ⟨k, rfl, hnone, hmove, hpass⟩
      · rw [if_neg hmove] at hpass
        simp only [ne_eq, not_or, not_not] at hmove
        obtain ⟨k, rfl⟩ := Nat.exists_eq_succ_of_ne_zero hmove.1
        exact .inl ⟨.inr ⟨k, rfl, hmove.2⟩, hpass⟩
    · rw [if_neg (by simpa using hnone)] at hpass
      exact .inl ⟨.inl hnone, hpass⟩

section
variable {F : Format UInt8} (L : LawfulDecoder F Z.decompressStream) (P : Frame UInt8 → Prop)

def config : DecoderConfig UInt8 := ⟨[], hdiffWindowLogMax⟩

/-- The decoder has taken `seen` and given out `o`: all of a frame once it is
finished, and part of one before. -/
def Decoded (d : Decompress Z) (seen o : Bytes) : Prop :=
  (d.finished = false ∧ L.At d.ctx config seen o) ∨
  (d.finished = true ∧ ∃ f, F.frame [] seen = some f ∧ P f ∧ f.content = o)

/-- The decoder still has to give out `left`. -/
def Owes (d : Decompress Z) (b : Nat) (w left : Bytes) : Prop :=
  (d.finished = false ∧ L.Midway d.ctx config (d.rest b w) left) ∨
  (d.finished = true ∧ d.rest b w = [] ∧ left = [])

variable {L P}

theorem Decoded.took (hP : L.EndsOnly config P) {d t : Decompress Z} {seen o : Bytes}
    (h : L.At d.ctx config seen o) (hctx : t.ctx = d.ctx) {room k : Nat} {r : Reply Z.DCtx UInt8}
    (hr : r = Z.decompressStream t.ctx (t.input.drop t.ipos) room) (hres : r.result = .ok k) :
    Decoded L P (t.took k r) (seen ++ (t.input.drop t.ipos).take r.consumed) (o ++ r.produced) := by
  rw [hctx] at hr
  subst hr
  cases k with
  | zero =>
    obtain ⟨⟨f, hf, hcontent⟩, -⟩ := L.ended h hres
    exact .inr ⟨rfl, f, hf, hP h hres hf, hcontent⟩
  | succ k => exact .inl ⟨rfl, L.continued h hres⟩

theorem Owes.took {d t : Decompress Z} {b : Nat} {w seen left : Bytes}
    (h : L.Midway d.ctx config (d.rest b w) left) (ht : t.Tracks b w seen)
    (hrest : t.rest b w = d.rest b w) (hctx : t.ctx = d.ctx)
    (hshown : t.input.drop t.ipos = [] → t.rest b w = []) {room : Nat} (hroom : 0 < room)
    {r : Reply Z.DCtx UInt8} (hr : r = Z.decompressStream t.ctx (t.input.drop t.ipos) room) :
    ∃ k left', r.result = .ok k ∧ left = r.produced ++ left' ∧ Owes L (t.took k r) b w left' ∧
      (r.consumed ≠ 0 ∨ r.produced ≠ []) := by
  have hw : r.consumed ≤ (t.input.drop t.ipos).length := by
    rw [hr]
    exact (Z.decompressStream_within _ _ _).1
  have hafter := fun k => (ht.took (k := k) hw).2
  rw [← hctx, ← hrest] at h
  rcases h.step hroom (.inl (List.prefix_append _ _)) hr with
    ⟨hres, hcons, hprod, -⟩ | ⟨k, left', hres, hcons, hsplit, hmid, hmove⟩
  · refine ⟨0, [], hres, by rw [hprod, List.append_nil], .inr ⟨rfl, ?_, rfl⟩, ?_⟩
    · rw [hafter, hcons, List.drop_length]
    · cases h.not_done with
      | inl hne =>
        left
        have := List.length_pos_iff.mpr hne
        omega
      | inr hne => exact .inr (hprod ▸ hne)
  · refine ⟨k+1, left', hres, hsplit, .inl ⟨rfl, ?_⟩, ?_⟩
    · rw [hafter]
      exact hmid
    · refine (hmove ?_).imp_left Nat.pos_iff_ne_zero.mp
      by_cases hnil : t.input.drop t.ipos = []
      · exact .inr (hshown hnil)
      · exact .inl hnil

theorem decompressPart_ok {d d' : Decompress Z} {n : Nat} {dst : OutObject} :
    d.decompressPart n = .ok (d', dst) ↔ n ≤ d.remaining ∧ ∃ s : PartState Z,
      run (partPass n) (.halt .running) (d.unread + n + 1) ⟨d, 0, .fresh n⟩ = .ok s ∧
      d' = { s.self with remaining := s.self.remaining - n } ∧ dst = s.dst := by
  simp only [decompressPart, bind_eq_ok, require_eq_ok]
  constructor
  · rintro ⟨-, hle, s, hrun, h⟩
    obtain ⟨rfl, rfl⟩ := Prod.mk.inj (Except.ok.inj h)
    exact ⟨hle, s, hrun, rfl, rfl⟩
  · rintro ⟨hle, s, hrun, rfl, rfl⟩
    exact ⟨(), hle, s, hrun, rfl⟩

/-- Soundness of a request: what it delivers is what the decoder has given out since. -/
theorem decompressPart_sound (hP : L.EndsOnly config P) {d d' : Decompress Z} {b n : Nat}
    {w seen o : Bytes} {dst : OutObject} (ht : d.Tracks b w seen) (hd : Decoded L P d seen o)
    (h : d.decompressPart n = .ok (d', dst)) :
    ∃ seen' out, d'.Tracks b w seen' ∧ Decoded L P d' seen' (o ++ out) ∧ out.length = n ∧
      dst = ⟨out.map some, List.range n⟩ ∧ d'.remaining + n = d.remaining := by
  obtain ⟨hle, s, hrun, rfl, rfl⟩ := decompressPart_ok.mp h
  have hloop : ∃ seen' out, s.self.Tracks b w seen' ∧ Decoded L P s.self seen' (o ++ out) ∧
      s.dst.Wrote n out ∧ out.length = n ∧ s.self.remaining = d.remaining := by
    refine run_partial (partPass n) (.halt .running)
      (fun s => ∃ seen' out, s.self.Tracks b w seen' ∧ Decoded L P s.self seen' (o ++ out) ∧
        s.dst.Wrote n out ∧ out.length = s.written ∧ s.self.remaining = d.remaining)
      (fun x => ∀ s, x = .ok s → ∃ seen' out, s.self.Tracks b w seen' ∧
        Decoded L P s.self seen' (o ++ out) ∧ s.dst.Wrote n out ∧ out.length = n ∧
        s.self.remaining = d.remaining)
      (by simp) ?_ _ _ ⟨seen, [], ht, by simpa using hd, OutObject.fresh_wrote n, rfl, rfl⟩ s hrun
    rintro s ⟨seen', out, ht, hd, hwrote, hlen, hremaining⟩
    by_cases hmore : s.written < n
    · cases hd with
      | inl h =>
        obtain ⟨hgoing, hat⟩ := h
        obtain ⟨t, htracks, -, hctx, hsame, -, hpass⟩ := partPass_cases ht hmore hgoing
        have hw := Z.decompressStream_within t.ctx (t.input.drop t.ipos) (n - s.written)
        rcases hpass with ⟨e, -, h⟩ | ⟨-, -, h⟩ | ⟨k, hres, -, h⟩
        · simp [h, zcheck_error, fail, Pass.Ends]
        · simp [h, fail, Pass.Ends]
        · have hdecoded := Decoded.took hP hat hctx rfl hres
          have hstore := hwrote.store (c := (Z.decompressStream t.ctx (t.input.drop t.ipos)
            (n - s.written)).produced) (by
              have := hw.2
              omega)
          rw [List.append_assoc] at hdecoded
          rw [hlen] at hstore
          rw [h]
          exact ⟨_, _, (htracks.took (k := k) hw.1).1, hdecoded, hstore,
            by simp only [PartState.advance, List.length_append, hlen], hsame.trans hremaining⟩
      | inr h =>
        obtain ⟨hfinished, -⟩ := h
        unfold partPass
        rw [if_neg (not_not.mpr hmore)]
        simp [hfinished, fail, Pass.Ends]
    · unfold partPass
      rw [if_pos hmore]
      rintro s' ⟨⟩
      have := hwrote.le
      exact ⟨seen', out, ht, hd, hwrote, by omega, hremaining⟩
  obtain ⟨seen', out, ht', hd', hwrote, hlen, hremaining⟩ := hloop
  exact ⟨seen', out, ⟨ht'.ipos, ht'.start, ht'.pos, ht'.stop, ht'.serves, ht'.split⟩, hd', hlen,
    hwrote.full hlen, by simp only; omega⟩

theorem decompressPart_complete {d : Decompress Z} {b n : Nat} {w seen left : Bytes}
    (ht : d.Tracks b w seen) (howes : Owes L d b w left) (hle : n ≤ d.remaining)
    (hn : n ≤ left.length) :
    ∃ d' dst seen', d.decompressPart n = .ok (d', dst) ∧ d'.Tracks b w seen' ∧
      Owes L d' b w (left.drop n) ∧ dst.cells = (left.take n).map some ∧
      d'.remaining + n = d.remaining := by
  have hloop : ∃ s : PartState Z, run (partPass n) (.halt .running) (d.unread + n + 1)
      ⟨d, 0, .fresh n⟩ = .ok s ∧ ∃ seen', s.self.Tracks b w seen' ∧
      Owes L s.self b w (left.drop n) ∧ s.dst.Wrote n (left.take n) ∧
      s.self.remaining = d.remaining := by
    refine run_ends (partPass n) (.halt .running)
      (fun s => s.Sound n d.remaining ∧ ∃ seen', s.self.Tracks b w seen' ∧
        Owes L s.self b w (left.drop s.written) ∧ s.dst.Wrote n (left.take s.written))
      (PartState.ahead n)
      (fun x => ∃ s : PartState Z, x = .ok s ∧ ∃ seen', s.self.Tracks b w seen' ∧
        Owes L s.self b w (left.drop n) ∧ s.dst.Wrote n (left.take n) ∧
        s.self.remaining = d.remaining)
      ?_ _ _ ⟨⟨⟨ht.ipos, ht.pos⟩, ⟨[], OutObject.fresh_wrote n, rfl⟩, rfl⟩, seen, ht,
        by simpa using howes, by simpa using OutObject.fresh_wrote n⟩ (Nat.lt_succ_self _)
    rintro s ⟨hs, seen', ht, howes, hwrote⟩
    have hle := hs.written
    by_cases hmore : s.written < n
    · cases howes with
      | inl h =>
        obtain ⟨hgoing, hmid⟩ := h
        obtain ⟨t, htracks, hrest, hctx, -, hshown, hpass⟩ := partPass_cases ht hmore hgoing
        have hw := Z.decompressStream_within t.ctx (t.input.drop t.ipos) (n - s.written)
        obtain ⟨k, left', hres, hleft, howes', hmove⟩ :=
          Owes.took hmid htracks hrest hctx hshown (Nat.sub_pos_of_lt hmore) rfl
        rcases hpass with ⟨e, hres', -⟩ | ⟨hcons, hprod, -⟩ | ⟨k', hres', -, h⟩
        · simp [hres] at hres'
        · simp [hcons, hprod] at hmove
        · obtain rfl : k = k' := Except.ok.inj (hres.symm.trans hres')
          have hsafe := partPass_safe hs
          rw [h] at hsafe ⊢
          refine ⟨⟨hsafe.1, _, (htracks.took (k := k) hw.1).1, ?_, ?_⟩, hsafe.2⟩
          · simp only [PartState.advance]
            rw [← List.drop_drop, hleft, List.drop_left]
            exact howes'
          · have hlen : (left.take s.written).length = s.written := by
              rw [List.length_take]
              omega
            have hstore := hwrote.store (c := (Z.decompressStream t.ctx (t.input.drop t.ipos)
              (n - s.written)).produced) (by
                have := hw.2
                omega)
            rw [hlen] at hstore
            simp only [PartState.advance]
            rw [List.take_add, hleft, List.take_left]
            exact hstore
      | inr h =>
        obtain ⟨-, -, hnil⟩ := h
        have := List.drop_eq_nil_iff.mp hnil
        omega
    · obtain rfl : s.written = n := by omega
      unfold partPass
      rw [if_pos hmore]
      exact ⟨s, rfl, seen', ht, howes, hwrote, hs.remaining⟩
  obtain ⟨s, hrun, seen', ht', howes', hwrote, hremaining⟩ := hloop
  have hlen : (left.take n).length = n := by
    rw [List.length_take]
    omega
  refine ⟨_, _, seen', decompressPart_ok.mpr ⟨hle, s, hrun, rfl, rfl⟩,
    ⟨ht'.ipos, ht'.start, ht'.pos, ht'.stop, ht'.serves, ht'.split⟩, howes', ?_, ?_⟩
  · rw [hwrote.full hlen]
  · simp only
    omega

/-- Soundness of closing: the whole range is one frame, and it gave out `o`. -/
theorem close_sound (hP : L.EndsOnly config P) {d : Decompress Z} {b : Nat} {w seen o : Bytes}
    (ht : d.Tracks b w seen) (hd : Decoded L P d seen o) (h : d.close = .ok true) :
    ∃ f, F.frame [] w = some f ∧ P f ∧ f.content = o := by
  unfold close at h
  by_cases hremaining : d.remaining ≠ 0
  · rw [if_pos hremaining] at h
    cases h
  rw [if_neg hremaining, bind_eq_ok] at h
  obtain ⟨t, hrun, hverdict⟩ := h
  have hloop : ∃ seen', t.Tracks b w seen' ∧ Decoded L P t seen' o ∧ t.finished = true := by
    refine run_partial closePass (.halt .running)
      (fun d => ∃ seen', d.Tracks b w seen' ∧ Decoded L P d seen' o)
      (fun x => ∀ t, x = .ok t → ∃ seen', t.Tracks b w seen' ∧ Decoded L P t seen' o ∧
        t.finished = true)
      (by simp) ?_ _ _ ⟨seen, ht, hd⟩ t hrun
    rintro d ⟨seen', ht, hd⟩
    cases hd with
    | inl h =>
      obtain ⟨hgoing, hat⟩ := h
      obtain ⟨t, htracks, -, hctx, -, hpass⟩ := closePass_cases ht hgoing
      have hw := Z.decompressStream_within t.ctx (t.input.drop t.ipos) 1
      rcases hpass with ⟨e, -, h⟩ | ⟨-, h⟩ | ⟨k, hres, hnone, -, h⟩
      · simp [h, zcheck_error, fail, Pass.Ends]
      · simp [h, fail, Pass.Ends]
      · have hdecoded := Decoded.took hP hat hctx rfl hres
        rw [hnone, List.append_nil] at hdecoded
        rw [h]
        exact ⟨_, (htracks.took (k := k) hw.1).1, hdecoded⟩
    | inr h =>
      obtain ⟨hfinished, hframe⟩ := h
      unfold closePass
      rw [if_pos hfinished]
      rintro t ⟨⟩
      exact ⟨seen', ht, .inr ⟨hfinished, hframe⟩, hfinished⟩
  obtain ⟨seen', ht', hd', hfinished⟩ := hloop
  have hend : t.pos = t.stop ∧ t.ipos = t.input.length := by
    simpa using Except.ok.inj hverdict
  have hrest : t.rest b w = [] := by
    rw [rest, List.drop_eq_nil_of_le (Nat.le_of_eq hend.2.symm), List.nil_append]
    refine List.drop_eq_nil_of_le ?_
    have := ht'.stop
    omega
  have hseen : w = seen' := by
    have := ht'.split
    rwa [hrest, List.append_nil] at this
  cases hd' with
  | inl h =>
    obtain ⟨hgoing, -⟩ := h
    simp [hfinished] at hgoing
  | inr h =>
    obtain ⟨-, f, hf, hp, hcontent⟩ := h
    exact ⟨f, hseen ▸ hf, hp, hcontent⟩

theorem close_complete {d : Decompress Z} {b : Nat} {w seen : Bytes} (ht : d.Tracks b w seen)
    (howes : Owes L d b w []) (hremaining : d.remaining = 0) : d.close = .ok true := by
  have hloop : ∃ t : Decompress Z, run closePass (.halt .running) (d.unread + 2) d = .ok t ∧
      t.pos = t.stop ∧ t.ipos = t.input.length := by
    refine run_ends closePass (.halt .running)
      (fun d => d.InRange ∧ ∃ seen', d.Tracks b w seen' ∧ Owes L d b w []) trailer
      (fun x => ∃ t : Decompress Z, x = .ok t ∧ t.pos = t.stop ∧ t.ipos = t.input.length)
      ?_ _ _ ⟨⟨ht.ipos, ht.pos⟩, seen, ht, howes⟩ (by
        unfold trailer
        split <;> omega)
    rintro d ⟨hrange, seen', ht, howes⟩
    have hsafe := closePass_safe hrange
    cases howes with
    | inl h =>
      obtain ⟨hgoing, hmid⟩ := h
      obtain ⟨t, htracks, hrest, hctx, hshown, hpass⟩ := closePass_cases ht hgoing
      have hw := Z.decompressStream_within t.ctx (t.input.drop t.ipos) 1
      obtain ⟨k, left', hres, hleft, howes', hmove⟩ :=
        Owes.took hmid htracks hrest hctx hshown Nat.one_pos rfl
      obtain ⟨hnone, rfl⟩ := List.append_eq_nil_iff.mp hleft.symm
      rcases hpass with ⟨e, hres', -⟩ | ⟨hsurplus | ⟨k', -, hcons⟩, -⟩ | ⟨k', hres', -, -, h⟩
      · simp [hres] at hres'
      · exact absurd hnone hsurplus
      · simp [hcons, hnone] at hmove
      · obtain rfl : k = k' := Except.ok.inj (hres.symm.trans hres')
        rw [h] at hsafe ⊢
        exact ⟨⟨hsafe.1, _, (htracks.took (k := k) hw.1).1, howes'⟩, hsafe.2⟩
    | inr h =>
      obtain ⟨hfinished, hrest, -⟩ := h
      unfold closePass
      rw [if_pos hfinished]
      refine ⟨d, rfl, ?_⟩
      have hlen := congrArg List.length hrest
      simp only [rest, List.length_append, List.length_drop, List.length_nil] at hlen
      have := ht.stop
      have := ht.start
      have := hrange.ipos
      have := hrange.pos
      constructor <;> omega
  obtain ⟨t, hrun, hend⟩ := hloop
  unfold close
  rw [if_neg (not_not.mpr hremaining), hrun, ok_bind]
  simp [hend]

end

def decompressParts (self : Decompress Z) : List Nat → Cxx (Decompress Z × List OutObject)
  | [] => return (self, [])
  | n :: ns => do
    let (self, dst) ← self.decompressPart n
    let (self, dsts) ← self.decompressParts ns
    return (self, dst :: dsts)

/-- Open a range, serve requests of the given lengths, close: what was
delivered, and the verdict of `close`. -/
def serve (Z : Zstd) (size : Nat) (s : StreamInput) (b e : Nat) (ns : List Nat) :
    Cxx (List OutObject × Bool) := do
  let self ← opens Z size s b e
  let (self, dsts) ← self.decompressParts ns
  let verdict ← self.close
  return (dsts, verdict)

def delivered (dsts : List OutObject) : Cells := dsts.flatMap OutObject.cells

def Served (n : Nat) (dst : OutObject) : Prop := ∃ o, dst.Wrote n o ∧ o.length = n

theorem decompressParts_safe {d : Decompress Z} (h : d.InRange) (ns : List Nat) :
    Safe (fun x => x.1.InRange ∧ x.1.remaining + ns.sum = d.remaining ∧ List.Forall₂ Served ns x.2)
      (d.decompressParts ns) := by
  induction ns generalizing d with
  | nil => exact ⟨h, rfl, .nil⟩
  | cons n ns ih =>
    refine (decompressPart_safe h n).bind fun x ⟨hle, hrange, hremaining, hserved⟩ => ?_
    refine (ih hrange).bind fun y hy => ⟨hy.1, ?_, .cons hserved hy.2.2⟩
    have := hy.2.1
    simp only [List.sum_cons]
    omega

theorem decompressParts_drawing {source : StreamInput} {b e : Nat} {ctx : Z.DCtx} {out : Bytes}
    {d d' : Decompress Z} (h : d.Drawing source b e ctx out) {ns : List Nat} {dsts : List OutObject}
    (hparts : d.decompressParts ns = .ok (d', dsts)) :
    ∃ o, d'.Drawing source b e ctx (out ++ o) ∧ delivered dsts = o.map some := by
  induction ns generalizing d out dsts with
  | nil =>
    obtain ⟨rfl, rfl⟩ := Prod.mk.inj (Except.ok.inj hparts)
    exact ⟨[], by rwa [List.append_nil], rfl⟩
  | cons n ns ih =>
    simp only [decompressParts, bind_eq_ok] at hparts
    obtain ⟨⟨d₁, dst⟩, hpart, ⟨d₂, dsts'⟩, hparts, hdone⟩ := hparts
    obtain ⟨rfl, rfl⟩ := Prod.mk.inj (Except.ok.inj hdone)
    obtain ⟨o₁, hd₁, hwrote, hlen⟩ := decompressPart_drawing h hpart
    obtain ⟨o₂, hd₂, hdsts⟩ := ih hd₁ hparts
    rw [List.append_assoc] at hd₂
    refine ⟨o₁ ++ o₂, hd₂, ?_⟩
    rw [delivered, List.flatMap_cons, ← delivered, hdsts, hwrote.full hlen, List.map_append]

/-- Whatever decoder and source do, requests end, each one that is served is
served in full by the decoder, and so does closing after them, well only at the
end of the range. -/
theorem session_safe (Z : Zstd) (size : Nat) (s : StreamInput) (b e : Nat) (ns : List Nat) :
    Safe (fun x : Decompress Z × List OutObject => List.Forall₂ Served ns x.2 ∧
      ∃ ctx out, x.1.Drawing s b e ctx out ∧ delivered x.2 = out.map some ∧
        Safe (fun verdict => verdict = true → ∃ w ctx', s.Fetched b e w ∧
          Draws Z.decompressStream w ctx ctx' w.length out) x.1.close)
      (opens Z size s b e >>= fun self => self.decompressParts ns) := by
  refine ((opens_safe Z size s b e).and_ok fun d => opens_drawing).bind fun d ⟨hrange, hdrawing⟩ => ?_
  refine ((decompressParts_safe hrange ns).and_ok fun x => decompressParts_drawing hdrawing).mono ?_
  rintro ⟨d', dsts⟩ ⟨⟨hrange', -, hserved⟩, out, hdrawing', hdelivered⟩
  have hclose := (close_safe hrange').and_ok fun verdict hverdict (htrue : verdict = true) =>
    close_drawing hdrawing' (htrue ▸ hverdict)
  exact ⟨hserved, d.ctx, out, hdrawing', hdelivered, hclose.mono fun _ h => h.2⟩

section
variable {F : Format UInt8} {L : LawfulDecoder F Z.decompressStream} {P : Frame UInt8 → Prop}

theorem decompressParts_sound (hP : L.EndsOnly config P) {d d' : Decompress Z} {b : Nat}
    {w seen o : Bytes} {ns : List Nat} {dsts : List OutObject} (ht : d.Tracks b w seen)
    (hd : Decoded L P d seen o)
    (h : d.decompressParts ns = .ok (d', dsts)) :
    ∃ seen' out, d'.Tracks b w seen' ∧ Decoded L P d' seen' (o ++ out) ∧
      delivered dsts = out.map some ∧ out.length = ns.sum := by
  induction ns generalizing d seen o dsts with
  | nil =>
    obtain ⟨rfl, rfl⟩ := Prod.mk.inj (Except.ok.inj h)
    exact ⟨seen, [], ht, by simpa using hd, rfl, rfl⟩
  | cons n ns ih =>
    simp only [decompressParts, bind_eq_ok] at h
    obtain ⟨⟨d₁, dst⟩, hpart, ⟨d₂, dsts'⟩, hparts, h⟩ := h
    obtain ⟨rfl, rfl⟩ := Prod.mk.inj (Except.ok.inj h)
    obtain ⟨seen₁, out₁, ht₁, hd₁, hlen₁, rfl, -⟩ := decompressPart_sound hP ht hd hpart
    obtain ⟨seen₂, out₂, ht₂, hd₂, hout, hlen₂⟩ := ih ht₁ hd₁ hparts
    rw [List.append_assoc] at hd₂
    refine ⟨seen₂, out₁ ++ out₂, ht₂, hd₂, ?_, ?_⟩
    · rw [delivered, List.flatMap_cons, ← delivered, hout, List.map_append]
    · rw [List.length_append, List.sum_cons, hlen₁, hlen₂]

theorem decompressParts_complete {d : Decompress Z} {b : Nat} {w seen left : Bytes} {ns : List Nat}
    (ht : d.Tracks b w seen) (howes : Owes L d b w left) (hle : ns.sum ≤ d.remaining)
    (hn : ns.sum ≤ left.length) :
    ∃ d' dsts seen', d.decompressParts ns = .ok (d', dsts) ∧ d'.Tracks b w seen' ∧
      Owes L d' b w (left.drop ns.sum) ∧ delivered dsts = (left.take ns.sum).map some ∧
      d'.remaining + ns.sum = d.remaining := by
  induction ns generalizing d seen left with
  | nil => exact ⟨d, [], seen, rfl, ht, by simpa using howes, rfl, rfl⟩
  | cons n ns ih =>
    rw [List.sum_cons] at hle hn
    obtain ⟨d₁, dst, seen₁, hpart, ht₁, howes₁, hdst, hremaining₁⟩ :=
      decompressPart_complete ht howes (by omega : n ≤ d.remaining) (by omega)
    obtain ⟨d₂, dsts, seen₂, hparts, ht₂, howes₂, hdsts, hremaining₂⟩ :=
      ih ht₁ howes₁ (by omega) (by
        rw [List.length_drop]
        omega)
    refine ⟨d₂, dst :: dsts, seen₂, ?_, ht₂, ?_, ?_, ?_⟩
    · simp only [decompressParts, hpart, ok_bind, hparts, pure_ok]
    · rw [List.sum_cons, ← List.drop_drop]
      exact howes₂
    · rw [delivered, List.flatMap_cons, ← delivered, hdst, hdsts, ← List.map_append, List.sum_cons,
        List.take_add]
    · rw [List.sum_cons]
      omega

theorem serve_ok {size b e : Nat} {s : StreamInput} {ns : List Nat} {dsts : List OutObject}
    {verdict : Bool} : serve Z size s b e ns = .ok (dsts, verdict) ↔
      ∃ d d', opens Z size s b e = .ok d ∧ d.decompressParts ns = .ok (d', dsts) ∧
        d'.close = .ok verdict := by
  simp only [serve, bind_eq_ok]
  constructor
  · rintro ⟨d, hopen, ⟨d', dsts'⟩, hparts, v, hclose, h⟩
    obtain ⟨rfl, rfl⟩ := Prod.mk.inj (Except.ok.inj h)
    exact ⟨d, d', hopen, hparts, hclose⟩
  · rintro ⟨d, d', hopen, hparts, hclose⟩
    exact ⟨d, hopen, _, hparts, verdict, hclose, rfl⟩

theorem opens_remaining {size b e : Nat} {s : StreamInput} {d : Decompress Z}
    (h : opens Z size s b e = .ok d) : d.remaining = size := by
  simp only [opens, bind_eq_ok] at h
  obtain ⟨-, -, h⟩ := h
  cases hctx : Z.createDCtx with
  | none => simp [hctx] at h
  | some ctx =>
    simp only [hctx, bind_eq_ok] at h
    obtain ⟨ctx₁, -, h⟩ := h
    obtain rfl := Except.ok.inj h
    rfl

theorem close_short {size b e : Nat} {s : StreamInput} {ns : List Nat} {dsts : List OutObject}
    {d d' : Decompress Z} (hns : ns.sum < size) (hopen : opens Z size s b e = .ok d)
    (hparts : d.decompressParts ns = .ok (d', dsts)) : d'.close = .ok false := by
  have hrange := opens_safe Z size s b e
  rw [hopen] at hrange
  have hremaining := decompressParts_safe hrange ns
  rw [hparts] at hremaining
  have hsum : d'.remaining + ns.sum = d.remaining := hremaining.2.1
  rw [opens_remaining hopen] at hsum
  exact if_pos (by omega : d'.remaining ≠ 0)

end

section
variable {F : Format UInt8} (D : DecodingLaws Z F)
variable {size b e : Nat} {s : StreamInput} {w : Bytes}
include D

theorem opens_tracks (hctx : Z.createDCtx ≠ none) (he : e ≤ s.size) (hw : b + w.length = e)
    (hsize : size ≤ payloadMax) (hserves : s.Serves b w) :
    ∃ d, opens Z size s b e = .ok d ∧ d.Tracks b w [] ∧ d.rest b w = w ∧ d.remaining = size ∧
      d.finished = false ∧ D.dec.At d.ctx config [] [] := by
  obtain ⟨ctx, hctx⟩ := Option.ne_none_iff_exists'.mp hctx
  obtain ⟨ctx₁, hset, hat⟩ := D.windowSet (D.created hctx) (w := hdiffWindowLogMax)
    (by decide) (by decide)
  have hrest : ([] : Bytes).drop 0 ++ w.drop (b - b) = w := by simp
  refine ⟨⟨ctx₁, s, b, e, size, [], 0, false⟩, ?_, ⟨Nat.le_refl _, Nat.le_refl _, ?_, hw.symm,
    hserves, hrest.symm⟩, hrest, rfl, rfl, hat⟩
  · unfold opens
    simp only [require_bind]
    rw [if_pos ⟨by omega, he, hsize⟩, hctx]
    simp only [hset, zcheck_ok, ok_bind, pure_ok]
  · simp only
    omega

theorem serve_sound {P : Frame UInt8 → Prop} (hP : D.dec.EndsOnly config P) {ns : List Nat}
    {dsts : List OutObject} (hctx : Z.createDCtx ≠ none)
    (he : e ≤ s.size) (hw : b + w.length = e) (hsize : size ≤ payloadMax)
    (hserves : s.Serves b w) (h : serve Z size s b e ns = .ok (dsts, true)) :
    ∃ f, F.frame [] w = some f ∧ P f ∧ f.content.length = ns.sum ∧
      delivered dsts = f.content.map some := by
  obtain ⟨d, d', hopen, hparts, hclose⟩ := serve_ok.mp h
  obtain ⟨d₁, hopen', ht, -, -, hgoing, hat⟩ := opens_tracks D hctx he hw hsize hserves
  obtain rfl := Except.ok.inj (hopen.symm.trans hopen')
  obtain ⟨seen, out, ht', hd', hout, hlen⟩ :=
    decompressParts_sound hP ht (.inl ⟨hgoing, hat⟩ : Decoded D.dec P d [] []) hparts
  obtain ⟨f, hf, hp, hcontent⟩ := close_sound hP ht' hd' hclose
  rw [List.nil_append] at hcontent
  exact ⟨f, hf, hp, hcontent ▸ hlen, hcontent ▸ hout⟩

theorem serve_complete {ns : List Nat} (hctx : Z.createDCtx ≠ none) (he : e ≤ s.size)
    (hw : b + w.length = e) (hsize : size ≤ payloadMax) (hserves : s.Serves b w)
    {f : Frame UInt8} (hf : F.frame [] w = some f) (haccepts : D.dec.accepts config f)
    (hlen : f.content.length = size) (hns : ns.sum = size) :
    ∃ dsts, serve Z size s b e ns = .ok (dsts, true) ∧ delivered dsts = f.content.map some := by
  obtain ⟨d, hopen, ht, hrest, hremaining, hgoing, hat⟩ :=
    opens_tracks D hctx he hw hsize hserves
  have howes : Owes D.dec d b w f.content :=
    .inl ⟨hgoing, hrest.symm ▸ D.dec.midway_start hat hf haccepts⟩
  obtain ⟨d', dsts, seen, hparts, ht', howes', hdsts, hremaining'⟩ :=
    decompressParts_complete ht howes (Nat.le_of_eq (hns.trans hremaining.symm))
      (Nat.le_of_eq (hns.trans hlen.symm))
  rw [List.drop_eq_nil_of_le (Nat.le_of_eq (hlen.trans hns.symm))] at howes'
  rw [List.take_of_length_le (Nat.le_of_eq (hlen.trans hns.symm))] at hdsts
  exact ⟨dsts, serve_ok.mpr ⟨d, d', hopen, hparts, close_complete ht' howes' (by omega)⟩, hdsts⟩

end

end Decompress
end Pyhdiff.Native
