import Pyhdiff.Guarantees.Stored

/-! The decode loops against a decoder that may do anything inside its buffers. -/
namespace Pyhdiff.Guarantees
open Native Streaming

/-- Whatever bytes and values the decoder returns, the decode loops end and take
no span out of range. What `zstd_apply` returns is what the decoder gave out for
all of the payload, each byte stored once and in order. So are the destinations
of `decompress_part`, for what has been fetched of its range. The output of
`frame_decompress` never passes its bound, and a pass asks the heap for nothing
after it has made room: the block the decoder has filled stays. -/
theorem decodeLoops_safe (Z : Zstd) :
    (∀ base src tn, Safe (fun d => ∃ ctx ctx' out, Draws Z.decompressStream src ctx ctx' src.length out ∧
      out.length = tn ∧ d.cells = out.map some ∧ d.writes = List.range tn)
      (zstdApply Z base src (.fresh tn))) ∧
    (∀ heap G src maxOutput,
      Safe (fun out => out.size ≤ maxOutput ∧ ∃ ctx ctx' o,
        Draws Z.decompressStream src ctx ctx' src.length o ∧ out.contents = o.map some)
        (frameDecompressWith Z heap G src maxOutput) ∧
      ∀ ctx start s, start.size = 0 →
        Reaches (framePass Z heap G src maxOutput) ⟨ctx, 0, start⟩ s →
        s.out.size ≤ maxOutput ∧
        (∃ o, Draws Z.decompressStream src ctx s.ctx s.pos o ∧ s.out.contents = o.map some) ∧
        (∀ heap', s.out.spare heap' G (min (maxOutput - s.out.size) 65536) =
            s.out.spare heap G (min (maxOutput - s.out.size) 65536) →
          framePass Z heap' G src maxOutput s = framePass Z heap G src maxOutput s) ∧
        ∀ roomy, s.out.spare heap G (min (maxOutput - s.out.size) 65536) = .ok roomy →
          Pass.Ends (fun t => t.out.capacity = roomy.block.capacity)
            (fun x => ∀ out, x = .ok out → out.capacity = roomy.block.capacity)
            (framePass Z heap G src maxOutput s)) ∧
    (∀ size source b e ns, Safe (fun x => List.Forall₂ Decompress.Served ns x.2 ∧
      ∃ ctx out, x.1.Drawing source b e ctx out ∧ Decompress.delivered x.2 = out.map some ∧
        Safe (fun verdict => verdict = true → ∃ w ctx', source.Fetched b e w ∧
          Draws Z.decompressStream w ctx ctx' w.length out) x.1.close)
      (Decompress.opens Z size source b e >>= fun self => self.decompressParts ns)) ∧
    (∀ H heap base patch dst, Safe (fun d => d.cells.length = dst.cells.length)
      (hdiffApply Z H heap base patch dst)) := by
  refine ⟨fun base src tn => ?_, fun heap G src maxOutput => ⟨?_, ?_⟩, Decompress.session_safe Z,
    hdiffApply_safe Z⟩
  · refine (zstdApplyWith_safe Z (by decide) base src tn).mono ?_
    rintro d ⟨ctx, ctx', out, hdraws, hwrote, hlen⟩
    rw [hwrote.full hlen]
    exact ⟨ctx, ctx', out, hdraws, hlen, rfl, rfl⟩
  · refine (frameDecompressWith_safe Z heap G src maxOutput).mono ?_
    rintro out ⟨ctx, hle, hdrained⟩
    exact ⟨hle, ctx, hdrained⟩
  · intro ctx start s hstart hreaches
    have hsound := hreaches.invariant
      (fun _ hs => (framePass_safe heap G hs).mono (fun _ ht => ht.1) fun _ hx => hx)
      (FrameState.sound_start src maxOutput ctx hstart)
    exact ⟨hsound.bound, hsound.drawn, fun heap' h => framePass_asks src h hsound.bound,
      fun roomy h => framePass_capacity src hsound.bound h⟩

-- the frame of `abc`: its three bytes came out of the decoder, for all of it
theorem decodeLoops_safe_abc : ∃ ctx ctx',
    Draws Stored.zstd.decompressStream Stored.abcFrame ctx ctx' Stored.abcFrame.length [97, 98, 99] := by
  have hsafe := (decodeLoops_safe Stored.zstd).1 [] Stored.abcFrame 3
  have happly : (zstdApply Stored.zstd [] Stored.abcFrame (.fresh 3)).toOption.map OutObject.cells =
      some [some 97, some 98, some 99] := by decide +kernel
  cases hd : zstdApply Stored.zstd [] Stored.abcFrame (.fresh 3) with
  | error e =>
    rw [hd] at happly
    cases happly
  | ok d =>
    rw [hd] at hsafe happly
    obtain ⟨ctx, ctx', out, hdraws, -, hcells, -⟩ := hsafe
    rw [Option.some.inj happly] at hcells
    have hout : [97, 98, 99] = out := (List.map_inj_right fun _ _ => Option.some.inj).mp hcells
    exact ⟨ctx, ctx', hout ▸ hdraws⟩

end Pyhdiff.Guarantees
