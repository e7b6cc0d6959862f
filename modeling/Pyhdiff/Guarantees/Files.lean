import Pyhdiff.Native.Mutable

/-! The output stream as a random-access file, over any sequence of writes. -/
namespace Pyhdiff.Guarantees
open Native Overlay

/-- The output stream is a file without gaps. Over every sequence of writes, at
any 64-bit positions and under any pattern of failing reallocations:

* a call fails at the limit, with a gap or for want of memory exactly as its
  position and its length say in unbounded arithmetic, and then changes nothing;
* the bytes below the size are what the last successful writer of each offset
  left, the size is the largest end of a successful write and within the limit;
* the block stays a sound one, so what is handed over at the end is those bytes,
  and all of them have been written;
* with a limit of at most `2 ^ 62` the object stands for the same stream as the
  functional model. -/
theorem output_overlay (limit : UInt64) (rs : List Mutable.Output.Request) :
    let file := (Mutable.Output.writes limit rs).1
    let done := (Mutable.Output.writes limit rs).2
    (file = rs.foldl (fun f r => r.leaves f) (.start limit) ∧
      done = Mutable.Output.taken (.start limit) rs) ∧
    (∀ r : Mutable.Output.Request,
      (r.run file = .error (.thrown (.failure .limit)) file ↔
        limit.toNat < r.pos.toNat + r.data.length) ∧
      (r.run file = .error (.thrown (.failure .invalid)) file ↔
        r.pos.toNat + r.data.length ≤ limit.toNat ∧ file.bytes.size.toNat < r.pos.toNat) ∧
      (r.pos.toNat + r.data.length ≤ limit.toNat → r.pos.toNat ≤ file.bytes.size.toNat →
        (r.run file = .error (.thrown .badAlloc) file ∧ ¬ r.heap.Grants) ∨
          ∃ t, r.run file = .ok () t) ∧
      ∀ e t, r.run file = .error e t → t = file) ∧
    (∀ i a, i < file.bytes.size.toNat → (file.bytes.cell i = some a ↔
      ∃ before w after, done = before ++ w :: after ∧ w.at i = some a ∧
        ∀ v ∈ after, v.at i = none)) ∧
    (∀ i < file.bytes.size.toNat, (file.bytes.cell i).isSome) ∧
    ((∀ w ∈ done, w.stop ≤ file.bytes.size.toNat) ∧
      (0 < file.bytes.size.toNat → ∃ w ∈ done, w.stop = file.bytes.size.toNat) ∧
      file.bytes.size.toNat ≤ limit.toNat) ∧
    (∀ heap cells t, Mutable.Growable.release heap file.bytes = .ok cells t →
      cells.length = file.bytes.size.toNat ∧ (∀ c ∈ cells, c.isSome) ∧
      ∀ i < cells.length, cells[i]? = some (file.bytes.cell i)) ∧
    (limit.toNat ≤ 2 ^ 62 →
      file.Models (rs.foldl Mutable.attempt ⟨limit.toNat, .empty⟩)) ∧
    file.bytes.Sound ∧
    ∀ heap, (∀ n, Mutable.Growable.Keeps (Mutable.Growable.reserve heap n) .empty) ∧
      ∀ g : Mutable.Growable, g.Sound →
        (∀ minimum, g.size.toNat + minimum.toNat < 2 ^ 64 →
          Mutable.Growable.Keeps (Mutable.Growable.spare heap minimum) g) ∧
        (∀ n, Mutable.Growable.Keeps (Mutable.Growable.resize heap n) g) ∧
        (∀ b : Bytes, g.size.toNat + b.length < 2 ^ 64 →
          Mutable.Growable.Keeps (Mutable.Growable.append heap b) g) ∧
        Mutable.Growable.Keeps (Mutable.Growable.release heap) g := by
  intro file done
  obtain ⟨hlimit, hsound, hbound, hgapFree, hextent, hcells⟩ := Mutable.Output.writes_holds limit rs
  change file.limit = limit at hlimit
  have hwritten : ∀ i < file.bytes.size.toNat, (file.bytes.cell i).isSome := fun i hi =>
    hcells i hi ▸ hgapFree.written (hextent ▸ hi)
  have hlog := Mutable.Output.writes_eq limit rs
  refine ⟨⟨congrArg Prod.fst hlog, congrArg Prod.snd hlog⟩, fun r => ?_, fun i a hi => ?_, hwritten,
    ⟨fun w hw => ?_, fun hpos => ?_, hbound⟩, fun heap cells t h => ?_,
    fun hfits => (Mutable.Output.writes_models hfits rs).1, hsound, fun heap => ⟨Mutable.Growable.reserve_keeps heap,
      fun g hg => Mutable.Growable.operations_keep heap hg⟩⟩
  · have houtcome := r.run_outcome hsound
    rwa [show (Mutable.Output.writes limit rs).1.limit = limit from hlimit] at houtcome
  · rw [hcells i hi]
    exact overlay_eq_some
  · exact hextent ▸ stop_le_extent hw
  · obtain ⟨w, hw, hstop⟩ := extent_attained (hextent ▸ hpos)
    exact ⟨w, hw, hstop.trans hextent.symm⟩
  · cases Mutable.Growable.release_cases heap hsound with
    | inl h =>
      obtain ⟨t', cells', h', -, hlen, hcells'⟩ := h
      obtain ⟨rfl, -⟩ : cells' = cells ∧ t' = t := by
        rw [h] at h'
        cases h'
        exact ⟨rfl, rfl⟩
      refine ⟨hlen, fun c hc => ?_, fun i hi => hcells' i (hlen ▸ hi)⟩
      obtain ⟨i, hi, rfl⟩ := List.getElem_of_mem hc
      have hcell := hcells' i (hlen ▸ hi)
      rw [List.getElem?_eq_getElem hi] at hcell
      exact Option.some.inj hcell ▸ hwritten i (hlen ▸ hi)
    | inr h =>
      obtain ⟨h', -⟩ := h
      rw [h] at h'
      cases h'

end Pyhdiff.Guarantees
