import CommandShell.Proofs.Output.Streams

/-! # Streams with a limit

A stream without a buffer hands its texts to the device as they come, up to the first that is
refused. The device ends up as if all of them had come at once, since it takes nothing more after a
refusal. So a device with a limit holds the beginning of what one without a limit would hold.
-/

namespace CommandShell

namespace Device

theorem accept_nil (d : Device) : (d.accept []).2 = d := by
  obtain ⟨_, room, _⟩ := d
  cases room <;> simp [accept]

theorem accept_append (d : Device) (before after : List UInt8) :
    (d.accept (before ++ after)).2 = ((d.accept before).2.accept after).2 := by
  obtain ⟨stored, room, _⟩ := d
  cases room with
  | none => simp [accept, ← Array.toList_inj]
  | some n => simp [accept, List.take_append, Nat.sub_sub, ← Array.toList_inj]

theorem accept_of_refused {d : Device} {before : List UInt8} (h : (d.accept before).1 ≠ [])
    (after : List UInt8) : ((d.accept before).2.accept after).2 = (d.accept before).2 := by
  unfold accept at h ⊢
  cases hroom : d.room with
  | none => simp [hroom] at h
  | some n =>
    have hfull : n - before.length = 0 := by
      simp only [hroom, ne_eq, List.drop_eq_nil_iff] at h
      omega
    simp [hfull]

theorem stored_limited (n : Nat) (refusal : String) (bytes : List UInt8) :
    ((limited (some n) refusal).accept bytes).2.stored.toList = bytes.take n := by
  simp [accept, limited]

theorem stored_unlimited (refusal : String) (bytes : List UInt8) :
    ((limited none refusal).accept bytes).2.stored.toList = bytes := by
  simp [accept, limited]

end Device

namespace Stream

theorem writeAll_direct_device (d : Device) (texts : List String) :
    ((direct d).writeAll texts).2 = direct (d.accept (texts.flatMap Utf8.encode)).2 := by
  induction texts generalizing d with
  | nil => rw [writeAll, List.flatMap_nil, Device.accept_nil]
  | cons text texts ih =>
    have hwrite : (direct d).write text =
        ((d.write (Utf8.encode text)).1, direct (d.write (Utf8.encode text)).2) := rfl
    have hfull := @Device.accept_of_refused d (Utf8.encode text)
    rw [writeAll, hwrite, List.flatMap_cons, Device.accept_append, Device.write]
    generalize d.accept (Utf8.encode text) = accepted at hfull ⊢
    obtain ⟨rest, device⟩ := accepted
    cases rest with
    | nil => exact ih device
    | cons b rest => exact (congrArg direct (hfull (List.cons_ne_nil b rest) _)).symm

/-- Writes diagnostics one after the other. A refusal ends only the diagnostic that it meets. -/
def reportAll (s : Stream) (diagnostics : List (List String)) : Stream :=
  diagnostics.foldl (fun s texts => (s.writeAndFlush texts).2) s

theorem writeAndFlush_direct (d : Device) (texts : List String) :
    ((direct d).writeAndFlush texts).2 = direct (d.accept (texts.flatMap Utf8.encode)).2 := by
  have hwrite := writeAll_direct_device d texts
  unfold writeAndFlush
  generalize (direct d).writeAll texts = made at hwrite ⊢
  obtain ⟨made, after⟩ := made
  obtain rfl : after = _ := hwrite
  cases made <;> rfl

theorem reportAll_direct (d : Device) (diagnostics : List (List String)) :
    (direct d).reportAll diagnostics =
      direct (d.accept (diagnostics.flatten.flatMap Utf8.encode)).2 := by
  induction diagnostics generalizing d with
  | nil => rw [List.flatten_nil, List.flatMap_nil, Device.accept_nil, reportAll, List.foldl_nil]
  | cons texts diagnostics ih =>
    rw [reportAll, List.foldl_cons, ← reportAll, writeAndFlush_direct, ih, List.flatten_cons,
      List.flatMap_append, Device.accept_append]

end Stream

end CommandShell
