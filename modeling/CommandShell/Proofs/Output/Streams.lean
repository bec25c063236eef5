import CommandShell.Output.Stream
import CommandShell.Proofs.Text.Utf8

/-! # Bytes in a stream

What has been written to a stream is on its device or kept. Flushing moves bytes from one to the
other, whatever the device refuses.
-/

namespace CommandShell

namespace Stream

/-- Everything that was written and not lost, in order. -/
def written (s : Stream) : List UInt8 := s.device.stored.toList ++ s.kept.getD []

theorem stored_accept (d : Device) (bytes : List UInt8) :
    (d.accept bytes).2.stored.toList ++ (d.accept bytes).1 = d.stored.toList ++ bytes := by
  unfold Device.accept
  split <;> simp

@[simp] theorem written_flush (s : Stream) : s.flush.2.written = s.written := by
  unfold flush
  split
  · rfl
  · next kept hk =>
    have ha := stored_accept s.device kept
    split
    · next device hd =>
      rw [hd] at ha
      simpa [written, hk] using ha
    · next rest device hd =>
      rw [hd] at ha
      simpa [written, hk] using ha

theorem writeAll_direct (stored : Array UInt8) (texts : List String) :
    (direct { stored }).writeAll texts =
      (.ok (), direct { stored := stored ++ texts.flatMap Utf8.encode }) := by
  induction texts generalizing stored with
  | nil => simp [writeAll]
  | cons text texts ih =>
    have hw : (direct { stored }).write text =
        (.ok (), direct { stored := stored ++ Utf8.encode text }) := rfl
    have hs : stored ++ (text :: texts).flatMap Utf8.encode =
        stored ++ Utf8.encode text ++ texts.flatMap Utf8.encode := by
      simp [← Array.toList_inj]
    rw [writeAll, hw, hs]
    exact ih (stored ++ Utf8.encode text)

theorem flatMap_encode (texts : List String) :
    texts.flatMap Utf8.encode = Utf8.encode (String.join texts) := by
  induction texts with
  | nil => rfl
  | cons text texts ih => rw [List.flatMap_cons, ih, String.join_cons, Utf8.encode_append]

theorem writeAll_fresh (texts : List String) :
    ({} : Stream).writeAll texts =
      (.ok (), { device := { stored := (Utf8.encode (String.join texts)).toArray } }) := by
  have hstored : (#[] : Array UInt8) ++ texts.flatMap Utf8.encode =
      (Utf8.encode (String.join texts)).toArray := by
    simp [flatMap_encode]
  exact (writeAll_direct #[] texts).trans (by rw [hstored]; rfl)

/-! ## What a write adds -/

/-- A write that succeeds puts its bytes behind those that were written before. It does succeed on a
device without limit. -/
structure Appends (s : Stream) (bytes : List UInt8) (r : Except WriteFault Unit × Stream) :
    Prop where
  written_eq : r.1 = .ok () → r.2.written = s.written ++ bytes
  ok : s.device.room = none → r.1 = .ok ()
  room_eq : s.device.room = none → r.2.device.room = none

variable {s : Stream}

theorem appends_nil (s : Stream) : Appends s [] (.ok (), s) where
  written_eq _ := (List.append_nil _).symm
  ok _ := rfl
  room_eq := id

theorem Appends.trans {before after : List UInt8} {first : Stream}
    {r : Except WriteFault Unit × Stream} (h : Appends s before (.ok (), first))
    (h' : Appends first after r) : Appends s (before ++ after) r where
  written_eq hok := by rw [h'.written_eq hok, h.written_eq rfl, List.append_assoc]
  ok hroom := h'.ok (h.room_eq hroom)
  room_eq hroom := h'.room_eq (h.room_eq hroom)

theorem Appends.refused {before bytes : List UInt8} {e : WriteFault} {first : Stream}
    (h : Appends s before (.error e, first)) : Appends s bytes (.error e, first) where
  written_eq := nofun
  ok hroom := nomatch h.ok hroom
  room_eq := h.room_eq

theorem accept_of_room {d : Device} (h : d.room = none) (bytes : List UInt8) :
    d.accept bytes = ([], { d with stored := d.stored ++ bytes }) := by
  simp [Device.accept, h]

theorem appends_flush (s : Stream) : Appends s [] s.flush where
  written_eq _ := by rw [written_flush, List.append_nil]
  ok hroom := by
    unfold flush
    cases s.kept <;> simp [accept_of_room hroom]
  room_eq hroom := by
    unfold flush
    cases s.kept <;> simp [accept_of_room hroom, hroom]

theorem kept_flush (h : s.flush.1 = .ok ()) : s.flush.2.kept.getD [] = [] := by
  unfold flush at h ⊢
  cases hk : s.kept with
  | none => simp [hk]
  | some kept =>
    simp only [hk] at h ⊢
    split
    · rfl
    · next hrefused => simp [hrefused] at h

theorem stored_write {d : Device} {bytes : List UInt8} (h : (d.write bytes).1 = .ok ()) :
    (d.write bytes).2.stored.toList = d.stored.toList ++ bytes := by
  have hstored := stored_accept d bytes
  unfold Device.write at h ⊢
  split at h
  · next haccept => simpa [haccept] using hstored
  · cases h

theorem appends_device (hk : s.kept.getD [] = []) (bytes : List UInt8) :
    Appends s bytes
      ((s.device.write bytes).1, { s with device := (s.device.write bytes).2 }) where
  written_eq hok := by simpa [written, hk] using stored_write hok
  ok hroom := by simp [Device.write, accept_of_room hroom]
  room_eq hroom := by simp [Device.write, accept_of_room hroom, hroom]

theorem appends_kept (s : Stream) (bytes : List UInt8) :
    Appends s bytes (.ok (), { s with kept := some (s.kept.getD [] ++ bytes) }) where
  written_eq _ := by simp [written]
  ok _ := rfl
  room_eq := id

theorem appends_keep (s : Stream) (bytes : List UInt8) : Appends s bytes (s.keep bytes) := by
  -- After making room nothing is kept; without need of room, long bytes find nothing kept either.
  have hstore : ∀ s : Stream, (capacity ≤ bytes.length → s.kept.getD [] = []) →
      Appends s bytes
        (if capacity ≤ bytes.length then
          ((s.device.write bytes).1, { s with device := (s.device.write bytes).2 })
        else (.ok (), { s with kept := some (s.kept.getD [] ++ bytes) })) := by
    intro s hk
    split
    · next hlong => exact appends_device (hk hlong) bytes
    · exact appends_kept s bytes
  unfold keep
  by_cases hfull : capacity < (s.kept.getD []).length + bytes.length
  · have hflush := appends_flush s
    have hkept := kept_flush (s := s)
    simp only [if_pos hfull]
    generalize s.flush = flushed at hflush hkept ⊢
    obtain ⟨made, flushed⟩ := flushed
    cases made with
    | error e => exact hflush.refused
    | ok _ => exact hflush.trans (hstore flushed fun _ => hkept rfl)
  · simp only [if_neg hfull]
    exact hstore s fun hlong => List.eq_nil_of_length_eq_zero (by omega)

theorem cutLines_append (bytes : List UInt8) :
    (cutLines bytes).1 ++ (cutLines bytes).2 = bytes := by
  have hsuffix : (bytes.reverse.takeWhile (· != 0x0A)).reverse <:+ bytes := by
    have hprefix := List.reverse_suffix.mpr (List.takeWhile_prefix (l := bytes.reverse) (· != 0x0A))
    rwa [List.reverse_reverse] at hprefix
  have hdrop := List.suffix_iff_eq_drop.mp hsuffix
  exact (congrArg (_ ++ ·) hdrop).trans (List.take_append_drop _ _)

theorem Appends.keep {before : List UInt8} {r : Except WriteFault Unit × Stream}
    (h : Appends s before r) (tail : List UInt8) :
    Appends s (before ++ tail)
      (match r.1 with
      | .error e => (.error e, r.2)
      | .ok () => r.2.keep tail) := by
  obtain ⟨made, after⟩ := r
  cases made with
  | error e => exact h.refused
  | ok _ => exact h.trans (appends_keep after tail)

theorem appends_writeLines {kept : List UInt8} (hk : s.kept = some kept) (bytes : List UInt8) :
    Appends s bytes (s.writeLines kept bytes) := by
  have hcut := cutLines_append bytes
  unfold writeLines
  generalize cutLines bytes = cut at hcut
  obtain ⟨lines, tail⟩ := cut
  subst hcut
  have hflush : Appends s []
      (if kept.getLast? = some 0x0A then s.flush else (.ok (), s)) := by
    split
    · exact appends_flush s
    · exact appends_nil s
  cases lines with
  | nil => exact hflush.keep tail
  | cons b lines =>
    simp only
    apply Appends.keep
    by_cases hempty : kept.isEmpty
    · simp only [if_pos hempty]
      exact appends_device (by simpa [hk] using hempty) _
    · simp only [if_neg hempty]
      have hkeep := appends_keep s (b :: lines)
      generalize s.keep (b :: lines) = made at hkeep ⊢
      obtain ⟨made, after⟩ := made
      cases made with
      | error e => exact hkeep
      | ok _ => simpa using hkeep.trans (appends_flush after)

theorem appends_write (s : Stream) (text : String) :
    Appends s (Utf8.encode text) (s.write text) := by
  unfold write
  simp only
  split
  · next hk => exact appends_device (by simp [hk]) _
  · next kept hk => exact appends_writeLines hk _

theorem appends_writeAll (s : Stream) (texts : List String) :
    Appends s (Utf8.encode (String.join texts)) (s.writeAll texts) := by
  induction texts generalizing s with
  | nil => exact appends_nil s
  | cons text texts ih =>
    have hwrite := appends_write s text
    rw [writeAll, String.join_cons, Utf8.encode_append]
    generalize s.write text = made at hwrite ⊢
    obtain ⟨made, after⟩ := made
    cases made with
    | error e => exact hwrite.refused
    | ok _ => exact hwrite.trans (ih after)

/-- A stream without limit takes all texts that are written to it. -/
theorem written_writeAndFlush (h : s.device.room = none) (texts : List String) :
    (s.writeAndFlush texts).2.written = s.written ++ Utf8.encode (String.join texts) := by
  have hwrite := appends_writeAll s texts
  unfold writeAndFlush
  generalize s.writeAll texts = made at hwrite ⊢
  obtain ⟨made, after⟩ := made
  obtain rfl : made = .ok () := hwrite.ok h
  exact (written_flush after).trans (hwrite.written_eq rfl)

end Stream

end CommandShell
