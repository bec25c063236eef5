import CommandShell.Proofs.Text.Utf8

/-! # Decoding

Bytes are read as the longest pieces they have: a character wherever the form of one comes next, and
otherwise one replacement for the longest part that a form could have started with.
-/

namespace CommandShell.Utf8

/-- The bytes that may follow a first byte: as many as promised, the next one in its own range. -/
def IsTail : (more low high : Nat) → List UInt8 → Prop
  | 0, _, _, bs => bs = []
  | more + 1, low, high, bs =>
    ∃ b rest, bs = b :: rest ∧ low ≤ b.toNat ∧ b.toNat ≤ high ∧ IsTail more 0x80 0xBF rest

/-- The number that the bits of a first byte, and six bits of each byte after it, stand for. -/
def tailValue (bits : Nat) : List UInt8 → Nat
  | [] => bits
  | b :: bs => tailValue (bits * 0x40 + b.toNat % 0x40) bs

/-- Whether the bytes are those of a character, or the first of them. -/
def StartsForm (bs : List UInt8) : Prop := ∃ c, bs <+: encodeChar c

/-- Where no character comes next, the longest part that a form could have started with, or one
byte if there is none. -/
structure IsBroken (part rest : List UInt8) : Prop where
  ne_nil : part ≠ []
  not_form : ∀ c, ¬ encodeChar c <+: part ++ rest
  starts : part.length = 1 ∨ StartsForm part
  longest : ∀ longer, longer <+: part ++ rest → part.length < longer.length → ¬ StartsForm longer

/-- Characters read one after the other, with a replacement for each broken part. -/
inductive Reads : List UInt8 → List Char → Prop where
  | nil : Reads [] []
  | char (c : Char) {bs : List UInt8} {cs : List Char} :
      Reads bs cs → Reads (encodeChar c ++ bs) (c :: cs)
  | broken {part bs : List UInt8} {cs : List Char} :
      IsBroken part bs → Reads bs cs → Reads (part ++ bs) (replacement :: cs)

section Forms

theorem toUInt8_eq_of_toNat {n : Nat} {b : UInt8} (h : n = b.toNat) : n.toUInt8 = b := by
  rw [h]
  simp

variable {n : Nat} {b x y z : UInt8}

theorem toNat_ofNat (h : n < 0xD800 ∨ 0xDFFF < n ∧ n < 0x110000) : (Char.ofNat n).toNat = n := by
  rw [Char.ofNat, dif_pos h]
  rfl

theorem encodeChar_one (h : n < 0x80) (hb : n = b.toNat) : encodeChar (Char.ofNat n) = [b] := by
  rw [encodeChar, toNat_ofNat (by omega), if_pos h, toUInt8_eq_of_toNat hb]

theorem encodeChar_two (h₀ : 0x80 ≤ n) (h₁ : n < 0x800) (hb : 0xC0 + n / 0x40 = b.toNat)
    (hx : 0x80 + n % 0x40 = x.toNat) : encodeChar (Char.ofNat n) = [b, x] := by
  rw [encodeChar, toNat_ofNat (by omega), if_neg (by omega), if_pos h₁, toUInt8_eq_of_toNat hb,
    toUInt8_eq_of_toNat hx]

theorem encodeChar_three (h₀ : 0x800 ≤ n) (h₁ : n < 0x10000) (hs : n < 0xD800 ∨ 0xDFFF < n)
    (hb : 0xE0 + n / 0x1000 = b.toNat) (hx : 0x80 + n / 0x40 % 0x40 = x.toNat)
    (hy : 0x80 + n % 0x40 = y.toNat) : encodeChar (Char.ofNat n) = [b, x, y] := by
  rw [encodeChar, toNat_ofNat (by omega), if_neg (by omega), if_neg (by omega), if_pos h₁,
    toUInt8_eq_of_toNat hb, toUInt8_eq_of_toNat hx, toUInt8_eq_of_toNat hy]

theorem encodeChar_four (h₀ : 0x10000 ≤ n) (h₁ : n < 0x110000) (hb : 0xF0 + n / 0x40000 = b.toNat)
    (hx : 0x80 + n / 0x1000 % 0x40 = x.toNat) (hy : 0x80 + n / 0x40 % 0x40 = y.toNat)
    (hz : 0x80 + n % 0x40 = z.toNat) : encodeChar (Char.ofNat n) = [b, x, y, z] := by
  rw [encodeChar, toNat_ofNat (by omega), if_neg (by omega), if_neg (by omega), if_neg (by omega),
    toUInt8_eq_of_toNat hb, toUInt8_eq_of_toNat hx, toUInt8_eq_of_toNat hy, toUInt8_eq_of_toNat hz]

structure IsRange (low high : Nat) : Prop where
  le_low : 0x80 ≤ low
  low_le : low ≤ high
  high_le : high ≤ 0xBF

theorem isRange_full : IsRange 0x80 0xBF := by constructor <;> decide

/-- The first bytes of forms. The range of the second byte leaves out overlong forms, surrogates and
values above U+10FFFF. -/
inductive IsLead (b : UInt8) : Lead → Prop where
  | one : b.toNat < 0x80 → IsLead b { bits := b.toNat, more := 0 }
  | two : 0xC2 ≤ b.toNat → b.toNat < 0xE0 → IsLead b { bits := b.toNat - 0xC0, more := 1 }
  | three {low high : Nat} : 0xE0 ≤ b.toNat → b.toNat < 0xF0 → IsRange low high →
      (b.toNat = 0xE0 → 0xA0 ≤ low) → (b.toNat = 0xED → high ≤ 0x9F) →
      IsLead b { bits := b.toNat - 0xE0, more := 2, low, high }
  | four {low high : Nat} : 0xF0 ≤ b.toNat → b.toNat < 0xF5 → IsRange low high →
      (b.toNat = 0xF0 → 0x90 ≤ low) → (b.toNat = 0xF4 → high ≤ 0x8F) →
      IsLead b { bits := b.toNat - 0xF0, more := 3, low, high }

theorem isLead_of_lead? {l : Lead} (h : lead? b = some l) : IsLead b l := by
  simp only [lead?] at h
  split at h
  · next hn => exact Option.some.inj h ▸ .one hn
  split at h
  · cases h
  split at h
  · next h₀ h₁ => exact Option.some.inj h ▸ .two (by omega) h₁
  split at h
  · next hn =>
    have hl : l = { bits := b.toNat - 0xE0, more := 2, low := 0xA0, high := 0xBF } := by
      rw [← Option.some.inj h, hn]
    exact hl ▸ .three (by omega) (by omega) (by constructor <;> decide) (by omega) (by omega)
  split at h
  · next hn =>
    have hl : l = { bits := b.toNat - 0xE0, more := 2, low := 0x80, high := 0x9F } := by
      rw [← Option.some.inj h, hn]
    exact hl ▸ .three (by omega) (by omega) (by constructor <;> decide) (by omega) (by omega)
  split at h
  · exact Option.some.inj h ▸ .three (by omega) (by omega) isRange_full (by omega) (by omega)
  split at h
  · next hn =>
    have hl : l = { bits := b.toNat - 0xF0, more := 3, low := 0x90, high := 0xBF } := by
      rw [← Option.some.inj h, hn]
    exact hl ▸ .four (by omega) (by omega) (by constructor <;> decide) (by omega) (by omega)
  split at h
  · exact Option.some.inj h ▸ .four (by omega) (by omega) isRange_full (by omega) (by omega)
  split at h
  · next hn =>
    have hl : l = { bits := b.toNat - 0xF0, more := 3, low := 0x80, high := 0x8F } := by
      rw [← Option.some.inj h, hn]
    exact hl ▸ .four (by omega) (by omega) (by constructor <;> decide) (by omega) (by omega)
  · cases h

theorem IsLead.isRange {l : Lead} (h : IsLead b l) : IsRange l.low l.high := by
  cases h with
  | one | two => exact isRange_full
  | three _ _ h | four _ _ h => exact h

theorem IsLead.encodeChar {l : Lead} (hl : IsLead b l) {bs : List UInt8}
    (ht : IsTail l.more l.low l.high bs) :
    encodeChar (Char.ofNat (tailValue l.bits bs)) = b :: bs := by
  cases hl with
  | one h =>
    obtain rfl := ht
    exact encodeChar_one h rfl
  | two h₀ h₁ =>
    obtain ⟨x, _, rfl, hx, hx', rfl⟩ := ht
    dsimp only at hx hx' ⊢
    apply encodeChar_two <;> rw [tailValue, tailValue] <;> omega
  | three h₀ h₁ h hlow hhigh =>
    obtain ⟨x, _, rfl, hx, hx', y, _, rfl, hy, hy', rfl⟩ := ht
    have := h.le_low
    have := h.high_le
    dsimp only at hx hx' ⊢
    apply encodeChar_three <;> simp only [tailValue] <;> omega
  | four h₀ h₁ h hlow hhigh =>
    obtain ⟨x, _, rfl, hx, hx', y, _, rfl, hy, hy', z, _, rfl, hz, hz', rfl⟩ := ht
    have := h.le_low
    have := h.high_le
    dsimp only at hx hx' ⊢
    apply encodeChar_four <;> simp only [tailValue] <;> omega

end Forms

section Follow

theorem exists_isTail {low high : Nat} (h : IsRange low high) (more : Nat) :
    ∃ bs, IsTail more low high bs := by
  induction more generalizing low high with
  | zero => exact ⟨[], rfl⟩
  | succ more ih =>
    obtain ⟨bs, hbs⟩ := ih isRange_full
    have hlow := h.low_le
    have hhigh := h.high_le
    have hb : low.toUInt8.toNat = low := toNat_toUInt8 (by omega)
    exact ⟨low.toUInt8 :: bs, _, _, rfl, hb.ge, hb.trans_le hlow, hbs⟩

/-- The promised bytes are there, or reading stops at the end or at a byte that is left in the rest,
whatever comes after it. -/
theorem follow_cases {low high : Nat} (hrange : IsRange low high) (more bits : Nat)
    (bs : List UInt8) :
    (∃ tail rest, bs = tail ++ rest ∧ IsTail more low high tail ∧
        follow more bits low high bs = (some (Char.ofNat (tailValue bits tail)), rest)) ∨
      ∃ read rest, bs = read ++ rest ∧ (∃ missing, IsTail more low high (read ++ missing)) ∧
        follow more bits low high bs = (none, rest) ∧
        ∀ x ∈ rest.head?, ∀ after, follow more bits low high (read ++ x :: after) =
          (none, x :: after) := by
  induction more generalizing bits low high bs with
  | zero => exact .inl ⟨[], bs, rfl, rfl, rfl⟩
  | succ more ih =>
    obtain ⟨missing, hmissing⟩ := exists_isTail hrange (more + 1)
    cases bs with
    | nil => exact .inr ⟨[], [], rfl, ⟨missing, hmissing⟩, rfl, by simp⟩
    | cons b bs =>
      by_cases hb : low ≤ b.toNat ∧ b.toNat ≤ high
      · have hbits : b.toNat - 0x80 = b.toNat % 0x40 := by
          have := hrange.le_low
          have := hrange.high_le
          omega
        have hnext : ∀ after, follow (more + 1) bits low high (b :: after) =
            follow more (bits * 0x40 + b.toNat % 0x40) 0x80 0xBF after := fun after => by
          rw [follow, if_pos hb, hbits]
        rcases ih isRange_full (bits * 0x40 + b.toNat % 0x40) bs with
          ⟨tail, rest, rfl, htail, hfollow⟩ | ⟨read, rest, rfl, ⟨missing, htail⟩, hfollow, hstop⟩
        · refine .inl ⟨b :: tail, rest, rfl, ⟨b, tail, rfl, hb.1, hb.2, htail⟩, ?_⟩
          rw [hnext, hfollow, tailValue]
        · refine .inr ⟨b :: read, rest, rfl, ⟨missing, b, _, rfl, hb.1, hb.2, htail⟩, ?_, ?_⟩
          · rw [hnext, hfollow]
          · intro x hx after
            rw [List.cons_append, hnext, hstop x hx]
      · refine .inr ⟨[], b :: bs, rfl, ⟨missing, hmissing⟩, ?_, ?_⟩
        · rw [follow, if_neg hb]
        · intro x hx after
          obtain rfl : b = x := by simpa using hx
          rw [List.nil_append, follow, if_neg hb]

theorem not_form_of_next {b : UInt8} {bs : List UInt8} (h : (next b bs).1 = none) (c : Char) :
    ¬ encodeChar c <+: b :: bs := by
  rintro ⟨rest, hrest⟩
  have hpieces : pieces (b :: bs) = some c :: pieces rest := by
    rw [← hrest, pieces_encodeChar]
  rw [pieces, h] at hpieces
  cases hpieces

theorem not_startsForm_of_next {b : UInt8} {bs : List UInt8}
    (h : ∀ missing, (next b (bs ++ missing)).1 = none) : ¬ StartsForm (b :: bs) := by
  rintro ⟨c, missing, hform⟩
  exact not_form_of_next (h missing) c (by simp [← hform])

theorem isBroken_singleton {b : UInt8} (hl : lead? b = none) (rest : List UInt8) :
    IsBroken [b] rest := by
  have hnext : ∀ after, (next b after).1 = none := fun after => by rw [next, hl]
  refine ⟨List.cons_ne_nil _ _, not_form_of_next (hnext rest), .inl rfl, ?_⟩
  rintro longer ⟨after, heq⟩ hlength
  obtain ⟨d, longer, rfl⟩ : ∃ d rest, longer = d :: rest :=
    List.exists_cons_of_length_pos (by simp at hlength; omega)
  obtain rfl := (List.cons.inj heq).1
  exact not_startsForm_of_next fun missing => hnext _

/-- A first byte and the bytes read behind it are a broken part if reading stops there, whatever
comes after the byte that it stops at. -/
theorem isBroken_of_stop {b : UInt8} {l : Lead} (hl : lead? b = some l)
    {read missing rest : List UInt8} (htail : IsTail l.more l.low l.high (read ++ missing))
    (hread : (next b (read ++ rest)).1 = none)
    (hstop : ∀ x ∈ rest.head?, ∀ after, (next b (read ++ x :: after)).1 = none) :
    IsBroken (b :: read) rest := by
  have hform := (isLead_of_lead? hl).encodeChar htail
  refine ⟨List.cons_ne_nil _ _, not_form_of_next hread, .inr ⟨_, missing, hform.symm⟩, ?_⟩
  intro longer hlonger hlength
  obtain ⟨more, rfl⟩ := List.prefix_of_prefix_length_le (List.prefix_append (b :: read) rest)
    hlonger (Nat.le_of_lt hlength)
  obtain ⟨x, more, rfl⟩ : ∃ x rest, more = x :: rest :=
    List.exists_cons_of_ne_nil fun h => by simp [h] at hlength
  obtain ⟨after, rfl⟩ := (List.prefix_append_right_inj _).mp hlonger
  refine not_startsForm_of_next fun missing => ?_
  change (next b (read ++ x :: more ++ missing)).1 = none
  rw [List.append_assoc]
  exact hstop x (by simp) _

/-- What is read next is a character, or else a broken part. -/
theorem next_cases (b : UInt8) (bs : List UInt8) :
    (∃ c rest, b :: bs = encodeChar c ++ rest ∧ next b bs = (some c, rest)) ∨
      ∃ part rest, b :: bs = part ++ rest ∧ next b bs = (none, rest) ∧ IsBroken part rest := by
  cases hl : lead? b with
  | none =>
    have hnext : next b bs = (none, bs) := by rw [next, hl]
    exact .inr ⟨[b], bs, rfl, hnext, isBroken_singleton hl bs⟩
  | some l =>
    have hnext : ∀ after, next b after = follow l.more l.bits l.low l.high after := fun after => by
      rw [next, hl]
    have hlead := isLead_of_lead? hl
    rcases follow_cases hlead.isRange l.more l.bits bs with
      ⟨tail, rest, rfl, htail, hfollow⟩ | ⟨read, rest, rfl, ⟨missing, htail⟩, hfollow, hstop⟩
    · refine .inl ⟨_, rest, ?_, (hnext _).trans hfollow⟩
      rw [hlead.encodeChar htail, List.cons_append]
    · have hread : next b (read ++ rest) = (none, rest) := (hnext _).trans hfollow
      refine .inr ⟨b :: read, rest, rfl, hread, isBroken_of_stop hl htail (by rw [hread]) ?_⟩
      intro x hx after
      rw [hnext, hstop x hx]

theorem IsBroken.append_inj {part part' rest rest' : List UInt8} (h : IsBroken part rest)
    (h' : IsBroken part' rest') (heq : part ++ rest = part' ++ rest') :
    part = part' ∧ rest = rest' := by
  have hle : ∀ {p q r s : List UInt8}, IsBroken p r → IsBroken q s → p ++ r = q ++ s →
      q.length ≤ p.length := by
    intro p q r s hp hq heq
    by_contra hlt
    rw [Nat.not_le] at hlt
    have hnot := hp.longest q (heq ▸ List.prefix_append q s) hlt
    have hone : q.length = 1 := hq.starts.resolve_right hnot
    exact hp.ne_nil (List.eq_nil_of_length_eq_zero (by omega))
  exact List.append_inj heq (Nat.le_antisymm (hle h' h heq.symm) (hle h h' heq))

theorem decodeChars_encodeChar_append (c : Char) (bs : List UInt8) :
    decodeChars (encodeChar c ++ bs) = c :: decodeChars bs := by
  rw [decodeChars, pieces_encodeChar]
  rfl

theorem IsBroken.decodeChars_append {part rest : List UInt8} (h : IsBroken part rest) :
    decodeChars (part ++ rest) = replacement :: decodeChars rest := by
  obtain ⟨b, bs, rfl⟩ := List.exists_cons_of_ne_nil h.ne_nil
  rw [List.cons_append, decodeChars, pieces]
  rcases next_cases b (bs ++ rest) with ⟨c, after, heq, -⟩ | ⟨part, after, heq, hnext, hpart⟩
  · exact absurd ⟨after, heq.symm⟩ (h.not_form c)
  · obtain ⟨-, rfl⟩ := h.append_inj hpart heq
    rw [hnext]
    rfl

theorem reads_decodeChars (bs : List UInt8) : Reads bs (decodeChars bs) := by
  induction bs using pieces.induct with
  | case1 =>
    rw [decodeChars, pieces]
    exact .nil
  | case2 b bs ih =>
    rw [decodeChars, pieces]
    rcases next_cases b bs with ⟨c, rest, heq, hnext⟩ | ⟨part, rest, heq, hnext, hpart⟩
    · rw [hnext] at ih ⊢
      exact heq ▸ ih.char c
    · rw [hnext] at ih ⊢
      exact heq ▸ ih.broken hpart

/-- Decoding reads characters and broken parts one after the other. -/
theorem reads_iff {bs : List UInt8} {cs : List Char} : Reads bs cs ↔ decodeChars bs = cs := by
  constructor
  · intro h
    induction h with
    | nil => rw [decodeChars, pieces, List.map_nil]
    | char c _ ih => rw [decodeChars_encodeChar_append, ih]
    | broken hpart _ ih => rw [hpart.decodeChars_append, ih]
  · rintro rfl
    exact reads_decodeChars bs

end Follow

section Ascii

variable {d : Char} (hd : d.toNat < 0x80)
include hd

theorem StartsForm.prefix_or_length_le {bs rest after : List UInt8} (h : StartsForm bs)
    (hp : bs <+: rest ++ d.toNat.toUInt8 :: after) : bs <+: rest ∨ bs.length ≤ 1 := by
  obtain ⟨c, hc⟩ := h
  rcases Nat.le_total bs.length rest.length with hlength | hlength
  · exact .inl (List.prefix_of_prefix_length_le hp (List.prefix_append _ _) hlength)
  · obtain ⟨more, rfl⟩ := List.prefix_of_prefix_length_le (List.prefix_append _ _) hp hlength
    cases more with
    | nil => exact .inl (by simp)
    | cons x more =>
      obtain ⟨rfl, -⟩ := List.cons_prefix_cons.mp ((List.prefix_append_right_inj _).mp hp)
      have hmem : d.toNat.toUInt8 ∈ encodeChar c := hc.subset (by simp)
      obtain rfl := eq_of_mem_encodeChar hd hmem
      rw [encodeChar_ascii hd] at hc
      exact .inr hc.length_le

theorem IsBroken.append_ascii {part rest : List UInt8} (h : IsBroken part rest)
    (after : List UInt8) : IsBroken part (rest ++ d.toNat.toUInt8 :: after) := by
  have hpart : 0 < part.length := List.length_pos_of_ne_nil h.ne_nil
  refine ⟨h.ne_nil, fun c hc => ?_, h.starts, fun longer hlonger hlength hstarts => ?_⟩
  · have hstarts : StartsForm (encodeChar c) := ⟨c, List.prefix_rfl⟩
    rw [← List.append_assoc] at hc
    rcases hstarts.prefix_or_length_le hd hc with hp | hone
    · exact h.not_form c hp
    · have hp : encodeChar c <+: part := by
        refine List.prefix_of_prefix_length_le hc ?_ (by omega)
        rw [List.append_assoc]
        exact List.prefix_append _ _
      exact h.not_form c (hp.trans (List.prefix_append _ _))
  · rw [← List.append_assoc] at hlonger
    rcases hstarts.prefix_or_length_le hd hlonger with hp | hone
    · exact h.longest longer hp hlength hstarts
    · omega

theorem Reads.append_ascii {as bs : List UInt8} {cs ds : List Char} (h : Reads as cs)
    (h' : Reads bs ds) : Reads (as ++ d.toNat.toUInt8 :: bs) (cs ++ d :: ds) := by
  induction h with
  | nil => simpa [encodeChar_ascii hd] using h'.char d
  | char c _ ih =>
    rw [List.append_assoc]
    exact ih.char c
  | broken hpart _ ih =>
    rw [List.append_assoc]
    exact ih.broken (hpart.append_ascii hd bs)

/-- Bytes on both sides of one below 0x80 are decoded by themselves. -/
theorem decodeChars_append_ascii (as bs : List UInt8) :
    decodeChars (as ++ d.toNat.toUInt8 :: bs) = decodeChars as ++ d :: decodeChars bs :=
  reads_iff.mp ((reads_decodeChars as).append_ascii hd (reads_decodeChars bs))

theorem mem_of_mem_decodeChars {bs : List UInt8} (h : d ∈ decodeChars bs) :
    d.toNat.toUInt8 ∈ bs := by
  have hreads := reads_decodeChars bs
  generalize decodeChars bs = cs at h hreads
  induction hreads with
  | nil => cases h
  | char c _ ih =>
    rcases List.mem_cons.mp h with rfl | h
    · simp [encodeChar_ascii hd]
    · exact List.mem_append_right _ (ih h)
  | broken _ _ ih =>
    rcases List.mem_cons.mp h with rfl | h
    · exact absurd hd (by decide)
    · exact List.mem_append_right _ (ih h)

end Ascii

end CommandShell.Utf8
