import BarScript.Arith.Double
import BarScript.Output.Color
import BarScript.Proofs.Rendering

/-!
# Hexadecimal colors

Which texts are read as `#rrggbb`. `Color.channels?` reads characters; `Color.cutChannels?` cuts the
text at fixed bytes and leaves the pieces to a reader of numbers, and both are the same
(`Color.channels?_eq_cut`), because only characters of one byte are digits or signs. A text that
goes on behind the six digits, or has a plus sign for the first of two, is read as well
(`Color.Overread`); `Color.hex_colors_rewritten` says that no other text but `#rrggbb` is rewritten.
-/

namespace BarScript

namespace Text

/-- The `n` bytes from byte `i` on, if the text can be cut at both ends. -/
def slice? (i n : Nat) (cs : List Char) : Option (List Char) :=
  let middle := (byteSplit n (byteSplit i cs).2).1
  if byteSize (byteSplit i cs).1 = i ∧ byteSize middle = n then some middle else none

theorem slice?_eq_some {i n : Nat} {cs middle : List Char} (h : slice? i n cs = some middle) :
    ∃ front rest, cs = front ++ (middle ++ rest) ∧ byteSize front = i ∧ byteSize middle = n := by
  simp only [slice?] at h
  split at h
  · rename_i hsize
    cases h
    refine ⟨_, (byteSplit n (byteSplit i cs).2).2, ?_, hsize⟩
    rw [byteSplit_append, byteSplit_append]
  · cases h

/-- A character of one byte in front moves the slices by one. -/
theorem slice?_cons {c : Char} (hc : c.utf8Size = 1) (i n : Nat) (cs : List Char) :
    slice? (i + 1) n (c :: cs) = slice? i n cs := by
  have hsplit : byteSplit (i + 1) (c :: cs) = (c :: (byteSplit i cs).1, (byteSplit i cs).2) := by
    simp [byteSplit, hc]
  have hsize : byteSize (c :: (byteSplit i cs).1) = i + 1 ↔ byteSize (byteSplit i cs).1 = i := by
    rw [byteSize, hc]
    omega
  simp only [slice?, hsplit, hsize]

theorem slice?_two {c d : Char} (hc : c.utf8Size = 1) (hd : d.utf8Size = 1) (cs : List Char) :
    slice? 0 2 (c :: d :: cs) = some [c, d] := by
  have hsplit : byteSplit 0 cs = ([], cs) := by
    cases cs with
    | nil => rfl
    | cons e es => simp [byteSplit, Nat.not_le.2 e.utf8Size_pos]
  simp [slice?, byteSplit, byteSize, hc, hd, hsplit]

end Text

namespace Color

open Text (byteSize slice?)

/-! ## Digits -/

/-- The character is a hexadecimal digit of the value `n`, in lower or in upper case. -/
def Digit (n : Nat) (c : Char) : Prop := n < 16 ∧ (c = n.digitChar ∨ c = n.digitChar.toUpper)

theorem hexDigit?_of_digit {n : Nat} {c : Char} (h : Digit n c) : hexDigit? c = some n := by
  have hall : ∀ n < 16,
      hexDigit? n.digitChar = some n ∧ hexDigit? n.digitChar.toUpper = some n := by decide
  obtain ⟨hn, rfl | rfl⟩ := h
  · exact (hall n hn).1
  · exact (hall n hn).2

/-- In a range of characters the value counts from the first one. -/
theorem digit_of_range {first last c : Char} (offset : Nat)
    (hall : ∀ i ≤ last.toNat - first.toNat, Digit (i + offset) (Char.ofNat (first.toNat + i)))
    (hc : first ≤ c ∧ c ≤ last) : Digit (c.toNat - first.toNat + offset) c := by
  have hfirst : first.toNat ≤ c.toNat := hc.1
  have hlast : c.toNat ≤ last.toNat := hc.2
  have hdigit := hall (c.toNat - first.toNat) (Nat.sub_le_sub_right hlast _)
  rwa [Nat.add_sub_cancel' hfirst, Char.ofNat_toNat] at hdigit

theorem digit_of_hexDigit? {n : Nat} {c : Char} (h : hexDigit? c = some n) : Digit n c := by
  unfold hexDigit? at h
  split at h
  · rename_i hc
    cases h
    exact digit_of_range 0 (by unfold Digit; decide) hc
  split at h
  · rename_i hc
    cases h
    exact digit_of_range 10 (by unfold Digit; decide) hc
  split at h
  · rename_i hc
    cases h
    exact digit_of_range 10 (by unfold Digit; decide) hc
  · cases h

theorem Digit.utf8Size {n : Nat} {c : Char} (h : Digit n c) : c.utf8Size = 1 := by
  have hall : ∀ n < 16, n.digitChar.utf8Size = 1 ∧ n.digitChar.toUpper.utf8Size = 1 := by decide
  obtain ⟨hn, rfl | rfl⟩ := h
  · exact (hall n hn).1
  · exact (hall n hn).2

theorem not_digit_plus (n : Nat) : ¬ Digit n '+' := fun h =>
  absurd (hexDigit?_of_digit h) nofun

/-! ## Channels -/

/-- Two characters that are read as the channel `n`. -/
inductive Channel : Nat → Char → Char → Prop
  | digits {high low : Nat} {c d : Char} (hc : Digit high c) (hd : Digit low d) :
      Channel (16 * high + low) c d
  | signed {n : Nat} {d : Char} (hd : Digit n d) : Channel n '+' d

theorem channel?_eq_some_iff {n : Nat} {c d : Char} : channel? c d = some n ↔ Channel n c d := by
  unfold channel?
  constructor
  · intro h
    split at h
    · rename_i hc
      subst hc
      exact .signed (digit_of_hexDigit? h)
    · obtain ⟨high, hhigh, h⟩ := Option.bind_eq_some_iff.1 h
      obtain ⟨low, hlow, h⟩ := Option.bind_eq_some_iff.1 h
      cases h
      exact .digits (digit_of_hexDigit? hhigh) (digit_of_hexDigit? hlow)
  · intro h
    cases h with
    | digits hc hd =>
      have hplus : c ≠ '+' := by
        rintro rfl
        exact not_digit_plus _ hc
      rw [if_neg hplus, hexDigit?_of_digit hc, hexDigit?_of_digit hd]
      rfl
    | signed hd => rw [if_pos rfl, hexDigit?_of_digit hd]

theorem Channel.lt {n : Nat} {c d : Char} (h : Channel n c d) : n < 256 := by
  cases h with
  | digits hc hd =>
    have := hc.1
    have := hd.1
    omega
  | signed hd =>
    have := hd.1
    omega

theorem Channel.utf8Size {n : Nat} {c d : Char} (h : Channel n c d) :
    c.utf8Size = 1 ∧ d.utf8Size = 1 := by
  cases h with
  | digits hc hd => exact ⟨hc.utf8Size, hd.utf8Size⟩
  | signed hd => exact ⟨rfl, hd.utf8Size⟩

/-- The text starts with `#` and three channels, and `rest` follows. -/
def Starts (r g b : Nat) (rest cs : List Char) : Prop :=
  ∃ r₁ r₂ g₁ g₂ b₁ b₂, cs = '#' :: r₁ :: r₂ :: g₁ :: g₂ :: b₁ :: b₂ :: rest ∧
    Channel r r₁ r₂ ∧ Channel g g₁ g₂ ∧ Channel b b₁ b₂

theorem channels?_eq_some_iff {r g b : Nat} {cs : List Char} :
    channels? cs = some (r, g, b) ↔ ∃ rest, Starts r g b rest cs := by
  constructor
  · intro h
    unfold channels? at h
    split at h
    · obtain ⟨r', hr, h⟩ := Option.bind_eq_some_iff.1 h
      obtain ⟨g', hg, h⟩ := Option.bind_eq_some_iff.1 h
      obtain ⟨b', hb, h⟩ := Option.bind_eq_some_iff.1 h
      cases h
      exact ⟨_, _, _, _, _, _, _, rfl, channel?_eq_some_iff.1 hr, channel?_eq_some_iff.1 hg,
        channel?_eq_some_iff.1 hb⟩
    · cases h
  · rintro ⟨rest, r₁, r₂, g₁, g₂, b₁, b₂, rfl, hr, hg, hb⟩
    rw [channels?, channel?_eq_some_iff.2 hr, channel?_eq_some_iff.2 hg,
      channel?_eq_some_iff.2 hb]
    rfl

/-! ## Cutting at bytes -/

/-- The value of hexadecimal digits, behind a plus sign if there is one, when it is one of a
byte. -/
def byte? (cs : List Char) : Option Nat :=
  let digits := if cs.head? = some '+' then cs.tail else cs
  if digits = [] then none
  else (digits.foldlM (fun n c => (hexDigit? c).map (16 * n + ·)) 0).filter (· < 256)

/-- The channels of a text whose bytes are `#` and three numbers of two bytes. -/
def cutChannels? : List Char → Option (Nat × Nat × Nat)
  | '#' :: hex => do
    let r ← (slice? 0 2 hex).bind byte?
    let g ← (slice? 2 2 hex).bind byte?
    let b ← (slice? 4 2 hex).bind byte?
    return (r, g, b)
  | _ => none

theorem byte?_two (c d : Char) : byte? [c, d] = channel? c d := by
  have fits {n : Nat} {c d : Char} (h : channel? c d = some n) :
      (some n).filter (· < 256) = some n :=
    Option.filter_some_pos (by simpa using (channel?_eq_some_iff.1 h).lt)
  by_cases hc : c = '+'
  · subst hc
    cases hd : hexDigit? d with
    | none => simp [byte?, channel?, hd]
    | some n =>
      have hchannel : channel? '+' d = some n := by rw [channel?, if_pos rfl, hd]
      rw [hchannel, ← fits hchannel]
      simp [byte?, hd]
  · cases hhigh : hexDigit? c with
    | none => simp [byte?, channel?, hc, hhigh]
    | some high =>
      cases hlow : hexDigit? d with
      | none => simp [byte?, channel?, hc, hhigh, hlow]
      | some low =>
        have hchannel : channel? c d = some (16 * high + low) := by
          rw [channel?, if_neg hc, hhigh, hlow]
          rfl
        rw [hchannel, ← fits hchannel]
        simp [byte?, hc, hhigh, hlow]

/-- Two bytes that are one character are no number. -/
theorem two_of_byte? {cs : List Char} {n : Nat} (hsize : byteSize cs = 2)
    (h : byte? cs = some n) : ∃ c d, cs = [c, d] := by
  rcases cs with _ | ⟨c, _ | ⟨d, _ | ⟨e, rest⟩⟩⟩
  · cases hsize
  · -- a digit or a plus sign has one byte
    rw [byteSize, byteSize] at hsize
    have hdigit : hexDigit? c = none := by
      cases hc : hexDigit? c with
      | none => rfl
      | some n =>
        have := (digit_of_hexDigit? hc).utf8Size
        omega
    by_cases hc : c = '+'
    · subst hc
      cases h
    · simp [byte?, hc, hdigit] at h
  · exact ⟨c, d, rfl⟩
  · simp only [byteSize] at hsize
    have := c.utf8Size_pos
    have := d.utf8Size_pos
    have := e.utf8Size_pos
    omega

/-- Two bytes at the start are a channel. -/
theorem slice_zero_eq_some_iff {cs : List Char} {n : Nat} :
    (slice? 0 2 cs).bind byte? = some n ↔ ∃ c d rest, cs = c :: d :: rest ∧ Channel n c d := by
  constructor
  · intro h
    obtain ⟨middle, hslice, hbyte⟩ := Option.bind_eq_some_iff.1 h
    obtain ⟨front, rest, rfl, hfront, hmiddle⟩ := Text.slice?_eq_some hslice
    obtain ⟨c, d, rfl⟩ := two_of_byte? hmiddle hbyte
    have hnone : front = [] := by
      by_contra hne
      exact absurd hfront (Nat.ne_of_gt (Text.byteSize_pos hne))
    rw [byte?_two] at hbyte
    exact ⟨c, d, rest, by rw [hnone]; rfl, channel?_eq_some_iff.1 hbyte⟩
  · rintro ⟨c, d, rest, rfl, h⟩
    rw [Text.slice?_two h.utf8Size.1 h.utf8Size.2, Option.bind_some, byte?_two,
      channel?_eq_some_iff.2 h]

/-- **Reading characters is cutting at bytes**, also where a character has several bytes. -/
theorem channels?_eq_cut (cs : List Char) : channels? cs = cutChannels? cs := by
  refine Option.ext fun ⟨r, g, b⟩ => ?_
  rw [channels?_eq_some_iff]
  constructor
  · rintro ⟨rest, r₁, r₂, g₁, g₂, b₁, b₂, rfl, hr, hg, hb⟩
    have second : (slice? 2 2 (r₁ :: r₂ :: g₁ :: g₂ :: b₁ :: b₂ :: rest)).bind byte? = some g := by
      rw [Text.slice?_cons hr.utf8Size.1, Text.slice?_cons hr.utf8Size.2]
      exact slice_zero_eq_some_iff.2 ⟨_, _, _, rfl, hg⟩
    have third : (slice? 4 2 (r₁ :: r₂ :: g₁ :: g₂ :: b₁ :: b₂ :: rest)).bind byte? = some b := by
      rw [Text.slice?_cons hr.utf8Size.1, Text.slice?_cons hr.utf8Size.2,
        Text.slice?_cons hg.utf8Size.1, Text.slice?_cons hg.utf8Size.2]
      exact slice_zero_eq_some_iff.2 ⟨_, _, _, rfl, hb⟩
    rw [cutChannels?, slice_zero_eq_some_iff.2 ⟨_, _, _, rfl, hr⟩, second, third]
    rfl
  · intro h
    unfold cutChannels? at h
    split at h
    · obtain ⟨r', hr, h⟩ := Option.bind_eq_some_iff.1 h
      obtain ⟨g', hg, h⟩ := Option.bind_eq_some_iff.1 h
      obtain ⟨b', hb, h⟩ := Option.bind_eq_some_iff.1 h
      cases h
      obtain ⟨r₁, r₂, rest, rfl, first⟩ := slice_zero_eq_some_iff.1 hr
      rw [Text.slice?_cons first.utf8Size.1, Text.slice?_cons first.utf8Size.2] at hg hb
      obtain ⟨g₁, g₂, rest, rfl, second⟩ := slice_zero_eq_some_iff.1 hg
      rw [Text.slice?_cons second.utf8Size.1, Text.slice?_cons second.utf8Size.2] at hb
      obtain ⟨b₁, b₂, rest, rfl, third⟩ := slice_zero_eq_some_iff.1 hb
      exact ⟨rest, _, _, _, _, _, _, rfl, first, second, third⟩
    · cases h

/-! ## Rewriting -/

/-- The text is `#rrggbb` for the three bytes. -/
def Spells (r g b : Nat) (cs : List Char) : Prop :=
  ∃ r₁ r₂ g₁ g₂ b₁ b₂, cs = ['#', r₁, r₂, g₁, g₂, b₁, b₂] ∧
    (Digit (r / 16) r₁ ∧ Digit (r % 16) r₂) ∧ (Digit (g / 16) g₁ ∧ Digit (g % 16) g₂) ∧
      (Digit (b / 16) b₁ ∧ Digit (b % 16) b₂)

/-- The text is `#` and six hexadecimal digits. -/
def IsHex (cs : List Char) : Prop :=
  ∃ digits, cs = '#' :: digits ∧ digits.length = 6 ∧ ∀ c ∈ digits, ∃ n, Digit n c

/-- The text starts with `#` and three channels, but goes on behind them or has a plus sign among
them. -/
def Overread (cs : List Char) : Prop :=
  ∃ r g b rest, Starts r g b rest cs ∧ (rest ≠ [] ∨ '+' ∈ cs)

theorem Channel.of_digits {n : Nat} {c d : Char} (h : Digit (n / 16) c ∧ Digit (n % 16) d) :
    Channel n c d := by
  have hchannel := Channel.digits h.1 h.2
  rwa [Nat.div_add_mod] at hchannel

theorem Spells.starts {r g b : Nat} {cs : List Char} (h : Spells r g b cs) :
    Starts r g b [] cs := by
  obtain ⟨r₁, r₂, g₁, g₂, b₁, b₂, rfl, hr, hg, hb⟩ := h
  exact ⟨_, _, _, _, _, _, rfl, .of_digits hr, .of_digits hg, .of_digits hb⟩

theorem IsHex.not_overread {cs : List Char} (h : IsHex cs) : ¬ Overread cs := by
  obtain ⟨digits, rfl, hlength, hdigits⟩ := h
  rintro ⟨r, g, b, rest, ⟨r₁, r₂, g₁, g₂, b₁, b₂, hcs, -⟩, hover⟩
  rcases hover with hrest | hplus
  · rw [(List.cons.inj hcs).2] at hlength
    exact hrest (List.length_eq_zero_iff.1 (by simpa using hlength))
  · rcases List.mem_cons.1 hplus with hplus | hplus
    · cases hplus
    · obtain ⟨n, hn⟩ := hdigits _ hplus
      exact not_digit_plus n hn

/-- Channels without a plus sign are digits. -/
theorem Channel.digit {n : Nat} {c d : Char} (h : Channel n c d) (hc : c ≠ '+') :
    (∃ n, Digit n c) ∧ ∃ n, Digit n d := by
  cases h with
  | digits hc hd => exact ⟨⟨_, hc⟩, _, hd⟩
  | signed hd => exact absurd rfl hc

/-- What is read is `#` and six digits, or else it is read too far. -/
theorem Starts.isHex {r g b : Nat} {rest cs : List Char} (h : Starts r g b rest cs)
    (hover : ¬ Overread cs) : IsHex cs := by
  have hrest : rest = [] := by
    by_contra hne
    exact hover ⟨r, g, b, rest, h, .inl hne⟩
  have hplus : '+' ∉ cs := fun hmem => hover ⟨r, g, b, rest, h, .inr hmem⟩
  obtain ⟨r₁, r₂, g₁, g₂, b₁, b₂, rfl, hr, hg, hb⟩ := h
  subst hrest
  simp only [List.mem_cons, not_or] at hplus
  obtain ⟨-, hr₁, -, hg₁, -, hb₁, -⟩ := hplus
  obtain ⟨⟨hr₁, hr₂⟩, ⟨hg₁, hg₂⟩, hb₁, hb₂⟩ :=
    And.intro (hr.digit (Ne.symm hr₁)) (And.intro (hg.digit (Ne.symm hg₁))
      (hb.digit (Ne.symm hb₁)))
  refine ⟨_, rfl, rfl, ?_⟩
  simp only [List.forall_mem_cons]
  exact ⟨hr₁, hr₂, hg₁, hg₂, hb₁, hb₂, List.forall_mem_nil _⟩

variable {α : Type} [Arith α]

theorem withAlpha_of_starts {r g b : Nat} {rest : List Char} {c : String}
    (h : Starts r g b rest c.toList) (alpha : Option α) :
    withAlpha c alpha = rgb (Arith.ofCount r) (Arith.ofCount g) (Arith.ofCount b) alpha := by
  rw [withAlpha, channels?_eq_some_iff.2 ⟨rest, h⟩]

theorem withAlpha_of_none {c : String} (h : channels? c.toList = none) :
    withAlpha c (none : Option α) = c := by
  rw [withAlpha, h]
  rfl

theorem head?_rgb (r g b : α) (alpha : Option α) : (rgb r g b alpha).toList.head? = some 'r' := by
  cases alpha <;> simp [rgb, toString]

/-- Channels are never written as they were read. -/
theorem withAlpha_ne_of_starts {r g b : Nat} {rest : List Char} {c : String}
    (h : Starts r g b rest c.toList) : withAlpha c (none : Option α) ≠ c := by
  intro hsame
  have hhead := head?_rgb (α := α) (Arith.ofCount r) (Arith.ofCount g) (Arith.ofCount b) none
  rw [← withAlpha_of_starts h, hsame] at hhead
  obtain ⟨r₁, r₂, g₁, g₂, b₁, b₂, hcs, -⟩ := h
  rw [hcs] at hhead
  cases hhead

/-- **Only `#rrggbb` is rewritten**, but for texts that are read too far. Without an opacity, a text
that is not `#` and six hexadecimal digits stays as it is if and only if it is not one that is read
too far. A text of `#` and six digits gives its channels, with any opacity. Every text has an
answer: what is cut out of it at fixed bytes are channels, or it is taken as it is. -/
theorem hex_colors_rewritten (c : String) :
    ((¬ IsHex c.toList → withAlpha c (none : Option α) = c) ↔ ¬ Overread c.toList) ∧
    (∀ r g b (alpha : Option α), Spells r g b c.toList →
      withAlpha c alpha = rgb (Arith.ofCount r) (Arith.ofCount g) (Arith.ofCount b) alpha) ∧
    ∀ alpha : Option α, match cutChannels? c.toList with
      | some (r, g, b) => r < 256 ∧ g < 256 ∧ b < 256 ∧
        withAlpha c alpha = rgb (Arith.ofCount r) (Arith.ofCount g) (Arith.ofCount b) alpha
      | none => withAlpha c alpha = match alpha with
        | some a => "rgba(" ++ c ++ ", " ++ Arith.text a ++ ")"
        | none => c := by
  refine ⟨⟨fun hsame hover => ?_, fun hover hhex => ?_⟩, fun r g b alpha h => ?_, fun alpha => ?_⟩
  · obtain ⟨r, g, b, rest, hstarts, -⟩ := id hover
    exact withAlpha_ne_of_starts hstarts (hsame fun hhex => hhex.not_overread hover)
  · refine withAlpha_of_none (Option.eq_none_iff_forall_ne_some.2 fun ⟨r, g, b⟩ h => ?_)
    obtain ⟨rest, hstarts⟩ := channels?_eq_some_iff.1 h
    exact hhex (hstarts.isHex hover)
  · exact withAlpha_of_starts h.starts alpha
  · rw [← channels?_eq_cut]
    cases hchannels : channels? c.toList with
    | none =>
      rw [withAlpha, hchannels]
      cases alpha <;> rfl
    | some channels =>
      obtain ⟨r, g, b⟩ := channels
      obtain ⟨rest, hstarts⟩ := channels?_eq_some_iff.1 hchannels
      have hanswer := withAlpha_of_starts hstarts alpha
      obtain ⟨_, _, _, _, _, _, -, hr, hg, hb⟩ := hstarts
      exact ⟨hr.lt, hg.lt, hb.lt, hanswer⟩

/-- Digits in both cases, with an opacity. -/
theorem hex_colors_rewritten_mixed :
    Spells 255 128 10 "#fF800a".toList ∧
      withAlpha "#fF800a" (some (0.5 : Float)) =
        rgb (Arith.ofCount 255) (Arith.ofCount 128) (Arith.ofCount 10) (some 0.5) := by
  have hspells : Spells 255 128 10 "#fF800a".toList :=
    ⟨'f', 'F', '8', '0', '0', 'a', rfl, by unfold Digit; decide⟩
  exact ⟨hspells, (hex_colors_rewritten "#fF800a").2.1 255 128 10 _ hspells⟩

/-- What stands behind the six digits is lost. -/
theorem overread_hex :
    ¬ IsHex "#ff8000ff".toList ∧
      withAlpha "#ff8000ff" (none : Option Float) = "rgb(255, 128, 0)" := by
  refine ⟨fun h => ?_, by decide +kernel⟩
  obtain ⟨digits, hdigits, hlength, -⟩ := h
  have htail : digits = ['f', 'f', '8', '0', '0', '0', 'f', 'f'] := (List.cons.inj hdigits).2.symm
  rw [htail] at hlength
  cases hlength

end Color

end BarScript
