import TxGen.Proof.Tag
import TxGen.Spec.Script

/-!
# The tag of any instance id

For any bytes the tag is the longest beginning of the trimmed id, in whole characters,
that fits into six bytes, and spaces. So two ids have the same lock script exactly when
they differ only in spaces and in what lies beyond the tag (`lockScripts_differ_iff`).
-/

namespace TxGen.Script

open Lib

theorem encodeRune_eq : encodeRune = Utf8.encode := rfl

theorem encodeRune_space : encodeRune ' ' = [0x20] := by decide

theorem encodeRune_ne_nil (c : Char) : encodeRune c ≠ [] := Utf8.encode_ne_nil c

/-! ## The loop -/

theorem copyAt_eq (done encoded : Bytes) (b : Fin 256) {room : ℕ} (h : encoded.length ≤ room) :
    copyAt (done ++ List.replicate room b) done.length encoded =
      .ok ((done ++ encoded) ++ List.replicate (room - encoded.length) b) := by
  have hlen : (done ++ List.replicate room b).length = done.length + room := by
    rw [List.length_append, List.length_replicate]
  rw [copyAt, if_neg (by omega), hlen, Nat.add_sub_cancel_left, List.take_left,
    List.take_of_length_le h, List.drop_append, List.drop_replicate, List.append_assoc,
    List.drop_of_length_le (Nat.le_add_right _ _), List.nil_append, Nat.add_sub_cancel_left]

/-- What the loop does with a tag of which `room` bytes are left: it packs the characters
into them. -/
theorem copyLoop_eq (done : Bytes) (room : ℕ) (rs : List Char) :
    copyLoop (done ++ List.replicate room 0x20) done.length rs =
      .ok (done ++ pad 0x20 room (pack encodeRune room rs)) := by
  induction rs generalizing done room with
  | nil => rw [copyLoop, pack, pad, List.nil_append, List.length_nil, Nat.sub_zero]
  | cons r rs ih =>
    have hlen : ∀ l : Bytes, ∀ n, (l ++ List.replicate n (0x20 : Fin 256)).length = l.length + n := by
      intro l n
      rw [List.length_append, List.length_replicate]
    rw [copyLoop]
    dsimp only
    by_cases hfit : (encodeRune r).length ≤ room
    · rw [if_neg (by rw [hlen]; omega), copyAt_eq done _ _ hfit, pad_pack_cons hfit,
        ← List.append_assoc]
      change (if done.length + (encodeRune r).length =
          ((done ++ encodeRune r) ++ List.replicate (room - (encodeRune r).length) 0x20).length then
            Except.ok ((done ++ encodeRune r) ++ List.replicate (room - (encodeRune r).length) 0x20)
          else copyLoop _ _ rs) = _
      split_ifs with hfull
      · -- nothing is left of the tag
        have hroom : room - (encodeRune r).length = 0 := by
          rw [hlen, List.length_append] at hfull
          omega
        rw [hroom, pack_zero encodeRune_ne_nil]
        rfl
      · rw [← List.length_append, ih]
    · rw [if_pos (by rw [hlen]; omega), pad_pack_of_head]
      intro a ha
      rwa [← Option.some.inj ha]

/-- The tag is packed, and no index is out of range. -/
theorem lockScriptTag_eq (id : Bytes) :
    lockScriptTag id = if trimSpace id = [] then .error .instanceIDRequired
      else .ok (pad 0x20 lockScriptTagBytes
        (pack encodeRune lockScriptTagBytes (Utf8.runes (trimSpace id)))) := by
  have hloop := copyLoop_eq [] lockScriptTagBytes (Utf8.runes (trimSpace id))
  rw [List.nil_append, List.nil_append, List.length_nil] at hloop
  rw [lockScriptTag]
  split_ifs
  · rfl
  · exact hloop

/-- The id of valid UTF-8 has the tag of its characters. -/
theorem lockScriptTag_flatMap_encodeRune (id : List Char) :
    (lockScriptTag (id.flatMap encodeRune)).toOption = (TxGen.lockScriptTag id).toOption := by
  have hrunes : Utf8.runes (trimSpace (id.flatMap encodeRune)) = trim goIsSpace id := by
    rw [trimSpace, Utf8.runes_trim, encodeRune_eq, Utf8.runes_flatMap_encode]
  have hempty : trimSpace (id.flatMap encodeRune) = [] ↔ trim goIsSpace id = [] := by
    rw [← hrunes, Utf8.runes, List.map_eq_nil_iff, Utf8.pieces_eq_nil]
  rw [lockScriptTag_eq, TxGen.lockScriptTag, hrunes, ← fillTag_eq]
  simp only [hempty]
  split_ifs <;> rfl

/-- What `TrimSpace` leaves: white space is cut off both ends, and none is left there. -/
theorem trimSpace_spec (id : Bytes) :
    (∃ pre post : List Char, (∀ c ∈ pre, goIsSpace c = true) ∧ (∀ c ∈ post, goIsSpace c = true) ∧
      id = pre.flatMap encodeRune ++ (trimSpace id ++ post.flatMap encodeRune)) ∧
    ∀ c, goIsSpace c = true → ¬encodeRune c <+: trimSpace id ∧ ¬encodeRune c <:+ trimSpace id :=
  Utf8.trim_spec (by decide) id

/-! ## One id -/

/-- **The tag never splits a character.** Only a blank id is refused, and no index is
out of range. Any other id has a tag of six bytes, valid UTF-8: the longest beginning in
whole characters of the trimmed id that fits, and spaces. -/
theorem lockScriptTag_whole_characters (id : Bytes) :
    (lockScriptTag id = .error .instanceIDRequired ↔ trimSpace id = []) ∧
    lockScriptTag id ≠ .error .indexOutOfRange ∧
    (trimSpace id ≠ [] → ∃ tag text rs k, lockScriptTag id = .ok tag ∧
      tag.length = lockScriptTagBytes ∧ tag = List.flatMap encodeRune text ∧
      Utf8.Reads (trimSpace id) rs ∧ k ≤ rs.length ∧
      IsGreatest {j | j ≤ rs.length ∧ width encodeRune (rs.take j) ≤ lockScriptTagBytes} k ∧
      tag = (rs.take k).flatMap encodeRune ++
        List.replicate (lockScriptTagBytes - width encodeRune (rs.take k)) 0x20) := by
  rw [lockScriptTag_eq]
  refine ⟨?_, ?_, fun hne => ?_⟩
  · split_ifs with h0 <;> simp [h0]
  · split_ifs <;> simp
  · rw [if_neg hne]
    generalize hrs : Utf8.runes (trimSpace id) = rs
    have hpre : fit encodeRune lockScriptTagBytes rs <+: rs := fit_prefix _ _
    have htake := List.prefix_iff_eq_take.1 hpre
    refine ⟨_, _, rs, (fit encodeRune lockScriptTagBytes rs).length, rfl, length_pad_pack _ _,
      pad_pack_eq encodeRune_space _ _, hrs ▸ Utf8.reads_runes _, hpre.length_le,
      ⟨⟨hpre.length_le, ?_⟩, fun j hj => length_le_length_fit hj.1 hj.2⟩, ?_⟩
    · rw [← htake]
      exact width_fit_le _ _
    · rw [← htake, pad, pack_eq_flatMap_fit, width]

/-- An invalid byte grows to three, and a character that does not fit is left out whole. -/
example : lockScriptTag [0x20, 0xff, 0x61, 0xe2, 0x82, 0xac, 0x0a] =
    .ok [0xef, 0xbf, 0xbd, 0x61, 0x20, 0x20] := by decide +kernel

/-! ## Two ids -/

theorem taggedDropLockScript_eq {id : Bytes} (h : trimSpace id ≠ []) :
    taggedDropLockScript id = .ok (Fin.ofNat 256 lockScriptTagBytes ::
      pad 0x20 lockScriptTagBytes (pack encodeRune lockScriptTagBytes (Utf8.runes (trimSpace id))) ++
        [opDROP]) := by
  rw [taggedDropLockScript, lockScriptTag_eq, if_neg h]
  rfl

theorem taggedDropLockScript_eq_iff {id id' : Bytes} {rs rs' : List Char} (h : trimSpace id ≠ [])
    (h' : trimSpace id' ≠ []) (hrs : Utf8.runes (trimSpace id) = rs)
    (hrs' : Utf8.runes (trimSpace id') = rs') :
    taggedDropLockScript id = taggedDropLockScript id' ↔
      BeyondTag rs (commonLength rs rs') ∧ BeyondTag rs' (commonLength rs rs') := by
  rw [taggedDropLockScript_eq h, taggedDropLockScript_eq h', hrs, hrs', Except.ok.injEq,
    List.append_left_inj, List.cons.injEq, and_iff_right rfl,
    pad_pack_eq_iff selfDelimiting_encodeRune encodeRune_space, beyond_iff_beyondTag,
    beyond_iff_beyondTag]

/-- An id that fits into the tag has nothing beyond it: trimmed, it does not end with a
space. -/
theorem length_le_of_beyondTag {id : Bytes} {cs : List Char} {n : ℕ}
    (hcs : trimSpace id = cs.flatMap encodeRune)
    (hlen : (trimSpace id).length ≤ lockScriptTagBytes) (hn : BeyondTag cs n) : cs.length ≤ n := by
  by_contra hlt
  have hne : cs ≠ [] := by
    rintro rfl
    exact hlt (Nat.zero_le _)
  have hpos := List.length_pos_of_ne_nil hne
  have hruns : trim goIsSpace (Utf8.runes id) = cs := by
    rw [← Utf8.runes_trim]
    exact (congrArg Utf8.runes hcs).trans (Utf8.runes_flatMap_encode cs)
  have hlast : cs[cs.length - 1]? ≠ some ' ' := by
    rw [← List.getLast?_eq_getElem?]
    intro h0
    have hspace := getLast_trim ((congrArg List.getLast? hruns).trans h0)
    revert hspace
    decide
  have hbeyond := hn (cs.length - 1) (by omega) (by omega) hlast
  rw [Nat.sub_add_cancel hpos, List.take_length, width, ← hcs] at hbeyond
  omega

/-- Ids of valid UTF-8 that take at most six bytes have different scripts when they
differ after trimming. -/
theorem lockScripts_differ_of_fits {id id' : Bytes} (h : trimSpace id ≠ [])
    (h' : trimSpace id' ≠ []) {cs cs' : List Char} (hcs : trimSpace id = cs.flatMap encodeRune)
    (hcs' : trimSpace id' = cs'.flatMap encodeRune)
    (hlen : (trimSpace id).length ≤ lockScriptTagBytes)
    (hlen' : (trimSpace id').length ≤ lockScriptTagBytes) (hne : trimSpace id ≠ trimSpace id') :
    taggedDropLockScript id ≠ taggedDropLockScript id' := by
  have hrunes : Utf8.runes (trimSpace id) = cs :=
    (congrArg Utf8.runes hcs).trans (Utf8.runes_flatMap_encode cs)
  have hrunes' : Utf8.runes (trimSpace id') = cs' :=
    (congrArg Utf8.runes hcs').trans (Utf8.runes_flatMap_encode cs')
  rw [ne_eq, taggedDropLockScript_eq_iff h h' hrunes hrunes']
  rintro ⟨hbeyond, hbeyond'⟩
  have heq := eq_of_length_le_commonLength (length_le_of_beyondTag hcs hlen hbeyond)
    (length_le_of_beyondTag hcs' hlen' hbeyond')
  exact hne (by rw [hcs, hcs', heq])

/-- **When two instances have different lock scripts.** Take two ids that are not blank,
trimmed and read as characters. Their scripts differ exactly when, after what both begin
with, one of them has a character other than a space that ends within six bytes. -/
theorem lockScripts_differ_iff {id id' : Bytes} (h : trimSpace id ≠ []) (h' : trimSpace id' ≠ []) :
    let rs := Utf8.runes (trimSpace id)
    let rs' := Utf8.runes (trimSpace id')
    taggedDropLockScript id ≠ taggedDropLockScript id' ↔
      ¬(BeyondTag rs (commonLength rs rs') ∧ BeyondTag rs' (commonLength rs rs')) :=
  not_congr (taggedDropLockScript_eq_iff h h' rfl rfl)

/-- The ids `a1` and ` a2`. -/
theorem lockScripts_differ_short :
    taggedDropLockScript [0x61, 0x31] ≠ taggedDropLockScript [0x20, 0x61, 0x32] :=
  (lockScripts_differ_iff (by decide +kernel) (by decide +kernel)).2 (by decide +kernel)

/-- The ids `runner1` and `runner2` have the same script, and so have an invalid byte and
the character it is read as. -/
theorem lockScripts_same :
    (trimSpace [0x72, 0x75, 0x6e, 0x6e, 0x65, 0x72, 0x31] ≠
        trimSpace [0x72, 0x75, 0x6e, 0x6e, 0x65, 0x72, 0x32] ∧
      taggedDropLockScript [0x72, 0x75, 0x6e, 0x6e, 0x65, 0x72, 0x31] =
        .ok [0x06, 0x72, 0x75, 0x6e, 0x6e, 0x65, 0x72, 0x75] ∧
      taggedDropLockScript [0x72, 0x75, 0x6e, 0x6e, 0x65, 0x72, 0x32] =
        .ok [0x06, 0x72, 0x75, 0x6e, 0x6e, 0x65, 0x72, 0x75]) ∧
    trimSpace [0xff] ≠ trimSpace [0xef, 0xbf, 0xbd] ∧
      taggedDropLockScript [0xff] = taggedDropLockScript [0xef, 0xbf, 0xbd] := by
  decide +kernel

end TxGen.Script
