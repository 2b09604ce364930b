import TxGen.Lib.Utf8
import TxGen.Spec.Tag

/-!
# The two normalizers of the instance id

Go and JavaScript agree on what whitespace is but for two characters: U+FEFF, which
only JavaScript trims, and U+0085, which only Go trims. So the funding script and the
server lock to the same script unless one of the two stands at an end of the instance
id, within the six bytes of the tag.
-/

namespace TxGen

open Lib

/-! ## Whitespace -/

/-- The whitespace of both languages. -/
def sharedSpace (c : Char) : Bool := goIsSpace c && jsIsSpace c

theorem char_eq_iff_toNat {c d : Char} : c = d ↔ c.toNat = d.toNat :=
  ⟨fun h => by rw [h], fun h => Char.ext (UInt32.toNat_inj.1 h)⟩

/-- Only JavaScript trims U+FEFF. -/
theorem jsIsSpace_iff (c : Char) : jsIsSpace c = true ↔ sharedSpace c = true ∨ c = byteOrderMark := by
  have hbom : byteOrderMark.toNat = 0xfeff := by decide
  rw [char_eq_iff_toNat, hbom]
  simp only [sharedSpace, jsIsSpace, goIsSpace, Bool.and_eq_true, Bool.or_eq_true,
    decide_eq_true_eq]
  grind

/-- Only Go trims U+0085. -/
theorem goIsSpace_iff (c : Char) : goIsSpace c = true ↔ sharedSpace c = true ∨ c = nextLine := by
  have hnel : nextLine.toNat = 0x85 := by decide
  rw [char_eq_iff_toNat, hnel]
  simp only [sharedSpace, jsIsSpace, goIsSpace, Bool.and_eq_true, Bool.or_eq_true,
    decide_eq_true_eq]
  grind

/-! ## The tag -/

theorem selfDelimiting_encodeRune : SelfDelimiting encodeRune := Utf8.selfDelimiting_encode

theorem length_encodeRune (r : Char) : 1 ≤ (encodeRune r).length ∧ (encodeRune r).length ≤ 4 := by
  rw [encodeRune, List.length_map, String.length_utf8EncodeChar]
  exact ⟨r.utf8Size_pos, r.utf8Size_le_four⟩

/-- The loop packs the characters into what is left of the tag. -/
theorem copyRunes_eq (tag : Bytes) (value : List Char) (h : tag.length < lockScriptTagBytes) :
    copyRunes tag value = tag ++ pack encodeRune (lockScriptTagBytes - tag.length) value := by
  induction value generalizing tag with
  | nil => rw [copyRunes, pack, List.append_nil]
  | cons r rest ih =>
    have hlen := length_encodeRune r
    rw [copyRunes, pack]
    dsimp only
    by_cases hbig : tag.length + (encodeRune r).length > lockScriptTagBytes
    · rw [if_pos hbig, if_neg (by omega), List.append_nil]
    have hfit : (encodeRune r).length ≤ lockScriptTagBytes - tag.length := by omega
    rw [if_neg hbig]
    by_cases hfull : (tag ++ encodeRune r).length = lockScriptTagBytes
    · rw [if_pos hfull, if_pos hfit]
      rw [List.length_append] at hfull
      have hroom : lockScriptTagBytes - tag.length - (encodeRune r).length = 0 := by omega
      have hnil : ∀ c, encodeRune c ≠ [] := by
        intro c hc
        have := (length_encodeRune c).1
        rw [hc] at this
        simp at this
      rw [hroom, pack_zero hnil, List.append_nil]
    · rw [if_neg hfull, if_pos hfit]
      rw [List.length_append] at hfull
      rw [ih _ (by rw [List.length_append]; omega), List.append_assoc, List.length_append,
        Nat.sub_add_eq]

theorem fillTag_eq (value : List Char) :
    fillTag value = pad 0x20 lockScriptTagBytes (pack encodeRune lockScriptTagBytes value) := by
  rw [fillTag, copyRunes_eq [] value (by decide), List.nil_append]
  rfl

theorem length_fillTag (value : List Char) : (fillTag value).length = lockScriptTagBytes := by
  rw [fillTag_eq, length_pad_pack]

/-- A tagged-drop lock script takes eight bytes. -/
theorem length_taggedDropLockScript {id : List Char} {script : Bytes}
    (h : taggedDropLockScript id = .ok script) : script.length = 8 := by
  unfold taggedDropLockScript lockScriptTag at h
  dsimp only at h
  split_ifs at h
  · cases h
  · cases h
    rw [List.length_append, List.length_cons, length_fillTag]
    rfl

/-- The tag of a value determines its first character. -/
theorem head_eq_of_fillTag_eq {v v' : List Char} {r r' : Char} (hv : v.head? = some r)
    (hv' : v'.head? = some r') (h : fillTag v = fillTag v') : r = r' := by
  have hfit : ∀ c, (encodeRune c).length ≤ lockScriptTagBytes := by
    intro c
    have := (length_encodeRune c).2
    rw [lockScriptTagBytes]
    omega
  obtain ⟨l, rfl⟩ := List.head?_eq_some_iff.1 hv
  obtain ⟨l', rfl⟩ := List.head?_eq_some_iff.1 hv'
  rw [fillTag_eq, fillTag_eq] at h
  exact head_eq_of_pad_pack_eq selfDelimiting_encodeRune (hfit r) (hfit r') h

/-- Every character of `v` from position `n` on, but a space, ends beyond the tag. -/
def BeyondTag (v : List Char) (n : ℕ) : Prop :=
  ∀ i < v.length, n ≤ i → v[i]? ≠ some ' ' →
    lockScriptTagBytes < width encodeRune (v.take (i + 1))

instance (v : List Char) (n : ℕ) : Decidable (BeyondTag v n) :=
  inferInstanceAs (Decidable (∀ i < v.length, n ≤ i → v[i]? ≠ some ' ' →
    lockScriptTagBytes < width encodeRune (v.take (i + 1))))

theorem beyond_iff_beyondTag (v : List Char) (n : ℕ) :
    Beyond encodeRune ' ' lockScriptTagBytes v n ↔ BeyondTag v n := by
  constructor
  · intro h i hi hn hne
    have hx := List.getElem?_eq_getElem hi
    exact h i _ hn hx fun h0 => hne (by rw [hx, h0])
  · intro h i x hn hx hne
    refine h i (List.getElem?_eq_some_iff.1 hx).1 hn fun h0 => hne ?_
    rw [hx] at h0
    exact Option.some.inj h0

/-- What is trimmed from the end of a value does not show in the tag exactly when it
lies beyond it. -/
theorem fillTag_rdropWhile_eq_iff (p : Char → Bool) (v : List Char) :
    fillTag (v.rdropWhile p) = fillTag v ↔ BeyondTag v (v.rdropWhile p).length := by
  obtain ⟨m, hm⟩ := List.rdropWhile_prefix p v
  have hkey := pad_pack_append_eq_iff selfDelimiting_encodeRune
    (show encodeRune ' ' = [0x20] by decide) lockScriptTagBytes (v.rdropWhile p) m
  rw [hm] at hkey
  rw [fillTag_eq, fillTag_eq, hkey, beyond_iff_beyondTag]

/-! ## The two programs -/

/-- The value, with the whitespace of both languages trimmed, begins with none of the
characters that only one of them trims, and what only one of them trims from its end
is, but for spaces, beyond the tag. -/
def EndsAgree (env : List Char) : Prop :=
  (∀ c ∈ (trim sharedSpace env).head?, c ≠ byteOrderMark ∧ c ≠ nextLine) ∧
    BeyondTag (trim sharedSpace env)
      (min ((trim sharedSpace env).rdropWhile jsIsSpace).length
        ((trim sharedSpace env).rdropWhile goIsSpace).length)

-- Named, since the search may find the enumeration of all characters instead.
instance (env : List Char) : Decidable (EndsAgree env) :=
  @instDecidableAnd _ _ (Option.decidableForallMem _) (inferInstanceAs (Decidable (BeyondTag _ _)))

theorem sharedSpace_js {c : Char} (h : sharedSpace c = true) : jsIsSpace c = true :=
  (jsIsSpace_iff c).2 (Or.inl h)

theorem sharedSpace_go {c : Char} (h : sharedSpace c = true) : goIsSpace c = true :=
  (goIsSpace_iff c).2 (Or.inl h)

/-- A value that begins with a character only one of the programs trims gets two
different tags. -/
theorem fillTag_ne_of_head {p q : Char → Bool} {v : List Char} {c : Char}
    (hv : v.head? = some c) (hp : p c = true) (hq : q c = false) (hne : trim p v ≠ []) :
    fillTag (trim p v) ≠ fillTag (trim q v) := by
  intro h
  have hc : (trim q v).head? = some c := head_trim_of_not hv hq
  obtain ⟨d, hd⟩ := Option.isSome_iff_exists.1 (List.isSome_head?.2 hne)
  have hdc := head_eq_of_fillTag_eq hd hc h
  have hpd := head_trim hd
  rw [hdc, hp] at hpd
  cases hpd

/-- **The tags of a trimmed value.** -/
theorem fillTag_trim_eq_iff {env : List Char} (hjs : trim jsIsSpace env ≠ [])
    (hgo : trim goIsSpace env ≠ []) :
    fillTag (trim jsIsSpace env) = fillTag (trim goIsSpace env) ↔ EndsAgree env := by
  have hbom : jsIsSpace byteOrderMark = true ∧ goIsSpace byteOrderMark = false := by decide
  have hnel : jsIsSpace nextLine = false ∧ goIsSpace nextLine = true := by decide
  rw [← trim_trim_of_imp (fun _ => sharedSpace_js) env] at hjs ⊢
  rw [← trim_trim_of_imp (fun _ => sharedSpace_go) env] at hgo ⊢
  have hshared : ∀ c, (trim sharedSpace env).head? = some c → sharedSpace c = false :=
    fun c => head_trim
  have hlast : ∀ c, (trim sharedSpace env).getLast? = some c → sharedSpace c = false :=
    fun c => getLast_trim
  unfold EndsAgree
  generalize trim sharedSpace env = v at hjs hgo hshared hlast
  have hv : v ≠ [] := by
    rintro rfl
    exact hjs rfl
  obtain ⟨c, hc⟩ := Option.isSome_iff_exists.1 (List.isSome_head?.2 hv)
  obtain ⟨d, hd⟩ : ∃ d, v.getLast? = some d := ⟨_, List.getLast?_eq_getLast_of_ne_nil hv⟩
  -- the first character
  by_cases hcb : c = byteOrderMark
  · rw [hcb] at hc
    exact iff_of_false (fillTag_ne_of_head hc hbom.1 hbom.2 hjs) fun h => (h.1 _ hc).1 rfl
  by_cases hcn : c = nextLine
  · rw [hcn] at hc
    exact iff_of_false (fillTag_ne_of_head hc hnel.2 hnel.1 hgo).symm fun h => (h.1 _ hc).2 rfl
  have hcs := hshared c hc
  have hcjs : jsIsSpace c = false := by
    rw [Bool.eq_false_iff, ne_eq, jsIsSpace_iff, hcs]
    simp [hcb]
  have hcgo : goIsSpace c = false := by
    rw [Bool.eq_false_iff, ne_eq, goIsSpace_iff, hcs]
    simp [hcn]
  rw [trim_of_head hc hcjs, trim_of_head hc hcgo]
  have hstart : ∀ x ∈ v.head?, x ≠ byteOrderMark ∧ x ≠ nextLine := by
    intro x hx
    rw [hc, Option.mem_some_iff] at hx
    rw [← hx]
    exact ⟨hcb, hcn⟩
  rw [and_iff_right hstart]
  -- the last character is trimmed by at most one of them
  have hds := hlast d hd
  by_cases hdn : d = nextLine
  · have hkeep : v.rdropWhile jsIsSpace = v := rdropWhile_of_last hd (by rw [hdn]; exact hnel.1)
    rw [hkeep, Nat.min_eq_right (List.rdropWhile_prefix _ _).length_le, eq_comm]
    exact fillTag_rdropWhile_eq_iff goIsSpace v
  · have hkeep : v.rdropWhile goIsSpace = v := by
      apply rdropWhile_of_last hd
      rw [Bool.eq_false_iff, ne_eq, goIsSpace_iff, hds]
      simp [hdn]
    rw [hkeep, Nat.min_eq_left (List.rdropWhile_prefix _ _).length_le]
    exact fillTag_rdropWhile_eq_iff jsIsSpace v

theorem requiredEnv_ok {env id : List Char} (h : requiredEnv env = .ok id) :
    trim jsIsSpace env ≠ [] ∧ id = trim jsIsSpace env := by
  unfold requiredEnv at h
  dsimp only at h
  split_ifs at h with h0
  cases h
  exact ⟨h0, rfl⟩

theorem loadInstanceID_ok {env id : List Char} (h : loadInstanceID env = .ok id) :
    trim goIsSpace env ≠ [] ∧ id = trim goIsSpace env := by
  unfold loadInstanceID readString at h
  dsimp only at h
  by_cases h0 : trim goIsSpace env = []
  · simp [h0] at h
  · simp only [ne_eq, h0, not_false_eq_true, if_true, if_false] at h
    cases h
    exact ⟨h0, rfl⟩

theorem lockScriptTag_ok {id : List Char} {tag : Bytes} (h : lockScriptTag id = .ok tag) :
    trim goIsSpace id ≠ [] ∧ tag = fillTag (trim goIsSpace id) := by
  unfold lockScriptTag at h
  dsimp only at h
  split_ifs at h with h0
  cases h
  exact ⟨h0, rfl⟩

/-- **The funding script and the server compute the same tag**, and so lock to the same
script, exactly when the ends of the instance id agree. -/
theorem tag_eq_iff_endsAgree {env id id' : List Char} {tag : Bytes} (hjs : requiredEnv env = .ok id)
    (hgo : loadInstanceID env = .ok id') (htag : lockScriptTag id' = .ok tag) :
    (normalizeInstanceID id = tag ↔ EndsAgree env) ∧
      (fundingLockScript env = serverLockScript env ↔ EndsAgree env) := by
  obtain ⟨hne, rfl⟩ := requiredEnv_ok hjs
  obtain ⟨hne', rfl⟩ := loadInstanceID_ok hgo
  obtain ⟨-, rfl⟩ := lockScriptTag_ok htag
  have htrim : ∀ p : Char → Bool, trim p (trim p env) = trim p env :=
    fun p => trim_trim_of_imp (fun _ => id) env
  have hkey := fillTag_trim_eq_iff hne hne'
  have hfund : fundingLockScript env =
      .ok (6 :: fillTag (trim jsIsSpace env) ++ [opDROP]) := by
    rw [fundingLockScript, hjs]
    show Except.ok _ = _
    rw [normalizeInstanceID, htrim, length_fillTag]
    rfl
  have hserve : serverLockScript env =
      .ok (6 :: fillTag (trim goIsSpace env) ++ [opDROP]) := by
    rw [serverLockScript, hgo]
    show taggedDropLockScript _ = _
    rw [taggedDropLockScript, htag, htrim]
    rfl
  refine ⟨by rw [normalizeInstanceID, htrim, htrim]; exact hkey, ?_⟩
  rw [hfund, hserve, Except.ok.injEq, List.append_left_inj, List.cons.injEq, and_iff_right rfl]
  exact hkey

/-- A byte order mark in front of the instance id: the funding script drops it, the
server puts it into its tag. -/
theorem byte_order_mark_differs :
    requiredEnv [byteOrderMark, 'a', 'b', 'c'] = .ok ['a', 'b', 'c'] ∧
    normalizeInstanceID ['a', 'b', 'c'] = [0x61, 0x62, 0x63, 0x20, 0x20, 0x20] ∧
    loadInstanceID [byteOrderMark, 'a', 'b', 'c'] = .ok [byteOrderMark, 'a', 'b', 'c'] ∧
    lockScriptTag [byteOrderMark, 'a', 'b', 'c'] = .ok [0xef, 0xbb, 0xbf, 0x61, 0x62, 0x63] ∧
    fundingLockScript [byteOrderMark, 'a', 'b', 'c'] ≠
      serverLockScript [byteOrderMark, 'a', 'b', 'c'] := by
  decide +kernel

/-- An instance id of seven bytes, with a space before and a next-line control after. -/
def Concrete.runnerLine : List Char := [' ', 'r', 'u', 'n', 'n', 'e', 'r', '1', nextLine]

/-- Only the server trims the control, which lies beyond the tag. -/
theorem runner_line_same_tag :
    normalizeInstanceID ['r', 'u', 'n', 'n', 'e', 'r', '1', nextLine] =
        [0x72, 0x75, 0x6e, 0x6e, 0x65, 0x72] ∧
      fundingLockScript Concrete.runnerLine = serverLockScript Concrete.runnerLine := by
  have hjs : requiredEnv Concrete.runnerLine =
      .ok ['r', 'u', 'n', 'n', 'e', 'r', '1', nextLine] := by
    decide +kernel
  have hgo : loadInstanceID Concrete.runnerLine = .ok ['r', 'u', 'n', 'n', 'e', 'r', '1'] := by
    decide +kernel
  have htag : lockScriptTag ['r', 'u', 'n', 'n', 'e', 'r', '1'] =
      .ok [0x72, 0x75, 0x6e, 0x6e, 0x65, 0x72] := by
    decide +kernel
  have hends : EndsAgree Concrete.runnerLine := by decide +kernel
  have h := tag_eq_iff_endsAgree hjs hgo htag
  exact ⟨h.1.2 hends, h.2.2 hends⟩

end TxGen
