import TxGen.Lib.Text

/-!
# Reading bytes as UTF-8

Any list of bytes is read as characters: where no character is encoded, one byte is
passed over and read as U+FFFD. `pieces` cuts the bytes accordingly, each piece with its
character, and `runes` are the characters. A list may be read from its end, too
(`decodeLast`): a byte that continues a character never begins one, so both ways cut at
the same places. Hence `trim`, which strips characters from the front going forward and
from the end going backward, strips pieces (`pieces_trim`).
-/

namespace Lib.Utf8

/-- A byte. -/
abbrev Byte := Fin 256

/-- The encoding of a character. -/
def encode (c : Char) : List Byte := (String.utf8EncodeChar c).map UInt8.toFin

/-- The character a list of bytes begins with. -/
def decode? (s : List Byte) : Option Char := (s.map UInt8.ofFin).toByteArray.utf8DecodeChar? 0

/-- U+FFFD, the replacement character. -/
def replacement : Char := Char.ofNat 0xfffd

/-- The first character and the number of its bytes. -/
def decode (s : List Byte) : Char × ℕ :=
  match decode? s with
  | some c => (c, c.utf8Size)
  | none => (replacement, 1)

/-- The pieces of `s` after the first `skip` bytes, each with its character. -/
def piecesFrom : ℕ → List Byte → List (Char × List Byte)
  | _, [] => []
  | 0, b :: t =>
    let d := decode (b :: t)
    (d.1, (b :: t).take d.2) :: piecesFrom (d.2 - 1) t
  | skip + 1, _ :: t => piecesFrom skip t

/-- The characters with the bytes they are read from. -/
def pieces (s : List Byte) : List (Char × List Byte) := piecesFrom 0 s

/-- The characters of `s`. -/
def runes (s : List Byte) : List Char := (pieces s).map Prod.fst

/-- The bytes of pieces. -/
def bytes (ps : List (Char × List Byte)) : List Byte := ps.flatMap Prod.snd

/-- Whether a byte continues a character. -/
def isCont (b : Byte) : Bool := 0x80 ≤ b.val && b.val < 0xc0

/-- The last character and the number of its bytes: its first byte is searched for among
the last four. -/
def decodeLast (s : List Byte) : Char × ℕ :=
  match s.reverse with
  | [] => (replacement, 0)
  | b :: rest =>
    if b.val < 0x80 then (Char.ofNat b.val, 1)
    else
      let n := min (((rest.take 3).takeWhile isCont).length + 2) s.length
      let d := decode (s.drop (s.length - n))
      if d.2 = n then d else (replacement, 1)

/-- `s` after the first `skip` bytes, without the characters in `p` it begins with. -/
def trimLeftFrom (p : Char → Bool) : ℕ → List Byte → List Byte
  | _, [] => []
  | 0, b :: t =>
    let d := decode (b :: t)
    if p d.1 then trimLeftFrom p (d.2 - 1) t else b :: t
  | skip + 1, _ :: t => trimLeftFrom p skip t

/-- `s` without the characters in `p` it ends with, of which there are at most `n`. -/
def trimRightFrom (p : Char → Bool) : ℕ → List Byte → List Byte
  | 0, s => s
  | n + 1, s =>
    if s = [] then []
    else
      let d := decodeLast s
      if p d.1 then trimRightFrom p n (s.take (s.length - d.2)) else s

def trimLeft (p : Char → Bool) (s : List Byte) : List Byte := trimLeftFrom p 0 s

def trimRight (p : Char → Bool) (s : List Byte) : List Byte := trimRightFrom p s.length s

/-- `s` without the characters in `p` at its ends. -/
def trim (p : Char → Bool) (s : List Byte) : List Byte := trimRight p (trimLeft p s)

variable {s t : List Byte} {c : Char} {p : Char → Bool}

/-! ## One character -/

theorem length_encode (c : Char) : (encode c).length = c.utf8Size := by
  rw [encode, List.length_map, String.length_utf8EncodeChar]

theorem encode_ne_nil (c : Char) : encode c ≠ [] := by
  intro h
  have hlen := length_encode c
  have := c.utf8Size_pos
  rw [h, List.length_nil] at hlen
  omega

theorem map_ofFin_encode_append (c : Char) (s : List Byte) :
    (encode c ++ s).map UInt8.ofFin = String.utf8EncodeChar c ++ s.map UInt8.ofFin := by
  have hid : UInt8.ofFin ∘ UInt8.toFin = id := funext fun b => UInt8.ofFin_toFin b
  rw [encode, List.map_append, List.map_map, hid, List.map_id]

theorem decode?_encode_append (c : Char) (s : List Byte) : decode? (encode c ++ s) = some c := by
  rw [decode?, map_ofFin_encode_append, List.toByteArray_append]
  exact ByteArray.utf8DecodeChar?_utf8EncodeChar_append

/-- A list begins with a character exactly when it begins with its encoding. -/
theorem decode?_eq_some_iff : decode? s = some c ↔ encode c <+: s := by
  constructor
  · intro h
    obtain ⟨l, hl⟩ := ByteArray.exists_of_utf8DecodeChar?_eq_some h
    have hbytes : s.map UInt8.ofFin = String.utf8EncodeChar c ++ l.data.toList := by
      have hdata := congrArg (fun b => b.data.toList) hl
      simpa using hdata
    have hid : UInt8.toFin ∘ UInt8.ofFin = id := rfl
    refine ⟨l.data.toList.map UInt8.toFin, ?_⟩
    rw [encode, ← List.map_append, ← hbytes, List.map_map, hid, List.map_id]
  · rintro ⟨t, rfl⟩
    exact decode?_encode_append c t

/-- UTF-8 can be read back from its first character on. -/
theorem selfDelimiting_encode : SelfDelimiting encode := by
  intro c d x y h
  have hcd : c = d := by
    have hc := decode?_encode_append c x
    rw [h, decode?_encode_append] at hc
    exact (Option.some.inj hc).symm
  subst hcd
  exact ⟨rfl, List.append_cancel_left h⟩

/-- The first byte of a character does not continue one, and the others do. A single byte
is ASCII. -/
theorem encode_eq_cons (c : Char) :
    ∃ b l, encode c = b :: l ∧ isCont b = false ∧ (∀ x ∈ l, isCont x = true) ∧
      (l = [] → b.val < 0x80) := by
  have hval : ∀ n, (UInt8.toFin (UInt8.ofNat n)).val = n % 256 := fun n => rfl
  unfold encode String.utf8EncodeChar
  dsimp only
  split_ifs with h1 h2 h3
  all_goals refine ⟨_, _, rfl, ?_, ?_, ?_⟩
  all_goals simp only [isCont, List.map_cons, List.map_nil, List.forall_mem_cons, List.not_mem_nil,
    false_imp_iff, implies_true, and_true, hval, Bool.and_eq_true, Bool.and_eq_false_iff,
    decide_eq_true_eq, decide_eq_false_iff_not, reduceCtorEq, forall_const]
  all_goals omega

/-- An ASCII byte is a character. -/
theorem encode_ofNat {b : Byte} (h : b.val < 0x80) : encode (Char.ofNat b.val) = [b] := by
  revert b
  decide +kernel

/-- A character whose bytes are ASCII is one of them. -/
theorem exists_of_ascii (h : ∀ b ∈ encode c, b.val < 0x80) :
    ∃ b : Byte, b ∈ encode c ∧ c = Char.ofNat b.val := by
  obtain ⟨b, l, hbytes, -, hcont, hascii⟩ := encode_eq_cons c
  have hnil : l = [] := by
    cases l with
    | nil => rfl
    | cons x l =>
      have hx := hcont x List.mem_cons_self
      have hlt := h x (by rw [hbytes]; simp)
      simp only [isCont, Bool.and_eq_true, decide_eq_true_eq] at hx
      omega
  have henc := encode_ofNat (hascii hnil)
  rw [← hnil, ← hbytes] at henc
  exact ⟨b, by rw [hbytes]; exact List.mem_cons_self,
    (selfDelimiting_encode _ _ [] [] (by rw [henc])).1⟩

theorem decode_of_begins (h : encode c <+: s) : decode s = (c, (encode c).length) := by
  rw [decode, decode?_eq_some_iff.2 h, length_encode]

theorem decode_of_none (h : decode? s = none) : decode s = (replacement, 1) := by
  rw [decode, h]

/-- The bytes passed over are at least one, and no more than there are. -/
theorem decode_length (hs : s ≠ []) : 1 ≤ (decode s).2 ∧ (decode s).2 ≤ s.length := by
  have hpos := List.length_pos_of_ne_nil hs
  cases h : decode? s with
  | none =>
    rw [decode_of_none h]
    exact ⟨le_rfl, hpos⟩
  | some c =>
    have hc := decode?_eq_some_iff.1 h
    rw [decode_of_begins hc]
    exact ⟨List.length_pos_of_ne_nil (encode_ne_nil c), hc.length_le⟩

/-- What is cut off after the first piece does not change how it is read. -/
theorem decode_eq_of_begins (ht : t <+: s) (hlen : (decode s).2 ≤ t.length) :
    decode t = decode s := by
  cases h : decode? s with
  | none =>
    have hnone : decode? t = none := by
      cases h' : decode? t with
      | none => rfl
      | some c =>
        rw [decode?_eq_some_iff.2 ((decode?_eq_some_iff.1 h').trans ht)] at h
        cases h
    rw [decode_of_none h, decode_of_none hnone]
  | some c =>
    have hc := decode?_eq_some_iff.1 h
    rw [decode_of_begins hc] at hlen ⊢
    exact decode_of_begins (List.prefix_of_prefix_length_le hc ht hlen)

/-- What follows and does not continue a character does not change how it is read,
either. -/
theorem decode_append (hs : s ≠ []) (ht : ∀ b ∈ t.head?, isCont b = false) :
    decode (s ++ t) = decode s := by
  refine (decode_eq_of_begins (List.prefix_append s t) ?_).symm
  cases h : decode? (s ++ t) with
  | none =>
    rw [decode_of_none h]
    exact List.length_pos_of_ne_nil hs
  | some c =>
    obtain ⟨l, hl⟩ := decode?_eq_some_iff.1 h
    rw [decode_of_begins ⟨l, hl⟩]
    -- otherwise the first byte of `t` is inside the character
    by_contra hlong
    obtain ⟨b, cont, hc, -, hcont, -⟩ := encode_eq_cons c
    have hhead : (encode c)[s.length]? = t.head? := by
      have hat : (encode c ++ l)[s.length]? = (s ++ t)[s.length]? := by rw [hl]
      rw [List.getElem?_append_left (not_le.1 hlong), List.getElem?_append_right le_rfl,
        Nat.sub_self] at hat
      rw [hat, List.head?_eq_getElem?]
    have hpos := List.length_pos_of_ne_nil hs
    rw [hc, List.length_cons] at hlong
    rw [hc, show s.length = (s.length - 1) + 1 by omega, List.getElem?_cons_succ,
      List.getElem?_eq_getElem (by omega)] at hhead
    have hx := hcont _ (List.getElem_mem (show s.length - 1 < cont.length by omega))
    rw [ht _ hhead.symm] at hx
    cases hx

/-! ## Pieces -/

theorem piecesFrom_eq_drop (skip : ℕ) (s : List Byte) : piecesFrom skip s = pieces (s.drop skip) := by
  induction s generalizing skip with
  | nil => simp [piecesFrom, pieces]
  | cons b t ih =>
    cases skip with
    | zero => rfl
    | succ skip => exact ih skip

@[simp] theorem pieces_nil : pieces [] = [] := rfl

/-- The first piece and the others. -/
theorem pieces_eq_cons (hs : s ≠ []) :
    pieces s = ((decode s).1, s.take (decode s).2) :: pieces (s.drop (decode s).2) := by
  obtain ⟨b, t, rfl⟩ := List.exists_cons_of_ne_nil hs
  have hd := (decode_length hs).1
  rw [pieces, piecesFrom, piecesFrom_eq_drop]
  obtain ⟨n, hn⟩ := Nat.exists_eq_add_of_le' hd
  rw [hn]
  rfl

theorem pieces_eq_nil : pieces s = [] ↔ s = [] := by
  constructor
  · intro h
    by_contra hs
    rw [pieces_eq_cons hs] at h
    cases h
  · rintro rfl
    rfl

@[simp] theorem bytes_nil : bytes [] = [] := rfl

@[simp] theorem bytes_cons (q : Char × List Byte) (ps : List (Char × List Byte)) :
    bytes (q :: ps) = q.2 ++ bytes ps := rfl

theorem bytes_append (ps qs : List (Char × List Byte)) : bytes (ps ++ qs) = bytes ps ++ bytes qs :=
  List.flatMap_append

/-- **Reading from the front.** An induction over the pieces of a list. -/
theorem pieces_induction {motive : List Byte → Prop} (nil : motive [])
    (cons : ∀ s, s ≠ [] → motive (s.drop (decode s).2) → motive s) (s : List Byte) : motive s := by
  induction h : s.length using Nat.strong_induction_on generalizing s with
  | h n ih =>
    by_cases hs : s = []
    · rw [hs]
      exact nil
    · have hlen := decode_length hs
      refine cons s hs (ih _ ?_ _ rfl)
      rw [List.length_drop]
      omega

/-- The pieces make up the list. -/
theorem bytes_pieces (s : List Byte) : bytes (pieces s) = s := by
  induction s using pieces_induction with
  | nil => rfl
  | cons s hs ih => rw [pieces_eq_cons hs, bytes_cons, ih, List.take_append_drop]

/-- A list may be cut between two pieces. -/
theorem pieces_of_append {ps qs : List (Char × List Byte)} (h : pieces s = ps ++ qs) :
    pieces (bytes ps) = ps ∧ pieces (bytes qs) = qs := by
  induction ps generalizing s with
  | nil =>
    rw [List.nil_append] at h
    exact ⟨rfl, by rw [← h, bytes_pieces]⟩
  | cons q ps ih =>
    have hs : s ≠ [] := by
      rintro rfl
      cases h
    rw [pieces_eq_cons hs, List.cons_append, List.cons.injEq] at h
    obtain ⟨rfl, hrest⟩ := h
    obtain ⟨hps, hqs⟩ := ih hrest
    refine ⟨?_, hqs⟩
    have hlen := decode_length hs
    have htake : (s.take (decode s).2).length = (decode s).2 := by
      rw [List.length_take]
      omega
    have hprefix : s.take (decode s).2 ++ bytes ps <+: s := by
      refine ⟨bytes qs, ?_⟩
      rw [List.append_assoc, ← bytes_append, ← hrest, bytes_pieces, List.take_append_drop]
    have hdec : decode (s.take (decode s).2 ++ bytes ps) = decode s :=
      decode_eq_of_begins hprefix (by rw [List.length_append]; omega)
    have hne : s.take (decode s).2 ++ bytes ps ≠ [] := by
      intro h0
      have := congrArg List.length h0
      rw [List.length_append, List.length_nil] at this
      omega
    rw [bytes_cons, pieces_eq_cons hne, hdec, List.take_left' htake, List.drop_left' htake, hps]

/-- Bytes that do not continue a character may be put behind a list. -/
theorem pieces_append (ht : ∀ b ∈ t.head?, isCont b = false) (s : List Byte) :
    pieces (s ++ t) = pieces s ++ pieces t := by
  induction s using pieces_induction with
  | nil => rfl
  | cons s hs ih =>
    have hlen := (decode_length hs).2
    have hne : s ++ t ≠ [] := by simp [hs]
    rw [pieces_eq_cons hs, pieces_eq_cons hne, decode_append hs ht, List.take_append_of_le_length hlen,
      List.drop_append_of_le_length hlen, ih, List.cons_append]

theorem pieces_encode (c : Char) : pieces (encode c) = [(c, encode c)] := by
  have hd := decode_of_begins (List.prefix_refl (encode c))
  rw [pieces_eq_cons (encode_ne_nil c), hd, List.take_length, List.drop_length, pieces_nil]

theorem pieces_append_encode (s : List Byte) (c : Char) :
    pieces (s ++ encode c) = pieces s ++ [(c, encode c)] := by
  rw [pieces_append, pieces_encode]
  obtain ⟨b, l, hb, hstart, -, -⟩ := encode_eq_cons c
  intro x hx
  rw [hb, List.head?_cons, Option.mem_some_iff] at hx
  rwa [← hx]

/-- Encoded characters are read back. -/
theorem pieces_flatMap_encode (cs : List Char) :
    pieces (cs.flatMap encode) = cs.map fun c => (c, encode c) := by
  induction cs using List.reverseRecOn with
  | nil => rfl
  | append_singleton cs c ih =>
    rw [List.flatMap_append, List.flatMap_singleton, pieces_append_encode, ih, List.map_append,
      List.map_singleton]

theorem runes_flatMap_encode (cs : List Char) : runes (cs.flatMap encode) = cs := by
  rw [runes, pieces_flatMap_encode, List.map_map]
  exact List.map_id cs

/-- Every piece is an encoded character or is read as U+FFFD. -/
theorem snd_of_mem_pieces {q : Char × List Byte} (hq : q ∈ pieces s) :
    q.2 = encode q.1 ∨ q.1 = replacement := by
  induction s using pieces_induction with
  | nil => cases hq
  | cons s hs ih =>
    rw [pieces_eq_cons hs, List.mem_cons] at hq
    rcases hq with rfl | hq
    · cases hc : decode? s with
      | none => exact Or.inr (by rw [decode_of_none hc])
      | some c =>
        have hpre := decode?_eq_some_iff.1 hc
        rw [decode_of_begins hpre]
        exact Or.inl (List.prefix_iff_eq_take.1 hpre).symm
    · exact ih hq

/-- How bytes are read: characters where they are encoded, and U+FFFD for each byte at
which none is. -/
inductive Reads : List Byte → List Char → Prop
  | nil : Reads [] []
  | char {s : List Byte} {cs : List Char} (c : Char) (rest : Reads s cs) :
      Reads (encode c ++ s) (c :: cs)
  | invalid {s : List Byte} {cs : List Char} (b : Byte) (h : ∀ c, ¬encode c <+: b :: s)
      (rest : Reads s cs) : Reads (b :: s) (replacement :: cs)

theorem reads_runes (s : List Byte) : Reads s (runes s) := by
  induction s using pieces_induction with
  | nil => exact .nil
  | cons s hs ih =>
    have hrunes : runes s = (decode s).1 :: runes (s.drop (decode s).2) := by
      rw [runes, pieces_eq_cons hs]
      rfl
    rw [hrunes]
    cases hc : decode? s with
    | some c =>
      obtain ⟨l, rfl⟩ := decode?_eq_some_iff.1 hc
      rw [decode_of_begins (List.prefix_append _ _), List.drop_left] at ih ⊢
      exact .char c ih
    | none =>
      obtain ⟨b, l, rfl⟩ := List.exists_cons_of_ne_nil hs
      rw [decode_of_none hc] at ih ⊢
      refine .invalid b (fun c hpre => ?_) ih
      rw [decode?_eq_some_iff.2 hpre] at hc
      cases hc

/-! ## Reading from the end -/

theorem decodeLast_append_encode (s : List Byte) (c : Char) :
    decodeLast (s ++ encode c) = (c, (encode c).length) := by
  obtain ⟨b, l, hc, hstart, hcont, hascii⟩ := encode_eq_cons c
  have hfour : (encode c).length ≤ 4 := by
    rw [length_encode]
    exact c.utf8Size_le_four
  rcases List.eq_nil_or_concat l with rfl | ⟨l, x, rfl⟩
  · have hb := hascii rfl
    have hchar : Char.ofNat b.val = c :=
      selfDelimiting_encode.injective (by rw [encode_ofNat hb, hc])
    rw [decodeLast, hc, List.reverse_append, List.reverse_singleton]
    simp only [List.singleton_append, if_pos hb, hchar, List.length_singleton]
  · -- going back from the last byte, the first one that does not continue is `b`
    rw [List.concat_eq_append] at hc hcont
    rw [List.forall_mem_append] at hcont
    have hx : ¬x.val < 0x80 := by
      have := hcont.2 x List.mem_cons_self
      simp only [isCont, Bool.and_eq_true, decide_eq_true_eq] at this
      omega
    have hlen : (encode c).length = l.length + 2 := by
      rw [hc, List.length_cons, List.length_append, List.length_singleton]
    have hrev : (s ++ encode c).reverse = x :: (l.reverse ++ b :: s.reverse) := by
      simp [hc]
    have hback : (((l.reverse ++ b :: s.reverse).take 3).takeWhile isCont).length = l.length := by
      have htake : (l.reverse ++ b :: s.reverse).take 3 =
          l.reverse ++ b :: s.reverse.take (2 - l.length) := by
        rw [List.take_append, List.take_of_length_le (by rw [List.length_reverse]; omega),
          List.length_reverse, show 3 - l.length = (2 - l.length) + 1 by omega, List.take_succ_cons]
      rw [htake, List.takeWhile_append_of_pos fun y hy => hcont.1 y (List.mem_reverse.1 hy),
        List.takeWhile_cons_of_neg (by rw [hstart]; decide), List.append_nil, List.length_reverse]
    have hn : min (l.length + 2) (s ++ encode c).length = (encode c).length := by
      rw [List.length_append]
      omega
    rw [decodeLast, hrev]
    simp only [if_neg hx, hback, hn]
    rw [List.length_append, Nat.add_sub_cancel, List.drop_left,
      decode_of_begins (List.prefix_refl _), if_pos rfl]

theorem decodeLast_of_not_encode (hs : s ≠ []) (h : ∀ c, ¬encode c <:+ s) :
    decodeLast s = (replacement, 1) := by
  obtain ⟨init, b, rfl⟩ := List.eq_nil_or_concat s |>.resolve_left hs
  rw [List.concat_eq_append] at h ⊢
  have hb : ¬b.val < 0x80 := fun hb => h _ ⟨init, by rw [encode_ofNat hb]⟩
  rw [decodeLast, List.reverse_append, List.reverse_singleton]
  simp only [List.singleton_append, if_neg hb]
  generalize hn : min _ (init ++ [b]).length = n
  have hle : n ≤ (init ++ [b]).length := by
    rw [← hn]
    exact min_le_right _ _
  split_ifs with hd
  · cases hc : decode? ((init ++ [b]).drop ((init ++ [b]).length - n)) with
    | none => exact decode_of_none hc
    | some c =>
      -- a character that takes all of the bytes looked at would end the list
      have hpre := decode?_eq_some_iff.1 hc
      rw [decode_of_begins hpre] at hd
      have hall := hpre.eq_of_length (by rw [List.length_drop]; dsimp only at hd; omega)
      exact absurd (by rw [hall]; exact List.drop_suffix _ _) (h c)
  · rfl

/-- **Both ways cut alike.** The last character is that of the last piece. -/
theorem decodeLast_eq {ps : List (Char × List Byte)} {q : Char × List Byte}
    (h : pieces s = ps ++ [q]) : decodeLast s = (q.1, q.2.length) := by
  obtain ⟨-, hq⟩ := pieces_of_append h
  have hs : s = bytes ps ++ q.2 := by
    rw [← bytes_pieces s, h, bytes_append, bytes_cons, bytes_nil, List.append_nil]
  rw [bytes_cons, bytes_nil, List.append_nil] at hq
  have hne : q.2 ≠ [] := by
    intro h0
    rw [h0] at hq
    cases hq
  rw [pieces_eq_cons hne, List.cons.injEq, pieces_eq_nil, List.drop_eq_nil_iff] at hq
  obtain ⟨hfst, hlen⟩ := hq
  have hchar : (decode q.2).1 = q.1 := congrArg Prod.fst hfst
  have hdec : decode q.2 = (q.1, q.2.length) :=
    Prod.ext hchar (le_antisymm (decode_length hne).2 hlen)
  cases hc : decode? q.2 with
  | some c =>
    have hpre := decode?_eq_some_iff.1 hc
    rw [decode_of_begins hpre, Prod.mk.injEq] at hdec
    obtain ⟨rfl, hlen⟩ := hdec
    rw [hs, ← hpre.eq_of_length hlen, decodeLast_append_encode]
  | none =>
    rw [decode_of_none hc] at hdec
    rw [← hdec]
    have hsne : s ≠ [] := by
      rw [hs]
      simp [hne]
    refine decodeLast_of_not_encode hsne fun c hsuf => ?_
    obtain ⟨l, rfl⟩ := hsuf
    rw [pieces_append_encode] at h
    obtain ⟨-, hlast⟩ := List.append_inj' h rfl
    rw [List.cons.injEq] at hlast
    rw [← hlast.1, decode?_eq_some_iff.2 (List.prefix_refl _)] at hc
    cases hc

/-! ## Trimming -/

theorem trimLeftFrom_eq_drop (skip : ℕ) (s : List Byte) :
    trimLeftFrom p skip s = trimLeft p (s.drop skip) := by
  induction s generalizing skip with
  | nil => simp [trimLeftFrom, trimLeft]
  | cons b t ih =>
    cases skip with
    | zero => rfl
    | succ skip => exact ih skip

theorem trimLeft_eq (s : List Byte) :
    trimLeft p s = bytes ((pieces s).dropWhile fun q => p q.1) := by
  induction s using pieces_induction with
  | nil => rfl
  | cons s hs ih =>
    have hstep : trimLeft p s =
        if p (decode s).1 then trimLeft p (s.drop (decode s).2) else s := by
      obtain ⟨b, t, rfl⟩ := List.exists_cons_of_ne_nil hs
      obtain ⟨n, hn⟩ := Nat.exists_eq_add_of_le' (decode_length hs).1
      rw [trimLeft, trimLeftFrom, trimLeftFrom_eq_drop, hn]
      rfl
    rw [hstep, pieces_eq_cons hs, List.dropWhile_cons]
    split_ifs with hp
    · exact ih
    · rw [← pieces_eq_cons hs, bytes_pieces]

theorem trimRightFrom_eq {n : ℕ} (hn : (pieces s).length ≤ n) :
    trimRightFrom p n s = bytes ((pieces s).rdropWhile fun q => p q.1) := by
  induction n generalizing s with
  | zero =>
    rw [Nat.le_zero, List.length_eq_zero_iff, pieces_eq_nil] at hn
    rw [hn]
    rfl
  | succ n ih =>
    rw [trimRightFrom]
    split_ifs with hs
    · rw [hs]
      rfl
    obtain ⟨ps, q, hpieces⟩ : ∃ ps q, pieces s = ps ++ [q] := by
      have := mt pieces_eq_nil.1 hs
      exact ⟨_, _, (List.dropLast_append_getLast this).symm⟩
    have hbytes : s = bytes ps ++ q.2 := by
      rw [← bytes_pieces s, hpieces, bytes_append, bytes_cons, bytes_nil, List.append_nil]
    have hcut : s.take (s.length - q.2.length) = bytes ps := by
      rw [hbytes, List.length_append, Nat.add_sub_cancel, List.take_left]
    have hps := (pieces_of_append hpieces).1
    rw [hpieces, List.length_append, List.length_singleton] at hn
    dsimp only
    rw [decodeLast_eq hpieces, hpieces, List.rdropWhile_concat]
    split_ifs with hp
    · rw [hcut, ih (by rw [hps]; omega), hps]
    · rw [← hpieces, bytes_pieces]

theorem length_pieces_le (s : List Byte) : (pieces s).length ≤ s.length := by
  induction s using pieces_induction with
  | nil => exact le_rfl
  | cons s hs ih =>
    have hlen := decode_length hs
    rw [List.length_drop] at ih
    rw [pieces_eq_cons hs, List.length_cons]
    omega

theorem trimRight_eq (s : List Byte) :
    trimRight p s = bytes ((pieces s).rdropWhile fun q => p q.1) :=
  trimRightFrom_eq (length_pieces_le s)

/-- **Trimming strips pieces.** -/
theorem pieces_trim (p : Char → Bool) (s : List Byte) :
    pieces (trim p s) = Lib.trim (fun q => p q.1) (pieces s) := by
  have hleft : pieces (trimLeft p s) = (pieces s).dropWhile fun q => p q.1 := by
    rw [trimLeft_eq]
    exact (pieces_of_append (List.takeWhile_append_dropWhile (l := pieces s)).symm).2
  obtain ⟨m, hm⟩ := List.rdropWhile_prefix (fun q => p q.1) (pieces (trimLeft p s))
  rw [trim, trimRight_eq, (pieces_of_append hm.symm).1, hleft]
  rfl

theorem runes_trim (p : Char → Bool) (s : List Byte) :
    runes (trim p s) = Lib.trim p (runes s) := by
  rw [runes, runes, pieces_trim, trim_map]
  rfl

theorem bytes_of_valid {ps : List (Char × List Byte)} (h : ∀ q ∈ ps, q.2 = encode q.1) :
    bytes ps = (ps.map Prod.fst).flatMap encode := by
  rw [bytes, List.flatMap_map]
  exact List.flatMap_congr fun q hq => h q hq

/-- **What is trimmed.** The characters in `p` at the ends are left out, and none of them
is at an end of what remains. -/
theorem trim_spec (hp : p replacement = false) (s : List Byte) :
    (∃ pre post : List Char, (∀ c ∈ pre, p c = true) ∧ (∀ c ∈ post, p c = true) ∧
      s = pre.flatMap encode ++ (trim p s ++ post.flatMap encode)) ∧
    ∀ c, p c = true → ¬encode c <+: trim p s ∧ ¬encode c <:+ trim p s := by
  have hvalid : ∀ ps : List (Char × List Byte), ps <:+: pieces s → (∀ q ∈ ps, p q.1 = true) →
      bytes ps = (ps.map Prod.fst).flatMap encode := by
    intro ps hsub hps
    refine bytes_of_valid fun q hq => (snd_of_mem_pieces (hsub.subset hq)).resolve_right ?_
    intro h0
    have := hps q hq
    rw [h0, hp] at this
    cases this
  constructor
  · -- the pieces before, between and after
    have hsplit : pieces s = (pieces s).takeWhile (fun q => p q.1) ++ (pieces (trim p s) ++
        ((pieces s).dropWhile fun q => p q.1).rtakeWhile fun q => p q.1) := by
      rw [pieces_trim, Lib.trim, List.rdropWhile_append_rtakeWhile, List.takeWhile_append_dropWhile]
    have hpre : ∀ q ∈ (pieces s).takeWhile (fun q => p q.1), p q.1 = true := fun q hq =>
      List.mem_takeWhile_imp (p := fun q : Char × List Byte => p q.1) hq
    have hpost : ∀ q ∈ ((pieces s).dropWhile fun q => p q.1).rtakeWhile (fun q => p q.1),
        p q.1 = true := fun q hq =>
      List.mem_rtakeWhile_imp (p := fun q : Char × List Byte => p q.1) hq
    refine ⟨((pieces s).takeWhile fun q => p q.1).map Prod.fst,
      (((pieces s).dropWhile fun q => p q.1).rtakeWhile fun q => p q.1).map Prod.fst, ?_, ?_, ?_⟩
    · exact List.forall_mem_map.2 hpre
    · exact List.forall_mem_map.2 hpost
    · conv_lhs => rw [← bytes_pieces s, hsplit, bytes_append, bytes_append, bytes_pieces]
      rw [hvalid _ (List.takeWhile_prefix _).isInfix hpre,
        hvalid _ ((List.rtakeWhile_suffix _ _).trans (List.dropWhile_suffix _)).isInfix hpost]
  · intro c hc
    constructor
    · intro hpre
      have hne : trim p s ≠ [] := by
        intro h0
        rw [h0, List.prefix_nil] at hpre
        exact encode_ne_nil c hpre
      have hhead := pieces_trim p s
      rw [pieces_eq_cons hne, decode_of_begins hpre] at hhead
      have := head_trim (congrArg List.head? hhead.symm)
      rw [hc] at this
      cases this
    · rintro ⟨l, hl⟩
      have hlast := pieces_trim p s
      rw [← hl, pieces_append_encode] at hlast
      have := getLast_trim ((congrArg List.getLast? hlast.symm).trans List.getLast?_concat)
      rw [hc] at this
      cases this

/-- A text with no character in `p` at its ends is left as it is. -/
theorem trim_eq_self (hp : p replacement = false) {s : List Byte}
    (h : ∀ c, p c = true → ¬encode c <+: s ∧ ¬encode c <:+ s) : trim p s = s := by
  obtain ⟨⟨pre, post, hpre, hpost, hs⟩, -⟩ := trim_spec hp s
  have hfront : pre = [] := by
    cases pre with
    | nil => rfl
    | cons c pre =>
      refine absurd ?_ (h c (hpre c List.mem_cons_self)).1
      rw [List.flatMap_cons, List.append_assoc] at hs
      exact ⟨_, hs.symm⟩
  have hback : post = [] := by
    rcases List.eq_nil_or_concat' post with hnil | ⟨post', c, rfl⟩
    · exact hnil
    · refine absurd ?_ (h c (hpost c (by simp))).2
      rw [List.flatMap_append, List.flatMap_singleton, ← List.append_assoc,
        ← List.append_assoc] at hs
      exact ⟨_, hs.symm⟩
  rw [hfront, hback, List.flatMap_nil, List.nil_append, List.append_nil] at hs
  exact hs.symm

/-- Trimming an encoded text trims its characters. -/
theorem trim_flatMap_encode (p : Char → Bool) (cs : List Char) :
    trim p (cs.flatMap encode) = (Lib.trim p cs).flatMap encode := by
  rw [← bytes_pieces (trim p (cs.flatMap encode)), pieces_trim, pieces_flatMap_encode, trim_map,
    bytes, List.flatMap_map]
  rfl

end Lib.Utf8
