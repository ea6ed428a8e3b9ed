import SignatureBlob.Token

/-!
# Legible texts

A text says nothing of where it ends, and what stands behind it may look like more of it. A writer
is legible in front of some texts if its characters, with one of these behind them, tell what was
written and where that ends. Numbers are legible in front of what is no digit, tokens in front of
anything, and pieces of text one behind the other, or with a separator between them, if each piece
is.

Main definition: `Legible`. Main statements: `Legible.flatMap` and `Legible.separated` (lists of
pieces), `append_inj_of_stops` (characters of a kind), `toDigits_append_inj` (numbers) and
`Token.text_append_inj` (tokens).
-/

namespace SignatureBlob

/-- The texts of `a` and `b` with something behind them are the same only if `a` and `b` show the
same and the same is behind them. What may be behind them is told by `ends`. -/
def Legible {α β : Type} (write : α → List Char) (shown : α → β) (ends : List Char → Prop)
    (a b : α) : Prop :=
  ∀ r s, ends r → ends s → write a ++ r = write b ++ s → shown a = shown b ∧ r = s

/-! ## Lists of pieces -/

namespace Legible

variable {α β : Type} {write : α → List Char} {shown : α → β} {ends behind : List Char → Prop}
  {as bs : List α}

/-- What is legible in front of some texts is legible in front of fewer. -/
theorem mono {a b : α} (h : Legible write shown ends a b) (hle : ∀ r, behind r → ends r) :
    Legible write shown behind a b :=
  fun r s hr hs => h r s (hle r hr) (hle s hs)

/-- Pieces one behind the other are told apart if each of them is, whether another one or the end
is behind it, and if no piece looks like the end. -/
theorem flatMap (behind : List Char → Prop) (hends : ∀ r, ends r → behind r)
    (hpiece : ∀ a r, behind (write a ++ r)) (has : ∀ a ∈ as, ∀ r, ¬ ends (write a ++ r))
    (hbs : ∀ b ∈ bs, ∀ r, ¬ ends (write b ++ r))
    (h : ∀ a ∈ as, ∀ b ∈ bs, Legible write shown behind a b) :
    Legible (List.flatMap write) (List.map shown) ends as bs := by
  intro r s hr hs htext
  have hbehind : ∀ (pieces : List α) (r : List Char), ends r →
      behind (pieces.flatMap write ++ r) := by
    intro pieces r hr
    cases pieces with
    | nil => exact hends r hr
    | cons piece pieces =>
      rw [List.flatMap_cons, List.append_assoc]
      exact hpiece piece _
  induction as generalizing bs with
  | nil =>
    cases bs with
    | nil => exact ⟨rfl, htext⟩
    | cons b bs =>
      rw [List.flatMap_nil, List.nil_append, List.flatMap_cons, List.append_assoc] at htext
      exact absurd (htext ▸ hr) (hbs b List.mem_cons_self _)
  | cons a as ih =>
    cases bs with
    | nil =>
      rw [List.flatMap_nil, List.nil_append, List.flatMap_cons, List.append_assoc] at htext
      exact absurd (htext.symm ▸ hs) (has a List.mem_cons_self _)
    | cons b bs =>
      rw [List.flatMap_cons, List.flatMap_cons, List.append_assoc, List.append_assoc] at htext
      have hhead := h a List.mem_cons_self b List.mem_cons_self
      obtain ⟨hshown, hrest⟩ := hhead _ _ (hbehind as r hr) (hbehind bs s hs) htext
      have htail : ∀ a ∈ as, ∀ b ∈ bs, Legible write shown behind a b :=
        fun a ha b hb => h a (List.mem_cons_of_mem _ ha) b (List.mem_cons_of_mem _ hb)
      obtain ⟨hmap, hend⟩ := ih (fun a ha => has a (List.mem_cons_of_mem _ ha))
        (fun b hb => hbs b (List.mem_cons_of_mem _ hb)) htail hrest
      exact ⟨by rw [List.map_cons, List.map_cons, hshown, hmap], hend⟩

end Legible

/-- Pieces that one by one do the same to a value do the same in a row. -/
theorem foldl_eq_of_map_eq {α β : Type} {apply : α → β → β} {as bs : List α}
    (h : as.map apply = bs.map apply) (value : β) :
    as.foldl (fun value a => apply a value) value =
      bs.foldl (fun value b => apply b value) value := by
  have hmap : ∀ pieces : List α, pieces.foldl (fun value a => apply a value) value =
      (pieces.map apply).foldl (fun value step => step value) value := by
    intro pieces
    rw [List.foldl_map]
  rw [hmap, hmap, h]

/-- A list with a separator is its first member and then pieces that begin with the separator. -/
theorem intercalate_cons_eq_append_flatMap (separator first : List Char)
    (texts : List (List Char)) :
    separator.intercalate (first :: texts) = first ++ texts.flatMap (separator ++ ·) := by
  induction texts generalizing first with
  | nil => simp
  | cons second texts ih =>
    rw [List.intercalate_cons_cons, ih, List.flatMap_cons]
    simp only [List.append_assoc]

namespace Legible

variable {α β : Type} {write : α → List Char} {shown : α → β} {ends : List Char → Prop}
  {separator : List Char} {as bs : List α}

/-- What may stand behind a member of a list: the end of the list or a separator. -/
def Within (separator : List Char) (ends : List Char → Prop) (r : List Char) : Prop :=
  ends r ∨ separator <+: r

/-- Lists with a separator, of which both have members, are told apart if their members are. -/
theorem separated_of_ne_nil (hseparator : ∀ r, ¬ ends (separator ++ r)) (has : as ≠ [])
    (hbs : bs ≠ [])
    (h : ∀ a ∈ as, ∀ b ∈ bs, Legible write shown (Within separator ends) a b) :
    Legible (fun list => separator.intercalate (list.map write)) (List.map shown) ends as bs := by
  obtain ⟨a, as, rfl⟩ := List.exists_cons_of_ne_nil has
  obtain ⟨b, bs, rfl⟩ := List.exists_cons_of_ne_nil hbs
  intro r s hr hs htext
  have hwithin : ∀ (items : List α) (r : List Char), ends r →
      Within separator ends (items.flatMap (fun item => separator ++ write item) ++ r) := by
    intro items r hr
    cases items with
    | nil => exact .inl hr
    | cons item items =>
      right
      rw [List.flatMap_cons, List.append_assoc, List.append_assoc]
      exact List.prefix_append _ _
  have hpieces : ∀ (item : α) (items : List α), separator.intercalate ((item :: items).map write) =
      write item ++ items.flatMap (fun item => separator ++ write item) := by
    intro item items
    rw [List.map_cons, intercalate_cons_eq_append_flatMap, List.flatMap_map]
  dsimp only at htext
  rw [hpieces, hpieces, List.append_assoc, List.append_assoc] at htext
  obtain ⟨hshown, hrest⟩ := h a List.mem_cons_self b List.mem_cons_self _ _ (hwithin as r hr)
    (hwithin bs s hs) htext
  -- each further piece begins with the separator, which the end does not
  have hgo : ∀ (items : List α), ∀ item ∈ items, ∀ r, ¬ ends (separator ++ write item ++ r) := by
    intro items item _ r
    rw [List.append_assoc]
    exact hseparator _
  have htail : Legible (List.flatMap fun item => separator ++ write item) (List.map shown) ends
      as bs := by
    refine flatMap (Within separator ends) (fun r hr => .inl hr) ?_ (hgo as) (hgo bs) ?_
    · intro item r
      right
      rw [List.append_assoc]
      exact List.prefix_append _ _
    · intro a ha b hb r s hr hs htext
      rw [List.append_assoc, List.append_assoc] at htext
      exact h a (List.mem_cons_of_mem _ ha) b (List.mem_cons_of_mem _ hb) r s hr hs
        (List.append_cancel_left htext)
  obtain ⟨hmap, hend⟩ := htail r s hr hs hrest
  exact ⟨by rw [List.map_cons, List.map_cons, hshown, hmap], hend⟩

/-- Lists with a separator are told apart if their members are and none looks like the end. -/
theorem separated (hseparator : ∀ r, ¬ ends (separator ++ r))
    (has : ∀ a ∈ as, ∀ r, ¬ ends (write a ++ r)) (hbs : ∀ b ∈ bs, ∀ r, ¬ ends (write b ++ r))
    (h : ∀ a ∈ as, ∀ b ∈ bs, Legible write shown (Within separator ends) a b) :
    Legible (fun list => separator.intercalate (list.map write)) (List.map shown) ends as bs := by
  have hbegins : ∀ (item : α) (items : List α), ∃ rest,
      separator.intercalate ((item :: items).map write) = write item ++ rest := by
    intro item items
    rw [List.map_cons, intercalate_cons_eq_append_flatMap]
    exact ⟨_, rfl⟩
  intro r s hr hs htext
  cases as with
  | nil =>
    cases bs with
    | nil => exact ⟨rfl, by simpa using htext⟩
    | cons b bs =>
      obtain ⟨rest, hrest⟩ := hbegins b bs
      have hr' : r = write b ++ (rest ++ s) := by
        rw [← List.append_assoc, ← hrest]
        simpa using htext
      exact absurd (hr' ▸ hr) (hbs b List.mem_cons_self _)
  | cons a as =>
    cases bs with
    | nil =>
      obtain ⟨rest, hrest⟩ := hbegins a as
      have hs' : s = write a ++ (rest ++ r) := by
        rw [← List.append_assoc, ← hrest]
        simpa using htext.symm
      exact absurd (hs' ▸ hs) (has a List.mem_cons_self _)
    | cons b bs =>
      exact separated_of_ne_nil hseparator (List.cons_ne_nil _ _) (List.cons_ne_nil _ _) h r s hr hs
        htext

end Legible

/-! ## Words -/

/-- No word begins with another one. -/
def PrefixFree (words : List String) : Prop :=
  ∀ u ∈ words, ∀ v ∈ words, u.toList <+: v.toList → u = v

instance (words : List String) : Decidable (PrefixFree words) :=
  inferInstanceAs (Decidable (∀ u ∈ words, ∀ v ∈ words, u.toList <+: v.toList → u = v))

/-- Words none of which begins with another are legible in front of anything. -/
theorem PrefixFree.append_inj {words : List String} (h : PrefixFree words) {u v : String}
    (hu : u ∈ words) (hv : v ∈ words) {r s : List Char} (htext : u.toList ++ r = v.toList ++ s) :
    u = v ∧ r = s := by
  have hword : u = v := by
    have hleft : u.toList <+: u.toList ++ r := List.prefix_append _ _
    have hright : v.toList <+: u.toList ++ r := htext ▸ List.prefix_append _ _
    rcases List.prefix_or_prefix_of_prefix hleft hright with huv | hvu
    · exact h u hu v hv huv
    · exact (h v hv u hu hvu).symm
  subst hword
  exact ⟨rfl, List.append_cancel_left htext⟩

/-! ## Characters of a kind -/

/-- The text does not begin with a character of the kind. -/
def Stops (kind : Char → Bool) (r : List Char) : Prop := ∀ c ∈ r.head?, kind c = false

/-- The end of a text stops characters of any kind. -/
theorem stops_nil (kind : Char → Bool) : Stops kind [] := nofun

/-- A text stops a kind of characters if its first character is of another kind. -/
@[simp] theorem stops_cons {kind : Char → Bool} {c : Char} {r : List Char} :
    Stops kind (c :: r) ↔ kind c = false := by
  simp [Stops]

/-- Characters of a kind are told from what stops them. -/
theorem append_inj_of_stops {kind : Char → Bool} {u v r s : List Char}
    (hu : ∀ c ∈ u, kind c = true) (hv : ∀ c ∈ v, kind c = true) (hr : Stops kind r)
    (hs : Stops kind s) (h : u ++ r = v ++ s) : u = v ∧ r = s := by
  have htake : ∀ {u r : List Char}, (∀ c ∈ u, kind c = true) → Stops kind r →
      (u ++ r).takeWhile kind = u := by
    intro u r hu hr
    have hnil : r.takeWhile kind = [] := by
      cases r with
      | nil => rfl
      | cons c r => simp [stops_cons.1 hr]
    rw [List.takeWhile_append_of_pos hu, hnil, List.append_nil]
  have huv : u = v := by rw [← htake hu hr, h, htake hv hs]
  subst huv
  exact ⟨rfl, List.append_cancel_left h⟩

/-! ## Numbers -/

/-- Numbers are written in digits. -/
theorem isDigit_of_mem_toDigits {n : Nat} {c : Char} (h : c ∈ Nat.toDigits 10 n) :
    c.isDigit = true :=
  Nat.isDigit_of_mem_toDigits (by decide) (by decide) h

/-- A number is legible in front of what is no digit. -/
theorem toDigits_append_inj {n m : Nat} {r s : List Char} (hr : Stops Char.isDigit r)
    (hs : Stops Char.isDigit s) (h : Nat.toDigits 10 n ++ r = Nat.toDigits 10 m ++ s) :
    n = m ∧ r = s := by
  obtain ⟨hdigits, hend⟩ := append_inj_of_stops (fun _ => isDigit_of_mem_toDigits)
    (fun _ => isDigit_of_mem_toDigits) hr hs h
  refine ⟨?_, hend⟩
  calc n
    _ = Nat.ofDigitChars 10 (Nat.toDigits 10 n) 0 := Nat.ofDigitChars_ten_toDigits.symm
    _ = Nat.ofDigitChars 10 (Nat.toDigits 10 m) 0 := by rw [hdigits]
    _ = m := Nat.ofDigitChars_ten_toDigits

/-- A number does not begin with what is no digit. -/
theorem toDigits_append_ne_cons {n : Nat} {c : Char} (hc : c.isDigit = false) (r s : List Char) :
    Nat.toDigits 10 n ++ r ≠ c :: s := by
  intro h
  obtain ⟨d, rest, hcons⟩ := List.exists_cons_of_ne_nil (Nat.toDigits_ne_nil (b := 10) (n := n))
  have hd : d.isDigit = true := isDigit_of_mem_toDigits (by rw [hcons]; exact List.mem_cons_self)
  rw [hcons, List.cons_append, List.cons.injEq] at h
  rw [h.1, hc] at hd
  exact Bool.false_ne_true hd

/-- The place of a generic parameter behind its one or two marks, in front of what is no digit. -/
theorem param_append_inj {index index' : Nat} {ofMethod ofMethod' : Bool} {r s : List Char}
    (hr : Stops Char.isDigit r) (hs : Stops Char.isDigit s)
    (h : ((if ofMethod then "!!" else "!") ++ toString index).toList ++ r =
      ((if ofMethod' then "!!" else "!") ++ toString index').toList ++ s) :
    (index = index' ∧ ofMethod = ofMethod') ∧ r = s := by
  have hmark : ('!' : Char).isDigit = false := by decide
  cases ofMethod with
  | true =>
    cases ofMethod' with
    | true =>
      have hdigits : Nat.toDigits 10 index ++ r = Nat.toDigits 10 index' ++ s := by simpa using h
      obtain ⟨hindex, hend⟩ := toDigits_append_inj hr hs hdigits
      exact ⟨⟨hindex, rfl⟩, hend⟩
    | false =>
      have hdigits : Nat.toDigits 10 index' ++ s = '!' :: (Nat.toDigits 10 index ++ r) := by
        simpa using h.symm
      exact absurd hdigits (toDigits_append_ne_cons hmark _ _)
  | false =>
    cases ofMethod' with
    | true =>
      have hdigits : Nat.toDigits 10 index ++ r = '!' :: (Nat.toDigits 10 index' ++ s) := by
        simpa using h
      exact absurd hdigits (toDigits_append_ne_cons hmark _ _)
    | false =>
      have hdigits : Nat.toDigits 10 index ++ r = Nat.toDigits 10 index' ++ s := by simpa using h
      obtain ⟨hindex, hend⟩ := toDigits_append_inj hr hs hdigits
      exact ⟨⟨hindex, rfl⟩, hend⟩

/-- A number with a sign, which stands in front of a negative one only. -/
theorem repr_append_inj {n m : Int} {r s : List Char} (hr : Stops Char.isDigit r)
    (hs : Stops Char.isDigit s) (h : n.repr.toList ++ r = m.repr.toList ++ s) : n = m ∧ r = s := by
  have hsign : ('-' : Char).isDigit = false := by decide
  cases n with
  | ofNat n =>
    cases m with
    | ofNat m =>
      obtain ⟨rfl, hend⟩ := toDigits_append_inj hr hs (by simpa [Int.repr] using h)
      exact ⟨rfl, hend⟩
    | negSucc m =>
      have hdigits : Nat.toDigits 10 n ++ r = '-' :: (Nat.toDigits 10 (m + 1) ++ s) := by
        simpa [Int.repr] using h
      exact absurd hdigits (toDigits_append_ne_cons hsign _ _)
  | negSucc n =>
    cases m with
    | ofNat m =>
      have hdigits : Nat.toDigits 10 m ++ s = '-' :: (Nat.toDigits 10 (n + 1) ++ r) := by
        simpa [Int.repr] using h.symm
      exact absurd hdigits (toDigits_append_ne_cons hsign _ _)
    | negSucc m =>
      obtain ⟨hsucc, hend⟩ := toDigits_append_inj (n := n + 1) (m := m + 1) hr hs
        (by simpa [Int.repr] using h)
      exact ⟨by rw [Nat.succ.inj hsucc], hend⟩

/-- A number does not begin with what is neither a digit nor a sign. -/
theorem repr_append_ne_cons {n : Int} {c : Char} (hc : c.isDigit = false) (hsign : c ≠ '-')
    (r s : List Char) : n.repr.toList ++ r ≠ c :: s := by
  intro h
  cases n with
  | ofNat n => exact toDigits_append_ne_cons hc r s (by simpa [Int.repr] using h)
  | negSucc n =>
    have hcons : '-' :: (Nat.toDigits 10 (n + 1) ++ r) = c :: s := by simpa [Int.repr] using h
    exact hsign (List.cons.inj hcons).1.symm

/-! ## Tokens -/

namespace Hexadecimal

/-- The digits below sixteen are told from one another. -/
theorem digitChar_inj {n m : Nat} (hn : n < 16) (hm : m < 16)
    (h : Nat.digitChar n = Nat.digitChar m) : n = m := by
  have hvalue := (value?_digit n hn).1
  rw [h, (value?_digit m hm).1] at hvalue
  exact (Option.some.inj hvalue).symm

/-- The digits of a fixed width tell a number that fits. -/
theorem digits_inj {width n m : Nat} (hn : n < Nat.pow 16 width) (hm : m < Nat.pow 16 width)
    (h : digits width n = digits width m) : n = m := by
  induction width generalizing n m with
  | zero => exact (Nat.lt_one_iff.1 hn).trans (Nat.lt_one_iff.1 hm).symm
  | succ width ih =>
    have hn : n < Nat.pow 16 width * 16 := hn
    have hm : m < Nat.pow 16 width * 16 := hm
    obtain ⟨hhigh, hlow⟩ := List.append_inj' h rfl
    have hdiv : n / 16 = m / 16 := ih (by omega) (by omega) hhigh
    have hmod : n % 16 = m % 16 :=
      digitChar_inj (by omega) (by omega) (List.singleton_inj.1 hlow)
    omega

end Hexadecimal

namespace Token

/-- A token is written as eight hexadecimal digits behind their mark. -/
theorem toList_text (token : Token) :
    token.text.toList = '0' :: 'x' :: Hexadecimal.digits 8 token.value.toNat := by
  simp [text, Hexadecimal.lower]

/-- A token is legible in front of anything, since all have as many digits. -/
theorem text_append_inj {token other : Token} {r s : List Char}
    (h : token.text.toList ++ r = other.text.toList ++ s) : token = other ∧ r = s := by
  have hlength : token.text.toList.length = other.text.toList.length := by
    rw [toList_text, toList_text]
    simp only [List.length_cons, Hexadecimal.length_digits]
  obtain ⟨htext, hend⟩ := List.append_inj h hlength
  rw [toList_text, toList_text, List.cons_inj_right, List.cons_inj_right] at htext
  have hvalue := Hexadecimal.digits_inj token.value.toNat_lt other.value.toNat_lt htext
  exact ⟨congrArg mk (UInt32.toNat_inj.1 hvalue), hend⟩

end Token

end SignatureBlob
