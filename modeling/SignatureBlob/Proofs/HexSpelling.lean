import SignatureBlob.HexWords
import SignatureBlob.Proofs.Grammar

/-!
# Spellings of bytes in hexadecimal

Which texts spell which bytes, without any reading: pairs of digits in groups, each group perhaps
behind a mark, with blanks and commas around the groups and at least one of them, or the end of a
text, between two. Reading accepts these texts and a little more, since a plus sign may stand for
the first digit of a pair.

Main definition: `HexWords.Spells`. Main statements: `Blank.fields_eq_iff` (the groups of a text are
told by the text) and `HexWords.read_accepts`.
-/

namespace SignatureBlob

/-! ## Fields between separators -/

namespace Blank

variable {separates : Char → Bool} {gap field rest text : List Char} {fields' : List (List Char)}

/-- A text with fields in it, which are not empty and hold no separator. Nothing but separators
stands around them, and a field goes on until a separator or the end of the text. -/
inductive Spaced (separates : Char → Bool) : List (List Char) → List Char → Prop
  | blank {gap : List Char} (between : ∀ c ∈ gap, separates c = true) : Spaced separates [] gap
  | field {gap field rest : List Char} {others : List (List Char)}
      (between : ∀ c ∈ gap, separates c = true) (nonempty : field ≠ [])
      (inside : ∀ c ∈ field, separates c = false)
      (ends : ∀ c, rest.head? = some c → separates c = true) (tail : Spaced separates others rest) :
      Spaced separates (field :: others) (gap ++ (field ++ rest))

/-- A separator in front changes no field. -/
theorem fields_cons_of_separates {c : Char} (h : separates c = true) (rest : List Char) :
    fields separates (c :: rest) = fields separates rest := by
  rw [fields, split_cons, if_pos h]
  rfl

/-- A gap in front changes no field. -/
theorem fields_append_of_separates (h : ∀ c ∈ gap, separates c = true) (rest : List Char) :
    fields separates (gap ++ rest) = fields separates rest := by
  induction gap with
  | nil => rfl
  | cons c gap ih =>
    rw [List.forall_mem_cons] at h
    rw [List.cons_append, fields_cons_of_separates h.1, ih h.2]

/-- Characters that are no separators stand in front of the first run of the rest. -/
theorem split_append_of_inside {run : List Char} {runs : List (List Char)}
    (h : ∀ c ∈ field, separates c = false) (hrest : split separates rest = run :: runs) :
    split separates (field ++ rest) = (field ++ run) :: runs := by
  induction field with
  | nil => exact hrest
  | cons c field ih =>
    rw [List.forall_mem_cons] at h
    rw [List.cons_append, split_cons, ih h.2, h.1]
    rfl

/-- A text that begins with a separator has nothing in front of it, and so has the empty text. -/
theorem exists_split_eq_nil_cons (h : ∀ c, rest.head? = some c → separates c = true) :
    ∃ runs, split separates rest = [] :: runs ∧
      fields separates rest = runs.filter fun run => !run.isEmpty := by
  cases rest with
  | nil => exact ⟨[], rfl, rfl⟩
  | cons c rest =>
    have hsplit : split separates (c :: rest) = [] :: split separates rest := by
      rw [split_cons, if_pos (h c rfl)]
    exact ⟨_, hsplit, by rw [fields, hsplit]; rfl⟩

/-- A field is closed by the separator behind it or by the end. -/
theorem fields_append_of_inside (hnonempty : field ≠ []) (h : ∀ c ∈ field, separates c = false)
    (hrest : ∀ c, rest.head? = some c → separates c = true) :
    fields separates (field ++ rest) = field :: fields separates rest := by
  obtain ⟨runs, hsplit, hfields⟩ := exists_split_eq_nil_cons hrest
  rw [fields, split_append_of_inside h hsplit, List.append_nil, hfields, List.filter_cons_of_pos]
  simpa using hnonempty

/-- The fields of a text are those that it is spaced into. -/
theorem fields_eq_of_spaced (h : Spaced separates fields' text) :
    fields separates text = fields' := by
  induction h with
  | blank between =>
    have hfields := fields_append_of_separates between []
    rwa [List.append_nil] at hfields
  | field between nonempty inside ends tail ih =>
    rw [fields_append_of_separates between, fields_append_of_inside nonempty inside ends, ih]

/-- A separator more in front leaves the fields as they are. -/
theorem Spaced.cons_of_separates {c : Char} (hc : separates c = true)
    (h : Spaced separates fields' text) : Spaced separates fields' (c :: text) := by
  cases h with
  | blank between => exact .blank (List.forall_mem_cons.2 ⟨hc, between⟩)
  | field between nonempty inside ends tail =>
    exact .field (List.forall_mem_cons.2 ⟨hc, between⟩) nonempty inside ends tail

/-- Every text is its fields and what stands between them. -/
theorem spaced_fields (separates : Char → Bool) (text : List Char) :
    Spaced separates (fields separates text) text := by
  induction text with
  | nil => exact .blank nofun
  | cons c text ih =>
    cases hc : separates c with
    | true =>
      rw [fields_cons_of_separates hc]
      exact ih.cons_of_separates hc
    | false =>
      -- the character is a field of its own, or the first of the field that begins behind it
      have hone : ∀ d ∈ [c], separates d = false := by simpa using hc
      by_cases hends : ∀ d, text.head? = some d → separates d = true
      · have hfields := fields_append_of_inside (List.cons_ne_nil c []) hone hends
        rw [List.singleton_append] at hfields
        rw [hfields]
        have hspaced : Spaced separates _ ([] ++ ([c] ++ text)) :=
          .field nofun (List.cons_ne_nil c []) hone hends ih
        exact hspaced
      · simp only [Classical.not_forall, Bool.not_eq_true] at hends
        obtain ⟨d, hhead, hd⟩ := hends
        generalize fields separates text = others at ih
        cases ih with
        | blank between =>
          rw [between d (List.mem_of_head? hhead)] at hd
          cases hd
        | @field gap first rest others between nonempty inside ends tail =>
          obtain - | ⟨e, gap⟩ := gap
          · have hspaced : Spaced separates ((c :: first) :: others) ([] ++ (c :: first ++ rest)) :=
              .field nofun (List.cons_ne_nil c first) (List.forall_mem_cons.2 ⟨hc, inside⟩) ends
                tail
            rwa [← fields_eq_of_spaced hspaced] at hspaced
          · obtain rfl : e = d := Option.some.inj hhead
            rw [between e List.mem_cons_self] at hd
            cases hd

/-- A text tells its fields, and they are what the text is made of. -/
theorem fields_eq_iff : fields separates text = fields' ↔ Spaced separates fields' text :=
  ⟨fun h => h ▸ spaced_fields separates text, fields_eq_of_spaced⟩

/-- What is no separator stands in a field. -/
theorem Spaced.mem_iff {c : Char} (h : Spaced separates fields' text) (hc : separates c = false) :
    c ∈ text ↔ ∃ field ∈ fields', c ∈ field := by
  have hgap : ∀ {gap : List Char}, (∀ d ∈ gap, separates d = true) → c ∉ gap := by
    intro gap hgap hmem
    rw [hgap c hmem] at hc
    cases hc
  induction h with
  | blank between => exact iff_of_false (hgap between) (by simp)
  | field between nonempty inside ends tail ih =>
    simp [hgap between, ih]

end Blank

/-! ## Errors -/

/-- The group that the error is about. -/
def HexError.group : HexError → String
  | unpaired group => group
  | invalidDigit group => group
  | splitCharacter group _ => group

/-- The group is told in the words of the error. -/
theorem HexError.exists_messages (error : HexError) :
    ∃ causes, error.messages = ("invalid hex: " ++ error.group) :: causes ∨
      error.messages =
        ["invalid hex byte group '" ++ error.group ++ "' (expected an even number of digits)"] := by
  cases error with
  | unpaired group => exact ⟨[], .inr rfl⟩
  | invalidDigit group | splitCharacter group index => exact ⟨_, .inl rfl⟩

open Hexadecimal

namespace HexWords

/-! ## Spellings -/

/-- What stands for a byte. -/
inductive PairRule where
  /-- Two digits, each in either case. -/
  | digits
  /-- Two digits, or a plus sign and the digit of a number below sixteen. -/
  | digitsOrPlus
deriving DecidableEq, Repr

/-- Two characters that stand for a byte. -/
inductive SpellsByte : PairRule → Char → Char → UInt8 → Prop
  | digits {rule : PairRule} {high low : Char} {first second : Nat}
      (highDigit : value? high = some first) (lowDigit : value? low = some second) :
      SpellsByte rule high low (UInt8.ofNat (first * 16 + second))
  | plus {low : Char} {number : Nat} (lowDigit : value? low = some number) :
      SpellsByte .digitsOrPlus '+' low (UInt8.ofNat number)

/-- Pairs of characters that stand for bytes, nothing being between them. -/
inductive SpellsBytes (rule : PairRule) : List Char → List UInt8 → Prop
  | nil : SpellsBytes rule [] []
  | cons {high low : Char} {byte : UInt8} {rest : List Char} {bytes : List UInt8}
      (head : SpellsByte rule high low byte) (tail : SpellsBytes rule rest bytes) :
      SpellsBytes rule (high :: low :: rest) (byte :: bytes)

/-- A group that may be marked as hexadecimal. -/
inductive Marked : List Char → List Char → Prop
  | bare (digits : List Char) : Marked digits digits
  | small (digits : List Char) : Marked ('0' :: 'x' :: digits) digits
  | capital (digits : List Char) : Marked ('0' :: 'X' :: digits) digits

/-- A group that stands for bytes, of which there is at least one. -/
def SpellsGroup (rule : PairRule) (group : List Char) (bytes : List UInt8) : Prop :=
  ∃ digits, Marked group digits ∧ SpellsBytes rule digits bytes ∧ digits ≠ []

/-- The groups in several texts, with blanks and commas or the ends of texts between them. -/
inductive Grouped : List String → List (List Char) → Prop
  | nil : Grouped [] []
  | cons {text : String} {texts : List String} {here others : List (List Char)}
      (head : Blank.Spaced separates here text.toList) (tail : Grouped texts others) :
      Grouped (text :: texts) (here ++ others)

/-- Texts that stand for bytes. -/
def Spells (rule : PairRule) (texts : List String) (bytes : List UInt8) : Prop :=
  ∃ groups, Grouped texts groups ∧ Grammar.Each (SpellsGroup rule) groups bytes

/-- The groups of some words are those that the words are grouped into. -/
theorem groups_eq_iff {texts : List String} {parts : List (List Char)} :
    groups texts = parts ↔ Grouped texts parts := by
  constructor
  · rintro rfl
    induction texts with
    | nil => exact .nil
    | cons text texts ih => exact .cons (Blank.spaced_fields _ _) ih
  · intro h
    induction h with
    | nil => rfl
    | cons head tail ih => rw [groups, List.flatMap_cons, Blank.fields_eq_of_spaced head, ← ih]; rfl

/-- Words spell the bytes of their groups in turn. -/
theorem spells_iff {rule : PairRule} {texts : List String} {bytes : List UInt8} :
    Spells rule texts bytes ↔ Grammar.Each (SpellsGroup rule) (groups texts) bytes := by
  constructor
  · rintro ⟨parts, hgrouped, heach⟩
    rwa [groups_eq_iff.2 hgrouped]
  · intro heach
    exact ⟨_, groups_eq_iff.1 rfl, heach⟩

/-! ## Reading a group -/

variable {rule : PairRule} {name : String} {group digits : List Char} {bytes : List UInt8}

/-- A character no later than one of 7 bits takes one byte. -/
theorem utf8Size_of_le {c last : Char} (hlast : last.val ≤ 0x7F) (h : c ≤ last) :
    c.utf8Size = 1 :=
  if_pos (UInt32.le_trans h hlast)

/-- Every digit is one byte of UTF-8. -/
theorem utf8Size_of_value? {c : Char} {number : Nat} (h : value? c = some number) :
    c.utf8Size = 1 := by
  unfold value? at h
  split at h
  · next hc => exact utf8Size_of_le (by decide) hc.2
  · split at h
    · next hc => exact utf8Size_of_le (by decide) hc.2
    · split at h
      · next hc => exact utf8Size_of_le (by decide) hc.2
      · cases h

/-- A plus sign has no value as a digit. -/
theorem value?_plus : value? '+' = none := by decide

/-- The letter of the prefix has no value as a digit. -/
theorem value?_x : value? 'x' = none ∧ value? 'X' = none := by decide

/-- A pair is read exactly as two digits, or as a plus sign and a digit. -/
theorem pair?_eq_some_iff {high low : Char} {byte : UInt8} :
    pair? high low = some byte ↔ SpellsByte .digitsOrPlus high low byte := by
  unfold pair?
  constructor
  · intro h
    split at h
    · next hplus =>
      obtain ⟨number, hlow, rfl⟩ := Option.map_eq_some_iff.1 h
      exact hplus ▸ .plus hlow
    · simp only [byte?, Option.bind_eq_bind, Option.bind_eq_some_iff, Option.pure_def,
        Option.some.injEq] at h
      obtain ⟨first, hhigh, second, hlow, rfl⟩ := h
      exact .digits hhigh hlow
  · intro h
    cases h with
    | digits highDigit lowDigit =>
      rw [if_neg (by rintro rfl; rw [value?_plus] at highDigit; cases highDigit), byte?, highDigit,
        lowDigit]
      rfl
    | plus lowDigit => rw [if_pos rfl, lowDigit]; rfl

/-- What spells a byte takes two bytes itself. -/
theorem SpellsByte.utf8Size {high low : Char} {byte : UInt8} (h : SpellsByte rule high low byte) :
    high.utf8Size = 1 ∧ low.utf8Size = 1 := by
  cases h with
  | digits highDigit lowDigit => exact ⟨utf8Size_of_value? highDigit, utf8Size_of_value? lowDigit⟩
  | plus lowDigit => exact ⟨by decide, utf8Size_of_value? lowDigit⟩

/-- Digits are read exactly as the bytes that they spell pair by pair. -/
theorem pairs_eq_ok_iff :
    pairs name digits = .ok bytes ↔ SpellsBytes .digitsOrPlus digits bytes := by
  constructor
  · intro h
    fun_induction pairs name digits generalizing bytes with
    | case1 =>
      cases h
      exact .nil
    | case2 | case3 | case4 | case5 | case6 | case7 => cases h
    | case8 high low rest _ _ _ byte hpair ih =>
      cases hrest : pairs name rest with
      | error error => rw [hrest] at h; cases h
      | ok others =>
        rw [hrest] at h
        cases h
        exact .cons (pair?_eq_some_iff.1 hpair) (ih hrest)
  · intro h
    induction h with
    | nil => rfl
    | @cons high low byte rest bytes head tail ih =>
      obtain ⟨hhigh, hlow⟩ := head.utf8Size
      rw [pairs, if_neg (by omega), if_neg (by omega), if_neg (by omega),
        pair?_eq_some_iff.2 head, ih]
      rfl

/-- Spelled bytes take two characters each, of one byte of UTF-8. -/
theorem SpellsBytes.utf8Length (h : SpellsBytes rule digits bytes) :
    HexWords.utf8Length digits = 2 * bytes.length := by
  induction h with
  | nil => rfl
  | cons head tail ih =>
    obtain ⟨hhigh, hlow⟩ := head.utf8Size
    rw [HexWords.utf8Length] at ih ⊢
    rw [List.foldr_cons, List.foldr_cons, ih, hhigh, hlow, List.length_cons]
    omega

/-- Only nothing spells nothing. -/
theorem SpellsBytes.eq_nil_iff (h : SpellsBytes rule digits bytes) : digits = [] ↔ bytes = [] := by
  cases h with
  | nil => exact iff_of_true rfl rfl
  | cons head tail => exact iff_of_false (List.cons_ne_nil _ _) (List.cons_ne_nil _ _)

/-- A group is its digits with a prefix or without. -/
theorem marked_unmark (group : List Char) : Marked group (unmark group) := by
  unfold unmark
  split
  · exact .small _
  · exact .capital _
  · exact .bare _

/-- A mark cannot be taken for digits. -/
theorem Marked.eq_unmark (h : Marked group digits) (hbytes : SpellsBytes rule digits bytes) :
    digits = unmark group := by
  cases h with
  | small | capital => rfl
  | bare =>
    unfold unmark
    split
    · cases hbytes with
      | cons head tail => cases head with
        | digits _ lowDigit => rw [value?_x.1] at lowDigit; cases lowDigit
    · cases hbytes with
      | cons head tail => cases head with
        | digits _ lowDigit => rw [value?_x.2] at lowDigit; cases lowDigit
    · rfl

/-- A group is read exactly if it stands for bytes. -/
theorem readGroup_eq_ok_iff :
    readGroup group = .ok bytes ↔ SpellsGroup .digitsOrPlus group bytes := by
  simp only [readGroup]
  constructor
  · intro h
    split at h
    · cases h
    · next hlength =>
      refine ⟨unmark group, marked_unmark group, pairs_eq_ok_iff.1 h, ?_⟩
      intro hnil
      exact hlength (.inl (by rw [hnil]; rfl))
  · rintro ⟨digits, hmarked, hbytes, hnonempty⟩
    obtain rfl := hmarked.eq_unmark hbytes
    have hlength := hbytes.utf8Length
    have hpos := List.length_pos_iff.2 (mt hbytes.eq_nil_iff.2 hnonempty)
    rw [if_neg (by omega)]
    exact pairs_eq_ok_iff.2 hbytes

/-! ## Reading groups -/

/-- Groups are read exactly as the bytes that they spell in turn. -/
theorem readGroups_eq_ok_iff {parts : List (List Char)} :
    readGroups parts = .ok bytes ↔ Grammar.Each (SpellsGroup .digitsOrPlus) parts bytes := by
  constructor
  · intro h
    induction parts generalizing bytes with
    | nil =>
      cases h
      exact .nil
    | cons group parts ih =>
      rw [readGroups] at h
      cases hgroup : readGroup group with
      | error error => rw [hgroup] at h; cases h
      | ok first =>
        cases hparts : readGroups parts with
        | error error => rw [hgroup, hparts] at h; cases h
        | ok others =>
          rw [hgroup, hparts] at h
          cases h
          exact .cons (readGroup_eq_ok_iff.1 hgroup) (ih hparts)
  · intro h
    induction h with
    | nil => rfl
    | cons head tail ih =>
      rw [readGroups, readGroup_eq_ok_iff.2 head, ih]
      rfl

/-- Words are read exactly as the bytes that they spell, pairs with a plus sign among them. -/
theorem read_eq_ok_iff {texts : List String} :
    read texts = .ok bytes ↔ Spells .digitsOrPlus texts bytes := by
  rw [read, readGroups_eq_ok_iff, spells_iff]

/-! ## The group that is wrong -/

/-- An error in the digits names the group that it was told. -/
theorem group_of_pairs {error : HexError} (h : pairs name digits = .error error) :
    error.group = name := by
  fun_induction pairs name digits with
  | case1 => cases h
  | case2 | case3 | case4 | case5 | case6 | case7 => cases h; rfl
  | case8 high low rest _ _ _ byte hpair ih =>
    cases hrest : pairs name rest with
    | error cause =>
      rw [hrest] at h
      cases h
      exact ih hrest
    | ok others => rw [hrest] at h; cases h

/-- An error in a group names the group with its prefix. -/
theorem group_of_readGroup {error : HexError} (h : readGroup group = .error error) :
    error.group = String.ofList group := by
  simp only [readGroup] at h
  split at h
  · cases h
    rfl
  · exact group_of_pairs h

/-- Of the groups that are wrong the first counts. -/
theorem exists_of_readGroups_eq_error {parts : List (List Char)} {error : HexError}
    (h : readGroups parts = .error error) :
    ∃ before group after, parts = before ++ group :: after ∧
      (∀ good ∈ before, ∃ bytes, readGroup good = .ok bytes) ∧ readGroup group = .error error := by
  induction parts with
  | nil => cases h
  | cons group parts ih =>
    rw [readGroups] at h
    cases hgroup : readGroup group with
    | error cause =>
      rw [hgroup] at h
      cases h
      exact ⟨[], group, parts, rfl, List.forall_mem_nil _, hgroup⟩
    | ok bytes =>
      rw [hgroup] at h
      cases hparts : readGroups parts with
      | ok others => rw [hparts] at h; cases h
      | error cause =>
        rw [hparts] at h
        cases h
        obtain ⟨before, bad, after, rfl, hbefore, hbad⟩ := ih hparts
        exact ⟨group :: before, bad, after, rfl,
          List.forall_mem_cons.2 ⟨⟨bytes, hgroup⟩, hbefore⟩, hbad⟩

/-! ## Plus signs -/

/-- Two digits are a pair without a plus sign. -/
theorem spellsByte_digits_iff {high low : Char} {byte : UInt8} :
    SpellsByte .digits high low byte ↔
      SpellsByte .digitsOrPlus high low byte ∧ '+' ∉ [high, low] := by
  have hne : ∀ {c : Char} {number : Nat}, value? c = some number → '+' ≠ c := by
    rintro c number h rfl
    rw [value?_plus] at h
    cases h
  constructor
  · intro h
    cases h with
    | digits highDigit lowDigit =>
      exact ⟨.digits highDigit lowDigit, by simp [hne highDigit, hne lowDigit]⟩
  · rintro ⟨h, hplus⟩
    cases h with
    | digits highDigit lowDigit => exact .digits highDigit lowDigit
    | plus lowDigit => exact absurd List.mem_cons_self hplus

/-- Digits alone are pairs without a plus sign. -/
theorem spellsBytes_digits_iff :
    SpellsBytes .digits digits bytes ↔ SpellsBytes .digitsOrPlus digits bytes ∧ '+' ∉ digits := by
  constructor
  · intro h
    induction h with
    | nil => exact ⟨.nil, nofun⟩
    | cons head tail ih =>
      obtain ⟨hhead, hplus⟩ := spellsByte_digits_iff.1 head
      exact ⟨.cons hhead ih.1, by simpa [ih.2] using hplus⟩
  · rintro ⟨h, hplus⟩
    induction h with
    | nil => exact .nil
    | cons head tail ih =>
      simp only [List.mem_cons, not_or] at hplus
      exact .cons (spellsByte_digits_iff.2 ⟨head, by simp [hplus.1, hplus.2.1]⟩) (ih hplus.2.2)

/-- There is no plus sign in the prefix. -/
theorem Marked.plus_mem_iff (h : Marked group digits) : '+' ∈ group ↔ '+' ∈ digits := by
  cases h <;> simp

/-- A group of digits alone is a group without a plus sign. -/
theorem spellsGroup_digits_iff :
    SpellsGroup .digits group bytes ↔ SpellsGroup .digitsOrPlus group bytes ∧ '+' ∉ group := by
  constructor
  · rintro ⟨digits, hmarked, hbytes, hnonempty⟩
    obtain ⟨hbytes, hplus⟩ := spellsBytes_digits_iff.1 hbytes
    exact ⟨⟨digits, hmarked, hbytes, hnonempty⟩, mt hmarked.plus_mem_iff.1 hplus⟩
  · rintro ⟨⟨digits, hmarked, hbytes, hnonempty⟩, hplus⟩
    have hdigits := spellsBytes_digits_iff.2 ⟨hbytes, mt hmarked.plus_mem_iff.2 hplus⟩
    exact ⟨digits, hmarked, hdigits, hnonempty⟩

/-- Groups of digits alone are groups without a plus sign. -/
theorem each_spellsGroup_digits_iff {parts : List (List Char)} :
    Grammar.Each (SpellsGroup .digits) parts bytes ↔
      Grammar.Each (SpellsGroup .digitsOrPlus) parts bytes ∧ ∀ part ∈ parts, '+' ∉ part := by
  constructor
  · intro h
    induction h with
    | nil => exact ⟨.nil, nofun⟩
    | cons head tail ih =>
      obtain ⟨hhead, hplus⟩ := spellsGroup_digits_iff.1 head
      exact ⟨.cons hhead ih.1, List.forall_mem_cons.2 ⟨hplus, ih.2⟩⟩
  · rintro ⟨h, hplus⟩
    induction h with
    | nil => exact .nil
    | cons head tail ih =>
      rw [List.forall_mem_cons] at hplus
      exact .cons (spellsGroup_digits_iff.2 ⟨head, hplus.1⟩) (ih hplus.2)

/-- There is no plus sign between the groups. -/
theorem Grouped.plus_mem_iff {texts : List String} {parts : List (List Char)}
    (h : Grouped texts parts) :
    (∀ text ∈ texts, '+' ∉ text.toList) ↔ ∀ part ∈ parts, '+' ∉ part := by
  have hplus : separates '+' = false := by decide
  induction h with
  | nil => simp
  | cons head tail ih =>
    simp only [List.forall_mem_cons, head.mem_iff hplus, ih, List.mem_append, or_imp, forall_and]
    simp only [not_exists, not_and]

/-- Texts of digits are the texts that are read and hold no plus sign. -/
theorem spells_digits_iff {texts : List String} :
    Spells .digits texts bytes ↔ read texts = .ok bytes ∧ ∀ text ∈ texts, '+' ∉ text.toList := by
  have hgrouped : Grouped texts (groups texts) := groups_eq_iff.1 rfl
  rw [read_eq_ok_iff, spells_iff, spells_iff, each_spellsGroup_digits_iff, hgrouped.plus_mem_iff]

/-! ## What is read -/

/-- Texts are read exactly if they spell bytes, and as these bytes, where a pair is two digits or a
plus sign and a digit; the texts without a plus sign among them are those that spell the bytes in
digits alone. Where texts are not read, the error and its words tell the first group that spells no
bytes. -/
theorem read_accepts (texts : List String) :
    (∀ bytes : List UInt8,
      (read texts = .ok bytes ↔ Spells .digitsOrPlus texts bytes) ∧
      (Spells .digits texts bytes ↔
        read texts = .ok bytes ∧ ∀ text ∈ texts, '+' ∉ text.toList)) ∧
    ∀ error : HexError, read texts = .error error →
      ∃ before group after, Grouped texts (before ++ group :: after) ∧
        error.group = String.ofList group ∧
        (∃ causes, error.messages = ("invalid hex: " ++ String.ofList group) :: causes ∨
          error.messages = ["invalid hex byte group '" ++ String.ofList group
            ++ "' (expected an even number of digits)"]) ∧
        (¬ ∃ bytes, SpellsGroup .digitsOrPlus group bytes) ∧
        ∀ good ∈ before, ∃ bytes, SpellsGroup .digitsOrPlus good bytes ∧
          ('+' ∉ good → SpellsGroup .digits good bytes) := by
  refine ⟨fun bytes => ⟨read_eq_ok_iff, spells_digits_iff⟩, fun error hread => ?_⟩
  obtain ⟨before, group, after, hgroups, hbefore, hgroup⟩ := exists_of_readGroups_eq_error hread
  have hname := group_of_readGroup hgroup
  refine ⟨before, group, after, groups_eq_iff.1 hgroups, hname, hname ▸ error.exists_messages,
    ?_, ?_⟩
  · rintro ⟨bytes, hbytes⟩
    rw [readGroup_eq_ok_iff.2 hbytes] at hgroup
    cases hgroup
  · intro good hgood
    obtain ⟨bytes, hread⟩ := hbefore good hgood
    have hbytes := readGroup_eq_ok_iff.1 hread
    exact ⟨bytes, hbytes, fun hplus => spellsGroup_digits_iff.2 ⟨hbytes, hplus⟩⟩

/-- A plus sign stands in the place of a digit. -/
theorem read_plus : read ["+5"] = .ok [0x05] ∧ ¬ ∃ bytes, Spells .digits ["+5"] bytes := by
  refine ⟨rfl, ?_⟩
  rintro ⟨bytes, hbytes⟩
  exact (spells_digits_iff.1 hbytes).2 "+5" List.mem_cons_self (by decide)

/-- Two texts, one of them with a mark, and a text in which the second of three groups is wrong. -/
theorem read_accepts_groups :
    Spells .digits ["0x2001,", " 01 0e"] [0x20, 0x01, 0x01, 0x0E] ∧
    ∃ before group after, Grouped ["20 zz 1"] (before ++ group :: after) ∧
      "zz" = String.ofList group ∧ ∀ good ∈ before, ∃ bytes, SpellsGroup .digitsOrPlus good bytes ∧
        ('+' ∉ good → SpellsGroup .digits good bytes) := by
  constructor
  · exact ((read_accepts _).1 _).2.2 ⟨rfl, by decide⟩
  · obtain ⟨before, group, after, hgrouped, hname, -, -, hbefore⟩ :=
      (read_accepts ["20 zz 1"]).2 (.invalidDigit "zz") rfl
    exact ⟨before, group, after, hgrouped, hname, hbefore⟩

end HexWords

end SignatureBlob
