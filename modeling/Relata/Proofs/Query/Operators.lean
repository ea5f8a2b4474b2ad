import Relata.Proofs.Outcome
import Relata.Proofs.Text.Pattern
import Relata.Proofs.Text.Tidy
import Relata.Query.Clause

/-!
# Signs between operands

A computed column and a condition are divided at the sign that is found first in a fixed
order. What is read holds in no operand a sign that was searched for up to its own, and
operands that hold none, joined by a sign, are divided at that sign again.
-/

namespace Relata

theorem find?_eq_some_iff_takeWhile [DecidableEq α] {p : α → Bool} {xs : List α} {x : α} :
    xs.find? p = some x ↔
      x ∈ xs ∧ p x = true ∧ ∀ y ∈ xs.takeWhile (fun y => y ≠ x), p y = false := by
  induction xs with
  | nil => simp
  | cons y xs ih =>
      by_cases hy : y = x
      · subst hy
        cases hp : p y with
        | true => simp [hp]
        | false =>
            have hfind : xs.find? p ≠ some y := fun h => by
              rw [List.find?_some h] at hp
              cases hp
            simp [hp, hfind]
      · cases hp : p y with
        | true => simp [hp, hy]
        | false => simp [hp, hy, Ne.symm hy, ih]

namespace Text

variable {s t left right sign word : Text}

/-! ## Blanks at the ends -/

theorem trim_cons_space (h : trim t = t) : trim (' ' :: t) = t :=
  (trimWhere_cons rfl t).trans h

theorem trim_append_space (h : trim t = t) : trim (t ++ [' ']) = t :=
  (trimWhere_append rfl t).trans h

/-! ## A sign with spaces around it -/

/-- Two operands with a sign between them, and a space on either side of the sign. -/
def signed (left sign right : Text) : Text :=
  left ++ ' ' :: (sign ++ ' ' :: right)

theorem infix_signed_iff (h : ' ' ∉ s) :
    s <:+: signed left sign right ↔ s <:+: left ∨ s <:+: sign ∨ s <:+: right := by
  rw [signed, infix_append_cons_iff h, infix_append_cons_iff h]

theorem splitAround_signed (hne : sign ≠ []) (hspace : ' ' ∉ sign) (hleft : ¬ sign <:+: left)
    (hright : ¬ sign <:+: right) :
    (signed left sign right).splitAround sign = [left ++ [' '], ' ' :: right] := by
  have hwhole : signed left sign right = (left ++ [' ']) ++ (sign ++ ' ' :: right) := by
    rw [signed, List.append_assoc, List.singleton_append]
  have hbefore : ¬ sign <:+: left ++ [' '] ++ sign.dropLast := by
    rw [List.append_assoc, List.singleton_append, infix_append_cons_iff hspace, not_or]
    refine ⟨hleft, fun h => ?_⟩
    have hlength := h.length_le
    have hpos := List.length_pos_iff.2 hne
    rw [List.length_dropLast] at hlength
    omega
  have hafter : ¬ sign <:+: ' ' :: right := by
    rw [← List.nil_append (' ' :: right), infix_append_cons_iff hspace, not_or, List.infix_nil]
    exact ⟨hne, hright⟩
  rw [hwhole, splitAround_append hne hbefore, splitAround_of_not_infix hafter]

/-! ## Searching signs in order -/

section Search

variable [DecidableEq α] {entries : List α} {entry : α} {spell : α → Text}

/-- The signs that are searched for before that of an entry, and its own. -/
def soughtUpTo (spell : α → Text) (entries : List α) (entry : α) : List Text :=
  ((entries.takeWhile fun other => other ≠ entry) ++ [entry]).map spell

theorem mem_soughtUpTo_self : spell entry ∈ soughtUpTo spell entries entry := by
  simp [soughtUpTo]

theorem find?_signed (hmem : entry ∈ entries) (hspace : ∀ other ∈ entries, ' ' ∉ spell other)
    (hown : ∀ other ∈ entries.takeWhile (fun other => other ≠ entry),
      ¬ spell other <:+: spell entry)
    (h : ∀ sought ∈ soughtUpTo spell entries entry, ¬ sought <:+: left ∧ ¬ sought <:+: right) :
    entries.find? (fun other => (signed left (spell entry) right).has (spell other)) =
      some entry := by
  refine find?_eq_some_iff_takeWhile.2 ⟨hmem, ?_, fun other hother => ?_⟩
  · rw [has_iff, infix_signed_iff (hspace entry hmem)]
    exact .inr (.inl List.infix_rfl)
  · have hsought : spell other ∈ soughtUpTo spell entries entry :=
      List.mem_map_of_mem (List.mem_append_left [entry] hother)
    rw [has_eq_false_iff,
      infix_signed_iff (hspace other ((List.takeWhile_sublist _).subset hother)), not_or, not_or]
    exact ⟨(h _ hsought).1, hown other hother, (h _ hsought).2⟩

theorem not_infix_of_find? (hne : spell entry ≠ [])
    (h : entries.find? (fun other => t.has (spell other)) = some entry) {sought part : Text}
    (hsought : sought ∈ soughtUpTo spell entries entry)
    (hpart : part ∈ t.splitAround (spell entry)) : ¬ sought <:+: part := by
  obtain ⟨other, hother, rfl⟩ := List.mem_map.1 hsought
  rcases List.mem_append.1 hother with hother | hother
  · have hfound := (find?_eq_some_iff_takeWhile.1 h).2.2 other hother
    exact fun hin => has_eq_false_iff.1 hfound (hin.trans (infix_of_mem_splitAround hne hpart))
  · cases List.mem_singleton.1 hother
    exact not_infix_of_mem_splitAround hne hpart

theorem firstTwo_induction {P : Text → Prop} {pieces : List Text} (hnil : P [])
    (h : ∀ piece ∈ pieces, P piece) : P (firstTwo pieces).1 ∧ P (firstTwo pieces).2 := by
  unfold firstTwo
  split
  · exact ⟨h _ (by simp), h _ (by simp)⟩
  · exact ⟨h _ (by simp), hnil⟩
  · exact ⟨hnil, hnil⟩

theorem operands_of_find? (hne : ∀ other ∈ entries, spell other ≠ [])
    (h : entries.find? (fun other => t.has (spell other)) = some entry) :
    let parts := firstTwo (t.splitAround (spell entry))
    (∀ sought ∈ soughtUpTo spell entries entry,
      ¬ sought <:+: trim parts.1 ∧ ¬ sought <:+: trim parts.2) ∧
      trim parts.1 <:+: t ∧ trim parts.2 <:+: t := by
  have hmem := List.mem_of_find?_eq_some h
  have hnil {sought : Text} (hsought : sought ∈ soughtUpTo spell entries entry) :
      ¬ sought <:+: [] := by
    obtain ⟨other, hother, rfl⟩ := List.mem_map.1 hsought
    rw [List.infix_nil]
    rcases List.mem_append.1 hother with hother | hother
    · exact hne other ((List.takeWhile_sublist _).subset hother)
    · cases List.mem_singleton.1 hother
      exact hne _ hmem
  obtain ⟨⟨hleft, hinLeft⟩, hright, hinRight⟩ := firstTwo_induction
    (P := fun part => (∀ sought ∈ soughtUpTo spell entries entry, ¬ sought <:+: part) ∧ part <:+: t)
    ⟨fun sought hsought => hnil hsought, List.nil_infix⟩
    (fun part hpart => ⟨fun sought hsought => not_infix_of_find? (hne _ hmem) h hsought hpart,
      infix_of_mem_splitAround (hne _ hmem) hpart⟩)
  exact ⟨fun sought hsought => ⟨fun h => hleft sought hsought (h.trans (trim_isInfix _)),
    fun h => hright sought hsought (h.trans (trim_isInfix _))⟩,
    (trim_isInfix _).trans hinLeft, (trim_isInfix _).trans hinRight⟩

end Search

/-! ## Words that separate -/

/-- A word with a space on either side, at which a text is split. -/
def separator (word : Text) : Text :=
  ' ' :: (word ++ [' '])

/-- A text next to which, and in which, no separator by the word begins. -/
def Lacks (word t : Text) : Prop :=
  ¬ separator word <:+: ' ' :: (t ++ ' ' :: word)

theorem eq_of_append_cons_eq {c : Char} {u v : Text} (hs : c ∉ s) (ht : c ∉ t)
    (h : s ++ c :: u = t ++ c :: v) : s = t := by
  have htake (x y : Text) (hx : c ∉ x) : (x ++ c :: y).takeWhile (fun d => d ≠ c) = x := by
    rw [List.takeWhile_append_of_pos]
    · simp
    · intro d hd
      simp only [decide_eq_true_eq]
      rintro rfl
      exact hx hd
  rw [← htake s u hs, h, htake t v ht]

theorem separator_infix_iff (hword : ' ' ∉ word) (hs : ' ' ∉ s) (hne : s ≠ word) :
    separator word <:+: ' ' :: (s ++ ' ' :: t) ↔ separator word <:+: ' ' :: t := by
  have hbegin : ¬ word ++ [' '] <+: s ++ ' ' :: t := by
    rintro ⟨rest, h⟩
    rw [List.append_assoc, List.singleton_append] at h
    exact hne (eq_of_append_cons_eq hword hs h).symm
  rw [separator, List.infix_cons_iff, List.cons_prefix_cons, cons_infix_append_cons_iff hs,
    List.infix_cons_iff, List.cons_prefix_cons]
  simp [hbegin]

theorem not_separator_infix_self (word : Text) : ¬ separator word <:+: ' ' :: word := by
  intro h
  have hlength := h.length_le
  simp only [separator, List.length_cons, List.length_append, List.length_nil] at hlength
  omega

theorem Lacks.cons (hword : ' ' ∉ word) (hs : ' ' ∉ s) (hne : s ≠ word) (ht : Lacks word t) :
    Lacks word (s ++ ' ' :: t) := by
  rw [Lacks, List.append_assoc, List.cons_append, separator_infix_iff hword hs hne]
  exact ht

theorem lacks_of_not_mem (hword : ' ' ∉ word) (hs : ' ' ∉ s) (hne : s ≠ word) : Lacks word s := by
  rw [Lacks, separator_infix_iff hword hs hne]
  exact not_separator_infix_self word

/-- A separator cannot reach over a quote. -/
theorem lacks_quoted {body : Text} (hquote : '\'' ∉ word)
    (h : ¬ separator word <:+: '\'' :: (body ++ ['\''])) :
    Lacks word ('\'' :: (body ++ ['\''])) := by
  have hpattern : '\'' ∉ separator word := by simp [separator, hquote]
  have hwhole : ' ' :: ('\'' :: (body ++ ['\'']) ++ ' ' :: word) =
      (' ' :: '\'' :: body) ++ '\'' :: (' ' :: word) := by simp
  rw [Lacks, hwhole, infix_append_cons_iff hpattern, not_or]
  refine ⟨fun hin => ?_, not_separator_infix_self word⟩
  rw [← List.nil_append ('\'' :: body), ← List.cons_append,
    infix_append_cons_iff hpattern] at hin
  rcases hin with hin | hin
  · have hlength := hin.length_le
    simp [separator] at hlength
  · exact h (hin.trans ⟨['\''], ['\''], by simp⟩)

theorem Lacks.not_isInfix (h : Lacks word t) :
    ¬ separator word <:+: t ++ (separator word).dropLast := by
  intro hin
  refine h (List.infix_cons ?_)
  rwa [separator, ← List.cons_append, List.dropLast_concat] at hin

end Text

/-! ## Computed columns -/

namespace Arithmetic

/-- The signs that are searched for when an operator is found. -/
def sought (op : Arithmetic) : List Text :=
  Text.soughtUpTo symbol searchOrder op

theorem space_not_mem_symbol (op : Arithmetic) : ' ' ∉ op.symbol := by
  cases op <;> decide

theorem symbol_ne_nil (op : Arithmetic) : op.symbol ≠ [] := by
  cases op <;> decide

theorem find?_signed (op : Arithmetic) {left right : Text}
    (h : ∀ sign ∈ op.sought, ¬ sign <:+: left ∧ ¬ sign <:+: right) :
    find? (Text.signed left op.symbol right) = some op := by
  refine Text.find?_signed ?_ (fun other _ => other.space_not_mem_symbol) ?_ h
  · cases op <;> decide
  · cases op <;> decide

end Arithmetic

/--
A computed column that is divided where it was joined: no operand holds a sign searched for
up to its own, and the right one holds nothing at which lists or labels are divided.
-/
def Target.Unambiguous : Target → Prop
  | .column _ => True
  | .computed left op right _ =>
      (∀ sign ∈ op.sought, ¬ sign <:+: left ∧ ¬ sign <:+: right) ∧ ',' ∉ right ∧
        ¬ Text.separator Keyword.asWord.word <:+: right

theorem Target.separator_as : " as ".toList = Text.separator Keyword.asWord.word := by
  decide

theorem Target.unambiguous_read {piece : Text} {target : Target} (hcomma : ',' ∉ piece)
    (h : Target.read piece = .ok target) : target.Unambiguous := by
  have hne : Text.separator Keyword.asWord.word ≠ [] := List.cons_ne_nil _ _
  unfold Target.read at h
  rw [separator_as] at h
  split at h
  · rename_i expression label others hsplit
    have hexpression : expression ∈ piece.splitAround (Text.separator Keyword.asWord.word) :=
      hsplit ▸ List.mem_cons_self
    have hlacks := Text.not_infix_of_mem_splitAround hne hexpression
    have hpiece := Text.infix_of_mem_splitAround hne hexpression
    split at h
    · rename_i op hop
      cases h
      obtain ⟨hsigns, -, hright⟩ := Text.operands_of_find?
        (fun other _ => other.symbol_ne_nil) hop
      exact ⟨hsigns, fun hmem => hcomma (hpiece.subset (hright.subset hmem)),
        fun hin => hlacks (hin.trans hright)⟩
    · cases h
  · cases h
    trivial

/-! ## Conditions -/

namespace Comparison

def sought (op : Comparison) : List Text :=
  Text.soughtUpTo Prod.fst spellings (op.symbol, op)

theorem find?_signed (op : Comparison) {left right : Text}
    (h : ∀ sign ∈ op.sought, ¬ sign <:+: left ∧ ¬ sign <:+: right) :
    find? (Text.signed left op.symbol right) = some (op.symbol, op) := by
  have hspace : ∀ entry ∈ spellings, ' ' ∉ entry.1 := by decide
  have hmem : (op.symbol, op) ∈ spellings := by
    cases op <;> decide
  refine Text.find?_signed hmem hspace ?_ h
  cases op <;> decide

theorem sought_subset : ∀ entry ∈ spellings,
    ∀ sign ∈ entry.2.sought, sign ∈ Text.soughtUpTo Prod.fst spellings entry := by
  decide

end Comparison

/-- A condition that is divided where it was joined. -/
def Condition.Unambiguous (condition : Condition) : Prop :=
  (∀ sign ∈ condition.op.sought, ¬ sign <:+: condition.left ∧ ¬ sign <:+: condition.right) ∧
    ¬ " and ".toList <:+: condition.right

/--
A condition is read from a text divided at the spelling found first. Its operands are parts of
the text without blanks at their ends, and hold no spelling that was searched for.
-/
theorem Condition.exists_spelling_of_read {t : Text} {condition : Condition}
    (h : Condition.read t = .ok condition) :
    ∃ spelling, Comparison.find? t = some (spelling, condition.op) ∧
      (∀ sign ∈ Text.soughtUpTo Prod.fst Comparison.spellings (spelling, condition.op),
        ¬ sign <:+: condition.left ∧ ¬ sign <:+: condition.right) ∧
      (condition.left.trim = condition.left ∧ condition.left <:+: t) ∧
      condition.right.trim = condition.right ∧ condition.right <:+: t := by
  have hall : ∀ entry ∈ Comparison.spellings, entry.1 ≠ [] := by decide
  unfold Condition.read at h
  split at h
  · rename_i spelling op hfind
    cases h
    obtain ⟨hsigns, hleft, hright⟩ := Text.operands_of_find? hall hfind
    exact ⟨spelling, hfind, hsigns, ⟨Text.trimWhere_trimWhere _ _, hleft⟩,
      Text.trimWhere_trimWhere _ _, hright⟩
  · cases h

theorem Condition.unambiguous_read {t : Text} {condition : Condition}
    (hand : ¬ " and ".toList <:+: t) (h : Condition.read t = .ok condition) :
    condition.Unambiguous := by
  obtain ⟨spelling, hfind, hsigns, -, -, hright⟩ := exists_spelling_of_read h
  have hmem := List.mem_of_find?_eq_some hfind
  exact ⟨fun sign hsign => hsigns sign (Comparison.sought_subset _ hmem sign hsign),
    fun hin => hand (hin.trans hright)⟩

/-! ## Conditions as they are shown -/

namespace Condition

/-- A condition whose operands hold no sign that is searched for, and no blank at an end. -/
structure Settled (condition : Condition) : Prop where
  left : condition.left.trim = condition.left
  right : condition.right.trim = condition.right
  signs : ∀ sign ∈ condition.op.sought,
    ¬ sign <:+: condition.left ∧ ¬ sign <:+: condition.right

/-- Written with its own sign and spaces around it, a condition is divided at that sign. -/
theorem Settled.read_write {condition : Condition} (h : condition.Settled) :
    Condition.read condition.write = .ok condition := by
  obtain ⟨left, op, right⟩ := condition
  have hown := h.signs op.symbol Text.mem_soughtUpTo_self
  have hparts := Text.splitAround_signed (by cases op <;> decide) (by cases op <;> decide) hown.1
    hown.2
  have hwrite : write ⟨left, op, right⟩ = Text.signed left op.symbol right := rfl
  unfold Condition.read
  rw [hwrite]
  simp only [op.find?_signed h.signs, hparts, Text.firstTwo, Text.trim_append_space h.left,
    Text.trim_cons_space h.right]

/--
Whatever text a condition is read from, in whatever spelling and with whatever after its
operands, the condition is read again from the text in which it is shown.
-/
theorem read_write_of_read {t : Text} {condition : Condition}
    (h : Condition.read t = .ok condition) : Condition.read condition.write = .ok condition := by
  obtain ⟨spelling, hfind, hsigns, ⟨hleft, -⟩, hright, -⟩ := exists_spelling_of_read h
  have hmem := List.mem_of_find?_eq_some hfind
  have hsettled : condition.Settled :=
    ⟨hleft, hright, fun sign hsign => hsigns sign (Comparison.sought_subset _ hmem sign hsign)⟩
  exact hsettled.read_write

/-- The other spelling of a sign with text after a second one, and one with no operands. -/
theorem read_write_of_read_respelt :
    (Condition.read "x=>'a='=>y".toList = .ok ⟨"x".toList, .atLeast, "'a='".toList⟩ ∧
      Condition.read "x >= 'a='".toList = .ok ⟨"x".toList, .atLeast, "'a='".toList⟩) ∧
    Condition.read "=<".toList = .ok ⟨[], .atMost, []⟩ ∧
      Condition.read " <= ".toList = .ok ⟨[], .atMost, []⟩ := by
  have hdropped : Condition.read "x=>'a='=>y".toList =
      .ok ⟨"x".toList, .atLeast, "'a='".toList⟩ := by decide
  have hempty : Condition.read "=<".toList = .ok ⟨[], .atMost, []⟩ := by decide
  exact ⟨⟨hdropped, read_write_of_read hdropped⟩, hempty, read_write_of_read hempty⟩

end Condition

end Relata
