import Relata.Proofs.Text.Split
import Relata.Value.Arithmetic

/-!
# What written values look like, and how they are read

A written value has no comma or line feed in it and no blank at its ends, and reading it
gives back what can be told from its text: integers, texts and markers as they were, a
finite float as some float, and what is not a number as the marker.
-/

namespace Relata

/-! ## Plain characters -/

namespace Text

def isPlain (c : Char) : Bool :=
  '-'.toNat ≤ c.toNat && c.toNat ≤ 'z'.toNat

theorem isPlain_of_isDigit {c : Char} (h : c.isDigit = true) : isPlain c = true := by
  simp only [Char.isDigit, Bool.and_eq_true, decide_eq_true_eq, UInt32.le_iff_toNat_le] at h
  have hlow : '-'.toNat ≤ c.toNat := Nat.le_trans (by decide) h.1
  have hhigh : c.toNat ≤ 'z'.toNat := Nat.le_trans h.2 (by decide)
  simp only [isPlain, hlow, hhigh, decide_true, Bool.and_self]

theorem isPlain_spec {c : Char} (h : isPlain c = true) :
    isBlank c = false ∧ c ≠ ',' ∧ c ≠ '\'' := by
  simp only [isPlain, Bool.and_eq_true, decide_eq_true_eq] at h
  have hlow : 45 ≤ c.toNat := h.1
  have hhigh : c.toNat ≤ 122 := h.2
  refine ⟨?_, ?_, ?_⟩
  · simp only [isBlank, blankRanges, List.any_cons, List.any_nil, Bool.or_false,
      Bool.or_eq_false_iff, Bool.and_eq_false_iff, decide_eq_false_iff_not]
    omega
  · rintro rfl
    exact absurd hlow (by decide)
  · rintro rfl
    exact absurd hlow (by decide)

end Text

/-! ## Numerals -/

namespace Decimal

theorem isDigit_of_mem_numeral {n : Nat} {c : Char} (h : c ∈ numeral n) : c.isDigit = true :=
  Nat.isDigit_of_mem_toDigits (by decide) (by decide) h

theorem numeral_ne_nil (n : Nat) : numeral n ≠ [] :=
  Nat.toDigits_ne_nil

theorem writeInt_ne_nil (i : Int) : writeInt i ≠ [] := by
  unfold writeInt
  split
  · exact List.cons_ne_nil _ _
  · exact numeral_ne_nil _

theorem digit_or_minus_of_mem_writeInt {i : Int} {c : Char} (h : c ∈ writeInt i) :
    c.isDigit = true ∨ c = '-' := by
  unfold writeInt at h
  split at h
  · rcases List.mem_cons.1 h with rfl | h
    · exact .inr rfl
    · exact .inl (isDigit_of_mem_numeral h)
  · exact .inl (isDigit_of_mem_numeral h)

theorem splitSign_of_isDigit {c : Char} (t : Text) (hc : c.isDigit = true) :
    splitSign (c :: t) = (false, c :: t) := by
  have hne : c ≠ '-' ∧ c ≠ '+' := by
    constructor
    · rintro rfl
      exact absurd hc (by decide)
    · rintro rfl
      exact absurd hc (by decide)
  unfold splitSign
  split
  · rename_i heq
    exact absurd (List.cons.inj heq).1 hne.1
  · rename_i heq
    exact absurd (List.cons.inj heq).1 hne.2
  · rfl

theorem splitSign_numeral_append (n : Nat) (t : Text) :
    splitSign (numeral n ++ t) = (false, numeral n ++ t) := by
  cases hdigits : numeral n with
  | nil => exact absurd hdigits (numeral_ne_nil n)
  | cons c rest =>
      have hdigit : c.isDigit = true := isDigit_of_mem_numeral (hdigits ▸ List.mem_cons_self)
      exact splitSign_of_isDigit (rest ++ t) hdigit

theorem splitSign_numeral (n : Nat) : splitSign (numeral n) = (false, numeral n) := by
  simpa using splitSign_numeral_append n []

theorem readInt?_writeInt (i : Int) : readInt? (writeInt i) = some i := by
  unfold writeInt
  split
  · rename_i hneg
    have hsign : splitSign ('-' :: numeral i.natAbs) = (true, numeral i.natAbs) := rfl
    simp only [readInt?, hsign, isNumeral_numeral, numeralValue_numeral, if_true]
    rw [show -(i.natAbs : Int) = i by omega]
  · rename_i hpos
    simp only [readInt?, splitSign_numeral, isNumeral_numeral, numeralValue_numeral, if_true,
      Bool.false_eq_true, if_false]
    rw [show (i.natAbs : Int) = i by omega]

theorem isPlain_of_mem_writeThousandths {n : Nat} {c : Char} (h : c ∈ writeThousandths n) :
    Text.isPlain c = true := by
  rw [writeThousandths, List.mem_append, List.mem_cons, List.leftpad, List.mem_append,
    List.mem_replicate] at h
  rcases h with h | rfl | ⟨-, rfl⟩ | h
  · exact Text.isPlain_of_isDigit (isDigit_of_mem_numeral h)
  · decide
  · decide
  · exact Text.isPlain_of_isDigit (isDigit_of_mem_numeral h)

end Decimal

theorem Binary64.isPlain_of_mem_write (negative : Bool) {units : Nat} (h : IsMagnitude units)
    {c : Char} (hc : c ∈ (finite negative units h).write) : Text.isPlain c = true := by
  cases negative with
  | true =>
      rcases List.mem_cons.1 hc with rfl | hc
      · decide
      · exact Decimal.isPlain_of_mem_writeThousandths hc
  | false => exact Decimal.isPlain_of_mem_writeThousandths hc

theorem Binary64.point_mem_write (negative : Bool) {units : Nat} (h : IsMagnitude units) :
    '.' ∈ (finite negative units h).write := by
  have hpoint (n : Nat) : '.' ∈ Decimal.writeThousandths n :=
    List.mem_append_right _ List.mem_cons_self
  cases negative with
  | true => exact List.mem_cons_of_mem _ (hpoint _)
  | false => exact hpoint _

namespace Value

/-! ## The text of a value -/

theorem write_int (n : Int64) : write (.int n) = Decimal.writeInt n.toInt :=
  rfl

/-- A text cell that is read back from its file. -/
structure CleanText (t : Text) : Prop where
  inField : t.InField
  head : t.head? ≠ some '\''
  last : t.getLast? ≠ some '\''

/-- A value whose text, if it is one, is read back from its file. -/
def Clean (v : Value) : Prop :=
  ∀ t, v = .text t → CleanText t

/-- The form of written values: nonempty, in one field, without blanks at the ends. -/
structure IsWritten (t : Text) : Prop where
  ne_nil : t ≠ []
  inField : t.InField
  head : ∀ c, t.head? = some c → Text.isBlank c = false
  last : ∀ c, t.getLast? = some c → Text.isBlank c = false

theorem IsWritten.trim {t : Text} (h : IsWritten t) : t.trim = t :=
  Text.trimWhere_of_ends h.head h.last

theorem isWritten_of_plain {t : Text} (hne : t ≠ []) (h : t.all Text.isPlain = true) :
    IsWritten t := by
  have hspec {c : Char} (hc : c ∈ t) := Text.isPlain_spec (List.all_eq_true.1 h c hc)
  refine ⟨hne, ⟨fun hc => (hspec hc).2.1 rfl, fun hc => ?_⟩, ?_, ?_⟩
  · exact absurd (hspec hc).1 (by decide)
  · intro c hc
    exact (hspec (List.mem_of_head? hc)).1
  · intro c hc
    exact (hspec (List.mem_of_getLast? hc)).1

theorem plain_write {v : Value} (h : ∀ t, v ≠ .text t) :
    v.write ≠ [] ∧ v.write.all Text.isPlain = true := by
  cases v with
  | int n =>
      refine ⟨Decimal.writeInt_ne_nil n.toInt, List.all_eq_true.2 fun c hc => ?_⟩
      rcases Decimal.digit_or_minus_of_mem_writeInt hc with hc | rfl
      · exact Text.isPlain_of_isDigit hc
      · decide
  | float x =>
      cases x with
      | nan => decide
      | infinite negative => cases negative <;> decide
      | finite negative units hunits =>
          have hpoint := Binary64.point_mem_write negative hunits
          refine ⟨List.ne_nil_of_mem hpoint, List.all_eq_true.2 fun c hc => ?_⟩
          exact Binary64.isPlain_of_mem_write negative hunits hc
  | text t => exact absurd rfl (h t)
  | nan => decide
  | noValue => decide

theorem Clean.isWritten {v : Value} (h : v.Clean) : IsWritten v.write := by
  by_cases htext : ∃ t, v = .text t
  · obtain ⟨t, rfl⟩ := htext
    have hclean := h t rfl
    have hquote : Text.InField ['\''] := ⟨by decide, by decide⟩
    refine ⟨List.cons_ne_nil _ _, ?_, ?_, ?_⟩
    · exact Text.InField.append hquote (hclean.inField.append hquote)
    · rintro c ⟨⟩
      decide
    · intro c hc
      have hlast : (write (.text t)).getLast? = some '\'' :=
        List.getLast?_concat (l := '\'' :: t)
      cases hlast.symm.trans hc
      decide
  · have hplain := plain_write fun t ht => htext ⟨t, ht⟩
    exact isWritten_of_plain hplain.1 hplain.2

/-! ## Reading written values -/

theorem read_of_plain {literal : Text} (h : ∀ c ∈ literal, c ≠ '\'') :
    read literal = if literal.contains '.' then
        match Decimal.read? literal with
        | some d => .ok (.float d.toBinary64)
        | none => .error (.unknownLiteral literal)
      else if literal = "NaN".toList then .ok .nan
      else if literal = "NOVALUE".toList then .ok .noValue
      else
        match readInt64? literal with
        | some n => .ok (.int n)
        | none => .error (.unknownLiteral literal) := by
  have hquote : literal.any isQuote = false := by
    rw [List.any_eq_false]
    intro c hc
    simpa [isQuote] using h c hc
  rw [read, hquote]
  rfl

theorem read_write_int (n : Int64) : read (write (.int n)) = .ok (.int n) := by
  have hchars : ∀ c ∈ Decimal.writeInt n.toInt, c ≠ '\'' ∧ c ≠ '.' ∧ c ≠ 'N' := by
    intro c hc
    rcases Decimal.digit_or_minus_of_mem_writeInt hc with hc | rfl
    · refine ⟨?_, ?_, ?_⟩
      all_goals
        rintro rfl
        exact absurd hc (by decide)
    · decide
  have hpoint : (Decimal.writeInt n.toInt).contains '.' = false := by
    simpa using fun h => (hchars '.' h).2.1 rfl
  have hnan : Decimal.writeInt n.toInt ≠ "NaN".toList :=
    fun h => (hchars 'N' (h ▸ by decide)).2.2 rfl
  have hnone : Decimal.writeInt n.toInt ≠ "NOVALUE".toList :=
    fun h => (hchars 'N' (h ▸ by decide)).2.2 rfl
  have hint : readInt64? (Decimal.writeInt n.toInt) = some n := by
    simp only [readInt64?, Decimal.readInt?_writeInt]
    rw [if_pos ⟨n.minValue_le_toInt, n.toInt_le⟩, Int64.ofInt_toInt]
  rw [write_int, read_of_plain fun c hc => (hchars c hc).1, hpoint, if_neg Bool.false_ne_true,
    if_neg hnan, if_neg hnone, hint]

theorem read_write_text {t : Text} (h : CleanText t) : read (write (.text t)) = .ok (.text t) := by
  have hquote : (write (.text t)).any isQuote = true := rfl
  have hends {c : Char} (hc : c ≠ '\'') : isQuote c = false := by simpa [isQuote] using hc
  have htrim : Text.trimWhere isQuote (write (.text t)) = t := by
    refine Text.trimWhere_enclosed rfl (fun d hd => hends ?_) (fun d hd => hends ?_)
    · rintro rfl
      exact h.head hd
    · rintro rfl
      exact h.last hd
  rw [read, if_pos hquote, htrim]

theorem read_of_point {literal : Text} (hquote : ∀ c ∈ literal, c ≠ '\'') (hpoint : '.' ∈ literal)
    {v : Value} (h : read literal = .ok v) : ∃ x, v = .float x := by
  have hcontains : literal.contains '.' = true := by simpa using hpoint
  rw [read_of_plain hquote, if_pos hcontains] at h
  split at h
  · cases h
    exact ⟨_, rfl⟩
  · cases h

/-- What is read of a written float is a float, or the marker if it was not a number. -/
theorem read_write_float {x : Binary64} {v : Value} (h : read (write (.float x)) = .ok v) :
    x = .nan ∧ v = .nan ∨ ∃ y, v = .float y := by
  cases x with
  | nan =>
      left
      have hnan : read (write (.float .nan)) = .ok .nan := rfl
      rw [hnan] at h
      cases h
      exact ⟨rfl, rfl⟩
  | infinite negative =>
      have hinfinite : ∃ e, read (write (.float (.infinite negative))) = .error e := by
        cases negative
        · exact ⟨.unknownLiteral "inf".toList, rfl⟩
        · exact ⟨.unknownLiteral "-inf".toList, rfl⟩
      obtain ⟨e, he⟩ := hinfinite
      rw [he] at h
      cases h
  | finite negative units hunits =>
      right
      refine read_of_point (fun c hc => ?_) (Binary64.point_mem_write negative hunits) h
      exact (Text.isPlain_spec (Binary64.isPlain_of_mem_write negative hunits hc)).2.2

theorem Clean.read_write {v : Value} (h : v.Clean) (hfloat : ∀ x, v ≠ .float x) :
    read v.write = .ok v := by
  cases v with
  | int n => exact read_write_int n
  | float x => exact absurd rfl (hfloat x)
  | text t => exact read_write_text (h t rfl)
  | nan => rfl
  | noValue => rfl

/-! ## Where clean values come from -/

theorem clean_of_forall_ne {v : Value} (h : ∀ t, v ≠ .text t) : v.Clean :=
  fun t ht => absurd ht (h t)

theorem clean_noValue : Clean .noValue :=
  clean_of_forall_ne nofun

theorem clean_of_read {literal : Text} (hfield : literal.InField) {v : Value}
    (h : read literal = .ok v) : v.Clean := by
  rintro t rfl
  unfold read at h
  split at h
  · cases h
    refine ⟨hfield.mono fun _ hc => Text.mem_of_mem_trimWhere hc, fun hhead => ?_, fun hlast => ?_⟩
    · cases Text.not_of_head?_trimWhere hhead
    · cases Text.not_of_getLast?_trimWhere hlast
  · split at h
    · split at h <;> cases h
    · split at h
      · cases h
      · split at h
        · cases h
        · split at h <;> cases h

theorem ofFinite_ne_text (x : Binary64) (t : Text) : ofFinite x ≠ .text t := by
  unfold ofFinite
  split <;> nofun

/-- Only a sum can be a text: of two texts, or of a text and a missing value. -/
theorem text_of_arithmetic {left right : Value} {op : Arithmetic} {t : Text}
    (h : arithmetic left op right = .ok (.text t)) :
    left = .text t ∨ right = .text t ∨
      ∃ s u, left = .text s ∧ right = .text u ∧ t = unquoted s ++ unquoted u := by
  cases op with
  | add =>
      cases left <;> cases right <;>
        simp_all [arithmetic, operation, add]
  | subtract =>
      cases left <;> cases right <;>
        simp_all [arithmetic, operation, subtract]
  | multiply =>
      cases left <;> cases right <;>
        simp_all [arithmetic, operation, multiply]
  | divide =>
      cases left <;> cases right <;>
        simp_all [arithmetic, operation, divide, ofFinite_ne_text]
      split at h <;> simp at h

theorem cleanText_unquoted {s u : Text} (hs : s.InField) (hu : u.InField) :
    CleanText (unquoted s ++ unquoted u) := by
  have hmono {t : Text} (h : t.InField) : (unquoted t).InField :=
    h.mono fun _ hc => (List.mem_filter.1 hc).1
  have hquote : '\'' ∉ unquoted s ++ unquoted u := by
    simp [unquoted, isQuote]
  exact ⟨(hmono hs).append (hmono hu), fun h => hquote (List.mem_of_head? h),
    fun h => hquote (List.mem_of_getLast? h)⟩

theorem clean_of_arithmetic {left right v : Value} {op : Arithmetic} (hl : left.Clean)
    (hr : right.Clean) (h : arithmetic left op right = .ok v) : v.Clean := by
  rintro t rfl
  obtain rfl | rfl | ⟨s, u, rfl, rfl, rfl⟩ := text_of_arithmetic h
  · exact hl t rfl
  · exact hr t rfl
  · exact cleanText_unquoted (hl s rfl).inField (hr u rfl).inField

end Value

end Relata
