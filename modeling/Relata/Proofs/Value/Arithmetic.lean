import Relata.Proofs.InRange

/-!
# What arithmetic does

The rules on markers and on mixed operands leave to each operation only operands for which it
has a rule of its own, so that a failure is either a text beside a number, or a text in
anything but a sum. Results keep the type of their operands, and integers are exact up to
the wrap-around of 64 bits.
-/

namespace Relata

/-- The operation of an operator on integers without bounds; quotients go toward zero. -/
def Arithmetic.exact : Arithmetic → Int → Int → Int
  | .add => (· + ·)
  | .subtract => (· - ·)
  | .multiply => (· * ·)
  | .divide => Int.tdiv

namespace Value

def isNumber : Value → Bool
  | .int _ => true
  | .float _ => true
  | _ => false

/-- One operand is a text and the other one is a number. -/
def Mixed (left right : Value) : Prop :=
  left.isText = true ∧ right.isNumber = true ∨ left.isNumber = true ∧ right.isText = true

/-- One operand is a text, and the other one is a text or missing. -/
def Textual (left right : Value) : Prop :=
  left.isText = true ∧ (right.isText = true ∨ right = .noValue) ∨
    left = .noValue ∧ right.isText = true

variable {left right result : Value} {op : Arithmetic} {e : Error}

/-! ## Failures -/

theorem arithmetic_of_mixed (h : Mixed left right) (op : Arithmetic) :
    left.arithmetic op right = .error (.incompatible left.kind right.kind) := by
  cases left <;> cases right <;> simp_all [Mixed, isText, isNumber, arithmetic]

/-- Operands that the rules on markers and on mixed operands leave to the operation. -/
structure Joinable (left right : Value) : Prop where
  left_ne_nan : left ≠ .nan
  right_ne_nan : right ≠ .nan
  not_mixed : ¬ Mixed left right
  not_missing : ¬ (left = .noValue ∧ right = .noValue)

theorem Joinable.arithmetic_eq (h : Joinable left right) (op : Arithmetic) :
    left.arithmetic op right = operation op left right := by
  obtain ⟨hleft, hright, hmixed, hmissing⟩ := h
  cases left <;> cases right <;> simp_all [Mixed, isText, isNumber, arithmetic]

/-- What is left to an operation fails only on texts. -/
theorem Joinable.operation_eq_error_iff (h : Joinable left right) :
    operation op left right = .error e ↔
      (Textual left right ∧ op ≠ .add) ∧ e = .undefinedOperation op true := by
  obtain ⟨hleft, hright, hmixed, hmissing⟩ := h
  cases op with
  | add =>
      cases left <;> cases right <;> simp_all [operation, add, Mixed, isText, isNumber]
  | subtract | multiply =>
      cases left <;> cases right <;>
        simp_all [operation, subtract, multiply, Mixed, Textual, isText, isNumber, eq_comm]
  | divide =>
      cases left <;> cases right <;>
        simp_all [operation, divide, Mixed, Textual, isText, isNumber, eq_comm]
      -- the one case left is that of two integers, which may have no quotient
      split <;> simp

theorem Mixed.ne_nan (h : Mixed left right) : left ≠ .nan ∧ right ≠ .nan := by
  constructor <;> rintro rfl <;> simp [Mixed, isText, isNumber] at h

theorem Textual.joinable (h : Textual left right) : Joinable left right := by
  constructor <;> cases left <;> cases right <;> simp_all [Mixed, Textual, isText, isNumber]

theorem arithmetic_of_nan (h : left = .nan ∨ right = .nan) (op : Arithmetic) :
    left.arithmetic op right = .ok .nan := by
  rcases h with rfl | rfl
  · rfl
  · cases left <;> rfl

theorem arithmetic_eq_error_iff : left.arithmetic op right = .error e ↔
    Mixed left right ∧ e = .incompatible left.kind right.kind ∨
      (Textual left right ∧ op ≠ .add) ∧ e = .undefinedOperation op true := by
  constructor
  · intro h
    by_cases hnan : left = .nan ∨ right = .nan
    · rw [arithmetic_of_nan hnan] at h
      cases h
    · obtain ⟨hleft, hright⟩ := not_or.1 hnan
      by_cases hmixed : Mixed left right
      · rw [arithmetic_of_mixed hmixed] at h
        cases h
        exact .inl ⟨hmixed, rfl⟩
      · by_cases hmissing : left = .noValue ∧ right = .noValue
        · obtain ⟨rfl, rfl⟩ := hmissing
          cases h
        · have hjoinable : Joinable left right := ⟨hleft, hright, hmixed, hmissing⟩
          rw [hjoinable.arithmetic_eq] at h
          exact .inr (hjoinable.operation_eq_error_iff.1 h)
  · rintro (⟨hmixed, rfl⟩ | ⟨htext, rfl⟩)
    · exact arithmetic_of_mixed hmixed op
    · rw [htext.1.joinable.arithmetic_eq]
      exact htext.1.joinable.operation_eq_error_iff.2 ⟨htext, rfl⟩

/-- The message of an operation without a rule for its operands. -/
def fallback (op : Arithmetic) : Text :=
  "ERROR: Arithmetic Error: Cannot ".toList ++ op.verb ++ " elements".toList

theorem message_ne_fallback (h : left.arithmetic op right = .error e) (other : Arithmetic) :
    e.message ≠ fallback other := by
  rcases arithmetic_eq_error_iff.1 h with ⟨-, rfl⟩ | ⟨-, rfl⟩
  · intro hmessage
    have hbegin : "ERROR: I".toList = "ERROR: A".toList := congrArg (List.take 8) hmessage
    exact absurd hbegin (by decide)
  · cases op <;> cases other <;> decide

/-! ## Results -/

theorem arithmetic_int_of_ne_divide (hop : op ≠ .divide) (a b : Int64) :
    ∃ n : Int64, (int a).arithmetic op (int b) = .ok (.int n) ∧
      n.toInt = (op.exact a.toInt b.toInt).bmod Int64.size := by
  cases op with
  | add => exact ⟨a + b, rfl, Int64.toInt_add a b⟩
  | subtract => exact ⟨a - b, rfl, Int64.toInt_sub a b⟩
  | multiply => exact ⟨a * b, rfl, Int64.toInt_mul a b⟩
  | divide => contradiction

def InWord (i : Int) : Prop :=
  Int64.minValue.toInt ≤ i ∧ i ≤ Int64.maxValue.toInt

/-- The quotient is exact, or it is the marker where there is none or 64 bits do not hold it. -/
theorem arithmetic_int_divide (a b : Int64) :
    (int a).arithmetic .divide (int b) = .ok .nan ∧
        (b.toInt = 0 ∨ ¬ InWord (a.toInt.tdiv b.toInt)) ∨
      (∃ q : Int64, (int a).arithmetic .divide (int b) = .ok (.int q) ∧
        q.toInt = a.toInt.tdiv b.toInt) ∧ b.toInt ≠ 0 ∧ InWord (a.toInt.tdiv b.toInt) := by
  rcases divide_int a b with ⟨hundefined, hnan⟩ | ⟨hb, q, hq, hexact⟩
  · refine .inl ⟨hnan, ?_⟩
    rcases hundefined with rfl | ⟨rfl, rfl⟩
    · exact .inl rfl
    · exact .inr (by unfold InWord; decide)
  · refine .inr ⟨⟨q, hq, hexact⟩, fun hzero => hb (Int64.toInt_inj.1 hzero), ?_⟩
    rw [← hexact]
    exact ⟨q.minValue_le_toInt, q.toInt_le⟩

theorem ofFinite_cases (x : Binary64) :
    ofFinite x = .nan ∨ ofFinite x = .float x ∧ x.isFinite = true := by
  unfold ofFinite
  split
  · exact .inr ⟨rfl, ‹_›⟩
  · exact .inl rfl

theorem number_of_divide (h : left.arithmetic .divide right = .ok result)
    (hnumber : result.isNumber = true) :
    (∃ n, result = .int n ∧ left.kind ≠ .typed .float ∧ right.kind ≠ .typed .float) ∨
      ∃ x, result = .float x ∧ x.isFinite = true ∧
        (left.kind = .typed .float ∨ right.kind = .typed .float) := by
  have hrounded {x : Binary64} (hx : (ofFinite x).isNumber = true) :
      ∃ y, ofFinite x = .float y ∧ y.isFinite = true := by
    rcases ofFinite_cases x with hnan | ⟨hx, hfinite⟩
    · rw [hnan] at hx
      cases hx
    · exact ⟨x, hx, hfinite⟩
  cases left <;> cases right
  case int.int a b =>
    rcases arithmetic_int_divide a b with ⟨hnan, -⟩ | ⟨⟨q, hq, -⟩, -⟩
    · cases hnan.symm.trans h
      cases hnumber
    · cases hq.symm.trans h
      exact .inl ⟨q, rfl, by simp [kind]⟩
  case int.float | float.int | float.float =>
    obtain rfl := Except.ok.inj h
    obtain ⟨x, hx, hfinite⟩ := hrounded hnumber
    exact .inr ⟨x, hx, hfinite, by simp [kind]⟩
  case noValue.int b =>
    obtain rfl : int 0 = result := Except.ok.inj h
    exact .inl ⟨0, rfl, by simp [kind]⟩
  case noValue.float y =>
    obtain rfl : float (Binary64.zero false) = result := Except.ok.inj h
    exact .inr ⟨Binary64.zero false, rfl, rfl, .inr rfl⟩
  -- in all other cases the quotient fails or is no number
  all_goals cases h
  all_goals cases hnumber

theorem arithmetic_ne_nan (hop : op ≠ .divide) (hleft : left ≠ .nan) (hright : right ≠ .nan) :
    left.arithmetic op right ≠ .ok .nan := by
  cases op with
  | divide => contradiction
  | add | subtract | multiply => cases left <;> cases right <;> first | contradiction | nofun

theorem kind_of_arithmetic (h : left.arithmetic op right = .ok result)
    (hnumber : result.isNumber = true) :
    result.kind = .typed .int ↔ left.kind ≠ .typed .float ∧ right.kind ≠ .typed .float := by
  cases op with
  | add | subtract | multiply =>
      cases left <;> cases right <;> cases h <;> simp_all [kind, isNumber]
  | divide =>
      rcases number_of_divide h hnumber with ⟨n, rfl, hkinds⟩ | ⟨x, rfl, -, hkinds⟩
      · exact iff_of_true rfl hkinds
      · exact iff_of_false nofun fun hnone => hkinds.elim hnone.1 hnone.2

/-- What holds of a result whose operands are not the marker `NaN`. -/
structure IsResult (left : Value) (op : Arithmetic) (right result : Value) : Prop where
  ne_nan : op ≠ .divide → result ≠ .nan
  kind : result.isNumber = true →
    (result.kind = .typed .int ↔ left.kind ≠ .typed .float ∧ right.kind ≠ .typed .float)
  wraps : ∀ a b, left = .int a → right = .int b → op ≠ .divide →
    ∃ n : Int64, result = .int n ∧ n.toInt = (op.exact a.toInt b.toInt).bmod Int64.size
  truncates : ∀ a b, left = .int a → right = .int b → op = .divide →
    (result = .nan ↔ b.toInt = 0 ∨ ¬ InWord (op.exact a.toInt b.toInt)) ∧
      (result = .nan ∨ ∃ q : Int64, result = .int q ∧ q.toInt = op.exact a.toInt b.toInt)
  finite : ∀ x, op = .divide → result = .float x → x.isFinite = true

theorem isResult_of_arithmetic (hleft : left ≠ .nan) (hright : right ≠ .nan)
    (h : left.arithmetic op right = .ok result) : IsResult left op right result where
  ne_nan hop := by
    rintro rfl
    exact arithmetic_ne_nan hop hleft hright h
  kind := kind_of_arithmetic h
  wraps := by
    rintro a b rfl rfl hop
    obtain ⟨n, hn, hexact⟩ := arithmetic_int_of_ne_divide hop a b
    exact ⟨n, Except.ok.inj (h.symm.trans hn), hexact⟩
  truncates := by
    rintro a b rfl rfl rfl
    rcases arithmetic_int_divide a b with ⟨hnan, hnone⟩ | ⟨⟨q, hq, hexact⟩, hb, hword⟩
    · obtain rfl : nan = result := Except.ok.inj (hnan.symm.trans h)
      exact ⟨iff_of_true rfl hnone, .inl rfl⟩
    · obtain rfl : int q = result := Except.ok.inj (hq.symm.trans h)
      exact ⟨iff_of_false nofun (not_or.2 ⟨hb, not_not.2 hword⟩), .inr ⟨q, rfl, hexact⟩⟩
  finite := by
    rintro x rfl rfl
    rcases number_of_divide h rfl with ⟨n, hn, -⟩ | ⟨y, hy, hfinite, -⟩
    · cases hn
    · cases hy
      exact hfinite

/--
When arithmetic fails, that it never fails for want of a rule, and what its results are like
if no operand is the marker `NaN`.
-/
theorem arithmetic_outcome (left : Value) (op : Arithmetic) (right : Value) :
    ((∃ e, left.arithmetic op right = .error e) ↔ (left ≠ .nan ∧ right ≠ .nan) ∧
        (Mixed left right ∨ Textual left right ∧ op ≠ .add)) ∧
      (∀ e, left.arithmetic op right = .error e → ∀ other, e.message ≠ fallback other) ∧
      ∀ result, left.arithmetic op right = .ok result → left ≠ .nan → right ≠ .nan →
        IsResult left op right result := by
  refine ⟨⟨?_, ?_⟩, fun e => message_ne_fallback, fun result h hleft hright => ?_⟩
  · rintro ⟨e, h⟩
    rcases arithmetic_eq_error_iff.1 h with ⟨hmixed, -⟩ | ⟨htext, -⟩
    · exact ⟨hmixed.ne_nan, .inl hmixed⟩
    · have hjoinable := htext.1.joinable
      exact ⟨⟨hjoinable.left_ne_nan, hjoinable.right_ne_nan⟩, .inr htext⟩
  · rintro ⟨-, hmixed | htext⟩
    · exact ⟨_, arithmetic_eq_error_iff.2 (.inl ⟨hmixed, rfl⟩)⟩
    · exact ⟨_, arithmetic_eq_error_iff.2 (.inr ⟨htext, rfl⟩)⟩
  · exact isResult_of_arithmetic hleft hright h

example : (int Int64.minValue).arithmetic .divide (int (-1)) = .ok .nan ∧
    (int Int64.minValue).arithmetic .subtract (int 1) = .ok (int Int64.maxValue) := by
  decide

end Value

end Relata
