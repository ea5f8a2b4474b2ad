import Relata.Proofs.Query.Forms
import Relata.Proofs.Query.Operators

/-!
# Columns and conditions as they are written

A computed column and a condition of words and quoted texts are read as they are written if
no operand holds what their part of the query is divided at. The same goes for lists of
columns, with a comma and a space between them, and for conditions joined by `and`.
-/

namespace Relata

theorem Keyword.ofWord?_eq_some {word : Text} {keyword : Keyword}
    (h : ofWord? word = some keyword) : word = keyword.word := by
  have hword := List.find?_some h
  exact (of_decide_eq_true hword).symm

/-! ## Operands -/

namespace Text

/-- A word that is none of those which divide a select. -/
structure IsPlain (t : Text) : Prop where
  word : Scan.isWord t = true
  not_from : t ≠ Keyword.fromWord.word
  not_as : t ≠ Keyword.asWord.word
  not_and : t ≠ "and".toList

instance (t : Text) : Decidable t.IsPlain :=
  decidable_of_iff (Scan.isWord t = true ∧ t ≠ Keyword.fromWord.word ∧ t ≠ Keyword.asWord.word ∧
      t ≠ "and".toList)
    ⟨fun ⟨word, not_from, not_as, not_and⟩ => ⟨word, not_from, not_as, not_and⟩,
      fun h => ⟨h.word, h.not_from, h.not_as, h.not_and⟩⟩

/-- A plain word, or a quoted text whose blanks are single spaces. -/
inductive IsOperand : Text → Prop
  | plain {t : Text} (h : IsPlain t) : IsOperand t
  | quoted {body : Text} (closed : '\'' ∉ body) (tidy : Tidy ('\'' :: (body ++ ['\'']))) :
      IsOperand ('\'' :: (body ++ ['\'']))

variable {t left right sign : Text}

theorem space_not_mem_of_isWord (h : Scan.isWord t = true) : ' ' ∉ t :=
  Scan.not_mem_of_isWord h (by decide)

theorem IsPlain.isPhrase (h : t.IsPlain) : t.IsPhrase :=
  Scan.isPhrase_of_isWord h.word

theorem IsOperand.isPhrase (h : t.IsOperand) : t.IsPhrase := by
  cases h with
  | plain h => exact h.isPhrase
  | quoted closed tidy => exact ⟨tidy, List.cons_ne_nil _ _⟩

theorem IsOperand.lacks {word : Text} (h : t.IsOperand) (hword : ' ' ∉ word) (hquote : '\'' ∉ word)
    (hne : t.IsPlain → t ≠ word) (hsep : ¬ separator word <:+: t) : Lacks word t := by
  cases h with
  | plain h => exact lacks_of_not_mem hword (space_not_mem_of_isWord h.word) (hne h)
  | quoted closed tidy => exact lacks_quoted hquote hsep

theorem IsOperand.even_count (h : t.IsOperand) : Even (t.count '\'') := by
  cases h with
  | plain h =>
      rw [Tiling.count_quote_of_isWord h.word]
      exact Even.zero
  | quoted closed tidy =>
      rw [List.count_cons_self, List.count_append, List.count_eq_zero.2 closed]
      decide

theorem IsPhrase.signed (hleft : left.IsPhrase) (hsign : sign.IsPhrase) (hright : right.IsPhrase) :
    (signed left sign right).IsPhrase :=
  hleft.append_space (hsign.append_space hright)

theorem separator_append (word t : Text) : separator word ++ t = ' ' :: (word ++ ' ' :: t) := by
  rw [separator, List.cons_append, List.append_assoc, List.singleton_append]

end Text

/-! ## Computed columns and conditions -/

theorem Arithmetic.isPhrase_symbol (op : Arithmetic) : Text.IsPhrase op.symbol := by
  cases op <;> exact ⟨by decide, by decide⟩

theorem Comparison.isPhrase_symbol (op : Comparison) : Text.IsPhrase op.symbol := by
  cases op <;> exact ⟨by decide, by decide⟩

theorem Text.lacks_signed {word left sign right : Text} (hword : ' ' ∉ word) (hleft : ' ' ∉ left)
    (hleft' : left ≠ word) (hsign : ' ' ∉ sign) (hsign' : sign ≠ word) (hright : Lacks word right) :
    Lacks word (signed left sign right) :=
  Lacks.cons hword hleft hleft' (Lacks.cons hword hsign hsign' hright)

namespace Target

/-- A column named by a word, or computed from two operands and labelled by a word. -/
def Canonical : Target → Prop
  | .column name => Scan.isWord name = true ∧ name ≠ Keyword.fromWord.word ∧ name ≠ ['*']
  | .computed left _ right label => left.IsPlain ∧ right.IsOperand ∧ label.IsPlain

variable {target : Target}

theorem write_computed (left : Text) (op : Arithmetic) (right label : Text) :
    write (.computed left op right label) =
      Text.signed left op.symbol right ++ (Text.separator Keyword.asWord.word ++ label) := by
  rw [write, separator_as, Text.signed]
  simp only [List.append_assoc, List.cons_append]

theorem Canonical.isPhrase_write (h : target.Canonical) : target.write.IsPhrase := by
  cases target with
  | column name => exact Scan.isPhrase_of_isWord h.1
  | computed left op right label =>
      obtain ⟨hleft, hright, hlabel⟩ := h
      have has : Text.IsPhrase Keyword.asWord.word := Scan.isPhrase_of_isWord (by decide)
      rw [write_computed, Text.separator_append]
      exact (hleft.isPhrase.signed op.isPhrase_symbol hright.isPhrase).append_space
        (has.append_space hlabel.isPhrase)

theorem Canonical.comma_not_mem_write (h : target.Canonical) (hu : target.Unambiguous) :
    ',' ∉ target.write := by
  cases target with
  | column name => exact Scan.not_mem_of_isWord h.1 (by decide)
  | computed left op right label =>
      obtain ⟨hleft, -, hlabel⟩ := h
      have hleft := Scan.not_mem_of_isWord hleft.word (c := ',') (by decide)
      have hlabel := Scan.not_mem_of_isWord hlabel.word (c := ',') (by decide)
      have hsymbol : ',' ∉ op.symbol := by cases op <;> decide
      have hright := hu.2.1
      simp [write, hleft, hlabel, hsymbol, hright]

theorem Canonical.write_ne_star (h : target.Canonical) : target.write ≠ ['*'] := by
  cases target with
  | column name => exact h.2.2
  | computed left op right label =>
      intro hstar
      have hspace : ' ' ∈ write (.computed left op right label) := by simp [write]
      rw [hstar] at hspace
      exact absurd hspace (by decide)

theorem Canonical.read_write (h : target.Canonical) (hu : target.Unambiguous) :
    Target.read target.write = .ok target := by
  have hne : Text.separator Keyword.asWord.word ≠ [] := List.cons_ne_nil _ _
  have hsingle {t : Text} (ht : Scan.isWord t = true) :
      t.splitAround (Text.separator Keyword.asWord.word) = [t] := by
    refine Text.splitAround_of_not_infix fun hpart => Text.space_not_mem_of_isWord ht ?_
    exact hpart.subset List.mem_cons_self
  unfold Target.read
  rw [separator_as]
  cases target with
  | column name =>
      rw [write, hsingle h.1]
  | computed left op right label =>
      obtain ⟨hleft, hright, hlabel⟩ := h
      obtain ⟨hsigns, -, hsep⟩ := hu
      have hlacks : Text.Lacks Keyword.asWord.word (Text.signed left op.symbol right) :=
        Text.lacks_signed (by decide) (Text.space_not_mem_of_isWord hleft.word) hleft.not_as
          op.space_not_mem_symbol (by cases op <;> decide)
          (hright.lacks (by decide) (by decide) Text.IsPlain.not_as hsep)
      have hsplit : (write (.computed left op right label)).splitAround
          (Text.separator Keyword.asWord.word) = [Text.signed left op.symbol right, label] := by
        rw [write_computed, Text.splitAround_append hne hlacks.not_isInfix, hsingle hlabel.word]
      have hown := hsigns op.symbol Text.mem_soughtUpTo_self
      have hparts := Text.splitAround_signed op.symbol_ne_nil op.space_not_mem_symbol hown.1 hown.2
      rw [hsplit]
      simp only [op.find?_signed hsigns, hparts, Text.firstTwo,
        Text.trim_append_space hleft.isPhrase.tidy.trim,
        Text.trim_cons_space hright.isPhrase.tidy.trim,
        hlabel.isPhrase.tidy.trim]

end Target

namespace Condition

/-- A condition between two operands of which the left one is a plain word. -/
def Canonical (condition : Condition) : Prop :=
  condition.left.IsPlain ∧ condition.right.IsOperand

variable {condition : Condition}

theorem write_eq (condition : Condition) :
    condition.write = Text.signed condition.left condition.op.symbol condition.right :=
  rfl

theorem separator_and : " and ".toList = Text.separator "and".toList := by
  decide

theorem Canonical.isPhrase_write (h : condition.Canonical) : condition.write.IsPhrase :=
  h.1.isPhrase.signed condition.op.isPhrase_symbol h.2.isPhrase

theorem Canonical.even_count_write (h : condition.Canonical) :
    Even (condition.write.count '\'') := by
  have hsymbol : condition.op.symbol.count '\'' = 0 := by
    cases condition.op <;> decide
  have hleft := Tiling.count_quote_of_isWord h.1.word
  rw [write_eq, Text.signed, List.count_append, hleft, Nat.zero_add,
    List.count_cons_of_ne (by decide), List.count_append, hsymbol, Nat.zero_add,
    List.count_cons_of_ne (by decide)]
  exact h.2.even_count

theorem Canonical.lacks_and (h : condition.Canonical) (hu : condition.Unambiguous) :
    Text.Lacks "and".toList condition.write := by
  have hsep := hu.2
  rw [separator_and] at hsep
  exact Text.lacks_signed (by decide) (Text.space_not_mem_of_isWord h.1.word) h.1.not_and
    (by cases condition.op <;> decide) (by cases condition.op <;> decide)
    (h.2.lacks (by decide) (by decide) Text.IsPlain.not_and hsep)

theorem Canonical.read_write (h : condition.Canonical) (hu : condition.Unambiguous) :
    Condition.read condition.write = .ok condition := by
  have hsettled : condition.Settled := ⟨h.1.isPhrase.tidy.trim, h.2.isPhrase.tidy.trim, hu.1⟩
  exact hsettled.read_write

theorem isPhrase_clause {conditions : List Condition} (hne : conditions ≠ [])
    (h : ∀ condition ∈ conditions, condition.Canonical) :
    Text.IsPhrase (" and ".toList.intercalate (conditions.map write)) ∧
      Even ((" and ".toList.intercalate (conditions.map write)).count '\'') := by
  have hand : Text.IsPhrase "and".toList := ⟨by decide, by decide⟩
  have hcount : (Text.separator "and".toList).count '\'' = 0 := by decide
  refine Text.intercalate_induction
    (P := fun t => Text.IsPhrase t ∧ Even (t.count '\'')) (fun s t hs ht => ⟨?_, ?_⟩)
    (by simp [hne]) fun piece hpiece => ?_
  · rw [separator_and, Text.separator_append]
    exact hs.1.append_space (hand.append_space ht.1)
  · rw [separator_and, List.count_append, List.count_append, hcount, Nat.zero_add]
    exact hs.2.add ht.2
  · obtain ⟨condition, hcondition, rfl⟩ := List.mem_map.1 hpiece
    exact ⟨(h condition hcondition).isPhrase_write, (h condition hcondition).even_count_write⟩

theorem readAll_write {conditions : List Condition} (hne : conditions ≠ [])
    (h : ∀ condition ∈ conditions, condition.Canonical)
    (hu : ∀ condition ∈ conditions, condition.Unambiguous) :
    readAll (" and ".toList.intercalate (conditions.map write)) = .ok conditions := by
  have hsplit : Text.splitAround ((Text.separator "and".toList).intercalate (conditions.map write))
      (Text.separator "and".toList) = conditions.map write := by
    refine Text.splitAround_intercalate (List.cons_ne_nil _ _) (by simp [hne])
      fun piece hpiece => ?_
    obtain ⟨condition, hcondition, rfl⟩ := List.mem_map.1 hpiece
    exact ((h condition hcondition).lacks_and (hu condition hcondition)).not_isInfix
  have hread := Outcome.mapM_of_forall (f := read ∘ write) (g := id)
    fun condition hcondition => (h condition hcondition).read_write (hu condition hcondition)
  rw [readAll, separator_and, hsplit, List.mapM_map, hread, List.map_id]

theorem unambiguous_readAll {t : Text} {conditions : List Condition}
    (h : readAll t = .ok conditions) : ∀ condition ∈ conditions, condition.Unambiguous := by
  intro condition hcondition
  obtain ⟨piece, hpiece, hread⟩ := Outcome.exists_of_mem_mapM h hcondition
  exact unambiguous_read (Text.not_infix_of_mem_splitAround (by decide) hpiece) hread

end Condition

/-! ## Projections -/

theorem fields_writeList {items : List Text} (hcomma : ∀ item ∈ items, ',' ∉ item)
    (htidy : ∀ item ∈ items, Text.Tidy item) (hne : items ≠ []) :
    Text.fields (writeList items) = items := by
  have hjoin (item : Text) (rest : List Text) : writeList (item :: rest) =
      [','].intercalate (item :: rest.map (' ' :: ·)) := by
    induction rest generalizing item with
    | nil => rw [writeList, List.intercalate_singleton, List.map_nil, List.intercalate_singleton]
    | cons next rest ih =>
        have hspace : [','].intercalate ((' ' :: next) :: rest.map (' ' :: ·)) =
            ' ' :: [','].intercalate (next :: rest.map (' ' :: ·)) := by
          cases rest with
          | nil => rfl
          | cons other rest => simp [List.intercalate_cons_cons]
        rw [writeList_cons_cons, ih, List.map_cons, List.intercalate_cons_cons, hspace,
          List.append_assoc, List.singleton_append]
  obtain ⟨item, rest, rfl⟩ := List.exists_cons_of_ne_nil hne
  obtain ⟨hitem, hrest⟩ := List.forall_mem_cons.1 hcomma
  obtain ⟨hitemTidy, hrestTidy⟩ := List.forall_mem_cons.1 htidy
  have hpieces : ∀ piece ∈ item :: rest.map (' ' :: ·), ',' ∉ piece := by
    refine List.forall_mem_cons.2 ⟨hitem, fun piece hpiece => ?_⟩
    obtain ⟨next, hnext, rfl⟩ := List.mem_map.1 hpiece
    simp [hrest next hnext]
  rw [hjoin, Text.fields, List.splitOn_intercalate ',' hpieces (List.cons_ne_nil _ _),
    List.map_cons, hitemTidy.trim, List.map_map]
  congr 1
  refine (List.map_congr_left fun next hnext => ?_).trans (List.map_id rest)
  exact Text.trim_cons_space (hrestTidy next hnext).trim

namespace Projection

/-- All columns, or a list of columns that is not empty. -/
def Canonical : Projection → Prop
  | .all => True
  | .targets items => items ≠ [] ∧ ∀ target ∈ items, target.Canonical

def Unambiguous : Projection → Prop
  | .all => True
  | .targets items => ∀ target ∈ items, target.Unambiguous

variable {projection : Projection} {failure : Error}

theorem Canonical.isPhrase_write (h : projection.Canonical) : projection.write.IsPhrase := by
  cases projection with
  | all => exact ⟨by decide, by decide⟩
  | targets targets =>
      refine isPhrase_writeList (by simp [h.1]) fun item hitem => ?_
      obtain ⟨target, htarget, rfl⟩ := List.mem_map.1 hitem
      exact (h.2 target htarget).isPhrase_write

theorem Canonical.read_write (h : projection.Canonical) (hu : projection.Unambiguous) :
    Projection.read failure projection.write = .ok projection := by
  cases projection with
  | all => rfl
  | targets targets =>
      obtain ⟨hne, htargets⟩ := h
      have hwritten {item : Text} (hitem : item ∈ targets.map Target.write) :
          ∃ target ∈ targets, target.write = item := List.mem_map.1 hitem
      have hfields : Text.fields (writeList (targets.map Target.write)) =
          targets.map Target.write := by
        refine fields_writeList (fun item hitem => ?_) (fun item hitem => ?_) (by simp [hne])
        · obtain ⟨target, htarget, rfl⟩ := hwritten hitem
          exact (htargets target htarget).comma_not_mem_write (hu target htarget)
        · obtain ⟨target, htarget, rfl⟩ := hwritten hitem
          exact (htargets target htarget).isPhrase_write.tidy
      have hstar : writeList (targets.map Target.write) ≠ ['*'] := by
        intro hstar
        rw [hstar] at hfields
        have hmem : ['*'] ∈ targets.map Target.write := by
          rw [← hfields]
          decide
        obtain ⟨target, htarget, hwrite⟩ := hwritten hmem
        exact (htargets target htarget).write_ne_star hwrite
      have hread : (targets.map Target.write).mapM (fun (piece : Text) =>
          if piece = [] then .error failure else Target.read piece) = .ok targets := by
        have hall := Outcome.mapM_of_forall (g := id)
          (f := (fun piece => if piece = [] then .error failure else Target.read piece) ∘
            Target.write)
          fun target htarget => by
            have hnil := (htargets target htarget).isPhrase_write.ne_nil
            simp only [Function.comp, if_neg hnil]
            exact (htargets target htarget).read_write (hu target htarget)
        rw [List.mapM_map, hall, List.map_id]
      rw [write, Projection.read, if_neg hstar]
      rw [← hfields, Text.fields, List.mapM_map] at hread
      exact Outcome.bind_eq_ok.2 ⟨targets, hread, rfl⟩

end Projection

end Relata
