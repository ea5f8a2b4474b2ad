import Mathlib.Data.List.Forall2
import Relata.Error

/-!
# Computations that may fail

What success of a sequence, of a traversal or of a fold says about its parts, and what a
failure of theirs comes from. A traversal whose steps all succeed is the plain operation on
lists.
-/

namespace Relata

namespace Outcome

/-! ## Traversals -/

theorem mapM_eq_ok {f : α → Except ε β} {xs : List α} {ys : List β} :
    xs.mapM f = .ok ys ↔ List.Forall₂ (fun x y => f x = .ok y) xs ys := by
  induction xs generalizing ys with
  | nil => simp [pure, Except.pure, eq_comm]
  | cons x xs ih =>
      rw [List.mapM_cons, bind_eq_ok, List.forall₂_cons_left_iff]
      constructor
      · rintro ⟨y, hy, hrest⟩
        obtain ⟨zs, hzs, h⟩ := bind_eq_ok.1 hrest
        exact ⟨y, zs, hy, ih.1 hzs, (Except.ok.inj h).symm⟩
      · rintro ⟨y, zs, hy, hzs, rfl⟩
        exact ⟨y, hy, bind_eq_ok.2 ⟨zs, ih.2 hzs, rfl⟩⟩

/-- A traversal fails with the failure of the first of its steps that fails. -/
theorem mapM_eq_error {f : α → Except ε β} {xs : List α} {e : ε} :
    xs.mapM f = .error e ↔ ∃ before x after, xs = before ++ x :: after ∧
      (∀ y ∈ before, ∃ z, f y = .ok z) ∧ f x = .error e := by
  induction xs with
  | nil =>
      constructor
      · intro h
        cases h
      · rintro ⟨before, x, after, h, -⟩
        exact absurd h (by simp)
  | cons y xs ih =>
      rw [List.mapM_cons]
      cases hy : f y with
      | error e' =>
          constructor
          · intro h
            cases h
            exact ⟨[], y, xs, rfl, nofun, hy⟩
          · rintro ⟨before, x, after, hsplit, hbefore, hx⟩
            cases before with
            | nil =>
                cases hsplit
                cases hy.symm.trans hx
                rfl
            | cons first before =>
                cases hsplit
                obtain ⟨z, hz⟩ := hbefore y List.mem_cons_self
                cases hy.symm.trans hz
      | ok z =>
          have hrest : (.ok z >>= fun z => xs.mapM f >>= fun zs => pure (z :: zs)) =
              (.error e : Except ε (List β)) ↔ xs.mapM f = .error e := by
            cases xs.mapM f <;> simp [bind, Except.bind, pure, Except.pure]
          rw [hrest, ih]
          constructor
          · rintro ⟨before, x, after, rfl, hbefore, hx⟩
            exact ⟨y :: before, x, after, rfl, List.forall_mem_cons.2 ⟨⟨z, hy⟩, hbefore⟩, hx⟩
          · rintro ⟨before, x, after, hsplit, hbefore, hx⟩
            cases before with
            | nil =>
                cases hsplit
                cases hy.symm.trans hx
            | cons first before =>
                cases hsplit
                exact ⟨before, x, after, rfl, (List.forall_mem_cons.1 hbefore).2, hx⟩

/-- What every step keeps, a traversal keeps all along its list. -/
theorem map_eq_of_mapM {f : α → Except ε β} {p : α → γ} {q : β → γ} {xs : List α} {ys : List β}
    (hstep : ∀ x y, f x = .ok y → p x = q y) (h : xs.mapM f = .ok ys) : xs.map p = ys.map q := by
  rw [← List.forall₂_eq_eq_eq, List.forall₂_map_left_iff, List.forall₂_map_right_iff]
  exact (mapM_eq_ok.1 h).imp hstep

theorem exists_of_mem_forall₂ {R : α → β → Prop} {xs : List α} {ys : List β}
    (h : List.Forall₂ R xs ys) {y : β} (hy : y ∈ ys) : ∃ x ∈ xs, R x y := by
  obtain ⟨i, hi, rfl⟩ := List.getElem_of_mem hy
  have hi' : i < xs.length := h.length_eq ▸ hi
  exact ⟨xs[i], List.getElem_mem hi', h.get hi' hi⟩

theorem exists_of_mem_mapM {f : α → Except ε β} {xs : List α} {ys : List β}
    (h : xs.mapM f = .ok ys) {y : β} (hy : y ∈ ys) : ∃ x ∈ xs, f x = .ok y :=
  exists_of_mem_forall₂ (mapM_eq_ok.1 h) hy

theorem exists_of_mapM {f : α → Except ε β} {xs : List α} {ys : List β}
    (h : xs.mapM f = .ok ys) {x : α} (hx : x ∈ xs) : ∃ y, f x = .ok y := by
  obtain ⟨y, -, hy⟩ := exists_of_mem_forall₂ (mapM_eq_ok.1 h).flip hx
  exact ⟨y, hy⟩

theorem exists_forall₂_iff {R : α → β → Prop} {xs : List α} :
    (∃ ys, List.Forall₂ R xs ys) ↔ ∀ x ∈ xs, ∃ y, R x y := by
  constructor
  · rintro ⟨ys, hys⟩ x hx
    obtain ⟨y, -, hy⟩ := exists_of_mem_forall₂ hys.flip hx
    exact ⟨y, hy⟩
  · intro h
    induction xs with
    | nil => exact ⟨[], List.Forall₂.nil⟩
    | cons x xs ih =>
        obtain ⟨⟨y, hy⟩, hrest⟩ := List.forall_mem_cons.1 h
        obtain ⟨ys, hys⟩ := ih hrest
        exact ⟨y :: ys, List.Forall₂.cons hy hys⟩

theorem exists_mapM_of_forall {f : α → Except ε β} {R : α → β → Prop} {xs : List α}
    (h : ∀ x ∈ xs, ∃ y, f x = .ok y ∧ R x y) :
    ∃ ys, xs.mapM f = .ok ys ∧ List.Forall₂ R xs ys := by
  obtain ⟨ys, hys⟩ := exists_forall₂_iff.2 h
  exact ⟨ys, mapM_eq_ok.2 (hys.imp fun _ _ => And.left), hys.imp fun _ _ => And.right⟩

theorem mapM_of_forall {f : α → Except ε β} {g : α → β} {xs : List α}
    (h : ∀ x ∈ xs, f x = .ok (g x)) : xs.mapM f = .ok (xs.map g) := by
  rw [mapM_eq_ok, List.forall₂_map_right_iff, List.forall₂_same]
  exact h

theorem mapM_congr {f g : α → Except ε β} {xs : List α} (h : ∀ x ∈ xs, f x = g x) :
    xs.mapM f = xs.mapM g := by
  induction xs with
  | nil => rfl
  | cons x xs ih =>
      rw [List.mapM_cons, List.mapM_cons, h x List.mem_cons_self,
        ih fun y hy => h y (List.mem_cons_of_mem x hy)]

theorem filterMapM_of_forall {f : α → Except ε (Option β)} {g : α → Option β} {xs : List α}
    (h : ∀ x ∈ xs, f x = .ok (g x)) : xs.filterMapM f = .ok (xs.filterMap g) := by
  induction xs with
  | nil => rfl
  | cons x xs ih =>
      have hx := h x List.mem_cons_self
      have hrest := ih fun y hy => h y (List.mem_cons_of_mem x hy)
      rw [List.filterMapM_cons, hx, hrest]
      cases hg : g x <;> simp [hg, bind, Except.bind, pure, Except.pure]

theorem exists_filterMapM_of_forall {f : α → Except ε (Option β)} {xs : List α}
    (h : ∀ x ∈ xs, ∃ y, f x = .ok y) : ∃ ys, xs.filterMapM f = .ok ys := by
  induction xs with
  | nil => exact ⟨[], rfl⟩
  | cons x xs ih =>
      obtain ⟨result, hx⟩ := h x List.mem_cons_self
      obtain ⟨ys, hrest⟩ := ih fun x' hx' => h x' (List.mem_cons_of_mem x hx')
      rw [List.filterMapM_cons, hx, hrest]
      cases result with
      | none => exact ⟨ys, rfl⟩
      | some y => exact ⟨y :: ys, rfl⟩

theorem flatMapM_of_forall {f : α → Except ε (List β)} {g : α → List β} {xs : List α}
    (h : ∀ x ∈ xs, f x = .ok (g x)) : xs.flatMapM f = .ok (xs.flatMap g) := by
  induction xs with
  | nil => rfl
  | cons x xs ih =>
      have hx := h x List.mem_cons_self
      have hrest := ih fun y hy => h y (List.mem_cons_of_mem x hy)
      rw [List.flatMapM_cons, hx, hrest]
      rfl

theorem exists_of_mem_filterMapM {f : α → Except ε (Option β)} {xs : List α} {ys : List β}
    (h : xs.filterMapM f = .ok ys) {y : β} (hy : y ∈ ys) :
    ∃ x ∈ xs, f x = .ok (some y) := by
  induction xs generalizing ys with
  | nil =>
      cases h
      cases hy
  | cons x xs ih =>
      rw [List.filterMapM_cons, bind_eq_ok] at h
      obtain ⟨result, hx, h⟩ := h
      cases result with
      | none =>
          obtain ⟨x', hx', hresult⟩ := ih h hy
          exact ⟨x', List.mem_cons_of_mem x hx', hresult⟩
      | some first =>
          obtain ⟨rest, hrest, h⟩ := bind_eq_ok.1 h
          cases h
          rcases List.mem_cons.1 hy with rfl | hy
          · exact ⟨x, List.mem_cons_self, hx⟩
          · obtain ⟨x', hx', hresult⟩ := ih hrest hy
            exact ⟨x', List.mem_cons_of_mem x hx', hresult⟩

/-! ## Folds -/

/-- What every step of a fold keeps, the fold keeps. -/
theorem foldlM_induction {f : γ → α → Except ε γ} {P : γ → Prop} {xs : List α} {first last : γ}
    (h : xs.foldlM f first = .ok last) (hfirst : P first)
    (hstep : ∀ x ∈ xs, ∀ before after, P before → f before x = .ok after → P after) :
    P last := by
  induction xs generalizing first with
  | nil =>
      cases h
      exact hfirst
  | cons x xs ih =>
      rw [List.foldlM_cons] at h
      obtain ⟨middle, hmiddle, hrest⟩ := bind_eq_ok.1 h
      exact ih hrest (hstep x List.mem_cons_self first middle hfirst hmiddle)
        fun y hy => hstep y (List.mem_cons_of_mem x hy)

theorem exists_foldlM_of_forall {f : γ → α → Except ε γ} {P : γ → Prop} {xs : List α} {first : γ}
    (hfirst : P first)
    (hstep : ∀ x ∈ xs, ∀ before, P before → ∃ after, f before x = .ok after ∧ P after) :
    ∃ last, xs.foldlM f first = .ok last := by
  induction xs generalizing first with
  | nil => exact ⟨first, rfl⟩
  | cons x xs ih =>
      obtain ⟨middle, hmiddle, hkept⟩ := hstep x List.mem_cons_self first hfirst
      rw [List.foldlM_cons, hmiddle]
      exact ih hkept fun y hy => hstep y (List.mem_cons_of_mem x hy)

theorem foldlM_map (f : α → Except ε β) (g : γ → β → γ) (xs : List α) (first : γ) :
    xs.foldlM (fun state x => g state <$> f x) first =
      (fun ys => ys.foldl g first) <$> xs.mapM f := by
  induction xs generalizing first with
  | nil => rfl
  | cons x xs ih =>
      rw [List.foldlM_cons, List.mapM_cons]
      cases hx : f x with
      | error e => rfl
      | ok y =>
          simp only [Functor.map, Except.map, bind, Except.bind] at ih ⊢
          rw [ih]
          cases xs.mapM f <;> rfl

/-! ## Failures -/

/-- Whatever a computation fails with has a property. -/
def FailsOnly (P : ε → Prop) (x : Except ε α) : Prop :=
  ∀ e, x = .error e → P e

namespace FailsOnly

variable {P Q : ε → Prop}

theorem ok (a : α) : FailsOnly P (.ok a) :=
  nofun

theorem error {e : ε} (h : P e) : FailsOnly P (.error e : Except ε α) := by
  intro e' heq
  cases heq
  exact h

theorem mono {x : Except ε α} (hx : FailsOnly P x) (h : ∀ e, P e → Q e) : FailsOnly Q x :=
  fun e he => h e (hx e he)

theorem bind {x : Except ε α} {f : α → Except ε β} (hx : FailsOnly P x)
    (hf : ∀ a, x = .ok a → FailsOnly P (f a)) : FailsOnly P (x >>= f) := by
  cases x with
  | error e => exact error (hx e rfl)
  | ok a => exact hf a rfl

theorem map {x : Except ε α} (f : α → β) (hx : FailsOnly P x) : FailsOnly P (f <$> x) := by
  cases x with
  | error e => exact error (hx e rfl)
  | ok a => exact ok (f a)

theorem mapM {f : α → Except ε β} {xs : List α} (h : ∀ x ∈ xs, FailsOnly P (f x)) :
    FailsOnly P (xs.mapM f) := by
  induction xs with
  | nil => exact ok []
  | cons x xs ih =>
      rw [List.mapM_cons]
      refine (h x List.mem_cons_self).bind fun y _ => ?_
      exact (ih fun x' hx' => h x' (List.mem_cons_of_mem x hx')).bind fun ys _ => ok (y :: ys)

theorem filterMapM {f : α → Except ε (Option β)} {xs : List α}
    (h : ∀ x ∈ xs, FailsOnly P (f x)) : FailsOnly P (xs.filterMapM f) := by
  induction xs with
  | nil => exact ok []
  | cons x xs ih =>
      have hrest := ih fun x' hx' => h x' (List.mem_cons_of_mem x hx')
      rw [List.filterMapM_cons]
      refine (h x List.mem_cons_self).bind fun result _ => ?_
      cases result with
      | none => exact hrest
      | some y => exact hrest.bind fun ys _ => ok (y :: ys)

theorem foldlM {f : γ → α → Except ε γ} {xs : List α} (h : ∀ x s, FailsOnly P (f s x))
    (first : γ) : FailsOnly P (xs.foldlM f first) := by
  induction xs generalizing first with
  | nil => exact ok first
  | cons x xs ih =>
      rw [List.foldlM_cons]
      exact (h x first).bind fun next _ => ih next

end FailsOnly

end Outcome

end Relata
