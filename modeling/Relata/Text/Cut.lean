import Relata.Text.Basic

/-!
# Cutting a text at byte offsets

Offsets count bytes of the UTF-8 form. A cut exists only between characters and inside
the text: `cut?` has no answer for an offset within a character, past the end, or for a
start after the stop.
-/

namespace Relata

namespace Text

def byteSize : Text → Nat
  | [] => 0
  | c :: rest => c.utf8Size + byteSize rest

theorem byteSize_append (s t : Text) :
    byteSize (s ++ t) = byteSize s + byteSize t := by
  induction s with
  | nil => simp [byteSize]
  | cons c s ih => simp [byteSize, ih, Nat.add_assoc]

/-- What follows the first `n` bytes, if a character ends there. -/
def dropBytes? : Nat → Text → Option Text
  | 0, t => some t
  | _ + 1, [] => none
  | n + 1, c :: rest =>
      if c.utf8Size ≤ n + 1 then dropBytes? (n + 1 - c.utf8Size) rest else none

def takeBytes? : Nat → Text → Option Text
  | 0, _ => some []
  | _ + 1, [] => none
  | n + 1, c :: rest =>
      if c.utf8Size ≤ n + 1 then
        (takeBytes? (n + 1 - c.utf8Size) rest).map (c :: ·)
      else
        none

def cut? (t : Text) (start stop : Nat) : Option Text :=
  if start ≤ stop then (dropBytes? start t).bind (takeBytes? (stop - start)) else none

/-- The offset of the first character with a property. -/
def offset? (p : Char → Bool) : Text → Option Nat
  | [] => none
  | c :: rest => if p c then some 0 else (offset? p rest).map (c.utf8Size + ·)

theorem dropBytes?_append (s t : Text) : dropBytes? (byteSize s) (s ++ t) = some t := by
  induction s with
  | nil => simp [byteSize, dropBytes?]
  | cons c s ih =>
      have hpos : 0 < c.utf8Size := Char.utf8Size_pos c
      obtain ⟨n, hn⟩ : ∃ n, c.utf8Size + byteSize s = n + 1 :=
        ⟨c.utf8Size + byteSize s - 1, by omega⟩
      have hle : c.utf8Size ≤ n + 1 := by omega
      have hrest : n + 1 - c.utf8Size = byteSize s := by omega
      simp [byteSize, hn, dropBytes?, hle, hrest, ih]

theorem takeBytes?_append (s t : Text) : takeBytes? (byteSize s) (s ++ t) = some s := by
  induction s with
  | nil => simp [byteSize, takeBytes?]
  | cons c s ih =>
      have hpos : 0 < c.utf8Size := Char.utf8Size_pos c
      obtain ⟨n, hn⟩ : ∃ n, c.utf8Size + byteSize s = n + 1 :=
        ⟨c.utf8Size + byteSize s - 1, by omega⟩
      have hle : c.utf8Size ≤ n + 1 := by omega
      have hrest : n + 1 - c.utf8Size = byteSize s := by omega
      simp [byteSize, hn, takeBytes?, hle, hrest, ih]

theorem offset?_append {p : Char → Bool} {s : Text} (h : ∀ c ∈ s, p c = false) (t : Text) :
    offset? p (s ++ t) = (offset? p t).map (byteSize s + ·) := by
  induction s with
  | nil => simp [byteSize]
  | cons c s ih =>
      obtain ⟨hc, hs⟩ := List.forall_mem_cons.1 h
      simp [offset?, hc, ih hs, byteSize, Function.comp_def, Nat.add_assoc]

theorem length_lt_of_dropBytes? {t rest : Text} {n : Nat} (h : dropBytes? n t = some rest)
    (hn : n ≠ 0) : rest.length < t.length := by
  induction n, t using dropBytes?.induct with
  | case1 t => contradiction
  | case2 n => cases h
  | case3 n c t hsize ih =>
      rw [dropBytes?, if_pos hsize] at h
      by_cases hlast : n + 1 - c.utf8Size = 0
      · rw [hlast, dropBytes?] at h
        cases h
        exact Nat.lt_succ_self _
      · exact Nat.lt_succ_of_lt (ih h hlast)
  | case4 n c t hsize =>
      rw [dropBytes?, if_neg hsize] at h
      cases h

theorem cut?_append (s m t : Text) :
    cut? (s ++ (m ++ t)) (byteSize s) (byteSize s + byteSize m) = some m := by
  simp [cut?, dropBytes?_append, takeBytes?_append]

end Text

end Relata
